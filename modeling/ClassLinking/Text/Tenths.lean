/-!
# One decimal place

A nonnegative binary floating-point number is `m * 2 ^ e` for natural `m` and an integer `e`, and
its text with one decimal place is the nearest multiple of a tenth to that exact value; a value half
way between two of them goes to the even one.  Everything here is natural-number arithmetic on the
decoded value, so no second rounding can creep in.
-/

namespace ClassLinking
namespace Text

/-- The quotient `num / den` rounded to the nearest natural number, a half to the even one. -/
def roundDiv (num den : Nat) : Nat :=
  let q := num / den
  let r := num % den
  if 2 * r < den then q
  else if den < 2 * r then q + 1
  else if q % 2 = 0 then q
  else q + 1

/-- A nonnegative binary fraction `mantissa * 2 ^ exponent / 2 ^ 1074`.  Every finite nonnegative
double has this form. -/
structure BinaryFraction where
  mantissa : Nat
  exponent : Nat
  deriving DecidableEq, Inhabited

namespace BinaryFraction

/-- The value of a finite nonnegative double, decoded from its bits. -/
def ofBits (bits : UInt64) : BinaryFraction :=
  let field := bits.toNat / Nat.pow 2 52 % Nat.pow 2 11
  let fraction := bits.toNat % Nat.pow 2 52
  if field = 0 then ⟨fraction, 0⟩ else ⟨Nat.pow 2 52 + fraction, field - 1⟩

/-- The number of tenths nearest to the value. -/
def tenths (x : BinaryFraction) : Nat :=
  roundDiv (10 * x.mantissa * Nat.pow 2 x.exponent) (Nat.pow 2 1074)

end BinaryFraction

/-- The text of `n` tenths. -/
def tenthsText (n : Nat) : String := toString (n / 10) ++ "." ++ toString (n % 10)

/-- A finite nonnegative double with one decimal place. -/
def oneDecimal (x : Float) : String := tenthsText (BinaryFraction.ofBits x.toBits).tenths

end Text
end ClassLinking
