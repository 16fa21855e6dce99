/-!
# Numbers of fixed width

Tokens and bit patterns are written with a fixed number of lower-case hexadecimal digits, leading
zeros included, so that two of them can be compared by eye and by text.  Table listings right-align
a decimal index in a column of fixed width.

Both are total functions of the number and the width; a number too large for its hexadecimal width
keeps its low digits only, a number too wide for its column keeps all of them.
-/

namespace ClassLinking
namespace Text

/-- The lowest `width` hexadecimal digits of `n`, most significant first. -/
def hexDigits : (width n : Nat) → List Char
  | 0, _ => []
  | width + 1, n => hexDigits width (n / 16) ++ [Nat.digitChar (n % 16)]

/-- `hexDigits` as a string. -/
def hex (width n : Nat) : String := String.ofList (hexDigits width n)

/-- `n` in decimal, right-aligned in a column of `width` characters. -/
def alignRight (width n : Nat) : String :=
  String.ofList (List.leftpad width ' ' (toString n).toList)

end Text
end ClassLinking
