/-!
# Words of flags

A set of flags has two written forms: the word whose bits are the flags that are set, and a text
that names them.  A type of flags describes itself by its `Flag`s in order of declaration, and both
forms are read off that description.
-/

namespace ClassLinking
namespace Text

/-- One flag of a set: its name, the bit it takes in the word, and whether it is set. -/
structure Flag where
  name : String
  bit : Nat
  isSet : Bool
  deriving DecidableEq, Inhabited

namespace Flag

/-- The word of a set of flags: the sum of the bits that are set. -/
def word : List Flag → Nat
  | [] => 0
  | f :: fs => (if f.isSet then f.bit else 0) + word fs

/-- The names of the flags that are set, in order of declaration. -/
def names (fs : List Flag) : List String := (fs.filter isSet).map name

/-- The text of a set of flags of type `typeName`: the names between bars, and a zero word when no
flag is set. -/
def describe (typeName : String) (fs : List Flag) : String :=
  let inner := if (names fs).isEmpty then "0x0" else " | ".intercalate (names fs)
  typeName ++ "(" ++ inner ++ ")"

end Flag

/-- Whether any of the bits of `mask` is set in `word`. -/
def hasBits (word mask : UInt32) : Bool := word &&& mask != 0

end Text
end ClassLinking
