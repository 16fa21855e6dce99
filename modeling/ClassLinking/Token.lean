import ClassLinking.Text.Hex

/-!
# Tokens

Classes, declared methods and miranda placeholders are numbered by tokens.  A token is one 32-bit
word: the high byte says what kind of thing it numbers, the low three bytes are its row.  Rows of
one kind are handed out in increasing order, so the order of class tokens is the order of
definition.
-/

namespace ClassLinking

open Text

/-- A 32-bit number of a class, a method or a placeholder. -/
structure Token where
  value : UInt32
  deriving DecidableEq, Inhabited

namespace Token

/-- The kind byte of classes and interfaces. -/
def classKind : UInt8 := 0x01

/-- The kind byte of declared methods. -/
def methodKind : UInt8 := 0x02

/-- The kind byte of miranda placeholders. -/
def mirandaKind : UInt8 := 0x03

/-- The token of a kind and a row; a row keeps its low 24 bits. -/
def ofParts (kind : UInt8) (row : UInt32) : Token :=
  ⟨kind.toUInt32 <<< 24 ||| row &&& 0x00FFFFFF⟩

/-- What the token numbers. -/
def kind (t : Token) : UInt8 := (t.value >>> 24).toUInt8

/-- The row among the tokens of its kind. -/
def row (t : Token) : UInt32 := t.value &&& 0x00FFFFFF

/-- The null token numbers nothing. -/
def isNull (t : Token) : Bool := t.value == 0

/-- A token is written as eight hexadecimal digits. -/
def text (t : Token) : String := "0x" ++ hex 8 t.value.toNat

/-- A token with its parts spelled out. -/
def describe (t : Token) : String :=
  "Token(" ++ t.text ++ ", kind: 0x" ++ hex 2 t.kind.toNat ++ ", row: " ++ toString t.row.toNat ++
    ")"

/-- The tokens of a list in increasing order, each once. -/
def sorted (ts : List Token) : List Token :=
  (ts.mergeSort fun a b => decide (a.value ≤ b.value)).eraseReps

end Token
end ClassLinking
