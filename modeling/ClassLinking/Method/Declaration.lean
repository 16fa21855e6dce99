import ClassLinking.Method.Basic

/-!
# Method declarations

A declaration is what a class definition or a redefinition lists: a selector, a raw access word and
a body.  It starts package-private without modifiers; setting an access level replaces the one
before, setting a modifier adds to those before.
-/

namespace ClassLinking

/-- A method to be declared. -/
structure Declaration where
  selector : Selector
  word : UInt32 := 0
  code : List UInt8 := []
  deriving DecidableEq, Inhabited

namespace Declaration

/-- Replace the access level, which is the low three bits of the word. -/
def withAccess (d : Declaration) (access : UInt32) : Declaration :=
  { d with word := d.word &&& ~~~(0x7 : UInt32) ||| access }

/-- Add the modifier bits of `mask`. -/
def withModifier (d : Declaration) (mask : UInt32) : Declaration :=
  { d with word := d.word ||| mask }

/-- Make the method public. -/
def makePublic (d : Declaration) : Declaration := d.withAccess 0x1

/-- Make the method private. -/
def makePrivate (d : Declaration) : Declaration := d.withAccess 0x2

/-- Make the method protected. -/
def makeProtected (d : Declaration) : Declaration := d.withAccess 0x4

/-- Make the method package-private. -/
def makePackagePrivate (d : Declaration) : Declaration := d.withAccess 0

/-- Make the method static. -/
def makeStatic (d : Declaration) : Declaration := d.withModifier 0x8

/-- Make the method final. -/
def makeFinal (d : Declaration) : Declaration := d.withModifier 0x10

/-- Make the method native. -/
def makeNative (d : Declaration) : Declaration := d.withModifier 0x100

/-- Make the method abstract. -/
def makeAbstract (d : Declaration) : Declaration := d.withModifier 0x400

/-- Make the method an overpass, which is synthetic as well. -/
def makeOverpass (d : Declaration) : Declaration := d.withModifier (0x10000 ||| 0x1000)

/-- The body that this declaration stands for. -/
def toMethod (d : Declaration) (token : Token) (idnum : Nat) : Method :=
  .fresh token idnum d.selector d.word d.code

end Declaration
end ClassLinking
