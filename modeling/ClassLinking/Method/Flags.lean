import ClassLinking.Text.FlagSet

/-!
# Access level and modifiers of a method

A method's raw access word is split in two: the low three bits carry the access level, the rest the
modifiers.  Bits that mean nothing here are dropped.  A method without any access bit is
package-private, which is the one access level whose overriding depends on the runtime package.
-/

namespace ClassLinking

open Text

/-- The access level of a method. -/
structure Access where
  isPublic : Bool := false
  isPrivate : Bool := false
  isProtected : Bool := false
  deriving DecidableEq, Inhabited

namespace Access

/-- Explicitly public and nothing else. -/
def onlyPublic : Access := ⟨true, false, false⟩

/-- The access level in a raw access word. -/
def ofWord (word : UInt32) : Access where
  isPublic := hasBits word 0x1
  isPrivate := hasBits word 0x2
  isProtected := hasBits word 0x4

/-- No explicit access level: visible inside the runtime package only. -/
def isPackagePrivate (a : Access) : Bool := !(a.isPublic || a.isPrivate || a.isProtected)

/-- The access flags in order of declaration. -/
def flags (a : Access) : List Flag :=
  [⟨"PUBLIC", 0x1, a.isPublic⟩, ⟨"PRIVATE", 0x2, a.isPrivate⟩, ⟨"PROTECTED", 0x4, a.isProtected⟩]

/-- The access word. -/
def word (a : Access) : Nat := Flag.word a.flags

/-- The access level by its flags' names. -/
def describe (a : Access) : String := Flag.describe "MethodAccessFlags" a.flags

end Access

/-- The modifiers of a method.  Overpasses are bridge bodies made while default methods are
processed, mirandas are the placeholders that a virtual table is filled up with. -/
structure Modifiers where
  isStatic : Bool := false
  isFinal : Bool := false
  isSynchronized : Bool := false
  isBridge : Bool := false
  isNative : Bool := false
  isAbstract : Bool := false
  isSynthetic : Bool := false
  isOverpass : Bool := false
  isMiranda : Bool := false
  deriving DecidableEq, Inhabited

namespace Modifiers

/-- The modifiers in a raw access word. -/
def ofWord (word : UInt32) : Modifiers where
  isStatic := hasBits word 0x8
  isFinal := hasBits word 0x10
  isSynchronized := hasBits word 0x20
  isBridge := hasBits word 0x40
  isNative := hasBits word 0x100
  isAbstract := hasBits word 0x400
  isSynthetic := hasBits word 0x1000
  isOverpass := hasBits word 0x10000
  isMiranda := hasBits word 0x20000

/-- The modifiers of a miranda placeholder. -/
def miranda : Modifiers := { isAbstract := true, isMiranda := true }

/-- The modifier flags in order of declaration. -/
def flags (m : Modifiers) : List Flag :=
  [⟨"STATIC", 0x8, m.isStatic⟩, ⟨"FINAL", 0x10, m.isFinal⟩,
   ⟨"SYNCHRONIZED", 0x20, m.isSynchronized⟩, ⟨"BRIDGE", 0x40, m.isBridge⟩,
   ⟨"NATIVE", 0x100, m.isNative⟩, ⟨"ABSTRACT", 0x400, m.isAbstract⟩,
   ⟨"SYNTHETIC", 0x1000, m.isSynthetic⟩, ⟨"OVERPASS", 0x10000, m.isOverpass⟩,
   ⟨"MIRANDA", 0x20000, m.isMiranda⟩]

/-- The modifier word. -/
def word (m : Modifiers) : Nat := Flag.word m.flags

/-- The modifiers by their flags' names. -/
def describe (m : Modifiers) : String := Flag.describe "MethodModifiers" m.flags

end Modifiers
end ClassLinking
