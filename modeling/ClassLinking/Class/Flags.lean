import ClassLinking.Text.FlagSet

/-!
# Class flags, loaders and packages

Two classes belong to the same runtime package only if their names agree up to the last `/` and the
same loader defined them.
-/

namespace ClassLinking

open Text

/-- The access flags of a class or interface. -/
structure ClassFlags where
  isPublic : Bool := false
  isFinal : Bool := false
  isInterface : Bool := false
  isAbstract : Bool := false
  isSynthetic : Bool := false
  deriving DecidableEq, Inhabited

namespace ClassFlags

/-- The class flags in a raw access word. -/
def ofWord (word : UInt32) : ClassFlags where
  isPublic := hasBits word 0x1
  isFinal := hasBits word 0x10
  isInterface := hasBits word 0x200
  isAbstract := hasBits word 0x400
  isSynthetic := hasBits word 0x1000

/-- The class flags in order of declaration. -/
def flags (c : ClassFlags) : List Flag :=
  [⟨"PUBLIC", 0x1, c.isPublic⟩, ⟨"FINAL", 0x10, c.isFinal⟩,
   ⟨"INTERFACE", 0x200, c.isInterface⟩, ⟨"ABSTRACT", 0x400, c.isAbstract⟩,
   ⟨"SYNTHETIC", 0x1000, c.isSynthetic⟩]

/-- The class word. -/
def word (c : ClassFlags) : Nat := Flag.word c.flags

/-- The class flags by name. -/
def describe (c : ClassFlags) : String := Flag.describe "ClassFlags" c.flags

/-- The flags with `PUBLIC` set. -/
def makePublic (c : ClassFlags) : ClassFlags := { c with isPublic := true }

/-- The flags with `FINAL` set. -/
def makeFinal (c : ClassFlags) : ClassFlags := { c with isFinal := true }

/-- The flags with `ABSTRACT` set. -/
def makeAbstract (c : ClassFlags) : ClassFlags := { c with isAbstract := true }

/-- The flags of an interface, which is always abstract. -/
def makeInterface (c : ClassFlags) : ClassFlags :=
  { c with isInterface := true, isAbstract := true }

end ClassFlags

/-- The identity of a class loader. -/
structure LoaderId where
  number : Nat
  deriving DecidableEq, Inhabited

namespace LoaderId

/-- The loader of the root class and the core library. -/
def bootstrap : LoaderId := ⟨0⟩

/-- Whether this is the bootstrap loader. -/
def isBootstrap (l : LoaderId) : Bool := l == bootstrap

/-- A loader as it is named in messages. -/
def text (l : LoaderId) : String :=
  if l.isBootstrap then "'bootstrap'" else "'loader#" ++ toString l.number ++ "'"

end LoaderId

/-- The package of an internal class name: what stands before its last `/`, and nothing if there is
none. -/
def packageOf (className : String) : String :=
  String.ofList ((className.toList.reverse.dropWhile (· ≠ '/')).drop 1).reverse

end ClassLinking
