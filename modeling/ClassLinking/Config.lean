/-!
# Configuration of a linker

What a linker checks, what it records and how deep a hierarchy it follows.  The presets differ from
the strict one in a few fields each.
-/

namespace ClassLinking

/-- The settings of a linker. -/
structure Config where
  /-- Refuse an override or a binding whose two loaders disagree about a class of the signature. -/
  checkLoaderConstraints : Bool
  /-- Let a method override a package-private one through an inaccessible declaration between. -/
  transitiveOverrides : Bool
  /-- The length that the root class's virtual table must have, if one is required. -/
  baseVTableLength : Option Nat
  /-- Verify every finished virtual table. -/
  verifyTables : Bool
  /-- Record the steps of building virtual tables. -/
  traceVTables : Bool
  /-- Record the steps of building interface tables. -/
  traceITables : Bool
  /-- Record the steps of redefinition. -/
  traceRedefinition : Bool
  /-- How many supertypes may be linked one inside the other. -/
  maxHierarchyDepth : Nat
  deriving DecidableEq

namespace Config

/-- Everything is checked, nothing is traced. -/
def strict : Config where
  checkLoaderConstraints := true
  transitiveOverrides := true
  baseVTableLength := some 5
  verifyTables := true
  traceVTables := false
  traceITables := false
  traceRedefinition := false
  maxHierarchyDepth := 256

/-- Nothing is checked that can be left out. -/
def minimal : Config :=
  { strict with checkLoaderConstraints := false, baseVTableLength := none, verifyTables := false }

/-- Finished tables are trusted. -/
def production : Config := { strict with verifyTables := false }

/-- Everything is checked and everything is traced. -/
def diagnostic : Config :=
  { strict with traceVTables := true, traceITables := true, traceRedefinition := true }

instance : Inhabited Config := ⟨strict⟩

end Config
end ClassLinking
