import ClassLinking.Text.Tenths

/-!
# Statistics

Counters of the work a linker has done.  Linking a class adds to the first five, redefinition to the
last one.  Interfaces own no interface table and are not counted among the classes that do.
-/

namespace ClassLinking

/-- The counters of a linker. -/
structure Statistics where
  classesLinked : Nat := 0
  vtableEntries : Nat := 0
  mirandaEntries : Nat := 0
  itableClasses : Nat := 0
  itableWords : Nat := 0
  entriesAdjusted : Nat := 0
  deriving DecidableEq, Inhabited

namespace Statistics

/-- Count a linked class by its virtual table's length, its placeholders and the size of its
interface table. -/
def recordClass (s : Statistics) (vtableLength mirandas itableWords : Nat) : Statistics :=
  { s with
    classesLinked := s.classesLinked + 1
    vtableEntries := s.vtableEntries + vtableLength
    mirandaEntries := s.mirandaEntries + mirandas
    itableClasses := s.itableClasses + (if itableWords = 0 then 0 else 1)
    itableWords := s.itableWords + itableWords }

/-- Count table entries adjusted by a redefinition. -/
def recordAdjusted (s : Statistics) (entries : Nat) : Statistics :=
  { s with entriesAdjusted := s.entriesAdjusted + entries }

/-- The average length of a virtual table, zero before the first class. -/
def averageVTableLength (s : Statistics) : Float :=
  if s.classesLinked = 0 then 0.0
  else s.vtableEntries.toUInt64.toFloat / s.classesLinked.toUInt64.toFloat

/-- The counters in words. -/
def text (s : Statistics) : String :=
  "Classes linked:   " ++ toString s.classesLinked
    ++ "\nVtable entries:   " ++ toString s.vtableEntries
    ++ " (avg " ++ Text.oneDecimal s.averageVTableLength ++ " per class)"
    ++ "\nMiranda entries:  " ++ toString s.mirandaEntries
    ++ "\nItables:          " ++ toString s.itableClasses ++ " classes, "
    ++ toString s.itableWords ++ " words"
    ++ "\nEntries adjusted: " ++ toString s.entriesAdjusted

end Statistics
end ClassLinking
