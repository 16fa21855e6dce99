import ClassLinking.ITable.Layout
import ClassLinking.Store
import ClassLinking.Text.Hex

/-!
# Listings

Tables and classes as text: a heading, and one indented line for every slot or entry, with the index
right-aligned in four columns.
-/

namespace ClassLinking
namespace Store

/-- What a listing says of a method besides its name. -/
def slotMarker (s : Store) (m : MethodId) : String :=
  if (s.getMethod m).modifiers.isMiranda then " [miranda]"
  else if s.isDefault m then " [default]"
  else ""

/-- What a listing says of a slot of a virtual table. -/
def slotText (s : Store) : Option MethodId → String
  | some m => s.displayName m ++ s.slotMarker m
  | none => "<empty>"

/-- A virtual table, a line for each slot. -/
def vtableText (s : Store) (t : VTable) : String :=
  let line := fun (slot, i) => "  " ++ Text.alignRight 4 i ++ ": " ++ s.slotText slot ++ "\n"
  "vtable (length = " ++ toString t.length ++ "):\n" ++ String.join (t.slots.zipIdx.map line)

/-- What a listing says of an entry of an interface table. -/
def entryText (s : Store) : ITableEntry → String
  | .empty => "<empty>"
  | .bound m => s.displayName m
  | .inaccessible method => method ++ " [illegal access]"

/-- The lines of the block of one interface. -/
def blockText (s : Store) (t : ITable) (i : ClassId) : String :=
  let line := fun (e, index) => "    " ++ Text.alignRight 4 index ++ ": " ++ s.entryText e ++ "\n"
  "  " ++ (s.getClass i).name ++ ":\n" ++ String.join ((t.entriesFor i).zipIdx.map line)

/-- An interface table, a line for each interface and each entry. -/
def itableText (s : Store) (t : ITable) : String :=
  "itable (" ++ toString t.words ++ " words):\n" ++ String.join (t.interfaces.map (s.blockText t))

/-- A class with its identity fields on one line. -/
def describeClass (s : Store) (c : ClassId) : String :=
  let k := s.getClass c
  let parent :=
    match k.superclass? with
    | some p => "Some(\"" ++ (s.getClass p).name ++ "\")"
    | none => "None"
  "Class \x7b token: " ++ k.token.describe ++ ", name: \"" ++ k.name ++ "\", loader: LoaderId("
    ++ toString k.loader.number ++ "), flags: " ++ k.flags.describe ++ ", super: " ++ parent
    ++ ", methods: " ++ toString k.methods.length ++ ", linked: " ++ toString k.isLinked ++ " \x7d"

end Store
end ClassLinking
