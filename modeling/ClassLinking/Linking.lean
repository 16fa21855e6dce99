import ClassLinking.ITable.Build
import ClassLinking.VTable.Build

/-!
# Linking

A class is linked when its two tables are installed.  Its superclass and its local interfaces are
linked first, and theirs before them; the configuration limits how many of them may stand one above
the other.  A class whose tables cannot be built stays unlinked, whatever became of its supertypes.

A batch of classes is linked level by level.  The level of a class is the height of the unlinked
supertypes above it, so that the classes of one level do not depend on each other.  All classes of a
level are tried; if one of them fails, the later levels are not started.
-/

namespace ClassLinking
namespace Linker

/-- Whether a class has its tables. -/
def isLinked (l : Linker) (c : ClassId) : Bool := (l.store.getClass c).isLinked

/-- The record of a class that was linked. -/
def linkedRecord (k : Class) (vtableLength : Nat) : Diagnostic :=
  { severity := .info, category := .general, message := "linked", className := k.name
    index := vtableLength, flags := k.flags.describe }

/-- Count the tables of a class, which has none, and install them. -/
def install (c : ClassId) (t : Tables) : LinkM Unit := do
  modify fun l => { l with
    statistics := l.statistics.recordClass t.vtable.length t.mirandas.length t.itable.words }
  let l ← get
  let k := l.store.getClass c
  LinkM.trace (l.config.traceVTables || l.config.traceITables) (linkedRecord k t.vtable.length)
  if k.isLinked then throw (.alreadyLinked k.name)
  modify fun l => l.mapStore fun s => s.modifyClass c fun k => { k with tables := some t }

/-- Build and install the tables of a class whose supertypes are linked. -/
def buildTables (c : ClassId) : LinkM Unit := do
  let l ← get
  let size ← LinkM.ofExcept (l.store.vtableSize l.config c)
  let layout ← buildVTable c size
  let itable ← buildITable c
  install c
    { vtable := layout.table, defaultSlots := layout.defaultSlots, mirandas := layout.mirandas
      itable }

/-- Link a class unless it is linked, its supertypes first.  The budget is the number of classes
that may stand one above the other from here on. -/
def linkWithin : (budget : Nat) → ClassId → LinkM Unit
  | 0, _ => do throw (.hierarchyTooDeep (← get).config.maxHierarchyDepth)
  | budget + 1, c => do
    let l ← get
    if l.isLinked c then return ()
    let k := l.store.getClass c
    (k.superclass?.toList ++ k.localInterfaces).forM (linkWithin budget)
    if (← get).isLinked c then return ()
    buildTables c

/-- Link a class unless it is linked, within the depth that the configuration allows. -/
def ensureLinked (c : ClassId) : LinkM Unit := do
  linkWithin ((← get).config.maxHierarchyDepth + 1) c

/-- Link a class that is not linked.  A failure is recorded. -/
def link (c : ClassId) : LinkM Unit := do
  let l ← get
  let name := (l.store.getClass c).name
  if l.isLinked c then throw (.alreadyLinked name)
  match ← LinkM.attempt (ensureLinked c) with
  | .ok () => return ()
  | .error e =>
    modify fun l => { l with
      diagnostics := l.diagnostics.report .error .general
        ("linking " ++ name ++ " failed: " ++ e.text) }
    throw e

/-- The heights computed so far, by class token. -/
abbrev Heights := List (Token × Nat)

/-- The height of the unlinked supertypes above a class.  The budget is the number of classes that
may stand one above the other from here on. -/
def heightWithin (s : Store) (max : Nat) :
    (budget : Nat) → ClassId → EStateM LinkError Heights Nat
  | 0, _ => throw (.hierarchyTooDeep max)
  | budget + 1, c => do
    let k := s.getClass c
    match (← get).lookup k.token with
    | some height => return height
    | none =>
      let unlinked :=
        (k.superclass?.toList ++ k.localInterfaces).filter fun p => !(s.getClass p).isLinked
      let heights ← unlinked.mapM (heightWithin s max budget)
      let height := heights.foldl (fun height h => Nat.max height (h + 1)) 0
      modify ((k.token, height) :: ·)
      return height

/-- The unlinked classes of a batch with their levels, each token once. -/
def scheduleFrom (s : Store) (max : Nat) : (scheduled : List Token) → List ClassId →
    EStateM LinkError Heights (List (ClassId × Nat))
  | _, [] => return []
  | scheduled, c :: rest => do
    let k := s.getClass c
    if k.isLinked || scheduled.contains k.token then scheduleFrom s max scheduled rest
    else
      let height ← heightWithin s max (max + 1) c
      let later ← scheduleFrom s max (k.token :: scheduled) rest
      return (c, height) :: later

/-- The levels of a batch, lowest first, each in the order of the batch. -/
def levels (schedule : List (ClassId × Nat)) : List (List ClassId) :=
  let count := schedule.foldl (fun n entry => Nat.max n (entry.2 + 1)) 0
  (List.range count).map fun level => (schedule.filter (·.2 = level)).map (·.1)

/-- Try to link every class of a level; the answer is the first failure. -/
def linkLevel : List ClassId → LinkM (Option LinkError)
  | [] => return none
  | c :: rest => do
    let outcome ← LinkM.attempt (ensureLinked c)
    let later ← linkLevel rest
    match outcome with
    | .ok () => return later
    | .error e => return some e

/-- Link levels in order up to the first one that fails; the answer is the number of classes. -/
def linkLevels : List (List ClassId) → LinkM Nat
  | [] => return 0
  | level :: rest => do
    match ← linkLevel level with
    | some e => throw e
    | none => return level.length + (← linkLevels rest)

/-- Link every unlinked class of a batch; the answer is how many there were. -/
def linkAll (batch : List ClassId) : LinkM Nat := do
  let l ← get
  match (scheduleFrom l.store l.config.maxHierarchyDepth [] batch).run [] with
  | .error e _ => throw e
  | .ok schedule _ => linkLevels (levels schedule)

end Linker
end ClassLinking
