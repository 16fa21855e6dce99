import ClassLinking.ITable.Layout
import ClassLinking.Linker
import ClassLinking.VTable.Verify

/-!
# Adjusting tables to replaced bodies

When a class gets new bodies for its methods, the tables of every linked class may still refer to
the old ones.  Adjusting a table takes two steps.  *Planning* finds every entry that refers to a
replaced method and the body to take its place, and writes nothing; it fails if one of them has no
counterpart.  *Applying* writes a plan.  After both, no entry may refer to a replaced body.
-/

namespace ClassLinking

/-- The entries of one class's tables that are to be adjusted. -/
structure TableAdjustments where
  /-- A slot of the virtual table, its method, and the method to take its place. -/
  slots : List (Nat × MethodId × MethodId)
  /-- An entry of the interface table and the method to take its place. -/
  entries : List (Nat × MethodId)
  deriving DecidableEq, Inhabited

namespace TableAdjustments

/-- The plan that adjusts nothing. -/
def none : TableAdjustments := ⟨[], []⟩

/-- The number of entries to be adjusted. -/
def size (a : TableAdjustments) : Nat := a.slots.length + a.entries.length

/-- Whether nothing is to be adjusted. -/
def isEmpty (a : TableAdjustments) : Bool := a.slots.isEmpty && a.entries.isEmpty

end TableAdjustments

namespace Store

/-- Whether a method is declared by the class `c`, loaded or not. -/
def isHeldBy (s : Store) (m : MethodId) (c : ClassId) : Bool := (s.getMethod m).holder == some c

/-- Plan the slots of a row, counted from `slot`.  `counterpart?` says for each replaced method
which one takes its place; `isReplaced` says which methods are replaced. -/
def planSlots (s : Store) (className : String) (isReplaced : MethodId → Bool)
    (counterpart? : MethodId → Option MethodId) : (slot : Nat) → List (Option MethodId) →
    Except LinkError (List (Nat × MethodId × MethodId))
  | _, [] => .ok []
  | slot, none :: rest => s.planSlots className isReplaced counterpart? (slot + 1) rest
  | slot, some old :: rest =>
    if isReplaced old then
      match counterpart? old with
      | none => .error (.retiredMethod className (s.displayName old) .vtable slot)
      | some new => do
        let later ← s.planSlots className isReplaced counterpart? (slot + 1) rest
        return (slot, old, new) :: later
    else s.planSlots className isReplaced counterpart? (slot + 1) rest

/-- Plan the entries of a row, counted from `index`. -/
def planEntries (s : Store) (className : String) (isReplaced : MethodId → Bool)
    (counterpart? : MethodId → Option MethodId) : (index : Nat) → List ITableEntry →
    Except LinkError (List (Nat × MethodId))
  | _, [] => .ok []
  | index, .bound old :: rest =>
    if isReplaced old then
      match counterpart? old with
      | none => .error (.retiredMethod className (s.displayName old) .itable index)
      | some new => do
        let later ← s.planEntries className isReplaced counterpart? (index + 1) rest
        return (index, new) :: later
    else s.planEntries className isReplaced counterpart? (index + 1) rest
  | index, _ :: rest => s.planEntries className isReplaced counterpart? (index + 1) rest

/-- Plan the tables of `c` for replaced methods of `holder`.  An unlinked class has nothing to
plan. -/
def planAdjustments (s : Store) (c holder : ClassId) (isReplaced : MethodId → Bool)
    (counterpart? : MethodId → Option MethodId) : Except LinkError TableAdjustments :=
  let k := s.getClass c
  let isReplacedHere m := s.isHeldBy m holder && isReplaced m
  match k.tables with
  | none => .ok .none
  | some t => do
    let slots ← s.planSlots k.name isReplacedHere counterpart? 0 t.vtable.slots
    let entries ← s.planEntries k.name isReplacedHere counterpart? 0 t.itable.entries
    return ⟨slots, entries⟩

/-- The first entry of the tables of `c` that refers to a replaced body. -/
def oldEntryOf? (s : Store) (c : ClassId) : Option (TableKind × Nat × MethodId) :=
  (s.getClass c).tables.bind fun t =>
    match s.oldSlot? t.vtable with
    | some (slot, m) => some (.vtable, slot, m)
    | none => (s.oldEntry? t.itable).map fun (index, m) => (.itable, index, m)

/-- Refuse tables that refer to a replaced body. -/
def checkNoOldEntries (s : Store) (c : ClassId) : Except LinkError Unit :=
  match s.oldEntryOf? c with
  | none => .ok ()
  | some (table, index, m) =>
    .error (.retiredMethod (s.getClass c).name (s.displayName m) table index)

end Store

namespace Class

/-- The class with `new` for `old` in the list of defaults, at the first default whose slot is
`slot`, if that default is `old`. -/
def replaceDefault (k : Class) (slot : Nat) (old new : MethodId) : Class :=
  match k.defaultSlots.findIdx? (· = slot) with
  | none => k
  | some i => if k.defaults[i]? = some old then { k with defaults := k.defaults.set i new } else k

end Class

namespace Linker

/-- The record of an adjusted entry. -/
def adjustmentRecord (s : Store) (c : ClassId) (new : MethodId) (table : TableKind) (index : Nat) :
    Diagnostic :=
  { severity := .info, category := .redefinition, message := "adjust entry"
    className := (s.getClass c).name, method := s.displayName new, index, flags := table.text }

/-- Record an adjusted entry if redefinition is traced. -/
def traceAdjustment (c : ClassId) (new : MethodId) (table : TableKind) (index : Nat) :
    LinkM Unit := do
  let l ← get
  LinkM.trace l.config.traceRedefinition (adjustmentRecord l.store c new table index)

/-- Write a method into a slot of the virtual table of `c`. -/
def writeSlot (c : ClassId) (slot : Nat) (m : MethodId) : LinkM Unit := do
  match ((← get).store.getClass c).tables with
  | none => return ()
  | some t =>
    let vtable ← LinkM.ofExcept (t.vtable.put slot m)
    LinkM.modifyTables c fun t => { t with vtable }

/-- Bind an entry of the interface table of `c` to a method. -/
def writeEntry (c : ClassId) (index : Nat) (m : MethodId) : LinkM Unit := do
  match ((← get).store.getClass c).tables with
  | none => return ()
  | some t =>
    let itable ← LinkM.ofExcept (t.itable.put index (.bound m))
    LinkM.modifyTables c fun t => { t with itable }

/-- Replace a default method of `c` at the slot that was recorded for it. -/
def replaceDefault (c : ClassId) (slot : Nat) (old new : MethodId) : LinkM Unit :=
  modify fun l => l.mapStore fun s => s.modifyClass c fun k => k.replaceDefault slot old new

/-- Write planned slots into the virtual table of `c`. -/
def applySlots (c : ClassId) : List (Nat × MethodId × MethodId) → LinkM Unit
  | [] => return ()
  | (slot, old, new) :: rest => do
    writeSlot c slot new
    if (← get).store.isDefault old then replaceDefault c slot old new
    traceAdjustment c new .vtable slot
    applySlots c rest

/-- Write planned entries into the interface table of `c`. -/
def applyEntries (c : ClassId) : List (Nat × MethodId) → LinkM Unit
  | [] => return ()
  | (index, new) :: rest => do
    writeEntry c index new
    traceAdjustment c new .itable index
    applyEntries c rest

/-- Write a plan into the tables of `c`; the answer is the number of entries adjusted. -/
def applyAdjustments (c : ClassId) (a : TableAdjustments) : LinkM Nat := do
  let k := (← get).store.getClass c
  if a.isEmpty then return 0
  if !k.isLinked then throw (.inconsistent (.adjustmentsForUnlinked k.name))
  applySlots c a.slots
  applyEntries c a.entries
  return a.size

/-- Refuse tables of `c` that refer to a replaced body. -/
def checkNoOldEntries (c : ClassId) : LinkM Unit := do
  LinkM.ofExcept ((← get).store.checkNoOldEntries c)

/-- The body that took the place of `old` in its holder: the declared method with its ordinal, if it
is not old itself and has the selector. -/
def currentBody? (s : Store) (holder : ClassId) (old : MethodId) : Option MethodId :=
  (s.withIdnum? holder (s.getMethod old).idnum).filter fun m =>
    !s.isOld m && s.selector m == s.selector old

/-- Adjust the tables of `c` to the methods that `holder` declares by now; the answer is the number
of entries adjusted.  Nothing is written unless every old entry has a successor. -/
def adjustEntries (c holder : ClassId) : LinkM Nat := do
  let s := (← get).store
  let plan ← LinkM.ofExcept (s.planAdjustments c holder s.isOld (currentBody? s holder))
  let count ← applyAdjustments c plan
  checkNoOldEntries c
  return count

/-- The slots of a row, counted from `slot`, that hold `m`. -/
def slotsHolding (m : MethodId) : (slot : Nat) → List (Option MethodId) → List Nat
  | _, [] => []
  | slot, x :: rest =>
    if x = some m then slot :: slotsHolding m (slot + 1) rest else slotsHolding m (slot + 1) rest

/-- The entries of a row, counted from `index`, that are bound to `m`. -/
def entriesBoundTo (m : MethodId) : (index : Nat) → List ITableEntry → List Nat
  | _, [] => []
  | index, e :: rest =>
    if e = .bound m then index :: entriesBoundTo m (index + 1) rest
    else entriesBoundTo m (index + 1) rest

/-- Replace `old` by `new` in the given slots of the virtual table of `c`. -/
def replaceSlots (c : ClassId) (old new : MethodId) : List Nat → LinkM Unit
  | [] => return ()
  | slot :: rest => do
    writeSlot c slot new
    replaceDefault c slot old new
    traceAdjustment c new .vtable slot
    replaceSlots c old new rest

/-- Replace `old` by `new` in every entry of the tables of `c` and in its defaults; the answer is
the number of entries adjusted.  Both methods must have the same holder and selector; `new` takes
over the dispatch index of `old` if it has none. -/
def replaceMethod (c : ClassId) (old new : MethodId) : LinkM Nat := do
  let s := (← get).store
  let k := s.getClass c
  let sameHolder := (s.holder? old).isSome && s.holder? old == s.holder? new
  if !sameHolder || s.selector old ≠ s.selector new then
    throw (.incompatibleRedefinition k.name
      (.cannotReplace (s.displayName new) (s.displayName old)))
  if (s.getMethod new).dispatch.isUnassigned then
    modify fun l => l.mapStore fun s => s.setDispatch new (s.getMethod old).dispatch
  match k.tables with
  | none => checkNoOldEntries c; return 0
  | some t =>
    let slots := slotsHolding old 0 t.vtable.slots
    let entries := entriesBoundTo old 0 t.itable.entries
    replaceSlots c old new slots
    applyEntries c (entries.map fun index => (index, new))
    checkNoOldEntries c
    return slots.length + entries.length

end Linker
end ClassLinking
