import ClassLinking.Linker
import ClassLinking.VTable.Fill
import ClassLinking.VTable.Size
import ClassLinking.VTable.Verify

/-!
# Building a virtual table

Building is three steps: the declared methods and the defaults are placed, the mirandas that are
left get placeholders behind them, and the finished table is verified if the configuration asks for
it.  The table is returned and not installed.
-/

namespace ClassLinking

/-- A finished virtual table and what belongs to it. -/
structure VTableLayout where
  table : VTable
  /-- The slot of each default method. -/
  defaultSlots : List Nat
  /-- The placeholders in the table that are new. -/
  mirandas : List MethodId
  deriving DecidableEq, Inhabited

namespace Linker

/-- What filling needs to know of the linker. -/
def fillEnv (l : Linker) : FillEnv where
  store := l.store
  transitive := l.config.transitiveOverrides
  conflict? := l.conflict?

/-- Take over what a pass over the table of `c` did, whether or not it failed: the dispatch indices
it gave and the steps it noted. -/
def commit (l : Linker) (c : ClassId) (f : Fill) : Linker :=
  let name := (l.store.getClass c).name
  let reported :=
    l.record (VTableEvent.diagnostics l.store l.config.traceVTables name f.events.toList)
  reported.setDispatches f.indices.toList

/-- The slots that a table of `c` starts with: the superclass's, and empty ones behind them. -/
def initialSlots (s : Store) (c : ClassId) (length : Nat) :
    Except LinkError (Array (Option MethodId)) :=
  let k := s.getClass c
  match s.inheritedLength k.superclass? with
  | .error e => .error e
  | .ok inherited =>
    if length < inherited then .error (.inconsistent (.vtableTooShort k.name))
    else .ok (s.superSlots c ++ List.replicate (length - inherited) none).toArray

/-- Run a filling pass on the table of `c` and take over what it did. -/
def runFill {α : Type} (c : ClassId) (pass : FillM α) (f : Fill) : LinkM (α × Fill) := fun l =>
  match pass f with
  | .ok a f => .ok (a, f) (l.commit c f)
  | .error e f => .error e (l.commit c f)

/-- Create the placeholder of an interface method for a slot. -/
def newPlaceholder (m : MethodId) (slot : Nat) : LinkM MethodId := fun l =>
  let token := l.registry.mirandaToken
  let id : MethodId := ⟨l.store.methods.size⟩
  .ok id { l with
    registry := l.registry.takeMirandaToken
    store := l.store.addMethods [.placeholder token (l.store.getMethod m) slot] }

/-- Append placeholders for the given interface methods to the table of `c`, whose slots in use are
the first `used` ones.  The answer is the slots and the placeholders. -/
def placeMirandas (c : ClassId) : (used : Nat) → Array (Option MethodId) → List MethodId →
    LinkM (Array (Option MethodId) × List MethodId)
  | _, slots, [] => return (slots, [])
  | used, slots, m :: ms => do
    let placeholder ← newPlaceholder m used
    let l ← get
    let name := (l.store.getClass c).name
    if slots.size ≤ used then throw (.inconsistent (.vtableOverflow name slots.size))
    LinkM.trace l.config.traceVTables (VTableEvent.diagnostic l.store name (.miranda m used))
    let (slots, placeholders) ←
      placeMirandas c (used + 1) (slots.setIfInBounds used (some placeholder)) ms
    return (slots, placeholder :: placeholders)

/-- Build the virtual table of `c` to the given size, giving its declared methods their dispatch
indices. -/
def buildVTable (c : ClassId) (size : VTableSize) : LinkM VTableLayout := do
  let env := (← get).fillEnv
  let k := env.store.getClass c
  let slots ← LinkM.ofExcept (initialSlots env.store c size.length)
  let (defaultSlots, f) ←
    runFill c (env.placeAll c size.inherited) { slots, used := size.inherited }
  let pending :=
    if k.isInterface then []
    else env.store.newMirandas k.superclass? k.methods (some k.defaults) k.localInterfaces
  let (slots, mirandas) ← placeMirandas c f.used f.slots pending
  let table : VTable := ⟨slots.toList⟩
  let l ← get
  if l.config.verifyTables then LinkM.ofExcept (l.store.verifyVTable c table)
  return ⟨table, defaultSlots, mirandas⟩

/-- The holder of the method that a declaration of `target` in the class `className` overrides in
slot `slot` of the tables above `c`, if there is one.  Finding it is recorded as a step. -/
def transitiveOverride? (c : ClassId) (target : MethodId) (slot : Nat) (loader : LoaderId)
    (className : String) : LinkM (Option ClassId) := do
  let l ← get
  let s := l.store
  let found ← LinkM.ofExcept
    (s.transitivelyOverridden? (s.selector target) slot loader className (s.getClass c).ancestors)
  match found with
  | none => return none
  | some m =>
    LinkM.trace l.config.traceVTables
      (VTableEvent.diagnostic s className (.transitive className m slot))
    return s.holder? m

end Linker
end ClassLinking
