import ClassLinking.Override
import ClassLinking.VTable.Event

/-!
# Filling a virtual table

The table starts as the superclass's table with empty slots behind it.  Every declared method, in
order of declaration, and then every inherited default is *placed*: it takes over each inherited
slot that it overrides, and if it still needs a slot of its own it is appended behind the slots in
use.

Placing looks at the inherited slots one after the other.  A slot with the selector of the method is
taken over if the access rules say so, or, for a slot whose occupant is out of reach, if an ancestor
of the occupant's holder has something in the same slot that is overridden.  A default method takes
every slot of its selector.

The pass reads the store and leaves it alone.  What it decides about dispatch indices is kept in a
list, so that a pass that fails half-way still says how far it came.
-/

namespace ClassLinking

/-- What filling needs to know besides the class: the store, whether overriding is transitive, and
the first class name of a descriptor that two loaders disagree about. -/
structure FillEnv where
  store : Store
  transitive : Bool
  conflict? : String → LoaderId → LoaderId → Option String

/-- A table in the course of being filled. -/
structure Fill where
  slots : Array (Option MethodId)
  /-- The slots in use: the inherited ones and those appended. -/
  used : Nat
  /-- The dispatch indices given so far, oldest first. -/
  indices : Array (MethodId × DispatchIndex) := #[]
  /-- What happened so far, oldest first. -/
  events : Array VTableEvent := #[]
  deriving DecidableEq, Inhabited

/-- A step of filling; a failed step keeps what was done before. -/
abbrev FillM := EStateM LinkError Fill

/-- A method looking for its place, with the loader and the name of the class it belongs to. -/
structure Placement where
  method : MethodId
  isDefault : Bool
  loader : LoaderId
  className : String
  deriving DecidableEq, Inhabited

/-- Where a method went: the inherited slots it took over, in order, and whether it is to get a slot
of its own. -/
structure Placed where
  taken : List Nat
  needsSlot : Bool
  deriving DecidableEq, Inhabited

namespace FillM

/-- Note an event. -/
def note (e : VTableEvent) : FillM Unit :=
  modify fun f => { f with events := f.events.push e }

/-- Give a method its dispatch index. -/
def setIndex (m : MethodId) (index : DispatchIndex) : FillM Unit :=
  modify fun f => { f with indices := f.indices.push (m, index) }

/-- Put a method into an existing slot. -/
def setSlot (slot : Nat) (m : MethodId) : FillM Unit :=
  modify fun f => { f with slots := f.slots.setIfInBounds slot (some m) }

/-- Put a method into the first slot that is not in use. -/
def append (className : String) (m : MethodId) : FillM Nat := fun f =>
  if f.used < f.slots.size then
    .ok f.used { f with slots := f.slots.setIfInBounds f.used (some m), used := f.used + 1 }
  else .error (.inconsistent (.vtableOverflow className f.slots.size)) f

end FillM

namespace FillEnv

open FillM

/-- The class whose occupant of `slot` the method overrides, if it overrides one: the holder of the
slot's own occupant, or of what an ancestor has in the slot. -/
def overridden? (env : FillEnv) (p : Placement) (slot : Nat) (occupant : MethodId)
    (holder : ClassId) : FillM (Option ClassId) :=
  let s := env.store
  if p.isDefault || s.isOverridable occupant p.loader p.className then return some holder
  else if env.transitive && !(s.getMethod occupant).access.isPrivate then do
    match s.transitivelyOverridden? (s.selector p.method) slot p.loader p.className
        (s.getClass holder).ancestors with
    | .error e => throw e
    | .ok none => return none
    | .ok (some m) =>
      note (.transitive p.className m slot)
      return s.holder? m
  else return none

/-- Take a slot over from its occupant, unless the two loaders disagree about a class of the
descriptor. -/
def takeOver (env : FillEnv) (c : ClassId) (p : Placement) (slot : Nat) (occupant : MethodId)
    (owner : ClassId) : FillM Unit := do
  let s := env.store
  let sel := s.selector p.method
  let other := (s.getClass owner).loader
  match env.conflict? sel.descriptor p.loader other with
  | some typeName =>
    note (.conflict p.method occupant)
    throw (.loaderConstraint (s.getClass c).name sel typeName p.loader other)
  | none =>
    setSlot slot p.method
    if !p.isDefault then setIndex p.method (.virtual slot)
    note (.overriding p.method slot)

/-- Let a method meet an inherited slot; the answer is whether it took the slot over.  Empty slots,
slots of other selectors and slots whose occupant has no holder are passed by. -/
def meetSlot (env : FillEnv) (c : ClassId) (p : Placement) (slot : Nat) : FillM Bool := do
  let s := env.store
  match (← get).slots[slot]?.join with
  | none => return false
  | some occupant =>
    if s.selector occupant ≠ s.selector p.method then return false
    else
      match s.holder? occupant with
      | none => return false
      | some holder =>
        match ← env.overridden? p slot occupant holder with
        | none =>
          note (.notOverriding occupant slot)
          return false
        | some owner =>
          env.takeOver c p slot occupant owner
          return true

/-- Let a method meet the given slots in order; the answer lists those it took over. -/
def meetSlots (env : FillEnv) (c : ClassId) (p : Placement) : List Nat → FillM (List Nat)
  | [] => return []
  | slot :: rest => do
    let took ← env.meetSlot c p slot
    let taken ← env.meetSlots c p rest
    return if took then slot :: taken else taken

/-- The method as a placement: it belongs to its holder, or to the class being filled if it has
none. -/
def placement (env : FillEnv) (c : ClassId) (m : MethodId) (isDefault : Bool) : Placement :=
  let k := env.store.getClass ((env.store.holder? m).getD c)
  ⟨m, isDefault, k.loader, k.name⟩

/-- Place a method over the inherited slots of the class `c`, which are the first `inherited` ones.
A method that is not dispatched dynamically is marked so and goes nowhere.  In an interface no
method gets a slot of its own; it waits for its index in interface tables. -/
def place (env : FillEnv) (c : ClassId) (inherited : Nat) (m : MethodId) (isDefault : Bool) :
    FillM Placed := do
  let s := env.store
  let k := s.getClass c
  let x := s.getMethod m
  let isFinal := s.isFinalMethod m k.flags
  if !isDefault then setIndex m .nonVirtual
  if x.isBoundStatically then return ⟨[], false⟩
  if !isFinal && k.isInterface && !isDefault then setIndex m .unassigned
  let mayNeedSlot := !isFinal && !k.isInterface
  match k.superclass? with
  | none => return ⟨[], mayNeedSlot⟩
  | some _ =>
    let taken ← env.meetSlots c (env.placement c m isDefault) (List.range inherited)
    return ⟨taken, mayNeedSlot && (x.access.isPackagePrivate || taken.isEmpty)⟩

/-- Place a declared method. -/
def placeDeclared (env : FillEnv) (c : ClassId) (inherited : Nat) (m : MethodId) : FillM Unit := do
  let placed ← env.place c inherited m false
  if placed.needsSlot then
    let slot ← append (env.store.getClass c).name m
    setIndex m (.virtual slot)
    note (.added m slot)

/-- Place an inherited default method; the answer is its slot, the last one if it took several.  One
that got no slot is listed at slot zero. -/
def placeDefault (env : FillEnv) (c : ClassId) (inherited : Nat) (m : MethodId) : FillM Nat := do
  let placed ← env.place c inherited m true
  if placed.needsSlot then
    let slot ← append (env.store.getClass c).name m
    note (.addedDefault m slot)
    return slot
  else return placed.taken.getLast?.getD 0

/-- Place declared methods in order. -/
def placeAllDeclared (env : FillEnv) (c : ClassId) (inherited : Nat) : List MethodId → FillM Unit
  | [] => return ()
  | m :: ms => do
    env.placeDeclared c inherited m
    env.placeAllDeclared c inherited ms

/-- Place default methods in order; the answer lists their slots. -/
def placeAllDefaults (env : FillEnv) (c : ClassId) (inherited : Nat) :
    List MethodId → FillM (List Nat)
  | [] => return []
  | m :: ms => do
    let slot ← env.placeDefault c inherited m
    let slots ← env.placeAllDefaults c inherited ms
    return slot :: slots

/-- Place everything that the class declares and the defaults it inherits; the answer lists the
slots of the defaults. -/
def placeAll (env : FillEnv) (c : ClassId) (inherited : Nat) : FillM (List Nat) := do
  let k := env.store.getClass c
  env.placeAllDeclared c inherited k.methods
  env.placeAllDefaults c inherited k.defaults

end FillEnv
end ClassLinking
