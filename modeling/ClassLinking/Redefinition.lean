import ClassLinking.Adjustment

/-!
# Redefining a class

A redefinition gives a linked class a complete new list of methods.  New methods are matched to the
declared ones by selector and keep their ordinals and dispatch indices; the access level and
staticness of a method may not change, and no virtual method may come or go.  Everything is checked
and every table of every class is planned before anything changes.

Afterwards a replaced body is old if its replacement has the same code and obsolete otherwise; a
removed one is deleted.
-/

namespace ClassLinking

/-- What a redefinition did. -/
structure RedefinitionReport where
  className : String
  /-- Bodies replaced by the same code. -/
  old : Nat
  /-- Bodies replaced by other code. -/
  obsolete : Nat
  /-- Methods removed. -/
  deleted : Nat
  /-- Methods added. -/
  added : Nat
  /-- Table entries adjusted, in all classes. -/
  entriesAdjusted : Nat
  deriving DecidableEq, Inhabited

/-- A new body and the declared method that it replaces, if it replaces one. -/
structure RevisedMethod where
  body : Method
  previous : Option MethodId
  deriving DecidableEq, Inhabited

/-- A class with its new list of methods, before anything is installed. -/
structure RevisedClass where
  holder : ClassId
  /-- The new methods with their identities, in order of declaration. -/
  methods : List (MethodId × RevisedMethod)
  /-- The declared methods without a new body. -/
  removed : List MethodId
  deriving DecidableEq, Inhabited

namespace Method

/-- Whether a method added to a class with the given flags would need a place in its tables. -/
def wouldBeVirtual (x : Method) (flags : ClassFlags) : Bool :=
  !x.isBoundStatically && (x.modifiers.isOverpass || !(x.modifiers.isFinal || flags.isFinal))

end Method

namespace Store

/-- The first ordinal above those of the declared methods of a class. -/
def nextIdnum (s : Store) (c : ClassId) : Nat :=
  (s.getClass c).methods.foldl (fun n m => Nat.max n ((s.getMethod m).idnum + 1)) 0

/-- The declared methods of a class of which none of the given bodies has the selector. -/
def withoutBody (s : Store) (c : ClassId) (bodies : List Method) : List MethodId :=
  (s.getClass c).methods.filter fun m => !bodies.any fun x => x.selector = s.selector m

/-- Whether a method was given a place in tables. -/
def isDispatched (s : Store) (m : MethodId) : Bool :=
  let index := (s.getMethod m).dispatch
  index.virtualSlot?.isSome || index.interfaceEntry?.isSome

end Store

namespace RevisedClass

/-- The declared methods of the new list. -/
def declared (r : RevisedClass) : List MethodId := r.methods.map (·.1)

/-- The new body that takes the place of `old`: the first one with its ordinal and its selector. -/
def counterpart? (r : RevisedClass) (s : Store) (old : MethodId) : Option MethodId :=
  let x := s.getMethod old
  (r.methods.find? fun m => m.2.body.idnum = x.idnum && m.2.body.selector = x.selector).map (·.1)

/-- The replaced methods with their revisions, in order of declaration. -/
def revisions (r : RevisedClass) (s : Store) : List (MethodId × Revision) :=
  r.methods.filterMap fun m => m.2.previous.map fun old =>
    (old, if (s.getMethod old).code = m.2.body.code then .old else .obsolete)

/-- Plan the tables of the given classes; only those with something to adjust are kept. -/
def plan (r : RevisedClass) (s : Store) :
    List ClassId → Except LinkError (List (ClassId × TableAdjustments))
  | [] => .ok []
  | c :: rest => do
    let replaced := (s.getClass r.holder).methods
    let a ← s.planAdjustments c r.holder replaced.contains (r.counterpart? s)
    let later ← r.plan s rest
    return if a.isEmpty then later else (c, a) :: later

/-- The store with the new methods declared and the replaced ones marked. -/
def install (r : RevisedClass) (s : Store) : Store :=
  let marks := r.revisions s ++ r.removed.map fun m => (m, .deleted)
  let s := s.addMethods (r.methods.map (·.2.body))
  let s := s.modifyClass r.holder fun k => { k with methods := r.declared }
  marks.foldl (fun s (m, revision) => s.setRevision m revision) s

/-- What the redefinition did, given how many entries it adjusted. -/
def report (r : RevisedClass) (s : Store) (entriesAdjusted : Nat) : RedefinitionReport where
  className := (s.getClass r.holder).name
  old := ((r.revisions s).filter (·.2 = .old)).length
  obsolete := ((r.revisions s).filter (·.2 = .obsolete)).length
  deleted := r.removed.length
  added := (r.methods.filter (·.2.previous.isNone)).length
  entriesAdjusted := entriesAdjusted

end RevisedClass

namespace Linker

/-- Take the token of the next method. -/
def takeMethodToken : LinkM Token := fun l =>
  .ok (l.registry.methodToken 0) { l with registry := l.registry.takeMethodTokens 1 }

/-- Match one new declaration to the declared methods of `holder`; `next` is the ordinal for an
added method. -/
def reviseOne (holder : ClassId) (next : Nat) (d : Declaration) : LinkM RevisedMethod := do
  let s := (← get).store
  let k := s.getClass holder
  let incompatible (fault : RedefinitionFault) : LinkError := .incompatibleRedefinition k.name fault
  match s.declared? holder d.selector .all with
  | some previous =>
    let old := s.getMethod previous
    let body := d.toMethod (← takeMethodToken) old.idnum
    if body.access ≠ old.access || body.modifiers.isStatic != old.modifiers.isStatic then
      throw (incompatible (.changesModifiers (s.displayName previous)))
    return ⟨{ body with dispatch := old.dispatch, holder := some holder }, some previous⟩
  | none =>
    if maxIdnum < next then throw (incompatible (.noIdnumLeft d.selector))
    let body := d.toMethod (← takeMethodToken) next
    if body.wouldBeVirtual k.flags then throw (incompatible (.addsVirtual d.selector))
    return ⟨{ body with dispatch := .nonVirtual, holder := some holder }, none⟩
where
  /-- The highest ordinal of sixteen bits. -/
  maxIdnum : Nat := Nat.pow 2 16 - 1

/-- Match the new declarations in order.  No selector may be declared twice. -/
def reviseAll (holder : ClassId) : (next : Nat) → (done : List Selector) → List Declaration →
    LinkM (List RevisedMethod)
  | _, _, [] => return []
  | next, done, d :: rest => do
    if done.contains d.selector then
      let name := ((← get).store.getClass holder).name
      throw (.incompatibleRedefinition name (.declaredTwice d.selector))
    let m ← reviseOne holder next d
    let next := if m.previous.isSome then next else next + 1
    return m :: (← reviseAll holder next (d.selector :: done) rest)

/-- Match a new list of methods to the declared methods of `holder`.  No method that has a place in
tables may be left out. -/
def revise (holder : ClassId) (ds : List Declaration) : LinkM RevisedClass := do
  let s := (← get).store
  let revised ← reviseAll holder (s.nextIdnum holder) [] ds
  let removed := s.withoutBody holder (revised.map (·.body))
  match removed.find? s.isDispatched with
  | some m =>
    throw (.incompatibleRedefinition (s.getClass holder).name (.removesVirtual (s.selector m)))
  | none => return ⟨holder, (s.nextMethods revised.length).zip revised, removed⟩

/-- Apply plans in order, each followed by a check of the tables it was for.  All of them are tried;
the answer is the number of entries adjusted and the first failure. -/
def applyPlans : List (ClassId × TableAdjustments) → LinkM (Nat × Option LinkError)
  | [] => return (0, none)
  | (c, a) :: rest => do
    let outcome ← LinkM.attempt (do
      let count ← applyAdjustments c a
      checkNoOldEntries c
      return count)
    let (later, failure) ← applyPlans rest
    match outcome with
    | .ok count => return (count + later, failure)
    | .error e => return (later, some e)

/-- The record of a redefinition. -/
def redefinedRecord (className : String) (entriesAdjusted : Nat) : Diagnostic :=
  { severity := .info, category := .redefinition, message := "redefined", className
    index := entriesAdjusted }

/-- Give a linked class a new list of methods. -/
def redefine (holder : ClassId) (ds : List Declaration) : LinkM RedefinitionReport := do
  let k := (← get).store.getClass holder
  if !k.isLinked then throw (.notLinked k.name)
  let revised ← revise holder ds
  let before ← get
  let plans ← LinkM.ofExcept (revised.plan before.store before.registry.all)
  modify fun l => l.mapStore revised.install
  match ← applyPlans plans with
  | (_, some e) => throw e
  | (count, none) =>
    modify fun l => { l with statistics := l.statistics.recordAdjusted count }
    LinkM.trace before.config.traceRedefinition (redefinedRecord k.name count)
    return revised.report before.store count

end Linker
end ClassLinking
