import ClassLinking.ITable.Layout
import ClassLinking.Linker

/-!
# Building an interface table

For an interface, building numbers its methods.  For a class, it lays out the blocks of its linked
interfaces and binds every entry to the implementation that an interface call on the class runs: an
entry stays empty if there is none or it has no body, and refuses calls if it is not public.
-/

namespace ClassLinking

/-- A step of binding an interface table. -/
inductive ITableEvent where
  /-- The entry of the interface method `m` with a number was decided. -/
  | entry (m : MethodId) (index : Nat) (e : ITableEntry)
  /-- An implementation crosses two loaders in conflict. -/
  | conflict (target : MethodId) (interface : ClassId)
  deriving DecidableEq, Inhabited

namespace ITableEvent

/-- Whether the event is a failure, which is recorded in any case. -/
def isFailure : ITableEvent → Bool
  | conflict .. => true
  | _ => false

/-- What an entry holds, as far as it is recorded. -/
def entryText (s : Store) : ITableEntry → Option String
  | .bound m => some (s.displayName m)
  | .inaccessible method => some (method ++ " [illegal access]")
  | .empty => none

/-- The record of a step on the table of the class `className`. -/
def diagnostic (s : Store) (className : String) : ITableEvent → Diagnostic
  | entry m index e =>
    { severity := .info, category := .itable, message := "itable entry", className
      method := s.displayName m, index, flags := entryText s e }
  | conflict target interface =>
    { severity := .error, category := .loaderConstraint
      message := s.displayName target ++ " implementing " ++ (s.getClass interface).name ++ "."
        ++ (s.selector target).text ++ " in " ++ className }

/-- The records of a list of steps, with or without those that are not failures. -/
def diagnostics (s : Store) (trace : Bool) (className : String) (events : List ITableEvent) :
    List Diagnostic :=
  (events.filter fun e => trace || e.isFailure).map (diagnostic s className)

end ITableEvent

/-- A table in the course of being bound. -/
structure Binding where
  table : ITable
  /-- What happened so far, oldest first. -/
  events : Array ITableEvent := #[]
  deriving DecidableEq, Inhabited

/-- A step of binding; a failed step keeps what was done before. -/
abbrev BindM := EStateM LinkError Binding

namespace BindM

/-- Note an event. -/
def note (e : ITableEvent) : BindM Unit := modify fun b => { b with events := b.events.push e }

/-- Put an entry into the table. -/
def put (index : Nat) (e : ITableEntry) : BindM Unit := do
  match (← get).table.put index e with
  | .ok t => modify fun b => { b with table := t }
  | .error err => throw err

end BindM

namespace Store

open BindM

/-- What an interface call finds on a class, by its implementation. -/
def entryOf (s : Store) : Option MethodId → ITableEntry
  | none => .empty
  | some m =>
    let x := s.getMethod m
    if !x.access.isPublic then .inaccessible (s.displayName m)
    else if x.modifiers.isAbstract then .empty
    else .bound m

/-- Refuse an implementation whose loader and the interface's loader disagree about a class of its
descriptor. -/
def checkBinding (s : Store) (conflict? : String → LoaderId → LoaderId → Option String)
    (c interface : ClassId) (target : MethodId) : BindM Unit := do
  match s.holder? target with
  | none => return ()
  | some holder =>
    let sel := s.selector target
    let loader := (s.getClass holder).loader
    let other := (s.getClass interface).loader
    match conflict? sel.descriptor loader other with
    | none => return ()
    | some typeName =>
      note (.conflict target interface)
      throw (.loaderConstraint (s.getClass c).name sel typeName loader other)

/-- Bind the entry of one interface method in the block that starts at `start`. -/
def bindMethod (s : Store) (conflict? : String → LoaderId → LoaderId → Option String)
    (c interface : ClassId) (start length : Nat) (m : MethodId) : BindM Unit := do
  match s.interfaceIndex? m with
  | none => return ()
  | some index =>
    if length ≤ index then throw (.inconsistent (.entryExceedsBlock index (s.displayName m) length))
    let e := s.entryOf (s.implementation? c (s.selector m))
    match e with
    | .bound target => s.checkBinding conflict? c interface target
    | _ => pure ()
    note (.entry m index e)
    put (start + index) e

/-- Bind the entries of interface methods, in order. -/
def bindMethods (s : Store) (conflict? : String → LoaderId → LoaderId → Option String)
    (c interface : ClassId) (start length : Nat) : List MethodId → BindM Unit
  | [] => return ()
  | m :: ms => do
    s.bindMethod conflict? c interface start length m
    s.bindMethods conflict? c interface start length ms

/-- Bind the given blocks, the first of which starts at the entry `start`. -/
def bindBlocks (s : Store) (conflict? : String → LoaderId → LoaderId → Option String)
    (c : ClassId) : (start : Nat) → List (ClassId × Nat) → BindM Unit
  | _, [] => return ()
  | start, (i, length) :: rest => do
    s.bindMethods conflict? c i start length (s.getClass i).methods
    s.bindBlocks conflict? c (start + length) rest

end Store

namespace Linker

/-- Number the methods of an interface; the answer is how many were numbered. -/
def numberInterfaceMethods (i : ClassId) : LinkM Nat := fun l =>
  let s := l.store
  let indices := s.interfaceIndices i
  let records := indices.map fun (m, index) =>
    { severity := .info, category := .itable, message := "itable index"
      className := (s.getClass i).name, method := (s.selector m).text, index : Diagnostic }
  let l := if l.config.traceITables then l.record records else l
  .ok indices.length (l.setDispatches (indices.map fun (m, index) => (m, .interface index)))

/-- Run a binding pass on the table of `c` and record what it did, whether or not it failed. -/
def runBinding (c : ClassId) (pass : BindM Unit) (table : ITable) : LinkM ITable := fun l =>
  let report (b : Binding) : Linker :=
    l.record (ITableEvent.diagnostics l.store l.config.traceITables (l.store.getClass c).name
      b.events.toList)
  match pass { table } with
  | .ok _ b => .ok b.table (report b)
  | .error e b => .error e (report b)

/-- Build the interface table of `c`. -/
def buildITable (c : ClassId) : LinkM ITable := do
  let l ← get
  let s := l.store
  let k := s.getClass c
  if k.isInterface then
    let _ ← numberInterfaceMethods c
    return .empty
  else
    match k.allInterfaces.find? fun i => !(s.getClass i).isLinked with
    | some i => throw (.notLinked (s.getClass i).name)
    | none =>
      let blocks := s.visitedInterfaces k.allInterfaces
      let table ← runBinding c (s.bindBlocks l.conflict? c 0 blocks) (.ofBlocks blocks)
      LinkM.ofExcept (table.verifyTerminator k.name)
      return table

end Linker
end ClassLinking
