import ClassLinking.Config
import ClassLinking.ConflictTable
import ClassLinking.Diagnostic
import ClassLinking.LinkError
import ClassLinking.Registry
import ClassLinking.Statistics
import ClassLinking.Store

/-!
# The linker

The linker is one value: the store, the registry of defined classes, the settings, the recorded
loader conflicts, and what was reported and counted so far.  Its operations are steps on that value.
A step that fails keeps what it had changed before it failed, so that tokens which were handed out
and failures which were recorded are not forgotten.
-/

namespace ClassLinking

/-- A linker and everything it works on. -/
structure Linker where
  store : Store := .empty
  registry : Registry := .empty
  config : Config := .strict
  conflicts : ConflictTable := .empty
  /-- Whether the recorded conflicts are consulted at all. -/
  consultsConflicts : Bool := true
  diagnostics : Diagnostics := .empty
  statistics : Statistics := {}
  /-- The classes that gave way to another one under their token.  Whoever walks over the registered
  classes may still be at them, so they stay loaded. -/
  displaced : List ClassId := []
  deriving Inhabited

/-- A step of a linker; a failed step keeps what was done before. -/
abbrev LinkM := EStateM LinkError Linker

namespace Linker

/-- The first class name of a descriptor that two loaders disagree about, if such disagreements
count. -/
def conflict? (l : Linker) (descriptor : String) (a b : LoaderId) : Option String :=
  if l.config.checkLoaderConstraints && l.consultsConflicts then l.conflicts.check descriptor a b
  else none

/-- Change the store. -/
def mapStore (l : Linker) (f : Store → Store) : Linker := { l with store := f l.store }

/-- Record diagnostics. -/
def record (l : Linker) (ds : List Diagnostic) : Linker :=
  { l with diagnostics := l.diagnostics.append ds }

/-- Give methods their dispatch indices, in order. -/
def setDispatches (l : Linker) (indices : List (MethodId × DispatchIndex)) : Linker :=
  l.mapStore fun s => indices.foldl (fun s (m, index) => s.setDispatch m index) s

/-- The linker with a class registered under `t`, given the registry that lists it. -/
def withRegistered (l : Linker) (t : Token) (r : Registry) : Linker :=
  { l with registry := r, displaced := (l.registry.get? t).toList ++ l.displaced }

/-- Start again with an empty registry and nothing reported or counted.  The store, the settings and
the recorded conflicts stay, and the conflicts are consulted from here on. -/
def restart (l : Linker) : Linker :=
  { store := l.store, config := l.config, conflicts := l.conflicts, displaced := l.displaced }

end Linker

namespace LinkM

/-- A computation that changes nothing, as a step. -/
def ofExcept {α : Type} : Except LinkError α → LinkM α
  | .ok a => pure a
  | .error e => throw e

/-- Run a step and turn a failure into a result. -/
def attempt {α : Type} (x : LinkM α) : LinkM (Except LinkError α) := fun l =>
  match x l with
  | .ok a l => .ok (.ok a) l
  | .error e l => .ok (.error e) l

/-- Record a step of construction if it is wanted. -/
def trace (wanted : Bool) (d : Diagnostic) : LinkM Unit := do
  if wanted then modify fun l => l.record [d]

/-- Change the tables of a class, which has some. -/
def modifyTables (c : ClassId) (f : Tables → Tables) : LinkM Unit :=
  modify fun l => l.mapStore fun s =>
    s.modifyClass c fun k => { k with tables := k.tables.map f }

end LinkM
end ClassLinking
