import ClassLinking.Config
import ClassLinking.Miranda
import ClassLinking.Override

/-!
# Sizing a virtual table

The length of a table is fixed before it is filled: the superclass's table, a slot for each declared
method that needs one of its own, and, unless the class is an interface, a slot for each new
miranda.  Sizing leaves default methods out of account when it looks for mirandas, so a default
method that ends up with a slot of its own finds it reserved.
-/

namespace ClassLinking

/-- The outcome of sizing a virtual table. -/
structure VTableSize where
  /-- All slots, the inherited ones included. -/
  length : Nat
  /-- The slots inherited from the superclass. -/
  inherited : Nat
  /-- The interface methods met for the first time, defaults left out of account. -/
  newMirandas : List MethodId
  deriving DecidableEq, Inhabited

namespace Store

/-- The length of the superclass's table, which must exist if there is a superclass. -/
def inheritedLength (s : Store) (superclass : Option ClassId) : Except LinkError Nat :=
  match superclass with
  | none => .ok 0
  | some p =>
    match (s.getClass p).tables with
    | some t => .ok t.vtable.length
    | none => .error (.notLinked (s.getClass p).name)

/-- The declared methods of a class that need slots of their own. -/
def declaredNewSlots (s : Store) (transitive : Bool) (c : ClassId) : List MethodId :=
  let k := s.getClass c
  k.methods.filter fun m => s.needsNewSlot transitive m k.superclass? k.loader k.name k.flags

/-- The mirandas of a class, defaults left out of account. -/
def reservedMirandas (s : Store) (c : ClassId) : List MethodId :=
  let k := s.getClass c
  s.newMirandas k.superclass? k.methods none k.localInterfaces

/-- Size the virtual table of a class.  A root class must have the length that the configuration
asks for, if it asks for one. -/
def vtableSize (s : Store) (config : Config) (c : ClassId) : Except LinkError VTableSize :=
  let k := s.getClass c
  match s.inheritedLength k.superclass? with
  | .error e => .error e
  | .ok inherited =>
    let mirandas := s.reservedMirandas c
    let declared := (s.declaredNewSlots config.transitiveOverrides c).length
    let length := inherited + declared + (if k.isInterface then 0 else mirandas.length)
    let size : VTableSize := ⟨length, inherited, mirandas⟩
    match k.superclass?, config.baseVTableLength with
    | none, some expected =>
      if length = expected then .ok size else .error (.invalidRoot k.name expected length)
    | _, _ => .ok size

end Store
end ClassLinking
