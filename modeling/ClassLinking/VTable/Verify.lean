import ClassLinking.Store

/-!
# Verifying and using a virtual table

A finished table is checked against the superclass's table and against the hierarchy: the two agree
on the selector of every slot that both fill, and every method in the table is held by the class or
one of its supertypes.
-/

namespace ClassLinking
namespace Store

/-- The first slot that both rows fill with methods of different selectors. -/
def firstMismatch? (s : Store) : (slot : Nat) → List (Option MethodId) → List (Option MethodId) →
    Option (Nat × MethodId × MethodId)
  | slot, some ours :: t, some theirs :: t' =>
    if s.selector ours = s.selector theirs then s.firstMismatch? (slot + 1) t t'
    else some (slot, ours, theirs)
  | slot, _ :: t, _ :: t' => s.firstMismatch? (slot + 1) t t'
  | _, _, _ => none

/-- The first slot that holds a method of no supertype of `c`. -/
def firstUnrelated? (s : Store) (c : ClassId) : (slot : Nat) → List (Option MethodId) →
    Option (Nat × MethodId)
  | _, [] => none
  | slot, none :: t => s.firstUnrelated? c (slot + 1) t
  | slot, some m :: t =>
    if (s.holder? m).any (s.isSubtype c) then s.firstUnrelated? c (slot + 1) t else some (slot, m)

/-- The slots of the superclass's table, none if there is no such table. -/
def superSlots (s : Store) (c : ClassId) : List (Option MethodId) :=
  match (s.getClass c).superclass? with
  | none => []
  | some p =>
    match (s.getClass p).tables with
    | some t => t.vtable.slots
    | none => []

/-- Check a table of the class `c` against its superclass's table and its hierarchy. -/
def verifyVTable (s : Store) (c : ClassId) (t : VTable) : Except LinkError Unit :=
  let name := (s.getClass c).name
  let theirs := s.superSlots c
  if t.length < theirs.length then .error (.inconsistent (.vtableTooShort name))
  else
    match s.firstMismatch? 0 t.slots theirs with
    | some (slot, a, b) =>
      .error (.inconsistent (.slotMismatch slot name (s.selector a) (s.selector b)))
    | none =>
      match s.firstUnrelated? c 0 t.slots with
      | some (slot, m) => .error (.linkage name (.notInherited slot (s.displayName m)))
      | none => .ok ()

/-- The method that a virtual call through `slot` runs on a receiver whose table is `t`. -/
def selectVirtual (s : Store) (receiver : ClassId) (t : VTable) (slot : Nat) :
    Except LinkError MethodId :=
  let name := (s.getClass receiver).name
  if t.length ≤ slot then .error (.inconsistent (.receiverSlotOutOfBounds slot name t.length))
  else
    match t.methodAt slot with
    | none => .error (.abstractMethod name ("<vtable slot " ++ toString slot ++ ">"))
    | some m =>
      if (s.getMethod m).modifiers.isAbstract then .error (.abstractMethod name (s.selector m).text)
      else .ok m

/-- The last slot that holds a placeholder for `sel`, or an interface's own method. -/
def mirandaSlot? (s : Store) (t : VTable) (sel : Selector) : Option Nat :=
  let isWanted (m : MethodId) : Bool :=
    s.selector m = sel &&
      ((s.getMethod m).modifiers.isMiranda ||
        (s.holder? m).any fun c => (s.getClass c).isInterface)
  (t.slots.zipIdx.reverse.find? fun entry => entry.1.any isWanted).map (·.2)

/-- Whether a slot holds a placeholder. -/
def isMirandaSlot (s : Store) (t : VTable) (slot : Nat) : Bool :=
  (t.methodAt slot).any fun m => (s.getMethod m).modifiers.isMiranda

/-- Whether a method was replaced or removed by a redefinition. -/
def isOld (s : Store) (m : MethodId) : Bool := (s.getMethod m).revision.isOld

/-- The first slot, counted from `slot`, that refers to a replaced body. -/
def firstOldSlot? (s : Store) : (slot : Nat) → List (Option MethodId) → Option (Nat × MethodId)
  | _, [] => none
  | slot, none :: t => s.firstOldSlot? (slot + 1) t
  | slot, some m :: t => if s.isOld m then some (slot, m) else s.firstOldSlot? (slot + 1) t

/-- The first slot of a table that refers to a replaced body. -/
def oldSlot? (s : Store) (t : VTable) : Option (Nat × MethodId) := s.firstOldSlot? 0 t.slots

end Store
end ClassLinking
