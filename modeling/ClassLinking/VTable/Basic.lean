import ClassLinking.Id
import ClassLinking.LinkError

/-!
# Virtual tables

A virtual table is a row of slots.  Slot `i` of a class holds the method that a virtual call with
index `i` runs on a receiver of that class.  The length never changes once the table is built; a
slot that was reserved and not needed stays empty.
-/

namespace ClassLinking

/-- The virtual table of a class. -/
structure VTable where
  slots : List (Option MethodId)
  deriving DecidableEq, Inhabited

namespace VTable

/-- The number of slots. -/
def length (t : VTable) : Nat := t.slots.length

/-- The method in a slot, none for an empty slot or one past the end. -/
def methodAt (t : VTable) (slot : Nat) : Option MethodId := t.slots[slot]?.join

/-- Replace the method in a slot of the table. -/
def put (t : VTable) (slot : Nat) (m : MethodId) : Except LinkError VTable :=
  if slot < t.length then .ok ⟨t.slots.set slot (some m)⟩
  else .error (.inconsistent (.slotOutOfBounds slot t.length))

/-- A table by its length. -/
def describe (t : VTable) : String := "VTable \x7b length: " ++ toString t.length ++ " \x7d"

theorem put_of_lt {t : VTable} {slot : Nat} (h : slot < t.length) (m : MethodId) :
    t.put slot m = .ok ⟨t.slots.set slot (some m)⟩ := by
  simp [put, h]

end VTable
end ClassLinking
