import ClassLinking.Class.Flags
import ClassLinking.Descriptor

/-!
# Loader conflicts

Two loaders may resolve one class name to two different classes.  A method that crosses from one
loader to the other must not mention such a name in its descriptor.  The table records the names
for unordered pairs of loaders: a conflict of `a` with `b` is a conflict of `b` with `a`.

* `ConflictTable.add` and `ConflictTable.clearPair` change one pair and leave the others alone;
* `ConflictTable.check` finds the first name of a descriptor that two loaders disagree about.
-/

namespace ClassLinking

/-- An unordered pair of loaders, the one with the smaller number first. -/
structure LoaderPair where
  low : LoaderId
  high : LoaderId
  deriving DecidableEq, Inhabited

namespace LoaderPair

/-- The pair of two loaders in either order. -/
def of (a b : LoaderId) : LoaderPair := if a.number ≤ b.number then ⟨a, b⟩ else ⟨b, a⟩

/-- The order of the two loaders does not matter. -/
theorem of_comm (a b : LoaderId) : of a b = of b a := by
  unfold of
  split <;> split <;> rename_i h₁ h₂
  · have : a = b := by
      cases a; cases b; simp only [LoaderId.mk.injEq] at *; omega
    rw [this]
  · rfl
  · rfl
  · omega

end LoaderPair

/-- A class name that the loaders of a pair resolve differently. -/
structure Conflict where
  pair : LoaderPair
  className : String
  deriving DecidableEq, Inhabited

/-- The recorded conflicts, each once. -/
structure ConflictTable where
  conflicts : List Conflict := []
  deriving DecidableEq, Inhabited

namespace ConflictTable

/-- The table without conflicts. -/
def empty : ConflictTable := ⟨[]⟩

/-- Whether the loaders `a` and `b` are recorded to disagree about `className`. -/
def records (t : ConflictTable) (a b : LoaderId) (className : String) : Bool :=
  t.conflicts.contains ⟨.of a b, className⟩

/-- Record that `a` and `b` disagree about `className`. -/
def add (t : ConflictTable) (className : String) (a b : LoaderId) : ConflictTable :=
  if t.records a b className then t else ⟨t.conflicts ++ [⟨.of a b, className⟩]⟩

/-- Forget every conflict between `a` and `b`. -/
def clearPair (t : ConflictTable) (a b : LoaderId) : ConflictTable :=
  ⟨t.conflicts.filter fun c => c.pair ≠ .of a b⟩

/-- The number of recorded conflicts. -/
def size (t : ConflictTable) : Nat := t.conflicts.length

/-- Whether no conflict is recorded. -/
def isEmpty (t : ConflictTable) : Bool := t.size == 0

/-- The first class name of `descriptor` that `a` and `b` disagree about.  A loader never disagrees
with itself. -/
def check (t : ConflictTable) (descriptor : String) (a b : LoaderId) : Option String :=
  if a = b then none else (Descriptor.classNames descriptor).find? (t.records a b)

@[simp] theorem check_self (t : ConflictTable) (descriptor : String) (a : LoaderId) :
    t.check descriptor a a = none := by
  simp [check]

end ConflictTable
end ClassLinking
