import ClassLinking.Proofs.Store
import Mathlib.Algebra.BigOperators.Group.Finset.Basic

/-!
# What the counters stand for

A linker adds to its counters while it works, and forgets what it has added.  What they should say
can be read off the store at any time: how many classes are linked, and how large their tables are.
`Linker.Counted n` says that the counters say so, and that `n` entries were adjusted.

Two things keep it so.  The counters stay, apart from the adjusted entries, and all tables keep
their sizes (`Counted.adjusts`); or a class that had no tables gets some and is counted with their
sizes (`Counted.installs`).  The first five counters cannot tell two stores apart that have the same
classes linked with tables of the same sizes, so nothing else about the store enters.
-/

namespace ClassLinking

namespace Class

/-- The words of the interface table, none before linking. -/
def itableWords (k : Class) : Nat := k.tables.elim 0 (·.itable.words)

/-- The tables of `k'` are there if those of `k` are, and they have the same sizes. -/
structure SameSizes (k k' : Class) : Prop where
  isLinked : k'.isLinked = k.isLinked
  isInterface : k.isLinked = true → k'.isInterface = k.isInterface
  vtableLength : k'.vtableLength = k.vtableLength
  mirandas : k'.mirandas.length = k.mirandas.length
  itableWords : k'.itableWords = k.itableWords

theorem SameSizes.refl (k : Class) : k.SameSizes k := ⟨rfl, fun _ => rfl, rfl, rfl, rfl⟩

/-- Classes without tables have tables of the same sizes. -/
theorem sameSizes_of_none {k k' : Class} (h : k.tables = none) (h' : k'.tables = none) :
    k.SameSizes k' where
  isLinked := by rw [isLinked, isLinked, h, h']
  isInterface := fun hlinked => by
    rw [isLinked, h] at hlinked
    cases hlinked
  vtableLength := by rw [vtableLength, vtableLength, h, h']
  mirandas := by rw [mirandas, mirandas, h, h']
  itableWords := by rw [itableWords, itableWords, h, h']

end Class

namespace Store

variable {s t : Store} {c : ClassId}

/-- The linked classes. -/
def linkedClasses (s : Store) : Finset ClassId :=
  ((Finset.range s.classes.size).image ClassId.mk).filter fun c => (s.getClass c).isLinked = true

/-- The linked classes that own an interface table, which are those that are no interfaces. -/
def itableOwners (s : Store) : Finset ClassId :=
  s.linkedClasses.filter fun c => (s.getClass c).isInterface = false

@[simp] theorem mem_linkedClasses : c ∈ s.linkedClasses ↔ (s.getClass c).isLinked = true := by
  rw [linkedClasses, Finset.mem_filter, and_iff_right_iff_imp]
  intro h
  obtain ⟨ts, hts⟩ := Option.isSome_iff_exists.mp h
  exact Finset.mem_image.mpr ⟨c.index, Finset.mem_range.mpr (hasClass_of_tables hts), rfl⟩

@[simp] theorem mem_itableOwners : c ∈ s.itableOwners ↔
    (s.getClass c).isLinked = true ∧ (s.getClass c).isInterface = false := by
  rw [itableOwners, Finset.mem_filter, mem_linkedClasses]

theorem itableOwners_subset (s : Store) : s.itableOwners ⊆ s.linkedClasses :=
  Finset.filter_subset _ _

section SameSizes

variable (h : ∀ c, (s.getClass c).SameSizes (t.getClass c))
include h

theorem linkedClasses_eq : t.linkedClasses = s.linkedClasses := by
  ext c
  rw [mem_linkedClasses, mem_linkedClasses, (h c).isLinked]

theorem itableOwners_eq : t.itableOwners = s.itableOwners := by
  ext c
  rw [mem_itableOwners, mem_itableOwners, (h c).isLinked]
  exact and_congr_right fun hc => by rw [(h c).isInterface hc]

end SameSizes

section Installed

variable (hothers : ∀ d, d ≠ c → t.getClass d = s.getClass d)
include hothers

/-- What is summed up over some classes grows by what another class adds to it. -/
theorem sum_insert_of_others (size : Class → Nat) {cs : Finset ClassId} (hc : c ∉ cs) :
    ∑ d ∈ insert c cs, size (t.getClass d) =
      (∑ d ∈ cs, size (s.getClass d)) + size (t.getClass c) := by
  rw [Finset.sum_insert hc, Nat.add_comm]
  refine congrArg (· + _) (Finset.sum_congr rfl fun d hd => ?_)
  rw [hothers d fun hdc => hc (hdc ▸ hd)]

theorem linkedClasses_installed (hlinked : (t.getClass c).isLinked = true) :
    t.linkedClasses = insert c s.linkedClasses := by
  ext d
  rw [Finset.mem_insert, mem_linkedClasses, mem_linkedClasses]
  by_cases hdc : d = c
  · subst hdc
    exact iff_of_true hlinked (Or.inl rfl)
  · rw [hothers d hdc, or_iff_right hdc]

theorem itableOwners_installed (hlinked : (t.getClass c).isLinked = true)
    (hunlinked : (s.getClass c).isLinked = false) : t.itableOwners =
      if (t.getClass c).isInterface then s.itableOwners else insert c s.itableOwners := by
  ext d
  by_cases hdc : d = c
  · subst hdc
    split
    · rename_i hint
      simp [hint, hunlinked]
    · rename_i hint
      simp [hint, hlinked]
  · have hsame : d ∈ t.itableOwners ↔ d ∈ s.itableOwners := by
      rw [mem_itableOwners, mem_itableOwners, hothers d hdc]
    rw [hsame]
    split
    · rfl
    · rw [Finset.mem_insert, or_iff_right hdc]

end Installed
end Store

namespace Linker

variable {l t : Linker} {c : ClassId} {n : Nat}

/-- The counters say what is linked, and that `n` entries were adjusted. -/
structure Counted (n : Nat) (l : Linker) : Prop where
  classesLinked : l.statistics.classesLinked = l.store.linkedClasses.card
  vtableEntries : l.statistics.vtableEntries =
    ∑ c ∈ l.store.linkedClasses, (l.store.getClass c).vtableLength
  mirandaEntries : l.statistics.mirandaEntries =
    ∑ c ∈ l.store.linkedClasses, (l.store.getClass c).mirandas.length
  itableClasses : l.statistics.itableClasses = l.store.itableOwners.card
  itableWords : l.statistics.itableWords =
    ∑ c ∈ l.store.itableOwners, (l.store.getClass c).itableWords
  entriesAdjusted : l.statistics.entriesAdjusted = n

/-- Adjusting entries in tables that keep their sizes keeps the counters right. -/
theorem Counted.adjusts {entries : Nat} (h : Counted n l)
    (hsizes : ∀ c, (l.store.getClass c).SameSizes (t.store.getClass c))
    (hstatistics : t.statistics = l.statistics.recordAdjusted entries) :
    Counted (n + entries) t where
  classesLinked := by
    rw [hstatistics, Store.linkedClasses_eq hsizes]
    exact h.classesLinked
  vtableEntries := by
    rw [hstatistics, Store.linkedClasses_eq hsizes]
    exact h.vtableEntries.trans (Finset.sum_congr rfl fun c _ => (hsizes c).vtableLength.symm)
  mirandaEntries := by
    rw [hstatistics, Store.linkedClasses_eq hsizes]
    exact h.mirandaEntries.trans (Finset.sum_congr rfl fun c _ => (hsizes c).mirandas.symm)
  itableClasses := by
    rw [hstatistics, Store.itableOwners_eq hsizes]
    exact h.itableClasses
  itableWords := by
    rw [hstatistics, Store.itableOwners_eq hsizes]
    exact h.itableWords.trans (Finset.sum_congr rfl fun c _ => (hsizes c).itableWords.symm)
  entriesAdjusted := by
    rw [hstatistics, ← h.entriesAdjusted]
    rfl

/-- Counters and sizes that stay the same keep the counters right. -/
theorem Counted.of_sameSizes (h : Counted n l)
    (hsizes : ∀ c, (l.store.getClass c).SameSizes (t.store.getClass c))
    (hstatistics : t.statistics = l.statistics) : Counted n t :=
  show Counted (n + 0) t from h.adjusts hsizes hstatistics

/-- **A class that is counted when it gets its tables keeps the counters right.**  What tells a
class from an interface is whether its interface table takes any words. -/
theorem Counted.installs (h : Counted n l)
    (hothers : ∀ d, d ≠ c → t.store.getClass d = l.store.getClass d)
    (hunlinked : (l.store.getClass c).isLinked = false)
    (hlinked : (t.store.getClass c).isLinked = true)
    (hwords : (t.store.getClass c).itableWords = 0 ↔ (t.store.getClass c).isInterface = true)
    (hstatistics : t.statistics = l.statistics.recordClass (t.store.getClass c).vtableLength
      (t.store.getClass c).mirandas.length (t.store.getClass c).itableWords) : Counted n t := by
  have hnew : c ∉ l.store.linkedClasses := by simp [hunlinked]
  have hnew' : c ∉ l.store.itableOwners := fun hc => hnew (l.store.itableOwners_subset hc)
  have hclasses := Store.linkedClasses_installed hothers hlinked
  have howners := Store.itableOwners_installed hothers hlinked hunlinked
  simp only [← hwords] at howners
  refine ⟨?_, ?_, ?_, ?_, ?_, ?_⟩
  · rw [hstatistics, hclasses, Finset.card_insert_of_notMem hnew, ← h.classesLinked]
    rfl
  · rw [hstatistics, hclasses, Store.sum_insert_of_others hothers (·.vtableLength) hnew,
      ← h.vtableEntries]
    rfl
  · rw [hstatistics, hclasses, Store.sum_insert_of_others hothers (·.mirandas.length) hnew,
      ← h.mirandaEntries]
    rfl
  · rw [hstatistics, howners]
    show l.statistics.itableClasses + (if (t.store.getClass c).itableWords = 0 then 0 else 1) = _
    split
    · exact h.itableClasses
    · rw [Finset.card_insert_of_notMem hnew', ← h.itableClasses]
  · rw [hstatistics, howners]
    show l.statistics.itableWords + (t.store.getClass c).itableWords = _
    split
    · rename_i hzero
      rw [hzero, Nat.add_zero, h.itableWords]
      exact Finset.sum_congr rfl fun d hd => by rw [hothers d fun hdc => hnew' (hdc ▸ hd)]
    · rw [Store.sum_insert_of_others hothers (·.itableWords) hnew', ← h.itableWords]
  · rw [hstatistics, ← h.entriesAdjusted]
    rfl

end Linker
end ClassLinking
