import ClassLinking.Proofs.LoaderConflicts
import Mathlib.Data.Set.Card
import Mathlib.Data.Sym.Sym2

/-!
# The history of a conflict table

A table of conflicts starts empty.  From then on conflicts are added, and all conflicts of a pair of
loaders are cleared at once.  What the table says at the end can be read off the list of these
changes: a conflict *stands* if it was added and its pair has not been cleared since (`Stands`).

The loaders of a pair have no order, so pairs are elements of `Sym2 LoaderId` here.  The table keeps
them with the smaller number first, which makes one entry of the two ways to write a pair
(`LoaderPair.eq_of_iff`).  So a table has exactly the conflicts that stand, each once
(`Follows`); one more change keeps this so, because what it does to the table is what it does to the
conflicts that stand (`stands_concat_add`, `stands_concat_clear`).  The counts and the answers of
the table follow (`after_answers`).
-/

namespace ClassLinking

/-! ## Pairs without an order -/

namespace LoaderPair

variable {p : LoaderPair} {a b : LoaderId}

/-- The two loaders, in no order. -/
def unordered (p : LoaderPair) : Sym2 LoaderId := s(p.low, p.high)

/-- The loader with the smaller number comes first. -/
def IsOrdered (p : LoaderPair) : Prop := p.low.number ≤ p.high.number

theorem isOrdered_of (a b : LoaderId) : (of a b).IsOrdered := by
  unfold of IsOrdered
  split
  · assumption
  · show b.number ≤ a.number
    omega

theorem unordered_of (a b : LoaderId) : (of a b).unordered = s(a, b) := by
  unfold of unordered
  split
  · rfl
  · exact Sym2.eq_swap

theorem of_self (h : p.IsOrdered) : of p.low p.high = p := if_pos h

/-- There is one ordered way to write a pair. -/
theorem eq_of_iff (h : p.IsOrdered) : p = of a b ↔ p.unordered = s(a, b) := by
  constructor
  · rintro rfl
    exact unordered_of a b
  · intro heq
    rcases Sym2.eq_iff.mp heq with ⟨rfl, rfl⟩ | ⟨rfl, rfl⟩
    · exact (of_self h).symm
    · exact (of_self h).symm.trans (of_comm _ _)

end LoaderPair

namespace ConflictTable

/-! ## Changes -/

/-- A change of a table. -/
inductive Change where
  | add (className : String) (a b : LoaderId)
  | clear (a b : LoaderId)

/-- The pair that a change is about. -/
def Change.pair : Change → Sym2 LoaderId
  | add _ a b => s(a, b)
  | clear a b => s(a, b)

/-- The table after one change. -/
def Change.apply : Change → ConflictTable → ConflictTable
  | add className a b, t => t.add className a b
  | clear a b, t => t.clearPair a b

/-- The table after a list of changes, the first one first. -/
def after (changes : List Change) : ConflictTable := changes.foldl (fun t x => x.apply t) .empty

/-- A conflict about `className` was added for the pair `p`, which has not been cleared since. -/
def Stands (changes : List Change) (p : Sym2 LoaderId) (className : String) : Prop :=
  ∃ earlier a b later, changes = earlier ++ .add className a b :: later ∧ s(a, b) = p ∧
    ∀ c d, .clear c d ∈ later → s(c, d) ≠ p

variable {changes : List Change} {t : ConflictTable} {p : Sym2 LoaderId} {x y : Change}
  {a b c d : LoaderId} {className other : String}

theorem after_concat (changes : List Change) (x : Change) :
    after (changes ++ [x]) = x.apply (after changes) := by
  rw [after, List.foldl_append]
  rfl

/-! ## Conflicts that stand -/

theorem not_stands_nil : ¬ Stands [] p className := by
  rintro ⟨earlier, a, b, later, heq, -⟩
  simp at heq

/-- A change of a longer list is the one at its end, or it comes earlier. -/
theorem concat_eq_append_cons_iff {earlier later : List Change} :
    changes ++ [x] = earlier ++ y :: later ↔
      changes = earlier ∧ x = y ∧ later = [] ∨
        ∃ rest, later = rest ++ [x] ∧ changes = earlier ++ y :: rest := by
  rcases List.eq_nil_or_concat later with rfl | ⟨rest, z, rfl⟩
  · simp [List.append_singleton_inj]
  · rw [List.concat_eq_append, ← List.cons_append, ← List.append_assoc, List.append_singleton_inj]
    constructor
    · rintro ⟨rfl, rfl⟩
      exact Or.inr ⟨rest, rfl, rfl⟩
    · rintro (⟨-, -, hnil⟩ | ⟨rest', heq, rfl⟩)
      · simp at hnil
      · obtain ⟨rfl, rfl⟩ := List.append_singleton_inj.mp heq
        exact ⟨rfl, rfl⟩

theorem stands_concat_add :
    Stands (changes ++ [.add other a b]) p className ↔
      s(a, b) = p ∧ other = className ∨ Stands changes p className := by
  constructor
  · rintro ⟨earlier, c, d, later, heq, hp, hlater⟩
    rcases concat_eq_append_cons_iff.mp heq with ⟨-, hadd, -⟩ | ⟨rest, rfl, rfl⟩
    · cases hadd
      exact Or.inl ⟨hp, rfl⟩
    · exact Or.inr ⟨earlier, c, d, rest, rfl, hp, fun e f he =>
        hlater e f (List.mem_append_left _ he)⟩
  · rintro (⟨hp, rfl⟩ | ⟨earlier, c, d, later, rfl, hp, hlater⟩)
    · exact ⟨changes, a, b, [], rfl, hp, nofun⟩
    · refine ⟨earlier, c, d, later ++ [.add other a b], by simp, hp, fun e f he => ?_⟩
      rcases List.mem_append.mp he with he | he
      · exact hlater e f he
      · cases List.mem_singleton.mp he

theorem stands_concat_clear :
    Stands (changes ++ [.clear a b]) p className ↔ s(a, b) ≠ p ∧ Stands changes p className := by
  constructor
  · rintro ⟨earlier, c, d, later, heq, hp, hlater⟩
    rcases concat_eq_append_cons_iff.mp heq with ⟨-, hadd, -⟩ | ⟨rest, rfl, rfl⟩
    · cases hadd
    · exact ⟨hlater a b (List.mem_append_right _ (List.mem_singleton_self _)),
        earlier, c, d, rest, rfl, hp, fun e f he => hlater e f (List.mem_append_left _ he)⟩
  · rintro ⟨hne, earlier, c, d, later, rfl, hp, hlater⟩
    refine ⟨earlier, c, d, later ++ [.clear a b], by simp, hp, fun e f he => ?_⟩
    rcases List.mem_append.mp he with he | he
    · exact hlater e f he
    · cases List.mem_singleton.mp he
      exact hne

/-! ## What a table has -/

/-- The table has the conflicts that stand after the changes, each once. -/
structure Follows (changes : List Change) (t : ConflictTable) : Prop where
  nodup : t.conflicts.Nodup
  mem_iff : ∀ c, c ∈ t.conflicts ↔
    c.pair.IsOrdered ∧ Stands changes c.pair.unordered c.className

/-- What is recorded for two loaders is what stands for their pair. -/
theorem Follows.records_iff (h : Follows changes t) :
    t.records a b className = true ↔ Stands changes s(a, b) className := by
  rw [records, List.contains_iff_mem, h.mem_iff]
  show (LoaderPair.of a b).IsOrdered ∧ Stands changes (LoaderPair.of a b).unordered _ ↔ _
  rw [LoaderPair.unordered_of, and_iff_right (LoaderPair.isOrdered_of a b)]

/-- Adding a conflict puts in what was not there. -/
theorem mem_add {e : Conflict} :
    e ∈ (t.add className a b).conflicts ↔ e = ⟨.of a b, className⟩ ∨ e ∈ t.conflicts := by
  unfold add records
  split
  · rename_i hrecorded
    refine (or_iff_right_of_imp ?_).symm
    rintro rfl
    exact List.contains_iff_mem.mp hrecorded
  · rw [List.mem_append, List.mem_singleton, or_comm]

theorem nodup_add (h : t.conflicts.Nodup) : (t.add className a b).conflicts.Nodup := by
  unfold add records
  split
  · exact h
  · rename_i hnew
    refine List.nodup_append.mpr ⟨h, List.nodup_singleton _, fun e he e' he' heq => hnew ?_⟩
    rw [List.contains_iff_mem, ← List.mem_singleton.mp he', ← heq]
    exact he

theorem follows_nil : Follows [] .empty where
  nodup := List.nodup_nil
  mem_iff := fun _ => iff_of_false List.not_mem_nil fun h => not_stands_nil h.2

theorem Follows.add (h : Follows changes t) (className : String) (a b : LoaderId) :
    Follows (changes ++ [.add className a b]) (t.add className a b) where
  nodup := nodup_add h.nodup
  mem_iff := fun e => by
    rw [mem_add, h.mem_iff, stands_concat_add]
    constructor
    · rintro (rfl | ⟨hordered, hstands⟩)
      · exact ⟨LoaderPair.isOrdered_of a b, Or.inl ⟨(LoaderPair.unordered_of a b).symm, rfl⟩⟩
      · exact ⟨hordered, Or.inr hstands⟩
    · rintro ⟨hordered, ⟨hpair, rfl⟩ | hstands⟩
      · refine Or.inl ?_
        rw [← (LoaderPair.eq_of_iff hordered).mpr hpair.symm]
      · exact Or.inr ⟨hordered, hstands⟩

theorem Follows.clear (h : Follows changes t) (a b : LoaderId) :
    Follows (changes ++ [.clear a b]) (t.clearPair a b) where
  nodup := h.nodup.filter _
  mem_iff := fun e => by
    rw [clearPair, List.mem_filter, h.mem_iff, stands_concat_clear, decide_eq_true_eq]
    constructor
    · rintro ⟨⟨hordered, hstands⟩, hne⟩
      exact ⟨hordered, fun heq => hne ((LoaderPair.eq_of_iff hordered).mpr heq.symm), hstands⟩
    · rintro ⟨hordered, hne, hstands⟩
      exact ⟨⟨hordered, hstands⟩, fun heq => hne ((LoaderPair.eq_of_iff hordered).mp heq).symm⟩

/-- A change of the table is a change of what stands. -/
theorem Follows.concat (h : Follows changes t) (x : Change) :
    Follows (changes ++ [x]) (x.apply t) := by
  cases x with
  | add className a b => exact h.add className a b
  | clear a b => exact h.clear a b

/-- **A table has what stands after its changes.** -/
theorem follows_after (changes : List Change) : Follows changes (after changes) := by
  induction changes using List.reverseRecOn with
  | nil => exact follows_nil
  | append_singleton changes x ih =>
    rw [after_concat]
    exact ih.concat x

/-- There are as many conflicts in the table as stand, because each of them is written in one
way. -/
theorem Follows.size_eq (h : Follows changes t) :
    (t.size : ℕ∞) = {x : Sym2 LoaderId × String | Stands changes x.1 x.2}.encard := by
  let reading : Conflict → Sym2 LoaderId × String := fun e => (e.pair.unordered, e.className)
  have himage : {x : Sym2 LoaderId × String | Stands changes x.1 x.2} =
      reading '' {e | e ∈ t.conflicts} := by
    ext ⟨p, className⟩
    constructor
    · induction p with | h a b => ?_
      intro hstands
      exact ⟨⟨.of a b, className⟩, List.contains_iff_mem.mp (h.records_iff.mpr hstands),
        Prod.ext (LoaderPair.unordered_of a b) rfl⟩
    · rintro ⟨e, he, heq⟩
      cases heq
      exact ((h.mem_iff e).mp he).2
  have hinj : Set.InjOn reading {e | e ∈ t.conflicts} := by
    intro e he e' he' heq
    obtain ⟨hpair, hname⟩ := Prod.ext_iff.mp heq
    have hordered := ((h.mem_iff e').mp he').1
    have hsame := (LoaderPair.eq_of_iff ((h.mem_iff e).mp he).1).mpr hpair
    rw [LoaderPair.of_self hordered] at hsame
    cases e
    cases e'
    exact congrArg₂ Conflict.mk hsame hname
  rw [himage, hinj.encard_image, ← List.coe_toFinset, Set.encard_coe_eq_coe_finsetCard,
    List.toFinset_card_of_nodup h.nodup]
  rfl

/-! ## What a table says -/

theorem records_comm (t : ConflictTable) (a b : LoaderId) : t.records a b = t.records b a := by
  ext className
  rw [records, records, LoaderPair.of_comm]

theorem check_comm (t : ConflictTable) (descriptor : String) (a b : LoaderId) :
    t.check descriptor a b = t.check descriptor b a := by
  by_cases hab : a = b
  · rw [hab]
  · rw [check, check, if_neg hab, if_neg (Ne.symm hab), records_comm]

/-- The answer to a question depends on what is recorded for the two loaders. -/
theorem check_congr {u : ConflictTable} (h : u.records a b = t.records a b)
    (descriptor : String) : u.check descriptor a b = t.check descriptor a b := by
  rw [check, check, h]

/-- A change of another pair makes no difference to what stands. -/
theorem stands_concat_of_ne (h : x.pair ≠ p) :
    Stands (changes ++ [x]) p className ↔ Stands changes p className := by
  cases x with
  | add other a b => rw [stands_concat_add, or_iff_right fun hadd => h hadd.1]
  | clear a b => exact stands_concat_clear.trans (and_iff_right h)

/-- A change of another pair makes no difference to what is recorded. -/
theorem Follows.records_apply_of_ne (h : Follows changes t) (hx : x.pair ≠ s(a, b)) :
    (x.apply t).records a b = t.records a b := by
  ext name
  rw [Bool.eq_iff_iff, (h.concat x).records_iff, h.records_iff, stands_concat_of_ne hx]

/-- The counts and the answers of a table are those of the conflicts that stand. -/
structure Answers (changes : List Change) (t : ConflictTable) : Prop where
  size : (t.size : ℕ∞) = {x : Sym2 LoaderId × String | Stands changes x.1 x.2}.encard
  isEmpty : t.isEmpty = true ↔ ∀ p className, ¬ Stands changes p className
  check_same : ∀ descriptor a, t.check descriptor a a = none
  check_none : ∀ descriptor a b, a ≠ b → (t.check descriptor a b = none ↔
    ∀ name ∈ Descriptor.classNames descriptor, ¬ Stands changes s(a, b) name)
  check_some : ∀ descriptor a b, a ≠ b → ∀ name, (t.check descriptor a b = some name ↔
    Stands changes s(a, b) name ∧ ∃ before behind,
      Descriptor.classNames descriptor = before ++ name :: behind ∧
        ∀ other ∈ before, ¬ Stands changes s(a, b) other)
  check_comm : ∀ descriptor a b, t.check descriptor a b = t.check descriptor b a
  /-- A change of another pair makes no difference. -/
  apart : ∀ (x : Change) (a b : LoaderId), x.pair ≠ s(a, b) →
    (x.apply t).records a b = t.records a b ∧
      ∀ descriptor, (x.apply t).check descriptor a b = t.check descriptor a b

/-- **A table answers for its history.**  After any changes it counts the conflicts that stand,
each once for its pair of loaders without an order.  Asked about two different loaders, it finds
the first name in a descriptor for which a conflict of the two stands.  It does not matter in which
order they are given, nor what is changed for other pairs. -/
theorem after_answers (changes : List Change) : Answers changes (after changes) := by
  have hfollows := follows_after changes
  have hrecords : ∀ a b name, (after changes).records a b name = false ↔
      ¬ Stands changes s(a, b) name := fun a b name => by
    rw [← hfollows.records_iff, Bool.not_eq_true]
  exact
    { size := hfollows.size_eq
      isEmpty := by
        rw [isEmpty, beq_iff_eq, ← ENat.natCast_inj, hfollows.size_eq, Nat.cast_zero,
          Set.encard_eq_zero, Set.eq_empty_iff_forall_notMem, Prod.forall]
        rfl
      check_same := fun _ _ => check_self _ _ _
      check_none := fun descriptor a b hne => by
        rw [check_eq_none_iff, Agrees, or_iff_right hne]
        simp only [hrecords]
      check_some := fun descriptor a b hne name => by
        rw [check_eq_some_iff]
        constructor
        · rintro ⟨-, hrecorded, before, behind, hnames, hfirst⟩
          exact ⟨hfollows.records_iff.mp hrecorded, before, behind, hnames, fun other hother =>
            (hrecords a b other).mp (hfirst other hother)⟩
        · rintro ⟨hstands, before, behind, hnames, hfirst⟩
          exact ⟨hne, hfollows.records_iff.mpr hstands, before, behind, hnames,
            fun other hother => (hrecords a b other).mpr (hfirst other hother)⟩
      check_comm := check_comm _
      apart := fun x a b hx =>
        have hsame := hfollows.records_apply_of_ne hx
        ⟨hsame, check_congr hsame⟩ }

/-- A conflict of either order counts once, and can be recorded again once its pair was cleared. -/
example : (after [.add "p/S" ⟨4⟩ ⟨2⟩, .clear ⟨2⟩ ⟨4⟩, .add "p/S" ⟨2⟩ ⟨4⟩, .add "p/S" ⟨4⟩ ⟨2⟩,
    .clear ⟨4⟩ ⟨4⟩]).size = 1 := by decide

end ConflictTable
end ClassLinking
