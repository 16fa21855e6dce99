import ClassLinking.Proofs.Currency
import ClassLinking.Proofs.Revisions

/-!
# Statistics account for the work done

What a linker has counted at the end of a run is what has been done by then.  The first five
counters can be read off the store, and the last one off the reports of the redefinitions that
succeeded (`counters_account_for_work`).  A command that fails is no exception: what it has linked
before it failed is counted, and what a redefinition has adjusted before it failed is not, since no
report speaks of it.

Every command keeps it so (`Sound.counted_after`), for one of three reasons.  Linking counts every
class as it gets its tables, and a class gets them once (`Reaches.counted`).  A redefinition
exchanges methods in tables that keep their sizes (`Redefined.sameSizes`).  A definition adds a
class without tables (`Defines.sameSizes`).
-/

namespace ClassLinking

/-- Exchanging methods in tables keeps their sizes. -/
theorem Class.sameSizes_of_exchange {k k' : Class} {f : MethodId → MethodId}
    (htables : k'.tables = k.tables.map (Tables.exchange f))
    (hinterface : k.isLinked = true → k'.isInterface = k.isInterface) : k.SameSizes k' := by
  cases hts : k.tables with
  | none => exact sameSizes_of_none hts (by rw [htables, hts, Option.map_none])
  | some ts =>
    have hts' : k'.tables = some (ts.exchange f) := by rw [htables, hts, Option.map_some]
    refine ⟨?_, hinterface, ?_, ?_, ?_⟩
    · rw [isLinked, isLinked, hts, hts']
      rfl
    · rw [vtableLength, vtableLength, hts, hts']
      exact List.length_map ..
    · rw [mirandas, mirandas, hts, hts']
      rfl
    · rw [itableWords, itableWords, hts, hts']
      show ts.itable.headerWords + (ts.itable.entries.map _).length = ts.itable.words
      rw [List.length_map, ITable.words]

/-- The report of a command, if it is a redefinition that succeeds. -/
def Command.report? : Command → Linker → Option RedefinitionReport
  | .redefine holder ds, l => (Linker.redefine holder ds).answer? l
  | _, _ => none

namespace Linker

variable {allowed : Command → Prop} {l t : Linker} {c : ClassId} {x : Command} {xs : List Command}
  {n : Nat}

/-- The reports of the redefinitions of a run that succeed, in order. -/
def reports : Linker → List Command → List RedefinitionReport
  | _, [] => []
  | l, x :: xs => (x.report? l).toList ++ reports (x.after l) xs

/-- A redefinition leaves all tables as large as they were. -/
theorem Redefined.sameSizes {r : RevisedClass} (h : Redefined l t r) (c : ClassId) :
    (l.store.getClass c).SameSizes (t.store.getClass c) :=
  Class.sameSizes_of_exchange (h.tables_exchange c) fun hlinked =>
    h.extends_.isInterface (Store.Linked.hasClass hlinked)

/-- A definition leaves all tables as large as they were. -/
theorem Defines.sameSizes (hd : l.Defines t c) (e : ClassId) :
    (l.store.getClass e).SameSizes (t.store.getClass e) := by
  by_cases hlinked : t.store.Linked e
  · rw [(hd.of_linked hlinked).2.2]
    exact .refl _
  · have hnone := Store.tables_of_not_linked hlinked
    exact Class.sameSizes_of_none ((hd.tables_eq e).symm.trans hnone) hnone

/-- A redefinition counts the entries that it reports, and none if it fails. -/
theorem Sound.redefine_counted (hl : l.Sound) (h : Counted n l) {holder : ClassId}
    (hholder : l.store.HasClass holder) (ds : List Declaration) :
    Outcome (redefine holder ds) l (fun report t => Counted (n + report.entriesAdjusted) t)
      (fun _ t => Counted n t) := by
  refine (redefine_reports hl.wellFormed hholder hl.nodup ds).imp (fun report t ht => ?_)
    (fun _ t ht => ?_)
  · obtain ⟨r, -, -, hr, -, plans, -, -, hstatistics⟩ := ht
    exact h.adjusts hr.sameSizes hstatistics
  · rcases ht with ⟨hn, -⟩ | ⟨r, -, -, hr, hstatistics, -⟩
    · exact h.of_sameSizes (fun c => hn.store ▸ .refl _) hn.statistics
    · exact h.of_sameSizes hr.sameSizes hstatistics

/-- **Every command counts what it does.** -/
theorem Sound.counted_after (hl : l.Sound) (h : Counted n l) (hx : x.Admissible l.store) :
    Counted (n + ((x.report? l).toList.map (·.entriesAdjusted)).sum) (x.after l) := by
  cases x with
  | define d =>
    exact Outcome.final (P := Counted n) ((define_outcome hl.wellFormed hx).imp
      (fun _ _ ht => h.of_sameSizes ht.sameSizes ht.statistics)
      (fun _ _ ht => h.of_sameSizes (fun _ => ht.store ▸ .refl _) ht.statistics))
  | link c =>
    exact Outcome.final (P := Counted n)
      ((link_outcome (linkRule_true _ _) rfl hl.wellFormed hl.linkedUp trivial hx).imp
        (fun _ _ ht => ht.2.counted n h) (fun _ _ ht => ht.2.counted n h))
  | linkAll batch =>
    exact Outcome.final (P := Counted n)
      ((linkAll_outcome (linkRule_true _ _) rfl hl.wellFormed hl.linkedUp trivial hx).imp
        (fun _ _ ht => ht.counted n h) (fun _ _ ht => ht.2.counted n h))
  | redefine holder ds =>
    show Counted (n + (((redefine holder ds).answer? l).toList.map _).sum)
      ((redefine holder ds).final l)
    rcases (hl.redefine_counted h hx ds).answers with ⟨report, hreport, ht⟩ | ⟨hnone, -, ht⟩
    · rw [hreport]
      exact ht
    · rw [hnone]
      exact ht
  | configure config conflicts consultsConflicts =>
    exact h.of_sameSizes (fun _ => .refl _) rfl

/-- A linker that has done nothing has counted nothing. -/
theorem IsEmpty.counted (h : l.IsEmpty) (hzero : l.statistics = {}) : Counted 0 l := by
  have hnone : ∀ c, ¬ (l.store.getClass c).isLinked = true := fun c hc => by
    rw [h.store, Store.getClass_of_not (Nat.not_lt_zero _)] at hc
    cases hc
  have hclasses : l.store.linkedClasses = ∅ := by
    ext c
    simp [hnone c]
  have howners : l.store.itableOwners = ∅ :=
    Finset.subset_empty.mp (hclasses ▸ l.store.itableOwners_subset)
  refine ⟨?_, ?_, ?_, ?_, ?_, ?_⟩ <;> rw [hzero]
  · rw [hclasses, Finset.card_empty]
  · rw [hclasses, Finset.sum_empty]
  · rw [hclasses, Finset.sum_empty]
  · rw [howners, Finset.card_empty]
  · rw [howners, Finset.sum_empty]

/-- **Runs count what they do.** -/
theorem Sound.counted_finish (hl : l.Sound) (h : Counted n l) (hxs : Admits allowed l xs) :
    Counted (n + ((l.reports xs).map (·.entriesAdjusted)).sum) (l.finish xs) := by
  induction xs generalizing l n with
  | nil => exact h
  | cons x xs ih =>
    obtain ⟨-, hx, hrest⟩ := hxs
    rw [reports, List.map_append, List.sum_append, ← Nat.add_assoc]
    exact ih (hl.after hx) (hl.counted_after h hx) hrest

/-- **Statistics account for the work done.**  At the end of a run, whichever of its commands have
failed, the counters of a linker that started without any say: how many classes are linked, how
long their virtual tables are together, how many placeholders they introduced, how many of them are
no interfaces, how many words the interface tables of these take, and how many entries the
redefinitions that succeeded have reported as adjusted. -/
theorem counters_account_for_work (h : l.IsEmpty) (hzero : l.statistics = {})
    (hxs : Admits allowed l xs) :
    (l.finish xs).statistics =
      { classesLinked := (l.finish xs).store.linkedClasses.card
        vtableEntries := ∑ c ∈ (l.finish xs).store.linkedClasses,
          ((l.finish xs).store.getClass c).vtableLength
        mirandaEntries := ∑ c ∈ (l.finish xs).store.linkedClasses,
          ((l.finish xs).store.getClass c).mirandas.length
        itableClasses := (l.finish xs).store.itableOwners.card
        itableWords := ∑ c ∈ (l.finish xs).store.itableOwners,
          ((l.finish xs).store.getClass c).itableWords
        entriesAdjusted := ((l.reports xs).map (·.entriesAdjusted)).sum } := by
  have hcounted := h.sound.counted_finish (h.counted hzero) hxs
  rw [Nat.zero_add] at hcounted
  rw [← hcounted.classesLinked, ← hcounted.vtableEntries, ← hcounted.mirandaEntries,
    ← hcounted.itableClasses, ← hcounted.itableWords, ← hcounted.entriesAdjusted]

/-- Two of five classes are linked together with their supertypes.  One of the two fails after its
superclass was linked: it overrides a method across two loaders in conflict.  Then the interface is
redefined twice, the second time in vain. -/
def disputedBatch : List Command :=
  [.define { name := "Object" },
   .define { name := "I", flags := .makeInterface {},
             methods := [publicMethod "f" [1], { publicMethod "g" [] with word := 0x401 }] },
   .define { name := "A", superclass := some ⟨0⟩, interfaces := [⟨1⟩],
             methods := [{ publicMethod "m" [1] with selector := ⟨"m", "(LT;)V"⟩ }] },
   .define { name := "B", loader := ⟨1⟩, superclass := some ⟨2⟩,
             methods := [{ publicMethod "m" [2] with selector := ⟨"m", "(LT;)V"⟩ }] },
   .define { name := "C", superclass := some ⟨2⟩, methods := [publicMethod "n" [1]] },
   .configure { Config.minimal with checkLoaderConstraints := true }
     (ConflictTable.empty.add "T" .bootstrap ⟨1⟩) true,
   .linkAll [⟨3⟩, ⟨4⟩],
   .redefine ⟨1⟩ [publicMethod "f" [2], { publicMethod "g" [] with word := 0x401 }],
   .redefine ⟨1⟩ []]

/-- The sizes of the tables in the end can be read off the counters. -/
theorem disputedBatch_counted :
    (finish { config := .minimal } disputedBatch).store.linkedClasses.card = 4 ∧
      (∑ c ∈ (finish { config := .minimal } disputedBatch).store.linkedClasses,
        ((finish { config := .minimal } disputedBatch).store.getClass c).vtableLength) = 7 ∧
      ((reports { config := .minimal } disputedBatch).map (·.entriesAdjusted)).sum = 4 := by
  have hrun : Admits (fun _ => True) { config := .minimal } disputedBatch := by decide +kernel
  have hstatistics : (finish { config := .minimal } disputedBatch).statistics =
      { classesLinked := 4, vtableEntries := 7, mirandaEntries := 1, itableClasses := 3
        itableWords := 14, entriesAdjusted := 4 } := by decide +kernel
  have hcounted := hstatistics.symm.trans (counters_account_for_work ⟨rfl, rfl⟩ rfl hrun)
  -- The state and the reports are named, so that only the kernel evaluates the run.
  generalize finish { config := .minimal } disputedBatch = t at hcounted ⊢
  generalize reports { config := .minimal } disputedBatch = rs at hcounted ⊢
  exact ⟨(congrArg Statistics.classesLinked hcounted).symm,
    (congrArg Statistics.vtableEntries hcounted).symm,
    (congrArg Statistics.entriesAdjusted hcounted).symm⟩

end Linker
end ClassLinking
