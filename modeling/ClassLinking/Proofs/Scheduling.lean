import ClassLinking.Proofs.Registration
import ClassLinking.Proofs.Subtyping

/-!
# Schedules

A batch of classes is linked level by level.  The levels come from one pass over the batch that
leaves out what is linked or was met before, and computes the height of each class from the heights
of the unlinked classes it is derived from.  Heights are recorded under class tokens, and a class
that was met before is known by its token, so tokens must differ (`Store.TokensDiffer`).

The heights of a pass are never written down for all classes at once.  What matters is that recorded
heights grow along edges between unlinked classes (`Store.Climbs`): the pass starts with no heights,
and it records a height for a class when it has recorded them for what is below in the recursion and
above in the hierarchy (`heightWithin_records`).  With it, heights grow along every walk from an
unlinked class to an unlinked supertype, since what is on the way is unlinked, too.

`Schedules` says what comes of this: the levels have each unlinked class of the batch once, and
supertypes on lower levels.  If the batch has all unlinked supertypes of its classes, then each
class has what it is derived from linked or on lower levels, which is `Layered`, and stays so when
levels are permuted (`Layered.perm`).
-/

namespace ClassLinking

namespace Store

open Relation

variable {s : Store} {root : Option ClassId} {c d p : ClassId}

/-- No two classes have the same token. -/
def TokensDiffer (s : Store) : Prop := ∀ c d, s.HasClass c → s.HasClass d →
  (s.getClass c).token = (s.getClass d).token → c = d

/-- All that edges lead to from a linked class is linked. -/
theorem Linked.of_transGen (h : s.Linked c) (hup : s.LinkedUp) (hcd : TransGen s.DerivesFrom c d) :
    s.Linked d := by
  induction hcd with
  | single hp => exact hup _ h _ hp
  | tail _ hp ih => exact hup _ ih _ hp

/-! ## Heights -/

/-- The recorded heights grow along edges between unlinked classes. -/
def Climbs (s : Store) (heights : Linker.Heights) : Prop :=
  ∀ c h, s.HasClass c → heights.lookup (s.getClass c).token = some h →
    ∀ p, s.DerivesFrom c p → ¬ s.Linked p →
      ∃ h', heights.lookup (s.getClass p).token = some h' ∧ h' < h

/-- An unlinked supertype has a lower height, since all that is between is unlinked, too. -/
theorem Climbs.lt_of_transGen {heights : Linker.Heights} (h : s.Climbs heights)
    (w : s.WellFormed root) (hup : s.LinkedUp) (hcd : TransGen s.DerivesFrom c d)
    (hd : ¬ s.Linked d) (hc : s.HasClass c) {n : Nat}
    (hn : heights.lookup (s.getClass c).token = some n) :
    ∃ m, heights.lookup (s.getClass d).token = some m ∧ m < n := by
  induction hcd using TransGen.head_induction_on generalizing n with
  | single hedge => exact h _ n hc hn d hedge hd
  | head hedge hwalk ih =>
    have hp := fun hp : s.Linked _ => hd (hp.of_transGen hup hwalk)
    obtain ⟨m, hm, hlt⟩ := h _ n hc hn _ hedge hp
    obtain ⟨k, hk, hlt'⟩ := ih (hedge.hasClass w hc) hm
    exact ⟨k, hk, Nat.lt_trans hlt' hlt⟩

/-- All that `after` records besides `before` is about classes with an index below `n`, which had no
height before. -/
def Records (s : Store) (n : Nat) (before after : Linker.Heights) : Prop :=
  ∀ t, after.lookup t = before.lookup t ∨
    before.lookup t = none ∧ ∃ d, s.HasClass d ∧ d.index < n ∧ (s.getClass d).token = t

section Records

variable {n k : Nat} {before between after : Linker.Heights} {t : Token} {height : Nat}

theorem Records.refl (s : Store) (n : Nat) (before : Linker.Heights) : s.Records n before before :=
  fun _ => Or.inl rfl

theorem Records.trans (h : s.Records n before between) (h' : s.Records n between after) :
    s.Records n before after := fun t => by
  rcases h t with heq | hnew
  · rw [← heq]
    exact h' t
  · exact Or.inr hnew

theorem Records.mono (h : s.Records n before after) (hle : n ≤ k) : s.Records k before after :=
  fun t => (h t).imp_right fun ⟨hnone, d, hd, hlt, ht⟩ =>
    ⟨hnone, d, hd, Nat.lt_of_lt_of_le hlt hle, ht⟩

/-- A height that is recorded stays. -/
theorem Records.lookup (h : s.Records n before after) (ht : before.lookup t = some height) :
    after.lookup t = some height := by
  rcases h t with heq | ⟨hnone, -⟩
  · rw [heq, ht]
  · rw [hnone] at ht
    cases ht

/-- A class that is not older has no height unless it had one. -/
theorem Records.lookup_eq_none (h : s.Records n before after) (hdiffer : s.TokensDiffer)
    (hc : s.HasClass c) (hle : n ≤ c.index)
    (hnone : before.lookup (s.getClass c).token = none) :
    after.lookup (s.getClass c).token = none := by
  rcases h (s.getClass c).token with heq | ⟨-, d, hd, hlt, ht⟩
  · rw [heq, hnone]
  · obtain rfl := hdiffer d c hd hc ht
    exact absurd hlt (Nat.not_lt.mpr hle)

/-- Recording a height above the heights of what the class is derived from. -/
theorem Climbs.cons (h : s.Climbs before) (w : s.WellFormed root) (hdiffer : s.TokensDiffer)
    (hc : s.HasClass c) (hnone : before.lookup (s.getClass c).token = none)
    (habove : ∀ p, s.DerivesFrom c p → ¬ s.Linked p →
      ∃ h', before.lookup (s.getClass p).token = some h' ∧ h' < height) :
    s.Climbs (((s.getClass c).token, height) :: before) := by
  -- A class other than `c` is looked up as before.
  have hother : ∀ e, s.HasClass e → e ≠ c →
      List.lookup (s.getClass e).token (((s.getClass c).token, height) :: before) =
        before.lookup (s.getClass e).token := fun e he hne => by
    rw [List.lookup_cons, beq_eq_false_iff_ne.mpr fun heq => hne (hdiffer e c he hc heq)]
  intro e n he hn p hp hunlinked
  have hhas := hp.hasClass w he
  by_cases hec : e = c
  · subst hec
    rw [List.lookup_cons, beq_self_eq_true] at hn
    obtain rfl := Option.some.inj hn
    have hne : p ≠ e := fun hpe => Nat.lt_irrefl _ (hpe ▸ hp.index_lt w he)
    rw [hother p hhas hne]
    exact habove p hp hunlinked
  · rw [hother e he hec] at hn
    obtain ⟨m, hm, hlt⟩ := h e n he hn p hp hunlinked
    have hpc : p ≠ c := fun hpc => by
      rw [hpc, hnone] at hm
      cases hm
    exact ⟨m, by rw [hother p hhas hpc, hm], hlt⟩

end Records

end Store

namespace Linker

/-! ## Tokens -/

section Tokens

variable {l : Linker} {allowed : Command → Prop}

theorem Reachable.kept (h : Reachable allowed l) : l.Kept := by
  induction h with
  | start hl _ => exact hl.kept
  | @step l x _ _ hx ih => exact ih.after (x := .command x) hx

/-- While there are rows, every class is registered. -/
theorem Reachable.complete (h : Reachable allowed l)
    (hrows : l.registry.nextClassRow ≤ Token.rows) : l.Complete := by
  induction h with
  | start hl _ => exact hl.complete
  | step hl _ hx ih =>
    have hcounts := hl.sound.counts hx
    exact hcounts.complete hrows (ih (Nat.le_trans hcounts.rows_le hrows))

/-- **While there are rows, tokens differ.** -/
theorem Reachable.tokensDiffer (h : Reachable allowed l)
    (hrows : l.registry.nextClassRow ≤ Token.rows) : l.store.TokensDiffer := fun c d hc hd heq =>
  have hcomplete := h.complete hrows
  h.kept.keyed.eq_of_token (hcomplete.registered c hc) (hcomplete.registered d hd) heq

end Tokens

open Store Relation

variable {s : Store} {root : Option ClassId} {c d p : ClassId} {batch : List ClassId}
  {heights : Heights} {schedule : List (ClassId × Nat)}

section Heights

/-- Computing the heights of several classes records them, if computing one of them does. -/
theorem mapM_records {f : ClassId → EStateM LinkError Heights Nat} {ps : List ClassId} {n : Nat}
    (hps : ∀ p ∈ ps, p.index < n)
    (hf : ∀ p ∈ ps, ∀ heights, s.Climbs heights → Outcome (f p) heights
      (fun height after => s.Climbs after ∧ s.Records (p.index + 1) heights after ∧
        after.lookup (s.getClass p).token = some height)
      (fun _ _ => True)) (h : s.Climbs heights) :
    Outcome (ps.mapM f) heights
      (fun hs after => s.Climbs after ∧ s.Records n heights after ∧
        ∀ p ∈ ps, ∃ height ∈ hs, after.lookup (s.getClass p).token = some height)
      (fun _ _ => True) := by
  induction ps generalizing heights with
  | nil => exact ⟨h, Records.refl s n heights, nofun⟩
  | cons p ps ih =>
    rw [List.mapM_cons]
    simp only [outcome_bind, outcome_pure]
    refine (hf p List.mem_cons_self heights h).imp (fun height between hp => ?_) fun _ _ h => h
    obtain ⟨hclimbs, hrecords, hheight⟩ := hp
    refine (ih (fun q hq => hps q (List.mem_cons_of_mem _ hq))
      (fun q hq => hf q (List.mem_cons_of_mem _ hq)) hclimbs).imp (fun hs after hqs => ?_)
      fun _ _ h => h
    obtain ⟨hclimbs', hrecords', hall⟩ := hqs
    refine ⟨hclimbs', (hrecords.mono (hps p List.mem_cons_self)).trans hrecords', fun q hq => ?_⟩
    rcases List.mem_cons.mp hq with rfl | hq
    · exact ⟨height, List.mem_cons_self, hrecords'.lookup hheight⟩
    · obtain ⟨k, hk, hkq⟩ := hall q hq
      exact ⟨k, List.mem_cons_of_mem _ hk, hkq⟩

variable (w : s.WellFormed root) (hdiffer : s.TokensDiffer) (max : Nat)
include w hdiffer

/-- **Computing a height records it**, above the heights of what the class is derived from.  The
induction is on the budget, which the recursion spends on its way up. -/
theorem heightWithin_records (budget : Nat) (hc : s.HasClass c) (h : s.Climbs heights) :
    Outcome (heightWithin s max budget c) heights
      (fun height after => s.Climbs after ∧ s.Records (c.index + 1) heights after ∧
        after.lookup (s.getClass c).token = some height)
      (fun _ _ => True) := by
  induction budget generalizing c heights with
  | zero => trivial
  | succ budget ih =>
    unfold heightWithin
    simp only [outcome_bind, outcome_get]
    cases hlookup : heights.lookup (s.getClass c).token with
    | some height => exact ⟨h, Records.refl s _ heights, hlookup⟩
    | none =>
      simp only [outcome_bind, outcome_modify, outcome_pure]
      have hedge : ∀ p ∈ (s.definedFrom c).filter fun p => !(s.getClass p).isLinked,
          s.DerivesFrom c p := fun p hp => (List.mem_filter.mp hp).1
      refine (mapM_records (n := c.index) (fun p hp => (hedge p hp).index_lt w hc)
        (fun p hp _ h => ih ((hedge p hp).hasClass w hc) h) h).imp (fun hs between hbetween => ?_)
        fun _ _ h => h
      obtain ⟨hclimbs, hrecords, hall⟩ := hbetween
      have hnone := hrecords.lookup_eq_none hdiffer hc (Nat.le_refl _) hlookup
      refine ⟨hclimbs.cons w hdiffer hc hnone fun p hp hunlinked => ?_, fun t => ?_, ?_⟩
      · obtain ⟨k, hk, hkp⟩ := hall p (List.mem_filter.mpr ⟨hp, by simpa [Linked] using hunlinked⟩)
        refine ⟨k, hkp, (lt_foldl_max_iff (· + 1) hs k 0).mpr (Or.inr ⟨k, hk, Nat.lt_succ_self k⟩)⟩
      · by_cases ht : t = (s.getClass c).token
        · exact Or.inr ⟨ht ▸ hlookup, c, hc, Nat.lt_succ_self _, ht.symm⟩
        · rw [List.lookup_cons, beq_eq_false_iff_ne.mpr ht]
          exact hrecords.mono (Nat.le_succ _) t
      · rw [List.lookup_cons, beq_self_eq_true]

/-! ## The schedule -/

/-- What a pass over `batch` schedules that left out the tokens in `scheduled`: each of the other
unlinked classes once, with the height that is recorded for it. -/
structure Plans (s : Store) (scheduled : List Token) (batch : List ClassId) (heights : Heights)
    (schedule : List (ClassId × Nat)) : Prop where
  nodup : (schedule.map (·.1)).Nodup
  mem_iff : ∀ c, c ∈ schedule.map (·.1) ↔
    c ∈ batch ∧ ¬ s.Linked c ∧ (s.getClass c).token ∉ scheduled
  height : ∀ e ∈ schedule, heights.lookup (s.getClass e.1).token = some e.2

omit w hdiffer in
/-- A class that is linked or was met before is passed over. -/
theorem Plans.skip {scheduled : List Token} (h : Plans s scheduled batch heights schedule)
    (hskip : s.Linked c ∨ (s.getClass c).token ∈ scheduled) :
    Plans s scheduled (c :: batch) heights schedule where
  nodup := h.nodup
  mem_iff := fun d => by
    rw [h.mem_iff, List.mem_cons]
    refine ⟨fun ⟨hd, hrest⟩ => ⟨Or.inr hd, hrest⟩, fun ⟨hd, hlinked, hmet⟩ => ?_⟩
    rcases hd with rfl | hd
    · exact (hskip.elim hlinked hmet).elim
    · exact ⟨hd, hlinked, hmet⟩
  height := h.height

omit w in
/-- A class that is met for the first time comes before the others. -/
theorem Plans.cons {scheduled : List Token} {height : Nat}
    (h : Plans s ((s.getClass c).token :: scheduled) batch heights schedule)
    (hc : s.HasClass c) (hbatch : ∀ d ∈ batch, s.HasClass d) (hlinked : ¬ s.Linked c)
    (hmet : (s.getClass c).token ∉ scheduled)
    (hheight : heights.lookup (s.getClass c).token = some height) :
    Plans s scheduled (c :: batch) heights ((c, height) :: schedule) where
  nodup := by
    refine List.nodup_cons.mpr ⟨fun hmem => ?_, h.nodup⟩
    exact ((h.mem_iff c).mp hmem).2.2 List.mem_cons_self
  mem_iff := fun d => by
    rw [List.map_cons, List.mem_cons, List.mem_cons, h.mem_iff, List.mem_cons, not_or]
    constructor
    · rintro (rfl | ⟨hd, hunlinked, -, hnot⟩)
      · exact ⟨Or.inl rfl, hlinked, hmet⟩
      · exact ⟨Or.inr hd, hunlinked, hnot⟩
    · rintro ⟨hd, hunlinked, hnot⟩
      by_cases hdc : d = c
      · exact Or.inl hdc
      · have hd := hd.resolve_left hdc
        exact Or.inr ⟨hd, hunlinked, fun heq => hdc (hdiffer d c (hbatch d hd) hc heq), hnot⟩
  height := fun e he => by
    rcases List.mem_cons.mp he with rfl | he
    · exact hheight
    · exact h.height e he

/-- **The pass schedules each unlinked class once**, with heights that grow along edges. -/
theorem scheduleFrom_plans (scheduled : List Token) (hbatch : ∀ c ∈ batch, s.HasClass c)
    (h : s.Climbs heights) :
    Outcome (scheduleFrom s max scheduled batch) heights
      (fun schedule after => s.Climbs after ∧
        (∀ t n, heights.lookup t = some n → after.lookup t = some n) ∧
        Plans s scheduled batch after schedule)
      (fun _ _ => True) := by
  induction batch generalizing scheduled heights with
  | nil => exact ⟨h, fun _ _ ht => ht, List.nodup_nil, fun c => by simp, nofun⟩
  | cons c batch ih =>
    obtain ⟨hc, hbatch⟩ := List.forall_mem_cons.mp hbatch
    unfold scheduleFrom
    simp only [outcome_ite, outcome_bind, outcome_pure, Bool.or_eq_true, List.contains_iff_mem]
    refine ⟨fun hskip => (ih scheduled hbatch h).imp (fun _ _ hrest =>
      ⟨hrest.1, hrest.2.1, hrest.2.2.skip hskip⟩) fun _ _ h => h, fun hmet => ?_⟩
    obtain ⟨hlinked, hmet⟩ := not_or.mp hmet
    refine (heightWithin_records w hdiffer max (max + 1) hc h).imp (fun height between hfirst => ?_)
      fun _ _ h => h
    obtain ⟨hclimbs, hrecords, hheight⟩ := hfirst
    refine (ih ((s.getClass c).token :: scheduled) hbatch hclimbs).imp
      (fun schedule after hrest => ?_) fun _ _ h => h
    obtain ⟨hclimbs', hkeeps, hplans⟩ := hrest
    exact ⟨hclimbs', fun t n ht => hkeeps t n (hrecords.lookup ht),
      hplans.cons hdiffer hc hbatch hlinked hmet (hkeeps _ _ hheight)⟩

end Heights

/-! ## Levels -/

/-- The classes of a level are those that are scheduled for it. -/
theorem mem_levels_getD {i : Nat} : c ∈ (levels schedule).getD i [] ↔ (c, i) ∈ schedule := by
  have hcount : (c, i) ∈ schedule → i < schedule.foldl (fun n e => Nat.max n (e.2 + 1)) 0 :=
    fun hmem => (lt_foldl_max_iff (·.2 + 1) schedule i 0).mpr
      (Or.inr ⟨(c, i), hmem, Nat.lt_succ_self i⟩)
  rw [levels, List.getD_eq_getElem?_getD, List.getElem?_map]
  by_cases hi : i < schedule.foldl (fun n e => Nat.max n (e.2 + 1)) 0
  · rw [List.getElem?_range hi, Option.map_some, Option.getD_some]
    simp [List.mem_map, List.mem_filter]
  · rw [List.getElem?_eq_none (by simpa using hi)]
    exact iff_of_false List.not_mem_nil fun hmem => hi (hcount hmem)

/-- The levels in which a batch is linked, if its classes can be scheduled. -/
def plan (l : Linker) (batch : List ClassId) : Except LinkError (List (List ClassId)) :=
  match (scheduleFrom l.store l.config.maxHierarchyDepth [] batch).run [] with
  | .error e _ => .error e
  | .ok schedule _ => .ok (levels schedule)

/-- A batch is linked by planning it and linking the levels. -/
theorem linkAll_eq (l : Linker) (batch : List ClassId) :
    linkAll batch l = (LinkM.ofExcept (l.plan batch) >>= linkLevels) l := by
  change (match (scheduleFrom l.store l.config.maxHierarchyDepth [] batch).run [] with
    | .error e _ => throw e
    | .ok schedule _ => linkLevels (levels schedule)) l = _
  unfold plan
  cases (scheduleFrom l.store l.config.maxHierarchyDepth [] batch).run [] with
  | ok schedule heights => rfl
  | error e heights => rfl

theorem mem_flatten_iff_getD {levels : List (List ClassId)} :
    c ∈ levels.flatten ↔ ∃ i, c ∈ levels.getD i [] := by
  rw [List.mem_flatten]
  constructor
  · rintro ⟨level, hlevel, hc⟩
    obtain ⟨i, hi⟩ := List.mem_iff_getElem?.mp hlevel
    exact ⟨i, by rwa [List.getD_eq_getElem?_getD, hi, Option.getD_some]⟩
  · rintro ⟨i, hc⟩
    rw [List.getD_eq_getElem?_getD] at hc
    cases hi : levels[i]? with
    | none =>
      rw [hi] at hc
      exact absurd hc List.not_mem_nil
    | some level =>
      rw [hi] at hc
      exact ⟨level, List.mem_of_getElem? hi, hc⟩

theorem mem_flatten_levels : c ∈ (levels schedule).flatten ↔ c ∈ schedule.map (·.1) := by
  simp only [mem_flatten_iff_getD, mem_levels_getD, List.mem_map, Prod.exists, exists_and_right,
    exists_eq_right]

theorem nodup_flatten_levels (h : (schedule.map (·.1)).Nodup) :
    (levels schedule).flatten.Nodup := by
  rw [List.nodup_flatten]
  constructor
  · intro level hlevel
    obtain ⟨i, -, rfl⟩ := List.mem_map.mp hlevel
    exact h.sublist (List.filter_sublist.map _)
  · rw [levels, List.pairwise_map]
    refine List.pairwise_lt_range.imp fun {i j} hij c hi hj => ?_
    obtain ⟨e, he, rfl⟩ := List.mem_map.mp hi
    obtain ⟨e', he', heq⟩ := List.mem_map.mp hj
    obtain ⟨hmem, hlevel⟩ := List.mem_filter.mp he
    obtain ⟨hmem', hlevel'⟩ := List.mem_filter.mp he'
    rw [List.inj_on_of_nodup_map h hmem' hmem heq, of_decide_eq_true hlevel] at hlevel'
    exact Nat.ne_of_lt hij (of_decide_eq_true hlevel')

/-- The levels have each unlinked class of the batch once, with its unlinked supertypes on lower
levels. -/
structure Schedules (s : Store) (batch : List ClassId) (levels : List (List ClassId)) : Prop where
  nodup : levels.flatten.Nodup
  mem_iff : ∀ c, c ∈ levels.flatten ↔ c ∈ batch ∧ ¬ s.Linked c
  ordered : ∀ i j c d, c ∈ levels.getD i [] → d ∈ levels.getD j [] →
    s.isSubtype c d = true → c ≠ d → j < i

/-- **A batch is scheduled topologically and completely.** -/
theorem schedules_plan {l : Linker} (w : l.store.WellFormed root) (hup : l.store.LinkedUp)
    (hdiffer : l.store.TokensDiffer) (hbatch : ∀ c ∈ batch, l.store.HasClass c)
    {planned : List (List ClassId)} (h : l.plan batch = .ok planned) :
    Schedules l.store batch planned := by
  unfold plan at h
  cases hrun : (scheduleFrom l.store l.config.maxHierarchyDepth [] batch).run [] with
  | error e heights =>
    rw [hrun] at h
    cases h
  | ok schedule heights =>
  rw [hrun] at h
  cases h
  obtain ⟨hclimbs, -, hplans⟩ := (scheduleFrom_plans w hdiffer _ [] hbatch
    (fun _ _ _ h => by cases h)).of_ok hrun
  have hmem : ∀ c, c ∈ (levels schedule).flatten ↔ c ∈ batch ∧ ¬ l.store.Linked c := fun c => by
    rw [mem_flatten_levels, hplans.mem_iff, and_iff_left List.not_mem_nil]
  refine ⟨nodup_flatten_levels hplans.nodup, hmem, fun i j c d hc hd hsub hne => ?_⟩
  have hcbatch := (hmem c).mp (mem_flatten_iff_getD.mpr ⟨i, hc⟩)
  have hdbatch := (hmem d).mp (mem_flatten_iff_getD.mpr ⟨j, hd⟩)
  have hhas := hbatch c hcbatch.1
  have hwalk := (reflTransGen_iff_eq_or_transGen.mp
    ((isSubtype_iff_reflTransGen w hhas).mp hsub)).resolve_left (Ne.symm hne)
  obtain ⟨m, hm, hlt⟩ := hclimbs.lt_of_transGen w hup hwalk hdbatch.2 hhas
    (hplans.height _ (mem_levels_getD.mp hc))
  obtain rfl : j = m := Option.some.inj ((hplans.height _ (mem_levels_getD.mp hd)).symm.trans hm)
  exact hlt

/-! ## Layers -/

/-- The classes of the level may be linked next, when those of `linked` are linked: these do not
include them, but what they are derived from. -/
structure Unblocked (s : Store) (linked : ClassId → Prop) (level : List ClassId) : Prop where
  nodup : level.Nodup
  hasClass : ∀ c ∈ level, s.HasClass c
  unlinked : ∀ c ∈ level, ¬ linked c
  derived : ∀ c ∈ level, ∀ p, s.DerivesFrom c p → linked p

/-- Each level may be linked as soon as the levels before are. -/
inductive Layered (s : Store) : (linked : ClassId → Prop) → List (List ClassId) → Prop where
  | nil {linked : ClassId → Prop} : Layered s linked []
  | cons {linked : ClassId → Prop} {level : List ClassId} {rest : List (List ClassId)} :
    Unblocked s linked level → Layered s (fun d => linked d ∨ d ∈ level) rest →
    Layered s linked (level :: rest)

section Layered

variable {linked linked' : ClassId → Prop} {level level' : List ClassId}
  {before after levels levels' : List (List ClassId)}

/-- A level may be linked part by part. -/
theorem Unblocked.append (h : Unblocked s linked (level ++ level')) :
    Unblocked s linked level ∧ Unblocked s (fun d => linked d ∨ d ∈ level) level' := by
  obtain ⟨hleft, hright, hapart⟩ := List.nodup_append.mp h.nodup
  refine ⟨⟨hleft, fun c hc => h.hasClass c (List.mem_append_left _ hc),
      fun c hc => h.unlinked c (List.mem_append_left _ hc),
      fun c hc => h.derived c (List.mem_append_left _ hc)⟩,
    ⟨hright, fun c hc => h.hasClass c (List.mem_append_right _ hc), fun c hc => ?_,
      fun c hc p hp => Or.inl (h.derived c (List.mem_append_right _ hc) p hp)⟩⟩
  rintro (hlinked | hmem)
  · exact h.unlinked c (List.mem_append_right _ hc) hlinked
  · exact hapart c hmem c hc rfl

theorem Unblocked.congr (h : Unblocked s linked level) (heq : ∀ d, linked d ↔ linked' d) :
    Unblocked s linked' level := by
  rwa [← funext fun d => propext (heq d)]

/-- The classes behind the first one may be linked after it. -/
theorem Unblocked.tail (h : Unblocked s linked (c :: level)) :
    Unblocked s (fun d => linked d ∨ d = c) level := by
  have hsplit : Unblocked s linked ([c] ++ level) := h
  exact hsplit.append.2.congr fun _ => or_congr_right List.mem_singleton

theorem Unblocked.perm (h : Unblocked s linked level) (hperm : level.Perm level') :
    Unblocked s linked level' where
  nodup := hperm.nodup_iff.mp h.nodup
  hasClass := fun c hc => h.hasClass c (hperm.mem_iff.mpr hc)
  unlinked := fun c hc => h.unlinked c (hperm.mem_iff.mpr hc)
  derived := fun c hc => h.derived c (hperm.mem_iff.mpr hc)

theorem Layered.congr (h : Layered s linked levels) (heq : ∀ d, linked d ↔ linked' d) :
    Layered s linked' levels := by
  rwa [← funext fun d => propext (heq d)]

/-- The order within a level does not matter. -/
theorem Layered.perm (h : Layered s linked levels) (hperm : List.Forall₂ List.Perm levels levels') :
    Layered s linked levels' := by
  induction h generalizing levels' with
  | nil =>
    cases hperm
    exact .nil
  | cons hlevel _ ih =>
    obtain _ | ⟨hfirst, hrest⟩ := hperm
    exact .cons (hlevel.perm hfirst) ((ih hrest).congr fun d => or_congr_right hfirst.mem_iff)

/-- Lower levels are layers, and so are those above them. -/
theorem Layered.split (h : Layered s linked (before ++ after)) :
    Layered s linked before ∧ Layered s (fun d => linked d ∨ d ∈ before.flatten) after := by
  induction before generalizing linked with
  | nil => exact ⟨.nil, h.congr fun d => (or_iff_left List.not_mem_nil).symm⟩
  | cons level before ih =>
    obtain _ | ⟨hlevel, hrest⟩ := h
    obtain ⟨hbefore, hafter⟩ := ih hrest
    refine ⟨.cons hlevel hbefore, hafter.congr fun d => ?_⟩
    rw [List.flatten_cons, List.mem_append, or_assoc]

end Layered

/-- **If a batch has all unlinked supertypes of its classes, its levels are layers.** -/
theorem Schedules.layered {levels : List (List ClassId)} (h : Schedules s batch levels)
    (w : s.WellFormed root) (hbatch : ∀ c ∈ batch, s.HasClass c)
    (hclosed : ∀ c ∈ batch, ∀ d, s.isSubtype c d = true → ¬ s.Linked d → d ∈ batch) :
    Layered s s.Linked levels := by
  -- What is linked when the levels in `before` are.
  have hkey : ∀ before after, levels = before ++ after →
      Layered s (fun d => s.Linked d ∨ d ∈ before.flatten) after := by
    intro before after heq
    induction after generalizing before with
    | nil => exact .nil
    | cons level rest ih =>
      have hget : levels.getD before.length [] = level := by
        rw [heq, List.getD_append_right _ _ _ _ (Nat.le_refl _), Nat.sub_self]
        rfl
      have hnodup := h.nodup
      rw [heq, List.flatten_append, List.flatten_cons, List.nodup_append] at hnodup
      obtain ⟨-, hrest, hapart⟩ := hnodup
      -- What a class of the level is derived from is on one of the levels before.
      have hderived : ∀ c ∈ level, ∀ p, s.DerivesFrom c p → s.Linked p ∨ p ∈ before.flatten := by
        intro c hc p hp
        by_cases hlinked : s.Linked p
        · exact Or.inl hlinked
        · have hlevel : c ∈ levels.getD before.length [] := hget.symm ▸ hc
          have hcbatch := ((h.mem_iff c).mp (mem_flatten_iff_getD.mpr ⟨_, hlevel⟩)).1
          have hhas := hbatch c hcbatch
          have hsub := (isSubtype_iff_reflTransGen w hhas).mpr (.single hp)
          have hne : c ≠ p := fun hcp => Nat.lt_irrefl _ (hcp ▸ hp.index_lt w hhas)
          obtain ⟨j, hj⟩ := mem_flatten_iff_getD.mp
            ((h.mem_iff p).mpr ⟨hclosed c hcbatch p hsub hlinked, hlinked⟩)
          have hlt := h.ordered _ j c p hlevel hj hsub hne
          rw [heq, List.getD_append _ _ _ _ hlt] at hj
          exact Or.inr (mem_flatten_iff_getD.mpr ⟨j, hj⟩)
      have hmem : ∀ c ∈ level, c ∈ batch ∧ ¬ s.Linked c := fun c hc =>
        (h.mem_iff c).mp (heq ▸ List.mem_flatten_of_mem (by simp) hc)
      refine .cons ⟨(List.nodup_append.mp hrest).1, fun c hc => hbatch c (hmem c hc).1,
        fun c hc => ?_, hderived⟩ ((ih (before ++ [level]) (by simp [heq])).congr fun d => ?_)
      · rintro (hlinked | hbefore)
        · exact (hmem c hc).2 hlinked
        · exact hapart c hbefore c (List.mem_append_left _ hc) rfl
      · rw [List.flatten_append, List.mem_append, List.flatten_singleton, or_assoc]
  exact (hkey [] levels rfl).congr fun d => or_iff_left List.not_mem_nil

end Linker
end ClassLinking
