import ClassLinking.Proofs.Replacement
import Mathlib.Data.List.Nodup

/-!
# A redefinition is a substitution

A redefinition that succeeds does one thing to all tables.  Every previous method of the class gives
way to the new method with its selector and its ordinal, and every other method stays: the tables of
each registered class are the tables it had with that substitution applied to what they refer to
(`Linker.Substitutes.tables`).  The rest of `Linker.Substitutes` says what becomes of the methods
themselves and what is counted.

That the substitution is well defined rests on two things.  A class without two methods of one
selector has at most one new body for a previous method, and the body keeps the ordinal of what it
replaces (`RevisedClass.counterpart_iff`).  And planning has made sure that nothing is referred to
which is left without a successor.
-/

namespace ClassLinking

theorem Revision.isOld_eq_false_iff {r : Revision} : r.isOld = false ↔ r = .current := by
  cases r <;> simp [isOld]

/-! ## Counting references -/

section Counting

/-- As many places of a row are updated as there is something new for. -/
theorem length_updates {α : Type} (f : α → Option α) (i : Nat) (row : List α) :
    (updates f i row).length = row.countP fun x => (f x).isSome := by
  induction row generalizing i with
  | nil => rfl
  | cons x rest ih =>
    rw [updates, List.countP_cons]
    cases hx : f x with
    | none => simp [ih]
    | some y => simp [ih]

/-- The number of slots and entries that refer to a method with the property `p`. -/
def Tables.countRefers (ts : Tables) (p : MethodId → Bool) : Nat :=
  ts.vtable.slots.countP (·.any p) + ts.itable.entries.countP (·.method?.any p)

/-- The number of slots and entries of `c` that refer to a method with the property `p`. -/
def Store.countRefers (s : Store) (c : ClassId) (p : MethodId → Bool) : Nat :=
  (s.getClass c).tables.elim 0 (·.countRefers p)

/-- A plan lists as many entries as refer to replaced methods. -/
theorem Store.Plans.size_eq {s : Store} {holder : ClassId} {isReplaced : MethodId → Bool}
    {counterpart? : MethodId → Option MethodId} {ts : Tables} {a : TableAdjustments}
    (h : s.Plans holder isReplaced counterpart? ts a) :
    a.size = ts.countRefers (s.isReplacedHere holder isReplaced) := by
  have hsome : ∀ m, ts.Refers m →
      (replacement? (s.isReplacedHere holder isReplaced) counterpart? m).isSome =
        s.isReplacedHere holder isReplaced m := fun m hm => by
    unfold replacement?
    cases hreplaced : s.isReplacedHere holder isReplaced m with
    | false => rfl
    | true => exact h.complete m hm hreplaced
  have hslots := congrArg List.length h.slots
  have hentries := congrArg List.length h.entries
  rw [List.length_map, length_updates] at hslots hentries
  rw [TableAdjustments.size, hslots, hentries, Tables.countRefers]
  refine congrArg₂ (· + ·) (List.countP_congr fun x hx => ?_) (List.countP_congr fun e he => ?_)
  · cases x with
    | none => simp [slotUpdate?]
    | some m => simp [slotUpdate?, hsome m (Or.inl hx)]
  · cases e with
    | empty => simp [boundUpdate?, ITableEntry.method?]
    | inaccessible => simp [boundUpdate?, ITableEntry.method?]
    | bound m => simp [boundUpdate?, ITableEntry.method?, hsome m (Or.inr he)]

end Counting

namespace RevisedClass

variable {s : Store} {root : Option ClassId} {r : RevisedClass} {ds : List Declaration}
  {b n : MethodId} {x : RevisedMethod}

/-- A plan adjusts as many entries as refer to a previous method of the class. -/
theorem size_of_planned (w : s.WellFormed root) (hholder : s.HasClass r.holder) {c : ClassId}
    {a : TableAdjustments}
    (h : s.planAdjustments c r.holder (r.replaces s) (r.counterpart? s) = .ok a) :
    a.size = s.countRefers c (s.getClass r.holder).methods.contains := by
  cases hts : (s.getClass c).tables with
  | none =>
    rw [Store.planAdjustments_of_unlinked hts] at h
    cases h
    rw [Store.countRefers, hts]
    rfl
  | some ts =>
    have hreplaced : s.isReplacedHere r.holder (r.replaces s) =
        (s.getClass r.holder).methods.contains := funext fun m => by
      rw [Bool.eq_iff_iff, Linker.isReplacedHere_iff w hholder, List.contains_iff_mem]
    rw [(Store.planAdjustments_ok hts h).size_eq, hreplaced, Store.countRefers, hts,
      Option.elim_some]

/-- The plans adjust what refers to a previous method of the class. -/
theorem plan_size_eq (w : s.WellFormed root) (hholder : s.HasClass r.holder) {cs : List ClassId}
    {plans : List (ClassId × TableAdjustments)} (h : r.plan s cs = .ok plans) :
    (plans.map (·.2.size)).sum =
      (cs.map fun c => s.countRefers c (s.getClass r.holder).methods.contains).sum := by
  induction cs generalizing plans with
  | nil =>
    cases h
    rfl
  | cons c rest ih =>
    unfold plan at h
    change (do
      let a ← s.planAdjustments c r.holder (r.replaces s) (r.counterpart? s)
      let later ← r.plan s rest
      return if a.isEmpty then later else (c, a) :: later) = .ok plans at h
    cases ha : s.planAdjustments c r.holder (r.replaces s) (r.counterpart? s) with
    | error e => simp [ha, bind, Except.bind] at h
    | ok a =>
      cases hlater : r.plan s rest with
      | error e => simp [ha, hlater, bind, Except.bind] at h
      | ok later =>
        simp only [ha, hlater, bind, Except.bind, pure, Except.pure, Except.ok.injEq] at h
        rw [List.map_cons, List.sum_cons, ← size_of_planned w hholder ha, ← ih hlater, ← h]
        by_cases hempty : a.isEmpty = true
        · rw [TableAdjustments.isEmpty, Bool.and_eq_true, List.isEmpty_iff, List.isEmpty_iff]
            at hempty
          have hzero : a.size = 0 := by rw [TableAdjustments.size, hempty.1, hempty.2]; rfl
          rw [if_pos (by rw [TableAdjustments.isEmpty, hempty.1, hempty.2]; rfl), hzero,
            Nat.zero_add]
        · rw [if_neg hempty, List.map_cons, List.sum_cons]

/-! ## What replaces what -/

/-- There is one new body for each selector. -/
theorem Declares.selectors (h : r.Declares ds) :
    r.methods.map (·.2.body.selector) = ds.map (·.selector) := by
  refine (List.forall₂_eq_eq_eq ▸ (List.forall₂_map_left_iff.mpr (List.forall₂_map_right_iff.mpr
    (h.bodies.imp fun d x hx => ?_))) : ds.map (·.selector) = _).symm
  exact hx.selector.symm

theorem Declares.eq_of_selector (h : r.Declares ds) {e e' : MethodId × RevisedMethod}
    (he : e ∈ r.methods) (he' : e' ∈ r.methods)
    (hsel : e.2.body.selector = e'.2.body.selector) : e = e' :=
  List.inj_on_of_nodup_map (f := fun e : MethodId × RevisedMethod => e.2.body.selector)
    (h.selectors ▸ h.distinct) he he' hsel

section Distinct

variable (hmatches : r.Matches s) (hdeclares : r.Declares ds)
  (hdistinct : ((s.getClass r.holder).methods.map s.selector).Nodup)

include hmatches hdistinct in
/-- A new body replaces the previous method of its selector. -/
theorem previous_iff {e : MethodId × RevisedMethod} (he : e ∈ r.methods) :
    e.2.previous = some b ↔
      b ∈ (s.getClass r.holder).methods ∧ s.selector b = e.2.body.selector := by
  rw [(hmatches.methods e he).previous]
  constructor
  · intro hb
    obtain ⟨hmem, hsel, -⟩ := Store.findAmong?_some hb
    exact ⟨hmem, hsel⟩
  · rintro ⟨hmem, hsel⟩
    have hsome : (s.declared? r.holder e.2.body.selector .all).isSome = true := by
      rw [Store.declared?, Store.findAmong?, List.find?_isSome]
      exact ⟨b, hmem, by simp [hsel]⟩
    obtain ⟨b', hb'⟩ := Option.isSome_iff_exists.mp hsome
    obtain ⟨hmem', hsel', -⟩ := Store.findAmong?_some hb'
    rw [hb', List.inj_on_of_nodup_map hdistinct hmem' hmem (hsel'.trans hsel.symm)]

include hmatches hdeclares hdistinct in
/-- The counterpart of a previous method is the new method of its selector. -/
theorem counterpart_iff (hb : b ∈ (s.getClass r.holder).methods) :
    r.counterpart? s b = some n ↔
      ∃ x, (n, x) ∈ r.methods ∧ x.body.selector = s.selector b := by
  constructor
  · intro h
    obtain ⟨x, hx, -, hsel⟩ := counterpart_spec h
    exact ⟨x, hx, hsel⟩
  · rintro ⟨x, hx, hsel⟩
    have hprevious : x.previous = some b :=
      (previous_iff hmatches hdistinct hx).mpr ⟨hb, hsel.symm⟩
    have hidnum : x.body.idnum = (s.getMethod b).idnum :=
      (hmatches.methods _ hx).idnum b hprevious
    have hsel' : x.body.selector = (s.getMethod b).selector := hsel
    have hsome : (r.counterpart? s b).isSome = true := by
      rw [counterpart?, Option.isSome_map, List.find?_isSome]
      exact ⟨(n, x), hx, by simp [hidnum, hsel']⟩
    obtain ⟨n', hn'⟩ := Option.isSome_iff_exists.mp hsome
    obtain ⟨x', hx', -, hsel''⟩ := counterpart_spec hn'
    have heq := hdeclares.eq_of_selector hx' hx (hsel''.trans hsel.symm)
    rw [hn', (Prod.mk.inj heq).1]

include hmatches hdeclares hdistinct in
/-- A previous method is removed if it has no counterpart. -/
theorem mem_removed_iff (hb : b ∈ (s.getClass r.holder).methods) :
    b ∈ r.removed ↔ r.counterpart? s b = none := by
  rw [hmatches.removed, Store.withoutBody, List.mem_filter, and_iff_right hb,
    Option.eq_none_iff_forall_ne_some]
  simp only [ne_eq, counterpart_iff hmatches hdeclares hdistinct hb, Bool.not_eq_true',
    List.any_eq_false, List.mem_map, decide_eq_true_eq]
  constructor
  · rintro h n ⟨x, hx, hsel⟩
    exact h x.body ⟨(n, x), hx, rfl⟩ hsel
  · rintro h _ ⟨⟨n, x⟩, hx, rfl⟩ hsel
    exact h n ⟨x, hx, hsel⟩

/-- What a redefinition makes of a previous method, given the method that takes its place. -/
def revisionFor (s : Store) (r : RevisedClass) (b : MethodId) : Revision :=
  match r.counterpart? s b with
  | some n => if (s.getMethod b).code = ((r.install s).getMethod n).code then .old else .obsolete
  | none => .deleted

include hmatches hdeclares hdistinct in
/-- All marks of a previous method agree, and it has one. -/
theorem marks_spec (hb : b ∈ (s.getClass r.holder).methods) :
    (∃ e ∈ r.marks s, e.1 = b) ∧ ∀ e ∈ r.marks s, e.1 = b → e.2 = r.revisionFor s b := by
  have hrevision : ∀ e ∈ r.revisions s, e.1 = b → e.2 = r.revisionFor s b := fun e he heb => by
    obtain ⟨⟨n, x⟩, hx, hmark⟩ := List.mem_filterMap.mp he
    obtain ⟨old, hold, rfl⟩ := Option.map_eq_some_iff.mp hmark
    dsimp only at heb
    subst heb
    obtain ⟨-, hsel⟩ := (previous_iff hmatches hdistinct hx).mp hold
    have hn := (counterpart_iff hmatches hdeclares hdistinct hb).mpr ⟨x, hx, hsel.symm⟩
    have hcode : ((r.install s).getMethod n).code = x.body.code := by
      rw [getMethod_of_mem hmatches hx]
    simp only [revisionFor, hn, hcode]
  have hremoved : ∀ m ∈ r.removed, m = b →
      Revision.deleted = r.revisionFor s b := fun m hm hmb => by
    rw [revisionFor, (mem_removed_iff hmatches hdeclares hdistinct hb).mp (hmb ▸ hm)]
  refine ⟨?_, fun e he heb => ?_⟩
  · cases hn : r.counterpart? s b with
    | none =>
      have hmem := (mem_removed_iff hmatches hdeclares hdistinct hb).mpr hn
      exact ⟨(b, .deleted), List.mem_append_right _ (List.mem_map_of_mem hmem), rfl⟩
    | some n =>
      obtain ⟨x, hx, hsel⟩ := (counterpart_iff hmatches hdeclares hdistinct hb).mp hn
      have hprevious := (previous_iff hmatches hdistinct hx).mpr ⟨hb, hsel.symm⟩
      have hmark : (b, if (s.getMethod b).code = x.body.code then Revision.old
          else Revision.obsolete) ∈ r.revisions s :=
        List.mem_filterMap.mpr ⟨(n, x), hx, by rw [hprevious, Option.map_some]⟩
      exact ⟨_, List.mem_append_left _ hmark, rfl⟩
  · rcases List.mem_append.mp he with he | he
    · exact hrevision e he heb
    · obtain ⟨m, hm, rfl⟩ := List.mem_map.mp he
      exact hremoved m hm heb

/-- What becomes of a previous method that is replaced says so. -/
theorem revision_ne_deleted {e : MethodId × Revision} (he : e ∈ r.revisions s) :
    e.2 ≠ .deleted := by
  obtain ⟨y, -, hy⟩ := List.mem_filterMap.mp he
  obtain ⟨old, -, rfl⟩ := Option.map_eq_some_iff.mp hy
  dsimp only
  split <;> simp

include hmatches hdistinct in
/-- The replaced methods have the selectors of the new bodies that replace one. -/
theorem map_selector_revisions : (r.revisions s).map (fun e => s.selector e.1) =
    (r.methods.filter (·.2.previous.isSome)).map (·.2.body.selector) := by
  have hall : ∀ e ∈ r.methods, ∀ b, e.2.previous = some b →
      s.selector b = e.2.body.selector := fun e he b hb =>
    ((previous_iff hmatches hdistinct he).mp hb).2
  unfold revisions
  generalize r.methods = es at hall
  induction es with
  | nil => rfl
  | cons e rest ih =>
    have hrest := ih fun e' he' => hall e' (List.mem_cons_of_mem _ he')
    cases hb : e.2.previous with
    | none => simpa [List.filterMap_cons, hb] using hrest
    | some b => simpa [List.filterMap_cons, hb, hall e List.mem_cons_self b hb] using hrest

include hmatches hdeclares hdistinct in
/-- Every previous method is marked once. -/
theorem marks_perm : (r.marks s).Perm
    ((s.getClass r.holder).methods.map fun b => (b, r.revisionFor s b)) := by
  have hnodup : (s.getClass r.holder).methods.Nodup := .of_map _ hdistinct
  have hrevisions : (r.revisions s).Nodup := by
    refine .of_map (fun e => s.selector e.1) ?_
    rw [map_selector_revisions hmatches hdistinct]
    exact ((List.filter_sublist (l := r.methods)).map _).nodup
      (hdeclares.selectors ▸ hdeclares.distinct)
  have hremoved : (r.removed.map fun m => (m, Revision.deleted)).Nodup := by
    rw [hmatches.removed]
    exact (hnodup.filter _).map fun _ _ h => congrArg Prod.fst h
  have hmarks : (r.marks s).Nodup := List.nodup_append.mpr ⟨hrevisions, hremoved, by
    rintro e he _ he' rfl
    obtain ⟨m, -, rfl⟩ := List.mem_map.mp he'
    exact revision_ne_deleted he rfl⟩
  refine (List.perm_ext_iff_of_nodup hmarks
    (hnodup.map fun _ _ h => congrArg Prod.fst h)).mpr fun e => ?_
  rw [List.mem_map]
  constructor
  · intro he
    have hb := mem_methods_of_mem_marks hmatches he
    refine ⟨e.1, hb, ?_⟩
    rw [← (marks_spec hmatches hdeclares hdistinct hb).2 e he rfl]
  · rintro ⟨b, hb, rfl⟩
    obtain ⟨⟨e, he, rfl⟩, hsame⟩ := marks_spec hmatches hdeclares hdistinct hb
    rw [← hsame e he rfl]
    exact he

include hmatches hdeclares hdistinct in
/-- A report counts what becomes of the previous methods. -/
theorem report_counts (count : Nat) :
    (r.report s count).old =
        (s.getClass r.holder).methods.countP (fun b => r.revisionFor s b = .old) ∧
      (r.report s count).obsolete =
        (s.getClass r.holder).methods.countP (fun b => r.revisionFor s b = .obsolete) ∧
      (r.report s count).deleted =
        (s.getClass r.holder).methods.countP (fun b => r.revisionFor s b = .deleted) := by
  have hperm := marks_perm hmatches hdeclares hdistinct
  have hcount : ∀ v : Revision, (s.getClass r.holder).methods.countP
      (fun b => r.revisionFor s b = v) = (r.revisions s).countP (·.2 = v) +
        r.removed.countP (fun _ => Revision.deleted = v) := fun v => by
    have h := hperm.countP_eq (p := fun e => decide (e.2 = v))
    rw [marks, List.countP_append, List.countP_map, List.countP_map] at h
    exact h.symm
  rw [hcount, hcount, hcount]
  refine ⟨?_, ?_, ?_⟩
  · simp [report, List.countP_eq_length_filter]
  · simp [report, List.countP_eq_length_filter]
  · have hzero : (r.revisions s).countP (·.2 = .deleted) = 0 :=
      List.countP_eq_zero.mpr fun e he => by simpa using revision_ne_deleted he
    simp [report, hzero]

include hmatches hdistinct in
/-- Every new method replaces a previous one or is added. -/
theorem report_added (hdeclares : r.Declares ds) (count : Nat) :
    (r.report s count).old + (r.report s count).obsolete + (r.report s count).added =
      ds.length := by
  have hrevisions : (r.report s count).old + (r.report s count).obsolete =
      (r.revisions s).length := by
    simp only [report]
    rw [← List.countP_eq_length_filter, ← List.countP_eq_length_filter,
      List.length_eq_countP_add_countP (p := fun e => decide (e.2 = .old)) (l := r.revisions s)]
    refine congrArg _ (List.countP_congr fun e he => ?_)
    obtain ⟨y, -, hy⟩ := List.mem_filterMap.mp he
    obtain ⟨old, -, rfl⟩ := Option.map_eq_some_iff.mp hy
    dsimp only
    split <;> simp
  have hlength := congrArg List.length (map_selector_revisions hmatches hdistinct)
  rw [List.length_map, List.length_map] at hlength
  rw [hrevisions, hlength, hdeclares.bodies.length_eq]
  simp only [report]
  rw [← List.countP_eq_length_filter, ← List.countP_eq_length_filter,
    List.length_eq_countP_add_countP (p := fun e => e.2.previous.isSome) (l := r.methods)]
  simp only [Bool.not_eq_true, Option.isSome_eq_false_iff, Bool.decide_eq_true]

include hmatches hdeclares hdistinct in
/-- Every previous method is old, obsolete or deleted. -/
theorem report_previous (count : Nat) :
    (r.report s count).old + (r.report s count).obsolete + (r.report s count).deleted =
      (s.getClass r.holder).methods.length := by
  obtain ⟨hold, hobsolete, hdeleted⟩ := report_counts hmatches hdeclares hdistinct count
  rw [hold, hobsolete, hdeleted]
  generalize (s.getClass r.holder).methods = bs
  induction bs with
  | nil => rfl
  | cons b rest ih =>
    have hcases : r.revisionFor s b = .old ∨ r.revisionFor s b = .obsolete ∨
        r.revisionFor s b = .deleted := by
      unfold revisionFor
      split
      · split <;> simp
      · simp
    rw [List.length_cons, List.countP_cons, List.countP_cons, List.countP_cons]
    rcases hcases with hb | hb | hb <;> simp [hb] <;> omega

end Distinct
end RevisedClass

/-! ## The substitution -/

namespace Linker

variable {l t : Linker} {holder : ClassId} {ds : List Declaration} {report : RedefinitionReport}

/-- The method that takes the place of the previous method `m` of `holder`: the one that `holder`
declares in `t` with its selector and its ordinal. -/
def newBody? (l t : Linker) (holder : ClassId) (m : MethodId) : Option MethodId :=
  (t.store.getClass holder).methods.find? fun n =>
    t.store.selector n = l.store.selector m &&
      (t.store.getMethod n).idnum = (l.store.getMethod m).idnum

/-- The previous methods of `holder` give way to the ones that take their places, and every other
method stays. -/
def substitution (l t : Linker) (holder : ClassId) (m : MethodId) : MethodId :=
  if m ∈ (l.store.getClass holder).methods then (l.newBody? t holder m).getD m else m

/-- Redefining `holder` by the methods `ds` has led from `l` to `t` and is a substitution on all
tables. -/
structure Substitutes (l t : Linker) (holder : ClassId) (ds : List Declaration)
    (report : RedefinitionReport) : Prop where
  /-- Slots and bound entries are substituted; lengths, headers and everything else stay. -/
  tables : ∀ c ∈ l.registry.all, (t.store.getClass c).tables =
    (l.store.getClass c).tables.map (Tables.exchange (l.substitution t holder))
  /-- Nothing is referred to that is left without a successor. -/
  replaced : ∀ c ∈ l.registry.all, ∀ b ∈ (l.store.getClass holder).methods,
    l.store.RefersTo c b → (l.newBody? t holder b).isSome = true
  /-- A new method of the selector of a previous one takes its place, with its ordinal. -/
  newBody : ∀ b ∈ (l.store.getClass holder).methods, ∀ n ∈ (t.store.getClass holder).methods,
    t.store.selector n = l.store.selector b → l.newBody? t holder b = some n
  /-- The class declares the new methods, in order. -/
  declared : List.Forall₂ (fun d n => ¬ l.store.HasMethod n ∧ d.Describes (t.store.getMethod n) ∧
    (t.store.getMethod n).revision = .current) ds (t.store.getClass holder).methods
  /-- A previous method is old or obsolete if it is replaced, and deleted otherwise. -/
  revision : ∀ b ∈ (l.store.getClass holder).methods, (t.store.getMethod b).revision =
    match l.newBody? t holder b with
    | some n =>
      if (l.store.getMethod b).code = (t.store.getMethod n).code then .old else .obsolete
    | none => .deleted
  /-- Other methods keep their revisions. -/
  kept : ∀ m, l.store.HasMethod m → m ∉ (l.store.getClass holder).methods →
    (t.store.getMethod m).revision = (l.store.getMethod m).revision
  old : report.old = (l.store.getClass holder).methods.countP
    fun b => (t.store.getMethod b).revision = .old
  obsolete : report.obsolete = (l.store.getClass holder).methods.countP
    fun b => (t.store.getMethod b).revision = .obsolete
  deleted : report.deleted = (l.store.getClass holder).methods.countP
    fun b => (t.store.getMethod b).revision = .deleted
  /-- Every previous method is counted once. -/
  previous : report.old + report.obsolete + report.deleted =
    (l.store.getClass holder).methods.length
  /-- Every new method is counted once. -/
  added : report.old + report.obsolete + report.added = ds.length
  /-- What is counted as adjusted is what referred to a previous method. -/
  entriesAdjusted : report.entriesAdjusted = (l.registry.all.map fun c =>
    l.store.countRefers c (l.store.getClass holder).methods.contains).sum

theorem Redefined.newBody?_eq {r : RevisedClass} (h : Redefined l t r) (m : MethodId) :
    l.newBody? t r.holder m = r.counterpart? l.store m := by
  rw [newBody?, h.methods, if_pos rfl, RevisedClass.declared, List.find?_map,
    RevisedClass.counterpart?]
  refine congrArg _ (List.find?_congr fun e he => ?_)
  have hget := (h.getMethod e.1).trans (RevisedClass.getMethod_of_mem h.matched he)
  simp only [Function.comp_apply, Store.selector, hget, Bool.and_comm]

theorem Redefined.successor_eq {r : RevisedClass} {root : Option ClassId} (h : Redefined l t r)
    (w : l.store.WellFormed root) (hholder : l.store.HasClass r.holder) :
    l.successor r = l.substitution t r.holder := funext fun m => by
  unfold substitution successor Store.current Store.replacement?
  rw [h.newBody?_eq]
  by_cases hm : m ∈ (l.store.getClass r.holder).methods
  · rw [if_pos hm, (isReplacedHere_iff w hholder).mpr hm, if_pos rfl]
  · rw [if_neg hm, if_neg fun hm' => hm ((isReplacedHere_iff w hholder).mp hm')]
    rfl

section Redefined

variable {r : RevisedClass} {root : Option ClassId} (h : Redefined l t r)
  (w : l.store.WellFormed root) (hholder : l.store.HasClass r.holder)

include h in
/-- A new method has its body in the end, whatever its revision. -/
theorem Redefined.getMethod_of_mem {n : MethodId} {x : RevisedMethod} (hx : (n, x) ∈ r.methods) :
    t.store.getMethod n = { x.body with revision := (t.store.getMethod n).revision } := by
  rw [h.getMethod]
  exact RevisedClass.getMethod_of_mem h.matched hx

include h in
/-- A new method of the selector of a previous one has taken its place. -/
theorem Redefined.exists_previous_of_selector
    (hdistinct : ((l.store.getClass r.holder).methods.map l.store.selector).Nodup) {m n : MethodId}
    (hm : m ∈ (l.store.getClass r.holder).methods) (hn : n ∈ (t.store.getClass r.holder).methods)
    (hsel : t.store.selector n = l.store.selector m) :
    ∃ x, (n, x) ∈ r.methods ∧ x.previous = some m := by
  rw [h.methods, if_pos rfl] at hn
  obtain ⟨⟨_, x⟩, hx, rfl⟩ := List.mem_map.mp hn
  refine ⟨x, hx, (RevisedClass.previous_iff h.matched hdistinct hx).mpr ⟨hm, ?_⟩⟩
  rw [← hsel, Store.selector, h.getMethod_of_mem hx]

include h in
/-- The new list of methods is the list of declarations. -/
theorem Redefined.forall₂_declared (hdeclares : r.Declares ds) :
    List.Forall₂ (fun d n => ¬ l.store.HasMethod n ∧ d.Describes (t.store.getMethod n) ∧
      (t.store.getMethod n).revision = .current) ds (t.store.getClass r.holder).methods := by
  rw [h.methods, if_pos rfl, RevisedClass.declared, List.forall₂_map_right_iff]
  refine List.forall₂_iff_get.mpr ⟨hdeclares.bodies.length_eq, fun i hi hi' => ?_⟩
  have hx : r.methods.get ⟨i, hi'⟩ ∈ r.methods := List.get_mem ..
  obtain ⟨hnew, hcurrent⟩ := h.declared _ (List.mem_map_of_mem (f := (·.1)) hx)
  refine ⟨hnew, ?_, Revision.isOld_eq_false_iff.mp hcurrent⟩
  have hd := hdeclares.bodies.get hi hi'
  rw [h.getMethod_of_mem hx]
  exact ⟨hd.selector, hd.access, hd.modifiers, hd.code⟩

include h w hholder in
/-- A previous method gets the revision that its counterpart decides. -/
theorem Redefined.revision_eq (hdeclares : r.Declares ds)
    (hdistinct : ((l.store.getClass r.holder).methods.map l.store.selector).Nodup) {b : MethodId}
    (hb : b ∈ (l.store.getClass r.holder).methods) :
    (t.store.getMethod b).revision = r.revisionFor l.store b := by
  obtain ⟨hmem, hsame⟩ := RevisedClass.marks_spec h.matched hdeclares hdistinct hb
  rw [h.getMethod, RevisedClass.install_eq]
  refine Store.revision_mark ?_ hmem hsame
  rw [Store.hasMethod_modifyClass, Store.hasMethod_addMethods]
  exact Nat.lt_add_right _ ((w.fits _ hholder).methods b hb).1

include h in
/-- Every other method keeps its revision. -/
theorem Redefined.revision_kept {m : MethodId} (hm : l.store.HasMethod m)
    (hnot : m ∉ (l.store.getClass r.holder).methods) :
    (t.store.getMethod m).revision = (l.store.getMethod m).revision := by
  have hmarks : ∀ e ∈ r.marks l.store, e.1 ≠ m := fun e he heq =>
    hnot (heq ▸ RevisedClass.mem_methods_of_mem_marks h.matched he)
  rw [h.getMethod, RevisedClass.install_eq, Store.getMethod_mark_of_not_mem hmarks,
    Store.getMethod_modifyClass, Store.getMethod_addMethods_of_has _ _ _ hm]

end Redefined

/-- **A redefinition that succeeds is a substitution on all tables**, in every state that commands
and replacements of single methods lead to. -/
theorem redefine_substitutes (h : Maintained l) (hholder : l.store.HasClass holder)
    (hdistinct : ((l.store.getClass holder).methods.map l.store.selector).Nodup)
    (hrun : redefine holder ds l = .ok report t) : l.Substitutes t holder ds report := by
  have hsound := h.sound
  have w := hsound.wellFormed
  obtain ⟨r, hprepared, rfl, hr, -, plans, hplans, rfl, -⟩ :=
    (redefine_reports w hholder hsound.nodup ds).of_ok hrun
  obtain ⟨u, hrevise⟩ := hprepared.revised
  have hmatches := hr.matched
  have hdeclares : r.Declares ds := ((revise_outcome ds).of_ok hrevise).2.2.2
  have hrevision := fun b => hr.revision_eq w hholder hdeclares hdistinct (b := b)
  obtain ⟨hold, hobsolete, hdeleted⟩ :=
    RevisedClass.report_counts hmatches hdeclares hdistinct (plans.map (·.2.size)).sum
  have hcount : ∀ v, (l.store.getClass r.holder).methods.countP
      (fun b => r.revisionFor l.store b = v) = (l.store.getClass r.holder).methods.countP
        fun b => (t.store.getMethod b).revision = v := fun v =>
    List.countP_congr fun b hb => by rw [hrevision b hb]
  exact
    { tables := fun c hc => by
        rw [← hr.successor_eq w hholder]
        exact hr.tables c hc
      replaced := fun c hc b hb hrefers => by
        rw [hr.newBody?_eq, hprepared.counterpart w hholder hc hb hrefers]
        rfl
      newBody := fun b hb n hn hsel => by
        obtain ⟨x, hx, hprevious⟩ := hr.exists_previous_of_selector hdistinct hb hn hsel
        rw [hr.newBody?_eq, RevisedClass.counterpart_iff hmatches hdeclares hdistinct hb]
        exact ⟨x, hx, ((RevisedClass.previous_iff hmatches hdistinct hx).mp hprevious).2.symm⟩
      declared := hr.forall₂_declared hdeclares
      revision := fun b hb => by
        rw [hrevision b hb, RevisedClass.revisionFor, hr.newBody?_eq]
        simp only [hr.getMethod]
      kept := fun _ => hr.revision_kept
      old := hold.trans (hcount _)
      obsolete := hobsolete.trans (hcount _)
      deleted := hdeleted.trans (hcount _)
      previous := RevisedClass.report_previous hmatches hdeclares hdistinct _
      added := RevisedClass.report_added hmatches hdistinct hdeclares _
      entriesAdjusted := RevisedClass.plan_size_eq w hholder hplans }

/-- A class with two virtual methods and a static one, linked together with a subclass. -/
def inheritedRun : List Command :=
  [.define { name := "Object" },
   .define { name := "A", superclass := some ⟨0⟩
             methods := [{ selector := ⟨"f", "()V"⟩, word := 0x1, code := [1] },
                         { selector := ⟨"g", "()V"⟩, word := 0x1, code := [1] },
                         { selector := ⟨"s", "()V"⟩, word := 0x9, code := [1] }] },
   .define { name := "B", superclass := some ⟨1⟩ },
   .link ⟨2⟩]

/-- The same body for one of the methods, another one for the other, and one static method instead
of the other. -/
def revisedMethods : List Declaration :=
  [{ selector := ⟨"k", "()V"⟩, word := 0x9, code := [1] },
   { selector := ⟨"g", "()V"⟩, word := 0x1, code := [2] },
   { selector := ⟨"f", "()V"⟩, word := 0x1, code := [1] }]

theorem inheritedRun_substitutes :
    ∃ report t, redefine ⟨1⟩ revisedMethods (finish { config := .minimal } inheritedRun) =
        .ok report t ∧
      report.entriesAdjusted = 4 ∧
      (finish { config := .minimal } inheritedRun).Substitutes t ⟨1⟩ revisedMethods report := by
  have hstart : Reachable (fun _ => True) { config := .minimal } := .start ⟨rfl, rfl⟩ trivial
  have hreach : Reachable (fun _ => True) (finish { config := .minimal } inheritedRun) :=
    hstart.finish (by decide +kernel)
  obtain ⟨report, t, hok, hcount⟩ := Outcome.exists_ok (x := redefine ⟨1⟩ revisedMethods)
    (s := finish { config := .minimal } inheritedRun)
    (Q := fun report _ => report.entriesAdjusted = 4) (by decide +kernel)
  exact ⟨report, t, hok, hcount,
    redefine_substitutes hreach.maintained (by decide +kernel) (by decide +kernel) hok⟩

end Linker
end ClassLinking
