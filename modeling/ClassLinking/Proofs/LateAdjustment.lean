import ClassLinking.Proofs.DefaultSlots

/-!
# Adjusting tables after the fact

A redefinition plans the tables of all classes before it changes anything: what it replaces is what
the class declares so far, and the successor of a method is looked for among the new ones by ordinal
and selector.  `adjustEntries` comes later and works on one class at a time.  By then the new
methods are declared and the previous ones are marked, so it replaces what is marked, and looks for
the declared method of the same ordinal, whatever its selector.

Both come to the same.  A method that tables refer to is marked exactly if the class declared it, as
long as nothing that is referred to was marked before; and no two new methods share an ordinal, so
that the selector only decides whether the method found is taken (`Declared.currentBody?_eq`).
The plans are the same then, in every state in which only some of the tables have been adjusted
(`Declared.planAdjustments`), and adjusting the registered classes one by one, in any order, leads
to the very store that the redefinition leads to (`adjustEntries_eq_redefine`).
-/

namespace ClassLinking

/-! ## Plans that agree -/

namespace Store

variable {s t : Store} {name name' : String} {isReplaced isReplaced' : MethodId → Bool}
  {counterpart? counterpart?' : MethodId → Option MethodId}

/-- The plan for a row depends on what is replaced in it, and by what. -/
theorem planSlots_congr {slot : Nat} {row : List (Option MethodId)}
    {plan : List (Nat × MethodId × MethodId)}
    (hreplaced : ∀ m, some m ∈ row → isReplaced m = isReplaced' m)
    (hcounterpart : ∀ m, some m ∈ row → isReplaced m = true → counterpart? m = counterpart?' m)
    (h : s.planSlots name isReplaced counterpart? slot row = .ok plan) :
    t.planSlots name' isReplaced' counterpart?' slot row = .ok plan := by
  induction row generalizing slot plan with
  | nil => exact h
  | cons x rest ih =>
    have hrest : ∀ {plan}, s.planSlots name isReplaced counterpart? (slot + 1) rest = .ok plan →
        t.planSlots name' isReplaced' counterpart?' (slot + 1) rest = .ok plan :=
      ih (fun m hm => hreplaced m (List.mem_cons_of_mem _ hm))
        fun m hm => hcounterpart m (List.mem_cons_of_mem _ hm)
    cases x with
    | none => exact hrest h
    | some old =>
      have hsame := hreplaced old List.mem_cons_self
      cases hold : isReplaced old with
      | true =>
        obtain ⟨new, later, hnew, hlater, rfl⟩ := planSlots_replaced hold h
        rw [hcounterpart old List.mem_cons_self hold] at hnew
        simp [planSlots, ← hsame, hold, hnew, hrest hlater, bind, Except.bind, pure, Except.pure]
      | false =>
        unfold planSlots at h ⊢
        rw [hold] at h
        rw [← hsame, hold]
        exact hrest h

theorem planEntries_congr {index : Nat} {row : List ITableEntry} {plan : List (Nat × MethodId)}
    (hreplaced : ∀ m, .bound m ∈ row → isReplaced m = isReplaced' m)
    (hcounterpart : ∀ m, .bound m ∈ row → isReplaced m = true → counterpart? m = counterpart?' m)
    (h : s.planEntries name isReplaced counterpart? index row = .ok plan) :
    t.planEntries name' isReplaced' counterpart?' index row = .ok plan := by
  induction row generalizing index plan with
  | nil => exact h
  | cons x rest ih =>
    have hrest : ∀ {plan}, s.planEntries name isReplaced counterpart? (index + 1) rest = .ok plan →
        t.planEntries name' isReplaced' counterpart?' (index + 1) rest = .ok plan :=
      ih (fun m hm => hreplaced m (List.mem_cons_of_mem _ hm))
        fun m hm => hcounterpart m (List.mem_cons_of_mem _ hm)
    cases x with
    | empty => exact hrest h
    | inaccessible method => exact hrest h
    | bound old =>
      have hsame := hreplaced old List.mem_cons_self
      unfold planEntries at h ⊢
      rw [← hsame]
      cases hold : isReplaced old with
      | true =>
        rw [hold, if_pos rfl, hcounterpart old List.mem_cons_self hold] at h
        rw [if_pos rfl]
        cases hnew : counterpart?' old with
        | none =>
          rw [hnew] at h
          cases h
        | some new =>
          rw [hnew] at h
          cases hlater : s.planEntries name isReplaced counterpart? (index + 1) rest with
          | error e =>
            rw [hlater] at h
            cases h
          | ok later =>
            rw [hlater] at h
            dsimp only
            rw [hrest hlater]
            exact h
      | false =>
        rw [hold] at h
        exact hrest h

/-- The plan for a class depends on what is replaced in its tables, and by what. -/
theorem planAdjustments_congr {c holder : ClassId} {a : TableAdjustments}
    (htables : (t.getClass c).tables = (s.getClass c).tables)
    (hreplaced : ∀ m, s.RefersTo c m →
      s.isReplacedHere holder isReplaced m = t.isReplacedHere holder isReplaced' m)
    (hcounterpart : ∀ m, s.RefersTo c m → s.isReplacedHere holder isReplaced m = true →
      counterpart? m = counterpart?' m)
    (h : s.planAdjustments c holder isReplaced counterpart? = .ok a) :
    t.planAdjustments c holder isReplaced' counterpart?' = .ok a := by
  cases hts : (s.getClass c).tables with
  | none =>
    rw [planAdjustments_of_unlinked hts] at h
    rw [planAdjustments_of_unlinked (htables.trans hts), h]
  | some ts =>
    obtain ⟨hslots, hentries⟩ := planAdjustments_rows hts h
    rw [planAdjustments_of_tables (htables.trans hts),
      planSlots_congr (fun m hm => hreplaced m ⟨ts, hts, Or.inl hm⟩)
        (fun m hm => hcounterpart m ⟨ts, hts, Or.inl hm⟩) hslots,
      planEntries_congr (fun m hm => hreplaced m ⟨ts, hts, Or.inr hm⟩)
        (fun m hm => hcounterpart m ⟨ts, hts, Or.inr hm⟩) hentries]
    rfl

end Store

/-! ## Plans that are written -/

/-- The tables with the entries of a plan written. -/
def TableAdjustments.writeTo (a : TableAdjustments) (ts : Tables) : Tables :=
  { ts with
    vtable := ⟨write ts.vtable.slots (a.slots.map fun e => (e.1, some e.2.2))⟩
    itable := { ts.itable with
      entries := write ts.itable.entries (a.entries.map fun e => (e.1, .bound e.2)) } }

/-- The class with a plan written into its tables and its defaults. -/
def Class.patched (k : Class) (isDefault : MethodId → Bool) (a : TableAdjustments) : Class :=
  { k with
    tables := k.tables.map a.writeTo
    defaults := exchangeDefaults isDefault k.defaultSlots k.defaults a.slots }

@[simp] theorem Class.patched_none (k : Class) (isDefault : MethodId → Bool) :
    k.patched isDefault .none = k := by
  have htables : k.tables.map TableAdjustments.none.writeTo = k.tables := by
    cases k.tables <;> rfl
  rw [patched, htables]
  rfl

theorem TableAdjustments.eq_none_iff {a : TableAdjustments} : a = .none ↔ a.isEmpty = true := by
  obtain ⟨slots, entries⟩ := a
  simp [none, isEmpty]

namespace Store

/-- Between `s` and `t` the plans of all classes were written. -/
structure Patches (plans : ClassId → TableAdjustments) (s t : Store) : Prop where
  methods : t.methods = s.methods
  size_eq : t.classes.size = s.classes.size
  class_eq : ∀ c, t.getClass c = (s.getClass c).patched s.isDefault (plans c)

namespace Patches

variable {s t u : Store} {plans plans' plans'' : ClassId → TableAdjustments}

theorem refl (s : Store) : Patches (fun _ => .none) s s :=
  ⟨rfl, rfl, fun _ => (Class.patched_none ..).symm⟩

theorem getMethod (h : Patches plans s t) (m : MethodId) : t.getMethod m = s.getMethod m := by
  rw [Store.getMethod, Store.getMethod, h.methods]

theorem isDefault (h : Patches plans s t) : t.isDefault = s.isDefault := by
  funext m
  unfold Store.isDefault Store.holder?
  simp only [h.getMethod, h.class_eq, Class.patched]
  rfl

/-- Plans determine what they are written to. -/
theorem unique (h : Patches plans s t) (h' : Patches plans s u) : t = u := by
  have hclasses : t.classes = u.classes := by
    refine Array.ext (h.size_eq.trans h'.size_eq.symm) fun i hi hi' => ?_
    have hget : t.getClass ⟨i⟩ = u.getClass ⟨i⟩ := (h.class_eq _).trans (h'.class_eq _).symm
    simpa [Store.getClass, Array.getD_eq_getD_getElem?, hi, hi'] using hget
  obtain ⟨classes, methods⟩ := t
  obtain ⟨classes', methods'⟩ := u
  obtain rfl : classes = classes' := hclasses
  obtain rfl : methods = methods' := h.methods.trans h'.methods.symm
  rfl

/-- Some classes are written to, and then others. -/
theorem trans (h : Patches plans s t) (h' : Patches plans' t u)
    (hplans : ∀ c, plans c = .none ∧ plans'' c = plans' c ∨
      plans' c = .none ∧ plans'' c = plans c) : Patches plans'' s u where
  methods := h'.methods.trans h.methods
  size_eq := h'.size_eq.trans h.size_eq
  class_eq := fun c => by
    rw [h'.class_eq, h.class_eq, h.isDefault]
    rcases hplans c with ⟨hnone, heq⟩ | ⟨hnone, heq⟩
    · rw [hnone, Class.patched_none, heq]
    · rw [hnone, Class.patched_none, heq]

end Patches
end Store

/-- The previous methods of the class are old once the new ones are declared. -/
theorem RevisedClass.isOld_install_of_mem {s : Store} {root : Option ClassId} {r : RevisedClass}
    {ds : List Declaration} {m : MethodId} (w : s.WellFormed root) (hmatches : r.Matches s)
    (hdeclares : r.Declares ds) (hholder : s.HasClass r.holder)
    (hdistinct : ((s.getClass r.holder).methods.map s.selector).Nodup)
    (hm : m ∈ (s.getClass r.holder).methods) : (r.install s).isOld m = true := by
  obtain ⟨⟨e, he, rfl⟩, -⟩ := marks_spec hmatches hdeclares hdistinct hm
  rw [install_eq, Store.isOld_mark (fun _ => isOld_of_mem_marks), Bool.or_eq_true,
    decide_eq_true_eq]
  · exact Or.inr (List.mem_map_of_mem he)
  · rw [Store.hasMethod_modifyClass, Store.hasMethod_addMethods]
    exact Nat.lt_add_right _ ((w.fits _ hholder).methods _ hm).1

namespace Linker

variable {l t u v : Linker} {c holder : ClassId} {cs : List ClassId} {a : TableAdjustments}
  {s : Store} {isReplaced : MethodId → Bool} {counterpart? : MethodId → Option MethodId}
  {ds : List Declaration} {r : RevisedClass} {report : RedefinitionReport}

/-- Applying a plan that was made for the tables of a class writes it. -/
theorem applyAdjustments_patches
    (hplan : s.planAdjustments c holder isReplaced counterpart? = .ok a)
    (htables : (l.store.getClass c).tables = (s.getClass c).tables) :
    Outcome (applyAdjustments c a) l
      (fun n t => n = a.size ∧
        l.store.Patches (Function.update (fun _ => .none) c a) t.store) (fun _ _ => False) := by
  by_cases hempty : a.isEmpty = true
  · obtain rfl := TableAdjustments.eq_none_iff.mpr hempty
    rw [Function.update_eq_self]
    exact ⟨rfl, .refl _⟩
  · rw [Bool.not_eq_true] at hempty
    cases hts : (s.getClass c).tables with
    | none =>
      rw [Store.planAdjustments_of_unlinked hts] at hplan
      cases hplan
      cases hempty
    | some ts =>
      have hplans := Store.planAdjustments_ok hts hplan
      have htsl := htables.trans hts
      refine ((applyAdjustments_outcome (P := fun _ => True) hplans htsl hempty fun _ _ => id).and
        (applyAdjustments_defaults hplans htsl hempty)).imp (fun n t ht => ?_) (fun _ _ h => h.1)
      obtain ⟨⟨hn, hadjusts, htables'⟩, hdefaults⟩ := ht
      refine ⟨hn, hadjusts.methods, hadjusts.size_eq, fun d => ?_⟩
      by_cases hd : d = c
      · subst hd
        rw [Function.update_self, hadjusts.class_eq, hdefaults, htables', hplans.write_eq,
          Class.patched, Class.defaultSlots, htsl]
        rfl
      · rw [Function.update_of_ne hd, Class.patched_none, hadjusts.others d hd]

/-- Writing the plans of a redefinition writes to all planned classes. -/
theorem applyPlans_patches {plans : List (ClassId × TableAdjustments)}
    (hnodup : (plans.map (·.1)).Nodup)
    (hplans : ∀ e ∈ plans, s.planAdjustments e.1 holder isReplaced counterpart? = .ok e.2 ∧
      (l.store.getClass e.1).tables = (s.getClass e.1).tables)
    {planned : ClassId → TableAdjustments} (hmem : ∀ e ∈ plans, planned e.1 = e.2)
    (hnone : ∀ c, c ∉ plans.map (·.1) → planned c = .none) :
    Outcome (applyPlans plans) l
      (fun o t => l.store.Patches planned t.store ∧ (o.2 = none → o.1 = (plans.map (·.2.size)).sum))
      (fun _ _ => False) := by
  induction plans generalizing l planned with
  | nil =>
    obtain rfl : planned = fun _ => .none := funext fun c => hnone c List.not_mem_nil
    exact ⟨.refl _, fun _ => rfl⟩
  | cons e rest ih =>
    obtain ⟨c, a⟩ := e
    obtain ⟨hc, hrest⟩ := List.nodup_cons.mp hnodup
    obtain ⟨hplan, htables⟩ := hplans _ List.mem_cons_self
    -- The other plans are written in the same way whether or not the check of `c` passes.
    have hlater : ∀ u, l.store.Patches (Function.update (fun _ => .none) c a) u.store →
        Outcome (applyPlans rest) u (fun o t => l.store.Patches planned t.store ∧
          (o.2 = none → o.1 = (rest.map (·.2.size)).sum)) (fun _ _ => False) := fun u hu => by
      have hne : ∀ e ∈ rest, e.1 ≠ c :=
        fun e he heq => hc (heq ▸ List.mem_map_of_mem (f := (·.1)) he)
      have hwritten : Outcome (applyPlans rest) u (fun o t =>
          u.store.Patches (Function.update planned c .none) t.store ∧
            (o.2 = none → o.1 = (rest.map (·.2.size)).sum)) (fun _ _ => False) := by
        refine ih hrest (fun e he => ?_) (fun e he => ?_) (fun d hd => ?_)
        · obtain ⟨hplan', htables'⟩ := hplans e (List.mem_cons_of_mem _ he)
          rw [hu.class_eq, Function.update_of_ne (hne e he), Class.patched_none]
          exact ⟨hplan', htables'⟩
        · rw [Function.update_of_ne (hne e he)]
          exact hmem e (List.mem_cons_of_mem _ he)
        · by_cases hdc : d = c
          · rw [hdc, Function.update_self]
          · rw [Function.update_of_ne hdc]
            exact hnone d fun h => (List.mem_cons.mp h).elim hdc hd
      refine hwritten.imp (fun o t ht => ⟨hu.trans ht.1 fun d => ?_, ht.2⟩) (fun _ _ h => h)
      by_cases hdc : d = c
      · rw [hdc, Function.update_self, Function.update_self]
        exact Or.inr ⟨rfl, hmem _ List.mem_cons_self⟩
      · rw [Function.update_of_ne hdc, Function.update_of_ne hdc]
        exact Or.inl ⟨rfl, rfl⟩
    unfold applyPlans
    simp only [outcome_bind, outcome_attempt, checkNoOldEntries, outcome_get, outcome_ofExcept,
      outcome_pure]
    refine (applyAdjustments_patches hplan htables).imp
      (fun n u hu => ⟨fun _ _ => ?_, fun _ _ => ?_⟩) (fun _ _ h => h.elim)
    · refine (hlater u hu.2).imp (fun o t ht => ⟨ht.1, fun hpass => ?_⟩) (fun _ _ h => h)
      rw [List.map_cons, List.sum_cons, hu.1, ht.2 hpass]
    · exact (hlater u hu.2).imp (fun o t ht => ⟨ht.1, fun hfail => by cases hfail⟩)
        (fun _ _ h => h)

/-! ## Planning once the new methods are declared -/

/-- The new methods are declared and the previous ones marked, whatever the tables are by now. -/
structure Declared (l : Linker) (r : RevisedClass) (s : Store) : Prop where
  methods : s.methods = (r.install l.store).methods
  declared : (s.getClass r.holder).methods = r.declared

section Declared

variable (h : Declared l r s) (hl : l.Sound) (hp : l.Prepared holder ds r)
  (hholder : l.store.HasClass r.holder) {m : MethodId}

include h

theorem Declared.getMethod : s.getMethod m = (r.install l.store).getMethod m := by
  rw [Store.getMethod, Store.getMethod, h.methods]

theorem Declared.isOld : s.isOld m = (r.install l.store).isOld m := by
  rw [Store.isOld, Store.isOld, h.getMethod]

theorem Declared.patches {plans : ClassId → TableAdjustments} {s' : Store}
    (hs : s.Patches plans s') : Declared l r s' where
  methods := hs.methods.trans h.methods
  declared := by
    rw [hs.class_eq]
    exact h.declared

include hl hp hholder

/-- A method that was not marked before is marked now exactly if the class declared it. -/
theorem Declared.isReplacedHere
    (hdistinct : ((l.store.getClass r.holder).methods.map l.store.selector).Nodup)
    (hcurrent : l.store.isOld m = false) : s.isReplacedHere r.holder s.isOld m =
      l.store.isReplacedHere r.holder (r.replaces l.store) m := by
  have w := hl.wellFormed
  rw [Bool.eq_iff_iff, isReplacedHere_iff w hholder, Store.isReplacedHere, Bool.and_eq_true,
    h.isOld]
  constructor
  · rintro ⟨-, hold⟩
    by_contra hnot
    rw [RevisedClass.isOld_install w hp.matched hholder hnot, hcurrent] at hold
    cases hold
  · intro hm
    obtain ⟨hhas, hheld⟩ := (w.fits _ hholder).methods m hm
    refine ⟨?_, RevisedClass.isOld_install_of_mem w hp.matched hp.declares hholder hdistinct hm⟩
    rw [Store.isHeldBy, h.getMethod, (RevisedClass.extends_install _ r).holder hhas, hheld]
    exact beq_self_eq_true _

/-- The declared method with the ordinal of a previous one is its counterpart, if it has the
selector. -/
theorem Declared.currentBody?_eq (hordinals : l.store.DistinctOrdinals)
    (hdistinct : ((l.store.getClass r.holder).methods.map l.store.selector).Nodup)
    (hm : m ∈ (l.store.getClass r.holder).methods) :
    currentBody? s r.holder m = r.counterpart? l.store m := by
  have w := hl.wellFormed
  have hmatches := hp.matched
  have hbody : ∀ e ∈ r.methods, (s.getMethod e.1).idnum = e.2.body.idnum ∧
      s.selector e.1 = e.2.body.selector ∧ s.isOld e.1 = false := fun e he => by
    have hget := h.getMethod.trans (RevisedClass.getMethod_of_mem hmatches he)
    refine ⟨by rw [hget], by rw [Store.selector, hget], ?_⟩
    rw [h.isOld]
    exact (RevisedClass.declared_install w hmatches hholder
      (List.mem_map_of_mem (f := (·.1)) he)).2.2
  have hkept : s.selector m = l.store.selector m ∧
      (s.getMethod m).idnum = (l.store.getMethod m).idnum := by
    have hext := (RevisedClass.extends_install l.store r).method_eq m
      ((w.fits _ hholder).methods m hm).1
    rw [Store.selector, h.getMethod, hext]
    exact ⟨rfl, rfl⟩
  refine Option.ext fun n => ?_
  rw [currentBody?, Option.filter_eq_some_iff, Store.withIdnum?, h.declared, hkept.1, hkept.2]
  simp only [Bool.and_eq_true, Bool.not_eq_true', beq_iff_eq]
  constructor
  · rintro ⟨hfind, -, hselector⟩
    obtain ⟨e, he, rfl⟩ := List.mem_map.mp (List.mem_of_find?_eq_some hfind)
    exact (RevisedClass.counterpart_iff hmatches hp.declares hdistinct hm).mpr
      ⟨e.2, he, (hbody e he).2.1.symm.trans hselector⟩
  · intro hn
    obtain ⟨x, hx, hidnum, hselector⟩ := RevisedClass.counterpart_spec hn
    obtain ⟨hx_idnum, hx_selector, hx_current⟩ := hbody _ hx
    refine ⟨?_, hx_current, hx_selector.trans hselector⟩
    -- No other new method has the ordinal, so the search ends at this one.
    have hsome : (r.declared.find? fun m' =>
        (s.getMethod m').idnum = (l.store.getMethod m).idnum).isSome = true := by
      rw [List.find?_isSome]
      exact ⟨n, List.mem_map_of_mem (f := (·.1)) hx, by simp [hx_idnum, hidnum]⟩
    obtain ⟨n', hn'⟩ := Option.isSome_iff_exists.mp hsome
    obtain ⟨e, he, rfl⟩ := List.mem_map.mp (List.mem_of_find?_eq_some hn')
    have he_idnum := List.find?_some hn'
    rw [decide_eq_true_eq, (hbody e he).1] at he_idnum
    have hsame : e = (n, x) := List.inj_on_of_nodup_map
      (RevisedClass.nodup_ordinals hmatches hordinals hp.declares hp.accepted) he hx
      (he_idnum.trans hidnum.symm)
    rw [hn', hsame]

/-- **The same plan is found** before the new methods are declared and after. -/
theorem Declared.planAdjustments (hordinals : l.store.DistinctOrdinals)
    (hdistinct : ((l.store.getClass r.holder).methods.map l.store.selector).Nodup)
    (hcurrent : l.store.checkNoOldEntries c = .ok ())
    (htables : (s.getClass c).tables = (l.store.getClass c).tables)
    (hplan : l.store.planAdjustments c r.holder (r.replaces l.store) (r.counterpart? l.store) =
      .ok a) :
    s.planAdjustments c r.holder s.isOld (currentBody? s r.holder) = .ok a := by
  rw [Store.checkNoOldEntries_iff] at hcurrent
  refine Store.planAdjustments_congr htables (fun m hm => ?_) (fun m hm hreplaced => ?_) hplan
  · exact (h.isReplacedHere hl hp hholder hdistinct (hcurrent m hm)).symm
  · rw [isReplacedHere_iff hl.wellFormed hholder] at hreplaced
    exact (h.currentBody?_eq hl hp hholder hordinals hdistinct hreplaced).symm

/-- What is written refers to no replaced body, as long as nothing did before. -/
theorem Declared.checkNoOldEntries {s' : Store} (hcurrent : l.store.checkNoOldEntries c = .ok ())
    (htables : (s.getClass c).tables = (l.store.getClass c).tables)
    (hplan : l.store.planAdjustments c r.holder (r.replaces l.store) (r.counterpart? l.store) =
      .ok a) (hs : s.Patches (Function.update (fun _ => .none) c a) s') :
    s'.checkNoOldEntries c = .ok () := by
  have w := hl.wellFormed
  rw [Store.checkNoOldEntries_iff] at hcurrent ⊢
  rintro m ⟨ts', hts', hm⟩
  rw [hs.class_eq, Function.update_self, Class.patched, htables] at hts'
  obtain ⟨ts, hts, rfl⟩ := Option.map_eq_some_iff.mp hts'
  have hplans := Store.planAdjustments_ok hts hplan
  rw [show a.writeTo ts = ts.exchange (l.successor r) from hplans.write_eq.symm] at hm
  obtain ⟨old, hold, rfl⟩ := Tables.refers_exchange.mp hm
  rw [(h.patches hs).isOld]
  by_cases hmem : old ∈ (l.store.getClass r.holder).methods
  · have hreplaced := (isReplacedHere_iff w hholder).mpr hmem
    obtain ⟨new, hnew⟩ := Option.isSome_iff_exists.mp (hplans.complete old hold hreplaced)
    rw [successor, Store.current, Store.replacement?, hreplaced, if_pos rfl, hnew,
      Option.getD_some]
    exact (RevisedClass.declared_install w hp.matched hholder
      (RevisedClass.mem_declared_of_counterpart hnew)).2.2
  · rw [successor_of_not_mem w hholder hmem,
      RevisedClass.isOld_install w hp.matched hholder hmem]
    exact hcurrent old ⟨ts, hts, hold⟩

end Declared

/-! ## Adjusting class by class -/

/-- The plan that a redefinition makes for a class. -/
def plannedFor (l : Linker) (r : RevisedClass) (c : ClassId) : TableAdjustments :=
  match l.store.planAdjustments c r.holder (r.replaces l.store) (r.counterpart? l.store) with
  | .ok a => a
  | .error _ => .none

theorem plannedFor_of_ok
    (h : l.store.planAdjustments c r.holder (r.replaces l.store) (r.counterpart? l.store) = .ok a) :
    l.plannedFor r c = a := by
  rw [plannedFor, h]

/-- Adjusting one class, once the new methods are declared, writes what is planned for it. -/
theorem adjustEntries_patches (hl : l.Sound) (hordinals : l.store.DistinctOrdinals)
    (hp : l.Prepared holder ds r) (hholder : l.store.HasClass r.holder)
    (hdistinct : ((l.store.getClass r.holder).methods.map l.store.selector).Nodup)
    (hu : Declared l r u.store) (hcurrent : l.store.checkNoOldEntries c = .ok ())
    (htables : (u.store.getClass c).tables = (l.store.getClass c).tables)
    (hplan : l.store.planAdjustments c r.holder (r.replaces l.store) (r.counterpart? l.store) =
      .ok a) :
    Outcome (adjustEntries c r.holder) u
      (fun n t => n = a.size ∧ u.store.Patches (Function.update (fun _ => .none) c a) t.store)
      (fun _ _ => False) := by
  unfold adjustEntries
  simp only [outcome_bind, outcome_get, outcome_ofExcept,
    hu.planAdjustments hl hp hholder hordinals hdistinct hcurrent htables hplan, Except.ok.injEq,
    forall_eq', reduceCtorEq, false_implies, implies_true, and_true]
  refine (applyAdjustments_patches hplan htables).imp (fun n t ht => ?_) (fun _ _ h => h)
  simp only [checkNoOldEntries, outcome_bind, outcome_get, outcome_ofExcept, outcome_pure,
    hu.checkNoOldEntries hl hp hholder hcurrent htables hplan ht.2, reduceCtorEq, false_implies,
    implies_true, and_true]
  exact fun _ _ => ht

/-- Adjusting classes one after the other writes what is planned for each. -/
theorem mapM_adjustEntries (hl : l.Sound) (hordinals : l.store.DistinctOrdinals)
    (hp : l.Prepared holder ds r) (hholder : l.store.HasClass r.holder)
    (hdistinct : ((l.store.getClass r.holder).methods.map l.store.selector).Nodup)
    (hu : Declared l r u.store) (hnodup : cs.Nodup)
    (hcs : ∀ c ∈ cs, l.store.checkNoOldEntries c = .ok () ∧
      (u.store.getClass c).tables = (l.store.getClass c).tables ∧
      ∃ a, l.store.planAdjustments c r.holder (r.replaces l.store) (r.counterpart? l.store) =
        .ok a) :
    Outcome (cs.mapM fun c => adjustEntries c r.holder) u
      (fun counts t => counts = cs.map (fun c => (l.plannedFor r c).size) ∧
        u.store.Patches (fun c => if c ∈ cs then l.plannedFor r c else .none) t.store)
      (fun _ _ => False) := by
  induction cs generalizing u with
  | nil => exact ⟨rfl, .refl _⟩
  | cons c rest ih =>
    obtain ⟨hc, hrest⟩ := List.nodup_cons.mp hnodup
    obtain ⟨hcurrent, htables, a, hplan⟩ := hcs c List.mem_cons_self
    rw [List.mapM_cons]
    simp only [outcome_bind, outcome_pure]
    refine (adjustEntries_patches hl hordinals hp hholder hdistinct hu hcurrent htables hplan).imp
      (fun n v hv => ?_) (fun _ _ h => h)
    refine (ih (hu.patches hv.2) hrest fun d hd => ?_).imp
      (fun counts t ht => ⟨?_, hv.2.trans ht.2 fun d => ?_⟩) (fun _ _ h => h)
    · obtain ⟨hcurrent', htables', hplan'⟩ := hcs d (List.mem_cons_of_mem _ hd)
      have hne : d ≠ c := fun heq => hc (heq ▸ hd)
      rw [hv.2.class_eq, Function.update_of_ne hne, Class.patched_none]
      exact ⟨hcurrent', htables', hplan'⟩
    · rw [List.map_cons, ht.1, hv.1, plannedFor_of_ok hplan]
    · by_cases hdc : d = c
      · subst hdc
        simp [hc, plannedFor_of_ok hplan]
      · simp [hdc]

/-! ## The two ways -/

/-- Writing the plans of a redefinition writes what is planned for each registered class. -/
theorem applyPlans_plannedFor (hl : l.Sound) (hholder : l.store.HasClass r.holder)
    {plans : List (ClassId × TableAdjustments)}
    (hplan : r.plan l.store l.registry.all = .ok plans)
    (hu : ∀ c, (u.store.getClass c).tables = (l.store.getClass c).tables) :
    Outcome (applyPlans plans) u
      (fun o t =>
        u.store.Patches (fun c => if c ∈ l.registry.all then l.plannedFor r c else .none) t.store ∧
        (o.2 = none → o.1 = (l.registry.all.map fun c => (l.plannedFor r c).size).sum))
      (fun _ _ => False) := by
  have w := hl.wellFormed
  obtain ⟨hsub, hplans, hall⟩ := RevisedClass.plan_ok hplan
  have hsize : (plans.map (·.2.size)).sum =
      (l.registry.all.map fun c => (l.plannedFor r c).size).sum := by
    rw [RevisedClass.plan_size_eq w hholder hplan]
    refine congrArg _ (List.map_congr_left fun c hc => ?_)
    obtain ⟨a, ha, -⟩ := hall c hc
    rw [plannedFor_of_ok ha, RevisedClass.size_of_planned w hholder ha]
  refine (applyPlans_patches (hsub.nodup hl.nodup) (fun e he => ⟨(hplans e he).1, hu e.1⟩)
    (fun e he => ?_) fun c hc => ?_).imp (fun o t ht => ⟨ht.1, fun hnone => ?_⟩) (fun _ _ h => h)
  · have hmem : e.1 ∈ l.registry.all := hsub.subset (List.mem_map_of_mem (f := (·.1)) he)
    rw [if_pos hmem, plannedFor_of_ok (hplans e he).1]
  · split
    · rename_i hmem
      obtain ⟨a, ha, hempty⟩ := hall c hmem
      rw [plannedFor_of_ok ha, TableAdjustments.eq_none_iff]
      exact hempty.resolve_right fun hplanned =>
        hc (List.mem_map_of_mem (f := fun e : ClassId × TableAdjustments => e.1) hplanned)
    · rfl
  · rw [ht.2 hnone, hsize]

/-- What a redefinition that succeeds has done. -/
theorem redefine_stages (holder : ClassId) (ds : List Declaration) :
    Outcome (redefine holder ds) l
      (fun report t => ∃ r before plans count u, l.store.Linked holder ∧
        revise holder ds l = .ok r before ∧
        r.plan before.store before.registry.all = .ok plans ∧
        applyPlans plans (before.mapStore r.install) = .ok (count, none) u ∧
        t.store = u.store ∧ report = r.report before.store count)
      (fun _ _ => True) := by
  unfold redefine
  simp only [outcome_bind, outcome_get, outcome_ite, outcome_throw, outcome_ofExcept,
    outcome_modify, implies_true, true_and, and_true]
  intro hlinked
  refine (revise_outcome ds).eqn.imp (fun r before hr plans hplans => ?_) (fun _ _ _ => trivial)
  cases hrun : applyPlans plans (before.mapStore r.install) with
  | error e u => exact (outcome_of_error hrun).mpr trivial
  | ok outcome u =>
    rw [outcome_of_ok hrun]
    obtain ⟨count, failure⟩ := outcome
    cases failure with
    | some e => trivial
    | none =>
      simp only [outcome_bind, outcome_modify, outcome_trace, outcome_pure]
      refine ⟨r, before, plans, count, u, by simpa [Store.Linked] using hlinked, hr.1, hplans,
        hrun, ?_, rfl⟩
      split <;> rfl

/-- **Adjusting every registered class leads where the redefinition leads**, in whatever order they
are taken.  In every state in which no table of a registered class refers to a replaced body, let a
redefinition succeed of a class that declares no selector twice.  Once the same new methods are
declared and the previous ones marked, adjusting class after class succeeds, leads to the same
store, and counts as many entries. -/
theorem adjustEntries_eq_redefine (h : Maintained l)
    (hcurrent : ∀ c ∈ l.registry.all, l.store.checkNoOldEntries c = .ok ())
    (hdistinct : ((l.store.getClass holder).methods.map l.store.selector).Nodup)
    (hrun : redefine holder ds l = .ok report t) :
    ∃ r before, revise holder ds l = .ok r before ∧
      ∀ cs : List ClassId, cs.Perm l.registry.all → ∃ counts u,
        (cs.mapM fun c => adjustEntries c holder) (before.mapStore r.install) = .ok counts u ∧
        u.store = t.store ∧ counts.sum = report.entriesAdjusted := by
  have hl := h.sound
  have w := hl.wellFormed
  obtain ⟨r, before, plans, count, v, hlinked, hrevise, hplan, happly, htv, rfl⟩ :=
    (redefine_stages holder ds).of_ok hrun
  obtain ⟨hnumbers, rfl, hmatches, -⟩ := (revise_outcome ds).of_ok hrevise
  rw [hnumbers.store, all_eq_of_classes hnumbers.classes] at hplan
  have hp : l.Prepared r.holder ds r := ⟨hlinked, ⟨before, hrevise⟩, plans, hplan⟩
  obtain ⟨ts, hts⟩ := Store.linked_iff.mp hlinked
  have hholder := Store.hasClass_of_tables hts
  have hstore : (before.mapStore r.install).store = r.install l.store :=
    congrArg r.install hnumbers.store
  have htables : ∀ c, ((before.mapStore r.install).store.getClass c).tables =
      (l.store.getClass c).tables := fun c => by
    rw [hstore, RevisedClass.tables_install]
  have hdeclared : Declared l r (before.mapStore r.install).store := by
    rw [hstore]
    exact ⟨rfl, (RevisedClass.methods_install hholder r.holder).trans (if_pos rfl)⟩
  obtain ⟨-, -, hall⟩ := RevisedClass.plan_ok hplan
  obtain ⟨hredefine, hcount⟩ := (applyPlans_plannedFor hl hholder hplan htables).of_ok happly
  refine ⟨r, before, hrevise, fun cs hcs => ?_⟩
  obtain ⟨counts, u, hadjust, rfl, hpatches⟩ := (mapM_adjustEntries hl h.distinctOrdinals hp hholder
    hdistinct hdeclared (hcs.nodup_iff.mpr hl.nodup) fun c hc => by
      have hmem := hcs.subset hc
      obtain ⟨a, ha, -⟩ := hall c hmem
      exact ⟨hcurrent c hmem, htables c, a, ha⟩).exists_ok
  refine ⟨_, u, hadjust, ?_, ?_⟩
  · simp only [hcs.mem_iff] at hpatches
    rw [htv]
    exact hpatches.unique hredefine
  · exact (hcs.map _).sum_nat.trans (hcount rfl).symm

/-- A class that overrides one of the two defaults of an interface, linked together with a
subclass. -/
def overriddenRun : List Command :=
  [.define { name := "Object" },
   .define { name := "I", flags := .makeInterface {}
             methods := [publicMethod "f" [1], publicMethod "g" [1]] },
   .define { name := "A", superclass := some ⟨0⟩, interfaces := [⟨1⟩]
             methods := [publicMethod "g" [1]] },
   .define { name := "B", superclass := some ⟨2⟩ },
   .link ⟨3⟩]

/-- A new body for the other default, which two virtual tables and two interface tables refer to. -/
theorem overriddenRun_adjusts :
    ∃ report t, redefine ⟨1⟩ [publicMethod "g" [1], publicMethod "f" [2]]
        (finish { config := .minimal } overriddenRun) = .ok report t ∧
      report.entriesAdjusted = 4 ∧ ∃ r before,
        revise ⟨1⟩ [publicMethod "g" [1], publicMethod "f" [2]]
          (finish { config := .minimal } overriddenRun) = .ok r before ∧
        ∀ cs : List ClassId, cs.Perm (finish { config := .minimal } overriddenRun).registry.all →
          ∃ counts u,
            (cs.mapM fun c => adjustEntries c ⟨1⟩) (before.mapStore r.install) = .ok counts u ∧
            u.store = t.store ∧ counts.sum = report.entriesAdjusted := by
  have hstart : Reachable (fun _ => True) { config := .minimal } := .start ⟨rfl, rfl⟩ trivial
  have hreach : Reachable (fun _ => True) (finish { config := .minimal } overriddenRun) :=
    hstart.finish (by decide +kernel)
  obtain ⟨report, t, hok, hcount⟩ := Outcome.exists_ok
    (x := redefine ⟨1⟩ [publicMethod "g" [1], publicMethod "f" [2]])
    (s := finish { config := .minimal } overriddenRun)
    (Q := fun report _ => report.entriesAdjusted = 4) (by decide +kernel)
  exact ⟨report, t, hok, hcount, adjustEntries_eq_redefine hreach.maintained (by decide +kernel)
    (by decide +kernel) hok⟩

end Linker
end ClassLinking
