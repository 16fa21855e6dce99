import ClassLinking.Proofs.Adjustment
import ClassLinking.Redefinition

/-!
# What a redefinition does

A redefinition has two halves.  The first matches the new list of methods to the declared ones and
plans the tables of every registered class; it takes method tokens and changes nothing else
(`Linker.Numbers`).  The second half declares the new methods, marks the old ones and writes the
plans.  Nothing in it can be refused but the check at its end, that no table which was adjusted
refers to a replaced body.

* `RevisedClass.Matches` --- what the first half finds out;
* `RevisedClass.installs` --- what declaring the new methods makes of the store;
* `applyPlans_outcome` --- what writing the plans makes of the tables;
* `redefine_outcome` --- the whole of it.
-/

namespace ClassLinking

namespace Linker

/-- Method tokens were taken, and nothing else has changed. -/
def Numbers (l t : Linker) : Prop :=
  ∃ n, t = { l with registry := l.registry.takeMethodTokens n }

variable {l t u : Linker} {holder : ClassId}

theorem Numbers.refl (l : Linker) : l.Numbers l := ⟨0, rfl⟩

theorem Numbers.trans (h : l.Numbers t) (h' : t.Numbers u) : l.Numbers u := by
  obtain ⟨n, rfl⟩ := h
  obtain ⟨n', rfl⟩ := h'
  exact ⟨n + n', by simp [Registry.takeMethodTokens, Nat.add_assoc]⟩

theorem Numbers.store (h : l.Numbers t) : t.store = l.store := by
  obtain ⟨n, rfl⟩ := h
  rfl

theorem Numbers.statistics (h : l.Numbers t) : t.statistics = l.statistics := by
  obtain ⟨n, rfl⟩ := h
  rfl

theorem Numbers.classes (h : l.Numbers t) : t.registry.classes = l.registry.classes := by
  obtain ⟨n, rfl⟩ := h
  rfl

theorem takeMethodToken_outcome :
    Outcome takeMethodToken l (fun _ t => l.Numbers t) (fun _ _ => False) :=
  ⟨1, rfl⟩

end Linker

/-! ## Matching the new methods -/

/-- A body with the selector, the access level, the modifiers and the code of a declaration. -/
structure Declaration.Describes (d : Declaration) (x : Method) : Prop where
  selector : x.selector = d.selector
  access : x.access = .ofWord d.word
  modifiers : x.modifiers = .ofWord d.word
  code : x.code = d.code

namespace RevisedMethod

/-- A new body for a declared method of `holder`, or a method added to it. -/
structure Matches (s : Store) (holder : ClassId) (x : RevisedMethod) : Prop where
  held : x.body.holder = some holder
  revision : x.body.revision = .current
  previous : x.previous = s.declared? holder x.body.selector .all
  idnum : ∀ old, x.previous = some old → x.body.idnum = (s.getMethod old).idnum

end RevisedMethod

namespace RevisedClass

/-- The new methods of a class, matched to the declared ones. -/
structure Matches (s : Store) (r : RevisedClass) : Prop where
  declared : r.declared = s.nextMethods r.methods.length
  methods : ∀ x ∈ r.methods, x.2.Matches s r.holder
  removed : r.removed = s.withoutBody r.holder (r.methods.map (·.2.body))

/-- The new methods are those of a list of declarations, in order, with one for each selector. -/
structure Declares (r : RevisedClass) (ds : List Declaration) : Prop where
  bodies : List.Forall₂ (fun d x => d.Describes x.2.body) ds r.methods
  distinct : (ds.map (·.selector)).Nodup

end RevisedClass

namespace Linker

variable {l t u : Linker} {holder : ClassId}

theorem reviseOne_outcome (next : Nat) (d : Declaration) :
    Outcome (reviseOne holder next d) l
      (fun x t => l.Numbers t ∧ x.Matches l.store holder ∧ d.Describes x.body)
      (fun _ t => l.Numbers t) := by
  unfold reviseOne
  simp only [outcome_bind, outcome_get]
  cases hprevious : l.store.declared? holder d.selector .all with
  | some previous =>
    simp only [outcome_bind, outcome_ite, outcome_throw, outcome_pure]
    refine takeMethodToken_outcome.imp (fun token t ht => ⟨fun _ => ht, fun _ => ⟨ht, ?_, ?_⟩⟩)
      (fun _ _ h => h.elim)
    · refine ⟨rfl, rfl, hprevious.symm, fun old hold => ?_⟩
      cases hold
      rfl
    · exact ⟨rfl, rfl, rfl, rfl⟩
  | none =>
    simp only [outcome_bind, outcome_ite, outcome_throw, outcome_pure]
    refine ⟨fun _ => .refl l, fun _ => ?_⟩
    refine takeMethodToken_outcome.imp (fun token t ht => ⟨fun _ => ht, fun _ => ⟨ht, ?_, ?_⟩⟩)
      (fun _ _ h => h.elim)
    · exact ⟨rfl, rfl, hprevious.symm, fun old hold => by cases hold⟩
    · exact ⟨rfl, rfl, rfl, rfl⟩

theorem reviseAll_outcome (next : Nat) (done : List Selector) (ds : List Declaration) :
    Outcome (reviseAll holder next done ds) l
      (fun xs t => l.Numbers t ∧ (∀ x ∈ xs, x.Matches l.store holder) ∧
        List.Forall₂ (fun d x => d.Describes x.body) ds xs ∧ (ds.map (·.selector)).Nodup ∧
        ∀ d ∈ ds, d.selector ∉ done) (fun _ t => l.Numbers t) := by
  induction ds generalizing l next done with
  | nil =>
    exact ⟨.refl l, fun x hx => absurd hx List.not_mem_nil, .nil, List.nodup_nil,
      fun d hd => absurd hd List.not_mem_nil⟩
  | cons d rest ih =>
    unfold reviseAll
    simp only [outcome_bind, outcome_get, outcome_ite, outcome_throw, outcome_pure]
    refine ⟨fun _ => .refl l, fun hdone => ?_⟩
    rw [List.contains_iff_mem] at hdone
    refine (reviseOne_outcome next d).imp (fun x t hx => ?_) (fun _ _ h => h)
    refine (ih _ _).imp (fun xs u hxs => ?_) (fun _ u hu => hx.1.trans hu)
    obtain ⟨hnumbers, hmatches, hbodies, hdistinct, hfresh⟩ := hxs
    refine ⟨hx.1.trans hnumbers, fun y hy => ?_, .cons hx.2.2 hbodies, ?_, fun e he => ?_⟩
    · rcases List.mem_cons.mp hy with rfl | hy
      · exact hx.2.1
      · have := hmatches y hy
        rwa [hx.1.store] at this
    · refine List.nodup_cons.mpr ⟨fun hmem => ?_, hdistinct⟩
      obtain ⟨e, he, heq⟩ := List.mem_map.mp hmem
      exact hfresh e he (heq ▸ List.mem_cons_self)
    · rcases List.mem_cons.mp he with rfl | he
      · exact hdone
      · exact fun hmem => hfresh e he (List.mem_cons_of_mem _ hmem)

/-- Matching a list of methods takes tokens only. -/
theorem revise_outcome (ds : List Declaration) :
    Outcome (revise holder ds) l
      (fun r t => l.Numbers t ∧ r.holder = holder ∧ r.Matches l.store ∧ r.Declares ds)
      (fun _ t => l.Numbers t) := by
  unfold revise
  simp only [outcome_bind, outcome_get]
  refine (reviseAll_outcome _ _ ds).imp (fun revised t h => ?_) (fun _ _ h => h)
  obtain ⟨hnumbers, hmatches, hdescribes, hdistinct, -⟩ := h
  have hsnd : ((l.store.nextMethods revised.length).zip revised).map (·.2) = revised :=
    List.map_snd_zip (by rw [Store.length_nextMethods])
  have hlength : ((l.store.nextMethods revised.length).zip revised).length = revised.length := by
    rw [← List.length_map (f := fun x : MethodId × RevisedMethod => x.2), hsnd]
  split
  · exact hnumbers
  · refine ⟨hnumbers, rfl, ⟨?_, fun x hx => hmatches x.2 (List.of_mem_zip hx).2, ?_⟩, ?_, hdistinct⟩
    · simp only [RevisedClass.declared, hlength]
      exact List.map_fst_zip (by rw [Store.length_nextMethods])
    · have hbodies : ((l.store.nextMethods revised.length).zip revised).map (·.2.body) =
          revised.map (·.body) := by
        conv_rhs => rw [← hsnd, List.map_map]
        rfl
      exact congrArg (l.store.withoutBody holder) hbodies.symm
    · rw [← hsnd, List.forall₂_map_right_iff] at hdescribes
      exact hdescribes

end Linker

/-! ## Marking methods -/

namespace Store

variable {s : Store} {marks : List (MethodId × Revision)} {m : MethodId}

/-- The store with each method of a list marked. -/
def mark (s : Store) (marks : List (MethodId × Revision)) : Store :=
  marks.foldl (fun s e => s.setRevision e.1 e.2) s

@[simp] theorem classes_mark : (s.mark marks).classes = s.classes := by
  unfold mark
  induction marks generalizing s with
  | nil => rfl
  | cons e marks ih =>
    rw [List.foldl_cons, ih]
    rfl

@[simp] theorem size_mark : (s.mark marks).methods.size = s.methods.size := by
  unfold mark
  induction marks generalizing s with
  | nil => rfl
  | cons e marks ih => rw [List.foldl_cons, ih, setRevision, size_modifyMethod]

/-- Marking changes nothing of a method but its revision. -/
theorem getMethod_mark :
    (s.mark marks).getMethod m =
      { s.getMethod m with revision := ((s.mark marks).getMethod m).revision } := by
  unfold mark
  induction marks generalizing s with
  | nil => rfl
  | cons e marks ih =>
    rw [List.foldl_cons, ih]
    have h : ∀ r, { (s.setRevision e.1 e.2).getMethod m with revision := r } =
        { s.getMethod m with revision := r } := by
      intro r
      rw [setRevision, getMethod_modifyMethod]
      split <;> rfl
    rw [h]

/-- A method is old afterwards if it was before or if it is marked as old. -/
theorem isOld_mark (hold : ∀ e ∈ marks, e.2.isOld = true) (hm : s.HasMethod m) :
    (s.mark marks).isOld m = (s.isOld m || decide (m ∈ marks.map (·.1))) := by
  unfold mark
  induction marks generalizing s with
  | nil => simp
  | cons e marks ih =>
    have hhas : (s.setRevision e.1 e.2).HasMethod m := (hasMethod_modifyMethod ..).mpr hm
    have hhead : (s.setRevision e.1 e.2).isOld m = (s.isOld m || decide (m = e.1)) := by
      rw [isOld, setRevision, getMethod_modifyMethod]
      by_cases he : e.1 = m
      · rw [if_pos ⟨he, he ▸ hm⟩, hold e List.mem_cons_self, decide_eq_true he.symm,
          Bool.or_true]
      · rw [if_neg fun h => he h.1, decide_eq_false fun h => he h.symm, Bool.or_false, isOld]
    rw [List.foldl_cons, ih (fun e' he' => hold e' (List.mem_cons_of_mem _ he')) hhas, hhead,
      Bool.or_assoc, ← Bool.decide_or]
    simp only [List.map_cons, List.mem_cons]

/-- A method that is not marked stays as it is. -/
theorem getMethod_mark_of_not_mem (h : ∀ e ∈ marks, e.1 ≠ m) :
    (s.mark marks).getMethod m = s.getMethod m := by
  unfold mark
  induction marks generalizing s with
  | nil => rfl
  | cons e marks ih =>
    rw [List.foldl_cons, ih fun e' he' => h e' (List.mem_cons_of_mem _ he'), setRevision,
      getMethod_modifyMethod, if_neg fun hem => h e List.mem_cons_self hem.1]

/-- A method has the revision that it is marked with, if all its marks agree. -/
theorem revision_mark {revision : Revision} (hm : s.HasMethod m) (hmem : ∃ e ∈ marks, e.1 = m)
    (hsame : ∀ e ∈ marks, e.1 = m → e.2 = revision) :
    ((s.mark marks).getMethod m).revision = revision := by
  unfold mark
  induction marks generalizing s with
  | nil =>
    obtain ⟨e, he, -⟩ := hmem
    exact absurd he List.not_mem_nil
  | cons e marks ih =>
    rw [List.foldl_cons]
    by_cases hrest : ∃ e' ∈ marks, e'.1 = m
    · exact ih ((hasMethod_modifyMethod ..).mpr hm) hrest fun e' he' =>
        hsame e' (List.mem_cons_of_mem _ he')
    · have hem : e.1 = m := by
        obtain ⟨e', he', heq⟩ := hmem
        rcases List.mem_cons.mp he' with rfl | he'
        · exact heq
        · exact absurd ⟨e', he', heq⟩ hrest
      have hkeeps := getMethod_mark_of_not_mem (s := s.setRevision e.1 e.2) (m := m)
        fun e' he' heq => hrest ⟨e', he', heq⟩
      unfold mark at hkeeps
      rw [hkeeps, setRevision, getMethod_modifyMethod, if_pos ⟨hem, hem ▸ hm⟩]
      exact hsame e List.mem_cons_self hem

end Store

/-! ## Declaring the new methods -/

namespace RevisedClass

variable {s : Store} {root : Option ClassId} {r : RevisedClass} {c : ClassId} {m : MethodId}

/-- The methods that stop being declared, with their revisions. -/
def marks (r : RevisedClass) (s : Store) : List (MethodId × Revision) :=
  r.revisions s ++ r.removed.map fun m => (m, .deleted)

theorem install_eq : r.install s =
    ((s.addMethods (r.methods.map (·.2.body))).modifyClass r.holder
      fun k => { k with methods := r.declared }).mark (r.marks s) := rfl

theorem isOld_of_mem_marks {e : MethodId × Revision} (h : e ∈ r.marks s) : e.2.isOld = true := by
  rw [marks, List.mem_append] at h
  rcases h with h | h
  · obtain ⟨x, -, hx⟩ := List.mem_filterMap.mp h
    obtain ⟨old, -, rfl⟩ := Option.map_eq_some_iff.mp hx
    dsimp only
    split <;> rfl
  · obtain ⟨m, -, rfl⟩ := List.mem_map.mp h
    rfl

/-- Only methods that were declared so far stop being declared. -/
theorem mem_methods_of_mem_marks (h : r.Matches s) {e : MethodId × Revision} (he : e ∈ r.marks s) :
    e.1 ∈ (s.getClass r.holder).methods := by
  rw [marks, List.mem_append] at he
  rcases he with he | he
  · obtain ⟨x, hx, hprevious⟩ := List.mem_filterMap.mp he
    obtain ⟨old, hold, rfl⟩ := Option.map_eq_some_iff.mp hprevious
    rw [(h.methods x hx).previous] at hold
    exact (Store.findAmong?_some hold).1
  · obtain ⟨m, hm, rfl⟩ := List.mem_map.mp he
    rw [h.removed] at hm
    exact (List.mem_filter.mp hm).1

theorem mem_declared (h : r.Matches s) :
    m ∈ r.declared ↔ s.methods.size ≤ m.index ∧ m.index < s.methods.size + r.methods.length := by
  rw [h.declared, Store.mem_nextMethods]

theorem getClass_install (s : Store) (r : RevisedClass) (c : ClassId) :
    (r.install s).getClass c = if r.holder = c ∧ s.HasClass r.holder
      then { s.getClass c with methods := r.declared } else s.getClass c := by
  rw [install_eq, Store.getClass, Store.classes_mark]
  exact Store.getClass_modifyClass (s.addMethods (r.methods.map (·.2.body))) r.holder c _

theorem methods_install (hholder : s.HasClass r.holder) (c : ClassId) :
    ((r.install s).getClass c).methods =
      if c = r.holder then r.declared else (s.getClass c).methods := by
  rw [getClass_install]
  by_cases hc : c = r.holder
  · rw [if_pos hc, if_pos ⟨hc.symm, hholder⟩]
  · rw [if_neg hc, if_neg fun hh => hc hh.1.symm]

theorem defaults_install (s : Store) (r : RevisedClass) (c : ClassId) :
    ((r.install s).getClass c).defaults = (s.getClass c).defaults := by
  rw [getClass_install]
  split <;> rfl

theorem tables_install (s : Store) (r : RevisedClass) (c : ClassId) :
    ((r.install s).getClass c).tables = (s.getClass c).tables := by
  rw [getClass_install]
  split <;> rfl

theorem getMethod_install (s : Store) (r : RevisedClass) (m : MethodId) :
    (r.install s).getMethod m =
      { (s.addMethods (r.methods.map (·.2.body))).getMethod m with
        revision := ((r.install s).getMethod m).revision } := by
  rw [install_eq]
  exact Store.getMethod_mark

theorem size_install (s : Store) (r : RevisedClass) :
    (r.install s).classes.size = s.classes.size ∧
      (r.install s).methods.size = s.methods.size + r.methods.length := by
  rw [install_eq, Store.classes_mark, Store.size_mark, Store.size_modifyClass,
    Store.methods_modifyClass, Store.size_addMethods, List.length_map]
  exact ⟨rfl, rfl⟩

/-- Nothing else of the store changes. -/
theorem extends_install (s : Store) (r : RevisedClass) : s.Extends (r.install s) where
  classes_le := by rw [(size_install s r).1]
  methods_le := by
    rw [(size_install s r).2]
    exact Nat.le_add_right ..
  class_eq := fun c _ => by
    rw [getClass_install]
    split <;> rfl
  method_eq := fun m hm => by
    rw [getMethod_install, Store.getMethod_addMethods_of_has _ _ _ hm]

/-- A new method is added with the body that was matched for it. -/
theorem getMethod_added (h : r.Matches s) {x : RevisedMethod} (hx : (m, x) ∈ r.methods) :
    ¬ s.HasMethod m ∧ (s.addMethods (r.methods.map (·.2.body))).getMethod m = x.body := by
  obtain ⟨j, hj, heq⟩ := List.getElem_of_mem hx
  have hindex : m = ⟨s.methods.size + j⟩ := by
    have hdeclared : r.declared[j]? = some m := by
      rw [declared, List.getElem?_map, List.getElem?_eq_getElem hj, heq]
      rfl
    rw [h.declared, Store.nextMethods, List.getElem?_map, List.getElem?_range hj] at hdeclared
    exact (Option.some.inj hdeclared).symm
  have hbody : (r.methods.map (·.2.body))[j]? = some x.body := by
    rw [List.getElem?_map, List.getElem?_eq_getElem hj, heq]
    rfl
  refine ⟨fun hm => ?_, ?_⟩
  · rw [Store.HasMethod, hindex] at hm
    exact absurd hm (by simp)
  · rw [hindex, Store.getMethod_addMethods_next _ _ hbody]

/-- Nothing of a new method is decided by declaring it but its revision. -/
theorem getMethod_of_mem (h : r.Matches s) {x : RevisedMethod} (hx : (m, x) ∈ r.methods) :
    (r.install s).getMethod m =
      { x.body with revision := ((r.install s).getMethod m).revision } := by
  rw [getMethod_install, (getMethod_added h hx).2]

/-- The methods that are declared from now on are held by the class and current. -/
theorem declared_install (w : s.WellFormed root) (h : r.Matches s)
    (hholder : s.HasClass r.holder) (hm : m ∈ r.declared) :
    (r.install s).HasMethod m ∧ ((r.install s).getMethod m).holder = some r.holder ∧
      (r.install s).isOld m = false := by
  obtain ⟨⟨m, x⟩, hx, rfl⟩ := List.mem_map.mp hm
  obtain ⟨hnew, hbody⟩ := getMethod_added h hx
  have hlt := ((mem_declared h).mp hm).2
  have hmatches := h.methods _ hx
  refine ⟨?_, ?_, ?_⟩
  · rw [Store.HasMethod, (size_install s r).2]
    exact hlt
  · rw [getMethod_of_mem h hx]
    exact hmatches.held
  · have hhas : ((s.addMethods (r.methods.map (·.2.body))).modifyClass r.holder
        fun k => { k with methods := r.declared }).HasMethod m := by
      rw [Store.hasMethod_modifyClass, Store.hasMethod_addMethods, List.length_map]
      exact hlt
    rw [install_eq, Store.isOld_mark (fun e he => isOld_of_mem_marks he) hhas, Store.isOld,
      Store.getMethod_modifyClass, hbody, hmatches.revision, decide_eq_false]
    · rfl
    · intro hmark
      obtain ⟨e, he, rfl⟩ := List.mem_map.mp hmark
      exact hnew ((w.fits _ hholder).methods _ (mem_methods_of_mem_marks h he)).1

theorem isOld_install_of_has (h : r.Matches s) (hm : s.HasMethod m)
    (hnot : m ∉ (s.getClass r.holder).methods) : (r.install s).isOld m = s.isOld m := by
  have hhas : ((s.addMethods (r.methods.map (·.2.body))).modifyClass r.holder
      fun k => { k with methods := r.declared }).HasMethod m := by
    rw [Store.hasMethod_modifyClass, Store.hasMethod_addMethods]
    exact Nat.lt_add_right _ hm
  rw [install_eq, Store.isOld_mark (fun e he => isOld_of_mem_marks he) hhas, Store.isOld,
    Store.getMethod_modifyClass, Store.getMethod_addMethods_of_has _ _ _ hm, decide_eq_false,
    Bool.or_false, Store.isOld]
  intro hmark
  obtain ⟨e, he, rfl⟩ := List.mem_map.mp hmark
  exact hnot (mem_methods_of_mem_marks h he)

/-- A method that was not declared by the class stays as old as it is. -/
theorem isOld_install (w : s.WellFormed root) (h : r.Matches s) (hholder : s.HasClass r.holder)
    (hnot : m ∉ (s.getClass r.holder).methods) : (r.install s).isOld m = s.isOld m := by
  by_cases hm : s.HasMethod m
  · exact isOld_install_of_has h hm hnot
  · rw [Store.isOld, Store.isOld, Store.getMethod_of_not hm]
    by_cases hdeclared : m ∈ r.declared
    · exact (declared_install w h hholder hdeclared).2.2
    · have hno : ¬ (r.install s).HasMethod m := fun hhas => hdeclared ((mem_declared h).mpr (by
        rw [Store.HasMethod, (size_install s r).2] at hhas
        rw [Store.HasMethod] at hm
        omega))
      rw [Store.getMethod_of_not hno]

/-- A counterpart is one of the new methods, with the same ordinal and the same selector. -/
theorem counterpart_spec {old new : MethodId} (h : r.counterpart? s old = some new) :
    ∃ x, (new, x) ∈ r.methods ∧ x.body.idnum = (s.getMethod old).idnum ∧
      x.body.selector = s.selector old := by
  unfold counterpart? at h
  obtain ⟨⟨m, x⟩, hx, rfl⟩ := Option.map_eq_some_iff.mp h
  have hsame := List.find?_some hx
  simp only [Bool.and_eq_true, decide_eq_true_eq] at hsame
  exact ⟨x, List.mem_of_find?_eq_some hx, hsame⟩

theorem mem_declared_of_counterpart {old new : MethodId} (h : r.counterpart? s old = some new) :
    new ∈ r.declared := by
  obtain ⟨x, hx, -⟩ := counterpart_spec h
  exact List.mem_map_of_mem (f := (·.1)) hx

/-- The methods that a redefinition replaces. -/
def replaces (r : RevisedClass) (s : Store) : MethodId → Bool :=
  (s.getClass r.holder).methods.contains

/-- The plans for a list of classes, those left out that adjust nothing. -/
theorem plan_ok {cs : List ClassId} {plans : List (ClassId × TableAdjustments)}
    (h : r.plan s cs = .ok plans) :
    List.Sublist (plans.map (·.1)) cs ∧
      (∀ e ∈ plans, s.planAdjustments e.1 r.holder (r.replaces s) (r.counterpart? s) = .ok e.2 ∧
        e.2.isEmpty = false) ∧
      ∀ c ∈ cs, ∃ a, s.planAdjustments c r.holder (r.replaces s) (r.counterpart? s) = .ok a ∧
        (a.isEmpty = true ∨ (c, a) ∈ plans) := by
  induction cs generalizing plans with
  | nil =>
    cases h
    exact ⟨List.nil_sublist _, fun e he => absurd he List.not_mem_nil,
      fun c hc => absurd hc List.not_mem_nil⟩
  | cons c rest ih =>
    unfold plan at h
    cases ha : s.planAdjustments c r.holder (r.replaces s) (r.counterpart? s) with
    | error e =>
      have ha' : s.planAdjustments c r.holder (s.getClass r.holder).methods.contains
        (r.counterpart? s) = .error e := ha
      simp [ha', bind, Except.bind] at h
    | ok a =>
      have ha' : s.planAdjustments c r.holder (s.getClass r.holder).methods.contains
        (r.counterpart? s) = .ok a := ha
      cases hlater : r.plan s rest with
      | error e => simp [ha', hlater, bind, Except.bind] at h
      | ok later =>
        simp only [ha', hlater, bind, Except.bind, pure, Except.pure, Except.ok.injEq] at h
        obtain ⟨hsub, hplans, hall⟩ := ih hlater
        by_cases hempty : a.isEmpty = true
        · rw [if_pos hempty] at h
          subst h
          refine ⟨hsub.cons _, hplans, fun d hd => ?_⟩
          rcases List.mem_cons.mp hd with rfl | hd
          · exact ⟨a, ha, Or.inl hempty⟩
          · exact hall d hd
        · rw [if_neg hempty] at h
          subst h
          refine ⟨hsub.cons_cons _, fun e he => ?_, fun d hd => ?_⟩
          · rcases List.mem_cons.mp he with rfl | he
            · exact ⟨ha, by simpa using hempty⟩
            · exact hplans e he
          · rcases List.mem_cons.mp hd with rfl | hd
            · exact ⟨a, ha, Or.inr List.mem_cons_self⟩
            · obtain ⟨b, hb, hmem⟩ := hall d hd
              exact ⟨b, hb, hmem.imp_right (List.mem_cons_of_mem _)⟩

end RevisedClass

/-! ## Writing the plans -/

namespace Linker

/-- The tables of the classes `cs` were adjusted between `l` and `t` by exchanging methods. -/
structure AdjustsAll (cs : List ClassId) (P : ClassId → MethodId → Prop) (f : MethodId → MethodId)
    (l t : Linker) : Prop where
  methods : t.store.methods = l.store.methods
  size_eq : t.store.classes.size = l.store.classes.size
  others : ∀ c, c ∉ cs → t.store.getClass c = l.store.getClass c
  class_eq : ∀ c, t.store.getClass c = { l.store.getClass c with
    defaults := (t.store.getClass c).defaults
    tables := (t.store.getClass c).tables }
  tables : ∀ c ∈ cs, (t.store.getClass c).tables =
    (l.store.getClass c).tables.map (Tables.exchange f)
  defaults : ∀ c, (∀ m ∈ (l.store.getClass c).defaults, P c m) →
    ∀ m ∈ (t.store.getClass c).defaults, P c m
  config : t.config = l.config
  registry : t.registry = l.registry
  statistics : t.statistics = l.statistics

variable {l t u : Linker} {c : ClassId} {cs : List ClassId} {P : ClassId → MethodId → Prop}
  {f : MethodId → MethodId}

theorem AdjustsAll.refl (P : ClassId → MethodId → Prop) (f : MethodId → MethodId) (l : Linker) :
    AdjustsAll [] P f l l :=
  ⟨rfl, rfl, fun _ _ => rfl, fun _ => rfl, fun _ h => absurd h List.not_mem_nil, fun _ h => h, rfl,
    rfl, rfl⟩

theorem AdjustsAll.getMethod (h : AdjustsAll cs P f l t) (m : MethodId) :
    t.store.getMethod m = l.store.getMethod m := by
  rw [Store.getMethod, Store.getMethod, h.methods]

theorem AdjustsAll.extends (h : AdjustsAll cs P f l t) : l.store.Extends t.store where
  classes_le := h.size_eq.ge
  methods_le := by rw [h.methods]
  class_eq := fun c _ => by rw [h.class_eq c]
  method_eq := fun m _ => by rw [h.getMethod m]

/-- The tables of one class are adjusted, and then those of others. -/
theorem AdjustsAll.cons {ts : Tables} (hc : c ∉ cs) (hts : (l.store.getClass c).tables = some ts)
    (h : Adjusts c (P c) l t) (htables : (t.store.getClass c).tables = some (ts.exchange f))
    (h' : AdjustsAll cs P f t u) : AdjustsAll (c :: cs) P f l u where
  methods := h'.methods.trans h.methods
  size_eq := h'.size_eq.trans h.size_eq
  others := fun d hd => by
    rw [List.mem_cons, not_or] at hd
    rw [h'.others d hd.2, h.others d hd.1]
  class_eq := fun d => by
    by_cases hd : d = c
    · rw [hd, h'.others c hc]
      exact h.class_eq
    · rw [h'.class_eq d, h.others d hd]
  tables := fun d hd => by
    rcases List.mem_cons.mp hd with rfl | hd
    · rw [h'.others d hc, htables, hts]
      rfl
    · have hne : d ≠ c := fun heq => hc (heq ▸ hd)
      rw [h'.tables d hd, h.others d hne]
  defaults := fun d hP => by
    by_cases hd : d = c
    · subst hd
      rw [h'.others d hc]
      exact h.defaults hP
    · refine h'.defaults d ?_
      rw [h.others d hd]
      exact hP
  config := h'.config.trans h.config
  registry := h'.registry.trans h.registry
  statistics := h'.statistics.trans h.statistics

/-- What is referred to, and whether it is old, depends on the class and the methods only. -/
theorem checkNoOldEntries_congr {s s' : Store} (hclass : s'.getClass c = s.getClass c)
    (hmethods : s'.methods = s.methods) :
    s'.checkNoOldEntries c = .ok () ↔ s.checkNoOldEntries c = .ok () := by
  have hold : ∀ m, s'.isOld m = s.isOld m := fun m => by
    rw [Store.isOld, Store.isOld, Store.getMethod, Store.getMethod, hmethods]
  simp only [Store.checkNoOldEntries_iff, Store.RefersTo, hclass, hold]

/-- **Writing the plans exchanges methods in the tables of every planned class.**  It fails if the
check of one of these classes does. -/
theorem applyPlans_outcome {s : Store} {holder : ClassId} {isReplaced : MethodId → Bool}
    {counterpart? : MethodId → Option MethodId} {plans : List (ClassId × TableAdjustments)}
    (hnodup : (plans.map (·.1)).Nodup)
    (hplans : ∀ e ∈ plans, e.2.isEmpty = false ∧ ∃ ts, (l.store.getClass e.1).tables = some ts ∧
      s.Plans holder isReplaced counterpart? ts e.2)
    (hP : ∀ e ∈ plans, ∀ x ∈ e.2.slots, P e.1 x.2.1 → P e.1 x.2.2) :
    Outcome (applyPlans plans) l
      (fun r t =>
        AdjustsAll (plans.map (·.1)) P (s.current holder isReplaced counterpart?) l t ∧
          (r.2 = none ↔ ∀ e ∈ plans, t.store.checkNoOldEntries e.1 = .ok ()) ∧
          (r.2 = none → r.1 = (plans.map (·.2.size)).sum))
      (fun _ _ => False) := by
  induction plans generalizing l with
  | nil => exact ⟨.refl P _ l, by simp, fun _ => rfl⟩
  | cons e rest ih =>
    obtain ⟨c, a⟩ := e
    obtain ⟨hc, hrest⟩ := List.nodup_cons.mp hnodup
    obtain ⟨hempty, ts, hts, hplan⟩ := hplans _ List.mem_cons_self
    -- What is left to do once the plan of `c` is written, with or without a passed check.
    have hlater : ∀ u, Adjusts c (P c) l u → (u.store.getClass c).tables =
        some (ts.exchange (s.current holder isReplaced counterpart?)) →
        Outcome (applyPlans rest) u (fun r t =>
          AdjustsAll (c :: rest.map (·.1)) P (s.current holder isReplaced counterpart?) l t ∧
            (t.store.checkNoOldEntries c = .ok () ↔ u.store.checkNoOldEntries c = .ok ()) ∧
            (r.2 = none ↔ ∀ e ∈ rest, t.store.checkNoOldEntries e.1 = .ok ()) ∧
            (r.2 = none → r.1 = (rest.map (·.2.size)).sum))
          (fun _ _ => False) := fun u hu htables => by
      refine (ih hrest (fun e he => ?_) fun e he => hP e (List.mem_cons_of_mem _ he)).imp
        (fun r t ht => ⟨.cons hc hts hu htables ht.1,
          checkNoOldEntries_congr (ht.1.others c hc) ht.1.methods, ht.2⟩) (fun _ _ h => h)
      obtain ⟨hempty', ts', hts', hplan'⟩ := hplans e (List.mem_cons_of_mem _ he)
      have hmem := List.mem_map_of_mem (f := fun e : ClassId × TableAdjustments => e.1) he
      have hne : e.1 ≠ c := fun heq => hc (heq ▸ hmem)
      exact ⟨hempty', ts', by rw [hu.others _ hne, hts'], hplan'⟩
    unfold applyPlans
    simp only [outcome_bind, outcome_attempt, checkNoOldEntries, outcome_get, outcome_ofExcept,
      outcome_pure]
    refine (applyAdjustments_outcome hplan hts hempty (hP _ List.mem_cons_self)).imp
      (fun n u hu => ⟨fun _ hok => ?_, fun e he => ?_⟩) (fun _ _ h => h.elim)
    · refine (hlater u hu.2.1 hu.2.2).imp (fun r t ht => ⟨ht.1, ?_, fun hnone => ?_⟩)
        (fun _ _ h => h)
      · have hpass := ht.2.1.mpr hok
        simp only [List.forall_mem_cons, hpass, true_and]
        exact ht.2.2.1
      · rw [List.map_cons, List.sum_cons, hu.1, ht.2.2.2 hnone]
    · refine (hlater u hu.2.1 hu.2.2).imp (fun r t ht => ⟨ht.1, ?_, fun h => by cases h⟩)
        (fun _ _ h => h)
      have hfail : ¬ t.store.checkNoOldEntries c = .ok () := fun h => by
        rw [ht.2.1.mp h] at he
        cases he
      simp [hfail]

/-! ## Redefining -/

/-- Whether the tables of `c` refer to a method that `holder` declares. -/
def RefersToMethodOf (s : Store) (c holder : ClassId) : Prop :=
  ∃ m ∈ (s.getClass holder).methods, s.RefersTo c m

instance (s : Store) (c holder : ClassId) : Decidable (RefersToMethodOf s c holder) :=
  inferInstanceAs (Decidable (∃ m ∈ _, _))

/-- The new methods fit the class, and every table that refers to an old one has a new one to refer
to. -/
structure Prepared (l : Linker) (holder : ClassId) (ds : List Declaration) (r : RevisedClass) :
    Prop where
  linked : l.store.Linked holder
  revised : ∃ t, revise holder ds l = .ok r t
  planned : ∃ plans, r.plan l.store l.registry.all = .ok plans

theorem exists_prepared_iff {l : Linker} {holder : ClassId} {ds : List Declaration} :
    (∃ r, l.Prepared holder ds r) ↔ l.store.Linked holder ∧
      Outcome (revise holder ds) l
        (fun r _ => (r.plan l.store l.registry.all).toOption.isSome = true) (fun _ _ => False) := by
  constructor
  · rintro ⟨r, hlinked, ⟨t, hrun⟩, plans, hplans⟩
    rw [outcome_of_ok hrun, hplans]
    exact ⟨hlinked, rfl⟩
  · rintro ⟨hlinked, h⟩
    obtain ⟨r, t, hrun, hplan⟩ := h.exists_ok
    refine ⟨r, hlinked, ⟨t, hrun⟩, ?_⟩
    cases hplans : r.plan l.store l.registry.all with
    | ok plans => exact ⟨plans, rfl⟩
    | error e =>
      rw [hplans] at hplan
      exact absurd hplan (by simp [Except.toOption])

instance (l : Linker) (holder : ClassId) (ds : List Declaration) :
    Decidable (∃ r, l.Prepared holder ds r) :=
  decidable_of_iff' _ exists_prepared_iff

/-- What stands for a method once the class is redefined. -/
def successor (l : Linker) (r : RevisedClass) : MethodId → MethodId :=
  l.store.current r.holder (r.replaces l.store) (r.counterpart? l.store)

/-- The new methods are in place, and the tables of the registered classes refer to them. -/
structure Redefined (l t : Linker) (r : RevisedClass) : Prop where
  extends_ : l.store.Extends t.store
  size_eq : t.store.classes.size = l.store.classes.size
  wellFormed : t.store.WellFormed l.registry.root
  methods : ∀ c, (t.store.getClass c).methods =
    if c = r.holder then r.declared else (l.store.getClass c).methods
  declared : ∀ m ∈ r.declared, ¬ l.store.HasMethod m ∧ t.store.isOld m = false
  isOld : ∀ m, m ∉ (l.store.getClass r.holder).methods → t.store.isOld m = l.store.isOld m
  tables : ∀ c ∈ l.registry.all, (t.store.getClass c).tables =
    (l.store.getClass c).tables.map (Tables.exchange (l.successor r))
  others : ∀ c, c ∉ l.registry.all → (t.store.getClass c).tables = (l.store.getClass c).tables
  defaults : ∀ c, ¬ l.store.Linked c → (t.store.getClass c).defaults = (l.store.getClass c).defaults
  config : t.config = l.config
  registry : ∃ n, t.registry = l.registry.takeMethodTokens n
  matched : r.Matches l.store
  methods_eq : t.store.methods = (r.install l.store).methods

variable {root : Option ClassId} {r : RevisedClass} {plans : List (ClassId × TableAdjustments)}

/-- A method of the class is replaced, and only such a method. -/
theorem isReplacedHere_iff {s : Store} {m : MethodId} (w : s.WellFormed root)
    (hholder : s.HasClass r.holder) :
    s.isReplacedHere r.holder (r.replaces s) m = true ↔ m ∈ (s.getClass r.holder).methods := by
  rw [Store.isReplacedHere, Bool.and_eq_true, RevisedClass.replaces, List.contains_iff_mem]
  refine ⟨And.right, fun hm => ⟨?_, hm⟩⟩
  rw [Store.isHeldBy, ((w.fits _ hholder).methods m hm).2]
  exact beq_self_eq_true _

/-- What a planned class is for: it refers to a method that is replaced. -/
theorem mem_plans_iff {s : Store} (w : s.WellFormed root) (hholder : s.HasClass r.holder)
    {cs : List ClassId} (h : r.plan s cs = .ok plans) (hc : c ∈ cs) :
    c ∈ plans.map (·.1) ↔ RefersToMethodOf s c r.holder := by
  obtain ⟨-, hplans, hall⟩ := RevisedClass.plan_ok h
  have hiff : ∀ a, s.planAdjustments c r.holder (r.replaces s) (r.counterpart? s) = .ok a →
      (a.isEmpty = false ↔ RefersToMethodOf s c r.holder) := fun a ha => by
    cases hts : (s.getClass c).tables with
    | none =>
      rw [Store.planAdjustments_of_unlinked hts] at ha
      cases ha
      simp [RefersToMethodOf, Store.RefersTo, hts, TableAdjustments.isEmpty, TableAdjustments.none]
    | some ts =>
      have hrefers : ∀ m, s.RefersTo c m ↔ ts.Refers m := fun m => by simp [Store.RefersTo, hts]
      rw [← Bool.not_eq_true, (Store.planAdjustments_ok hts ha).isEmpty_iff]
      simp only [RefersToMethodOf, hrefers, not_forall, Bool.not_eq_false, exists_prop,
        isReplacedHere_iff w hholder]
      exact exists_congr fun m => and_comm
  obtain ⟨a, ha, hmem⟩ := hall c hc
  rw [← hiff a ha]
  constructor
  · intro hmem'
    obtain ⟨e, he, rfl⟩ := List.mem_map.mp hmem'
    obtain ⟨hplan, hempty⟩ := hplans e he
    rw [ha, Except.ok.injEq] at hplan
    rw [hplan, hempty]
  · intro hempty
    refine List.mem_map_of_mem (f := (·.1)) (hmem.resolve_left ?_)
    rw [hempty]
    simp

/-- A class that is planned for has tables, and the plan is made for them. -/
theorem tables_of_mem_plans {s : Store} (w : s.WellFormed root) (hholder : s.HasClass r.holder)
    {cs : List ClassId} (h : r.plan s cs = .ok plans) {e : ClassId × TableAdjustments}
    (he : e ∈ plans) : e.2.isEmpty = false ∧ ∃ ts, (s.getClass e.1).tables = some ts ∧
      s.Plans r.holder (r.replaces s) (r.counterpart? s) ts e.2 := by
  obtain ⟨hsub, hplans, -⟩ := RevisedClass.plan_ok h
  obtain ⟨hplan, hempty⟩ := hplans e he
  have hmem : e.1 ∈ plans.map (·.1) := List.mem_map_of_mem (f := (·.1)) he
  obtain ⟨m, -, ts, hts, -⟩ := (mem_plans_iff w hholder h (hsub.subset hmem)).mp hmem
  exact ⟨hempty, ts, hts, Store.planAdjustments_ok hts hplan⟩

/-- To ask something of all planned classes is to ask it of all classes that refer to a method of
the redefined one. -/
theorem forall_plans_iff {s : Store} (w : s.WellFormed root) (hholder : s.HasClass r.holder)
    {cs : List ClassId} (h : r.plan s cs = .ok plans) {Q : ClassId → Prop} :
    (∀ e ∈ plans, Q e.1) ↔ ∀ c ∈ cs, RefersToMethodOf s c r.holder → Q c := by
  have hsub := (RevisedClass.plan_ok h).1
  constructor
  · intro hall c hc hrefers
    obtain ⟨e, he, rfl⟩ := List.mem_map.mp ((mem_plans_iff w hholder h hc).mpr hrefers)
    exact hall e he
  · intro hall e he
    have hmem := List.mem_map_of_mem (f := fun e : ClassId × TableAdjustments => e.1) he
    have hc := hsub.subset hmem
    exact hall e.1 hc ((mem_plans_iff w hholder h hc).mp hmem)

theorem exchange_eq_self {g : MethodId → MethodId} {ts : Tables}
    (h : ∀ m, ts.Refers m → g m = m) : ts.exchange g = ts := by
  have hslots : ts.vtable.slots.map (Option.map g) = ts.vtable.slots := by
    conv_rhs => rw [← List.map_id ts.vtable.slots]
    refine List.map_congr_left fun x hx => ?_
    cases x with
    | none => rfl
    | some m => exact congrArg some (h m (Or.inl hx))
  have hentries : ts.itable.entries.map (ITableEntry.exchange g) = ts.itable.entries := by
    conv_rhs => rw [← List.map_id ts.itable.entries]
    refine List.map_congr_left fun x hx => ?_
    cases x with
    | empty => rfl
    | inaccessible method => rfl
    | bound m => exact congrArg ITableEntry.bound (h m (Or.inr hx))
  unfold Tables.exchange
  rw [hslots, hentries]

/-- A method that is not replaced stands for itself. -/
theorem successor_of_not_mem (w : l.store.WellFormed root) (hholder : l.store.HasClass r.holder)
    {m : MethodId} (hm : m ∉ (l.store.getClass r.holder).methods) : l.successor r m = m := by
  rw [← isReplacedHere_iff w hholder, Bool.not_eq_true] at hm
  rw [successor, Store.current, Store.replacement?, hm]
  rfl

/-- What a default of a class has to be, once the new methods are declared. -/
def FitsDefault (s t : Store) (c : ClassId) (m : MethodId) : Prop :=
  t.HasMethod m ∧ ∃ i ∈ (s.getClass c).allInterfaces, (t.getMethod m).holder = some i

/-- A planned method fits where the method fits that it takes the place of. -/
theorem fitsDefault_of_planned (w : l.store.WellFormed root) (hholder : l.store.HasClass r.holder)
    (hmatches : r.Matches l.store) {ts : Tables} {a : TableAdjustments}
    (hplan : l.store.Plans r.holder (r.replaces l.store) (r.counterpart? l.store) ts a) :
    ∀ x ∈ a.slots, FitsDefault l.store (r.install l.store) c x.2.1 →
      FitsDefault l.store (r.install l.store) c x.2.2 := by
  intro x hx hfits
  obtain ⟨hreplaced, hnew⟩ := hplan.pairs x hx
  have hold := (w.fits _ hholder).methods _ ((isReplacedHere_iff w hholder).mp hreplaced)
  obtain ⟨hhas, hheld, -⟩ := RevisedClass.declared_install w hmatches hholder
    (RevisedClass.mem_declared_of_counterpart hnew)
  obtain ⟨-, i, hi, hi'⟩ := hfits
  refine ⟨hhas, i, hi, ?_⟩
  rw [hheld, ← hi', (RevisedClass.extends_install _ r).holder hold.1, hold.2]

/-- A store whose class `r.holder` declares the new methods is well-formed. -/
theorem wellFormed_redefined {s s' : Store} (w : s.WellFormed root) (hholder : s.HasClass r.holder)
    (hmatches : r.Matches s) (hextends : s.Extends s') (hsize : s'.classes.size = s.classes.size)
    (hmethods : s'.methods = (r.install s).methods)
    (hlists : ∀ c, (s'.getClass c).methods =
      if c = r.holder then r.declared else (s.getClass c).methods)
    (hdefaults : ∀ c, (∀ m ∈ (s.getClass c).defaults, FitsDefault s (r.install s) c m) →
      ∀ m ∈ (s'.getClass c).defaults, FitsDefault s (r.install s) c m) : s'.WellFormed root := by
  have hinstall := RevisedClass.extends_install s r
  have hget : ∀ m, s'.getMethod m = (r.install s).getMethod m := fun m => by
    rw [Store.getMethod, Store.getMethod, hmethods]
  have hhas : ∀ m, s'.HasMethod m ↔ (r.install s).HasMethod m := fun m => by
    rw [Store.HasMethod, Store.HasMethod, hmethods]
  have hclass : ∀ c, s'.HasClass c → s.HasClass c := fun c hc => by
    rw [Store.HasClass, hsize] at hc
    exact hc
  refine ⟨fun c hc => ?_, fun m hm => ?_, fun top htop => ?_, fun c hc => w.rooted c (hclass c hc)⟩
  · have hcs := hclass c hc
    refine w.fits_extends hextends hcs (fun m hm => ?_) (fun m hm => ?_)
    · rw [hlists] at hm
      rw [hhas, hget]
      split at hm
      · rename_i heq
        obtain ⟨hnew, hheld, -⟩ := RevisedClass.declared_install w hmatches hholder hm
        exact ⟨hnew, heq ▸ hheld⟩
      · obtain ⟨hold, hheld⟩ := (w.fits c hcs).methods m hm
        exact ⟨hinstall.hasMethod hold, by rw [hinstall.holder hold, hheld]⟩
    · rw [hhas, hget]
      refine hdefaults c (fun m hm => ?_) m hm
      obtain ⟨hold, i, hi, hheld⟩ := (w.fits c hcs).defaults m hm
      exact ⟨hinstall.hasMethod hold, i, hi, by rw [hinstall.holder hold, hheld]⟩
  · rw [hhas] at hm
    rw [hget]
    by_cases hold : s.HasMethod m
    · obtain ⟨c, hheld, hc⟩ := w.held m hold
      exact ⟨c, by rw [hinstall.holder hold, hheld], hextends.hasClass hc⟩
    · have hnew : m ∈ r.declared := (RevisedClass.mem_declared hmatches).mpr (by
        rw [Store.HasMethod, (RevisedClass.size_install s r).2] at hm
        rw [Store.HasMethod] at hold
        omega)
      exact ⟨r.holder, (RevisedClass.declared_install w hmatches hholder hnew).2.1,
        hextends.hasClass hholder⟩
  · obtain ⟨hhas', htop'⟩ := w.root_fits top htop
    exact ⟨hextends.hasClass hhas', by rw [hextends.superclass? hhas', htop']⟩

/-- Declaring the new methods and writing the plans redefines the class. -/
theorem redefined_of_adjustsAll (w : l.store.WellFormed l.registry.root)
    (hholder : l.store.HasClass r.holder) (hmatches : r.Matches l.store)
    (hplan : r.plan l.store l.registry.all = .ok plans) (hstart : l.Numbers u)
    (h : AdjustsAll (plans.map (·.1)) (FitsDefault l.store (r.install l.store)) (l.successor r)
      (u.mapStore r.install) t) : Redefined l t r := by
  have hstore : (u.mapStore r.install).store = r.install l.store := by
    rw [← hstart.store]
    rfl
  have hget : ∀ m, t.store.getMethod m = (r.install l.store).getMethod m := hstore ▸ h.getMethod
  have hothers : ∀ c, c ∉ plans.map (·.1) →
      t.store.getClass c = (r.install l.store).getClass c := fun c hc => hstore ▸ h.others c hc
  have hextends : l.store.Extends t.store :=
    (RevisedClass.extends_install l.store r).trans (hstore ▸ h.extends)
  have hsize : t.store.classes.size = l.store.classes.size := by
    rw [h.size_eq, hstore, (RevisedClass.size_install _ r).1]
  have hlists : ∀ c, (t.store.getClass c).methods =
      if c = r.holder then r.declared else (l.store.getClass c).methods := fun c => by
    rw [h.class_eq c, hstore]
    exact RevisedClass.methods_install hholder c
  have hdefaults : ∀ c, (∀ m ∈ (l.store.getClass c).defaults,
      FitsDefault l.store (r.install l.store) c m) →
      ∀ m ∈ (t.store.getClass c).defaults, FitsDefault l.store (r.install l.store) c m :=
    fun c hc => h.defaults c (by rw [hstore, RevisedClass.defaults_install]; exact hc)
  have hregistered : ∀ c, c ∈ plans.map (·.1) → c ∈ l.registry.all := fun c hc =>
    (RevisedClass.plan_ok hplan).1.subset hc
  refine
    { extends_ := hextends
      size_eq := hsize
      wellFormed := ?_
      methods := hlists
      declared := fun m hm => ?_
      isOld := fun m hm => ?_
      tables := fun c hc => ?_
      others := fun c hc => ?_
      defaults := fun c hc => ?_
      config := ?_
      registry := ?_
      matched := hmatches
      methods_eq := hstore ▸ h.methods }
  · exact wellFormed_redefined w hholder hmatches hextends hsize (hstore ▸ h.methods) hlists
      hdefaults
  · obtain ⟨-, -, hold⟩ := RevisedClass.declared_install w hmatches hholder hm
    refine ⟨fun hhas => ?_, by rw [Store.isOld, hget]; exact hold⟩
    rw [RevisedClass.mem_declared hmatches] at hm
    exact absurd hhas (Nat.not_lt.mpr hm.1)
  · rw [Store.isOld, hget]
    exact RevisedClass.isOld_install w hmatches hholder hm
  · by_cases hmem : c ∈ plans.map (·.1)
    · rw [h.tables c hmem, hstore, RevisedClass.tables_install]
    · rw [hothers c hmem, RevisedClass.tables_install]
      cases hts : (l.store.getClass c).tables with
      | none => rfl
      | some ts =>
        rw [Option.map_some, exchange_eq_self fun m hm => ?_]
        refine successor_of_not_mem w hholder fun hmem' => hmem ?_
        exact (mem_plans_iff w hholder hplan hc).mpr ⟨m, hmem', ts, hts, hm⟩
  · rw [hothers c fun hmem => hc (hregistered c hmem), RevisedClass.tables_install]
  · have hmem : c ∉ plans.map (·.1) := fun hmem => by
      obtain ⟨m, -, ts, hts, -⟩ := (mem_plans_iff w hholder hplan (hregistered c hmem)).mp hmem
      exact hc (Store.linked_iff.mpr ⟨ts, hts⟩)
    rw [hothers c hmem, RevisedClass.defaults_install]
  · obtain ⟨n, rfl⟩ := hstart
    exact h.config
  · obtain ⟨n, rfl⟩ := hstart
    exact ⟨n, h.registry⟩

theorem Redefined.of_same {v : Linker} (h : Redefined l t r) (hstore : v.store = t.store)
    (hconfig : v.config = t.config) (hregistry : v.registry = t.registry) : Redefined l v r where
  extends_ := hstore ▸ h.extends_
  size_eq := hstore ▸ h.size_eq
  wellFormed := hstore ▸ h.wellFormed
  methods := hstore ▸ h.methods
  declared := hstore ▸ h.declared
  isOld := hstore ▸ h.isOld
  tables := hstore ▸ h.tables
  others := hstore ▸ h.others
  defaults := hstore ▸ h.defaults
  config := hconfig.trans h.config
  registry := hregistry ▸ h.registry
  matched := h.matched
  methods_eq := hstore ▸ h.methods_eq

theorem Redefined.getMethod (h : Redefined l t r) (m : MethodId) :
    t.store.getMethod m = (r.install l.store).getMethod m := by
  rw [Store.getMethod, Store.getMethod, h.methods_eq]

/-- A method that a registered class refers to gives way to its counterpart, if it is replaced. -/
theorem Prepared.counterpart (h : l.Prepared holder ds r) (w : l.store.WellFormed root)
    (hholder : l.store.HasClass r.holder) (hc : c ∈ l.registry.all) {m : MethodId}
    (hm : m ∈ (l.store.getClass r.holder).methods) (hrefers : l.store.RefersTo c m) :
    r.counterpart? l.store m = some (l.successor r m) := by
  obtain ⟨plans, hplans⟩ := h.planned
  obtain ⟨-, -, hall⟩ := RevisedClass.plan_ok hplans
  obtain ⟨a, ha, -⟩ := hall c hc
  obtain ⟨ts, hts, hrefers⟩ := hrefers
  have hreplaced := (isReplacedHere_iff w hholder).mpr hm
  have hsome := (Store.planAdjustments_ok hts ha).complete m hrefers hreplaced
  obtain ⟨new, hnew⟩ := Option.isSome_iff_exists.mp hsome
  rw [successor, Store.current, Store.replacement?, hreplaced, if_pos rfl, hnew, Option.getD_some]

theorem Prepared.successor_mem (h : l.Prepared holder ds r) (w : l.store.WellFormed root)
    (hholder : l.store.HasClass r.holder) (hc : c ∈ l.registry.all) {m : MethodId}
    (hm : m ∈ (l.store.getClass r.holder).methods) (hrefers : l.store.RefersTo c m) :
    l.successor r m ∈ r.declared :=
  RevisedClass.mem_declared_of_counterpart (h.counterpart w hholder hc hm hrefers)

/-- What a registered class refers to after a redefinition are the successors of what it referred to
before. -/
theorem Redefined.refersTo_iff (h : Redefined l t r) (hc : c ∈ l.registry.all) {m : MethodId} :
    t.store.RefersTo c m ↔ ∃ old, l.store.RefersTo c old ∧ l.successor r old = m := by
  unfold Store.RefersTo
  rw [h.tables c hc]
  constructor
  · rintro ⟨ts', hts', hm⟩
    obtain ⟨ts, hts, rfl⟩ := Option.map_eq_some_iff.mp hts'
    obtain ⟨old, hold, heq⟩ := Tables.refers_exchange.mp hm
    exact ⟨old, ⟨ts, hts, hold⟩, heq⟩
  · rintro ⟨old, ⟨ts, hts, hold⟩, heq⟩
    exact ⟨_, by rw [hts]; rfl, Tables.refers_exchange.mpr ⟨old, hold, heq⟩⟩

/-- The tables of a registered class refer to a replaced body after a redefinition only if they did
before, as long as the methods of the redefined class were current. -/
theorem Redefined.checkNoOldEntries_iff (h : Redefined l t r) (hp : l.Prepared holder ds r)
    (w : l.store.WellFormed root) (hholder : l.store.HasClass r.holder)
    (hcurrent : ∀ m ∈ (l.store.getClass r.holder).methods, l.store.isOld m = false)
    (hc : c ∈ l.registry.all) :
    t.store.checkNoOldEntries c = .ok () ↔ l.store.checkNoOldEntries c = .ok () := by
  have hsame : ∀ old, l.store.RefersTo c old →
      t.store.isOld (l.successor r old) = l.store.isOld old := by
    intro old hold
    by_cases hm : old ∈ (l.store.getClass r.holder).methods
    · rw [hcurrent old hm]
      exact (h.declared _ (hp.successor_mem w hholder hc hm hold)).2
    · rw [successor_of_not_mem w hholder hm, h.isOld old hm]
  rw [Store.checkNoOldEntries_iff, Store.checkNoOldEntries_iff]
  constructor
  · intro hall old hold
    rw [← hsame old hold]
    exact hall _ ((h.refersTo_iff hc).mpr ⟨old, hold, rfl⟩)
  · intro hall m hm
    obtain ⟨old, hold, rfl⟩ := (h.refersTo_iff hc).mp hm
    rw [hsame old hold]
    exact hall old hold

theorem all_eq_of_classes (h : u.registry.classes = l.registry.classes) :
    u.registry.all = l.registry.all := by
  rw [Registry.all, Registry.all, h]

/-- Carrying the plans out, once the new methods are installed, redefines the class; what may fail
is the check of a class that refers to a method of it. -/
theorem applyPlans_redefined (w : l.store.WellFormed l.registry.root)
    (hholder : l.store.HasClass r.holder) (hnodup : l.registry.all.Nodup) (hnumbers : l.Numbers u)
    (hmatches : r.Matches l.store) (hplan : r.plan l.store l.registry.all = .ok plans) :
    Outcome (applyPlans plans) (u.mapStore r.install)
      (fun outcome t => Redefined l t r ∧ t.statistics = l.statistics ∧
        (outcome.2 = none ↔ ∀ c ∈ l.registry.all, RefersToMethodOf l.store c r.holder →
          t.store.checkNoOldEntries c = .ok ()) ∧
        (outcome.2 = none → outcome.1 = (plans.map (·.2.size)).sum))
      (fun _ _ => False) := by
  have hready : ∀ e ∈ plans, e.2.isEmpty = false ∧ ∃ ts,
      ((u.mapStore r.install).store.getClass e.1).tables = some ts ∧
      l.store.Plans r.holder (r.replaces l.store) (r.counterpart? l.store) ts e.2 := fun e he => by
    obtain ⟨hempty, ts, hts, hplan'⟩ := tables_of_mem_plans w hholder hplan he
    refine ⟨hempty, ts, ?_, hplan'⟩
    show ((r.install u.store).getClass e.1).tables = some ts
    rw [hnumbers.store, RevisedClass.tables_install, hts]
  refine (applyPlans_outcome (P := FitsDefault l.store (r.install l.store))
    ((RevisedClass.plan_ok hplan).1.nodup hnodup) hready fun e he => ?_).imp
    (fun outcome t ht => ?_) (fun _ _ h => h)
  · obtain ⟨-, ts, -, hplan'⟩ := hready e he
    exact fitsDefault_of_planned w hholder hmatches hplan'
  · obtain ⟨hadjusts, hcheck, hcount⟩ := ht
    rw [forall_plans_iff (Q := fun c => t.store.checkNoOldEntries c = .ok ()) w hholder hplan]
      at hcheck
    exact ⟨redefined_of_adjustsAll w hholder hmatches hplan hnumbers hadjusts,
      hadjusts.statistics.trans hnumbers.statistics, hcheck, hcount⟩

/-- A redefinition redefines the class and counts the entries that were planned, or it takes method
tokens only, unless the check at its end fails.  What it has adjusted by then is not counted. -/
theorem redefine_reports (w : l.store.WellFormed l.registry.root)
    (hholder : l.store.HasClass holder) (hnodup : l.registry.all.Nodup) (ds : List Declaration) :
    Outcome (redefine holder ds) l
      (fun report t => ∃ r, l.Prepared holder ds r ∧ r.holder = holder ∧ Redefined l t r ∧
        (∀ c ∈ l.registry.all, RefersToMethodOf l.store c holder →
          t.store.checkNoOldEntries c = .ok ()) ∧
        ∃ plans, r.plan l.store l.registry.all = .ok plans ∧
          report = r.report l.store (plans.map (·.2.size)).sum ∧
          t.statistics = l.statistics.recordAdjusted report.entriesAdjusted)
      (fun _ t => (l.Numbers t ∧ ¬ ∃ r, l.Prepared holder ds r) ∨
        ∃ r, l.Prepared holder ds r ∧ r.holder = holder ∧ Redefined l t r ∧
          t.statistics = l.statistics ∧ ∃ c ∈ l.registry.all, RefersToMethodOf l.store c holder ∧
            ¬ t.store.checkNoOldEntries c = .ok ()) := by
  unfold redefine
  simp only [outcome_bind, outcome_get, outcome_ite, outcome_throw, outcome_ofExcept,
    outcome_modify]
  refine ⟨fun hunlinked => Or.inl ⟨.refl l, ?_⟩, fun hlinked => ?_⟩
  · rw [exists_prepared_iff]
    rintro ⟨hlinked, -⟩
    rw [show (l.store.getClass holder).isLinked = true from hlinked] at hunlinked
    exact absurd hunlinked (by simp)
  · refine (revise_outcome ds).eqn.imp (fun r u hr => ⟨fun plans hplan => ?_, fun e he => ?_⟩)
      (fun e u he => Or.inl ⟨he.2, ?_⟩)
    · obtain ⟨hrun, hnumbers, rfl, hmatches, -⟩ := hr
      rw [hnumbers.store, all_eq_of_classes hnumbers.classes] at hplan
      have hprepared : l.Prepared r.holder ds r :=
        ⟨by simpa [Store.Linked] using hlinked, ⟨u, hrun⟩, plans, hplan⟩
      refine (applyPlans_redefined w hholder hnodup hnumbers hmatches hplan).imp
        (fun outcome t ht => ?_) (fun _ _ h => h.elim)
      obtain ⟨hredefined, hstatistics, hcheck, hcount⟩ := ht
      obtain ⟨count, failure⟩ := outcome
      cases failure with
      | none =>
        have hall := hcheck.mp rfl
        simp only [outcome_bind, outcome_modify, outcome_trace, outcome_pure]
        refine ⟨r, hprepared, rfl, ?_, ?_, plans, hplan, ?_, ?_⟩
        · split
          · exact hredefined.of_same rfl rfl rfl
          · exact hredefined.of_same rfl rfl rfl
        · split
          · exact hall
          · exact hall
        · rw [← hcount rfl, hnumbers.store]
        · rw [← hstatistics]
          split <;> rfl
      | some e =>
        refine Or.inr ⟨r, hprepared, rfl, hredefined, hstatistics, ?_⟩
        by_contra hno
        push Not at hno
        exact absurd (hcheck.mpr hno) (by simp)
    · obtain ⟨hrun, hnumbers, -⟩ := hr
      rw [hnumbers.store, all_eq_of_classes hnumbers.classes] at he
      refine Or.inl ⟨hnumbers, ?_⟩
      rw [exists_prepared_iff, outcome_of_ok hrun, he]
      rintro ⟨-, hsome⟩
      cases hsome
    · rw [exists_prepared_iff, outcome_of_error he.1]
      exact fun h => h.2

/-- **A redefinition redefines the class or takes method tokens only**, unless the check at its end
fails: then the class is redefined all the same. -/
theorem redefine_outcome (w : l.store.WellFormed l.registry.root)
    (hholder : l.store.HasClass holder) (hnodup : l.registry.all.Nodup) (ds : List Declaration) :
    Outcome (redefine holder ds) l
      (fun _ t => ∃ r, l.Prepared holder ds r ∧ r.holder = holder ∧ Redefined l t r ∧
        ∀ c ∈ l.registry.all, RefersToMethodOf l.store c holder →
          t.store.checkNoOldEntries c = .ok ())
      (fun _ t => (l.Numbers t ∧ ¬ ∃ r, l.Prepared holder ds r) ∨
        ∃ r, l.Prepared holder ds r ∧ r.holder = holder ∧ Redefined l t r ∧
          ∃ c ∈ l.registry.all, RefersToMethodOf l.store c holder ∧
            ¬ t.store.checkNoOldEntries c = .ok ()) := by
  refine (redefine_reports w hholder hnodup ds).imp (fun _ t ht => ?_) (fun _ t ht => ?_)
  · obtain ⟨r, hprepared, hr, hredefined, hcheck, -⟩ := ht
    exact ⟨r, hprepared, hr, hredefined, hcheck⟩
  · refine ht.imp_right fun ⟨r, hprepared, hr, hredefined, _, hfound⟩ => ?_
    exact ⟨r, hprepared, hr, hredefined, hfound⟩

end Linker
end ClassLinking
