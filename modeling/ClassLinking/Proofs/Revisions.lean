import ClassLinking.Proofs.Substitution

/-!
# What an accepted list of methods looks like

Matching a new list of methods to a class checks more than selectors.  A body that takes the place
of a declared method has its access level, its staticness and its dispatch index; an added method
gets a fresh ordinal and no place in any table, and a method that has a place in tables is not left
out (`RevisedClass.Accepted`).

So with ordinals of its own for every declared method (`Store.DistinctOrdinals`), the successor of a
method that tables refer to is as visible as the method was and is dispatched in the same way
(`Redefined.standsFor`).
-/

namespace ClassLinking

/-! ## Matching -/

namespace RevisedMethod

/-- What is checked of a single new body for `holder`. -/
structure Accepted (s : Store) (holder : ClassId) (x : RevisedMethod) : Prop where
  access : ∀ old, x.previous = some old → x.body.access = (s.getMethod old).access
  isStatic : ∀ old, x.previous = some old →
    x.body.modifiers.isStatic = (s.getMethod old).modifiers.isStatic
  dispatch : ∀ old, x.previous = some old → x.body.dispatch = (s.getMethod old).dispatch
  added : x.previous = none →
    x.body.dispatch = .nonVirtual ∧ x.body.wouldBeVirtual (s.getClass holder).flags = false
  numbered : x.previous = none → x.body.idnum < maxMethods

/-- Both were added, with ordinals of their own. -/
def Apart (x y : RevisedMethod) : Prop :=
  x.previous = none → y.previous = none → x.body.idnum ≠ y.body.idnum

end RevisedMethod

/-- What is checked of a new list of methods. -/
structure RevisedClass.Accepted (s : Store) (r : RevisedClass) : Prop where
  methods : ∀ e ∈ r.methods, e.2.Accepted s r.holder
  ordinals : ∀ e ∈ r.methods, e.2.previous = none → s.nextIdnum r.holder ≤ e.2.body.idnum
  apart : r.methods.Pairwise fun e e' => e.2.Apart e'.2
  removed : ∀ m ∈ r.removed, s.isDispatched m = false

namespace Linker

variable {l t : Linker} {holder c : ClassId} {ds : List Declaration} {r : RevisedClass}

theorem reviseOne_accepted (next : Nat) (d : Declaration) :
    Outcome (reviseOne holder next d) l
      (fun x _ => x.Accepted l.store holder ∧ (x.previous = none → x.body.idnum = next))
      (fun _ _ => True) := by
  unfold reviseOne
  simp only [outcome_bind, outcome_get]
  cases hprevious : l.store.declared? holder d.selector .all with
  | some previous =>
    simp only [outcome_bind, outcome_ite, outcome_throw, outcome_pure]
    refine takeMethodToken_outcome.imp (fun token t _ => ⟨fun _ => trivial, fun hsame => ?_⟩)
      (fun _ _ h => h.elim)
    simp only [Bool.or_eq_true, decide_eq_true_eq, bne_iff_ne, ne_eq, not_or, not_not] at hsame
    refine ⟨⟨fun old hold => ?_, fun old hold => ?_, fun old hold => ?_, fun hnone => ?_,
      fun hnone => ?_⟩, fun hnone => ?_⟩
    · cases hold
      exact hsame.1
    · cases hold
      exact hsame.2
    · cases hold
      rfl
    all_goals cases hnone
  | none =>
    simp only [outcome_bind, outcome_ite, outcome_throw, outcome_pure]
    refine ⟨fun _ => trivial, fun hnext => ?_⟩
    have hfits : next < maxMethods := by
      have hmax : reviseOne.maxIdnum + 1 = maxMethods := by decide
      omega
    refine takeMethodToken_outcome.imp (fun token t _ => ⟨fun _ => trivial, fun hvirtual => ?_⟩)
      (fun _ _ h => h.elim)
    refine ⟨⟨fun old hold => ?_, fun old hold => ?_, fun old hold => ?_,
      fun _ => ⟨rfl, (Bool.not_eq_true _).mp hvirtual⟩, fun _ => hfits⟩, fun _ => rfl⟩
    all_goals cases hold

/-- Ordinals for added methods are handed out in order. -/
theorem reviseAll_accepted (next : Nat) (done : List Selector) (ds : List Declaration) :
    Outcome (reviseAll holder next done ds) l
      (fun xs _ => (∀ x ∈ xs, x.Accepted l.store holder) ∧
        (∀ x ∈ xs, x.previous = none → next ≤ x.body.idnum) ∧ xs.Pairwise RevisedMethod.Apart)
      (fun _ _ => True) := by
  induction ds generalizing l next done with
  | nil =>
    exact ⟨fun x hx => absurd hx List.not_mem_nil, fun x hx => absurd hx List.not_mem_nil, .nil⟩
  | cons d rest ih =>
    unfold reviseAll
    simp only [outcome_bind, outcome_get, outcome_ite, outcome_throw, outcome_pure]
    refine ⟨fun _ => trivial, fun _ => ?_⟩
    refine ((reviseOne_outcome next d).and (reviseOne_accepted next d)).imp (fun x t hx => ?_)
      (fun _ _ _ => trivial)
    obtain ⟨⟨hnumbers, -, -⟩, haccepted, hidnum⟩ := hx
    refine (ih _ _).imp (fun xs u hxs => ?_) (fun _ _ _ => trivial)
    obtain ⟨hall, hle, hapart⟩ := hxs
    rw [hnumbers.store] at hall
    refine ⟨List.forall_mem_cons.mpr ⟨haccepted, hall⟩,
      List.forall_mem_cons.mpr ⟨fun hnone => (hidnum hnone).ge, fun y hy hnone => ?_⟩,
      List.pairwise_cons.mpr ⟨fun y hy hx hy' => ?_, hapart⟩⟩
    · have := hle y hy hnone
      split at this
      · exact this
      · exact Nat.le_of_succ_le this
    · have hlt := hle y hy hy'
      rw [if_neg (by rw [hx]; simp)] at hlt
      rw [hidnum hx]
      exact Nat.ne_of_lt hlt

theorem revise_accepted (ds : List Declaration) :
    Outcome (revise holder ds) l (fun r _ => r.Accepted l.store) (fun _ _ => True) := by
  unfold revise
  simp only [outcome_bind, outcome_get]
  refine (reviseAll_accepted _ _ ds).imp (fun revised t h => ?_) (fun _ _ h => h)
  obtain ⟨hall, hle, hapart⟩ := h
  have hsnd : ((l.store.nextMethods revised.length).zip revised).map (·.2) = revised :=
    List.map_snd_zip (by rw [Store.length_nextMethods])
  split
  · trivial
  · rename_i hnone
    refine ⟨fun e he => hall e.2 (List.of_mem_zip he).2, fun e he => hle e.2 (List.of_mem_zip he).2,
      ?_, fun m hm => (Bool.not_eq_true _).mp (List.find?_eq_none.mp hnone m hm)⟩
    rw [← List.pairwise_map (f := fun e : MethodId × RevisedMethod => e.2)
      (R := RevisedMethod.Apart), hsnd]
    exact hapart

namespace Prepared

variable (hp : l.Prepared holder ds r)
include hp

/-- Everything that matching finds out holds of what is prepared. -/
theorem revision : r.holder = holder ∧ r.Matches l.store ∧ r.Declares ds ∧ r.Accepted l.store := by
  obtain ⟨t, hrun⟩ := hp.revised
  obtain ⟨-, hholder, hmatches, hdeclares⟩ := (revise_outcome ds).of_ok hrun
  exact ⟨hholder, hmatches, hdeclares, (revise_accepted ds).of_ok hrun⟩

theorem holder_eq : r.holder = holder := hp.revision.1

theorem matched : r.Matches l.store := hp.revision.2.1

theorem declares : r.Declares ds := hp.revision.2.2.1

theorem accepted : r.Accepted l.store := hp.revision.2.2.2

end Prepared
end Linker

/-! ## Ordinals -/

namespace Store

variable {s : Store} {c : ClassId} {m : MethodId}

/-- The declared methods of a class have ordinals of their own. -/
def DistinctOrdinals (s : Store) : Prop :=
  ∀ c, ((s.getClass c).methods.map fun m => (s.getMethod m).idnum).Nodup

theorem DistinctOrdinals.eq (h : s.DistinctOrdinals) {m' : MethodId}
    (hm : m ∈ (s.getClass c).methods) (hm' : m' ∈ (s.getClass c).methods)
    (hidnum : (s.getMethod m).idnum = (s.getMethod m').idnum) : m = m' :=
  List.inj_on_of_nodup_map (h c) hm hm' hidnum

/-- The next ordinal is above all that are taken. -/
theorem idnum_lt_nextIdnum (hm : m ∈ (s.getClass c).methods) :
    (s.getMethod m).idnum < s.nextIdnum c := by
  have hfold : ∀ (ms : List MethodId) (n : Nat),
      n ≤ ms.foldl (fun n m => Nat.max n ((s.getMethod m).idnum + 1)) n ∧
        ∀ m ∈ ms, (s.getMethod m).idnum <
          ms.foldl (fun n m => Nat.max n ((s.getMethod m).idnum + 1)) n := by
    intro ms
    induction ms with
    | nil => exact fun n => ⟨Nat.le_refl n, fun m hm => absurd hm List.not_mem_nil⟩
    | cons x ms ih =>
      intro n
      obtain ⟨hle, hlt⟩ := ih (Nat.max n ((s.getMethod x).idnum + 1))
      refine ⟨(Nat.le_max_left ..).trans hle, List.forall_mem_cons.mpr ⟨?_, hlt⟩⟩
      exact (Nat.le_max_right n ((s.getMethod x).idnum + 1)).trans hle
  exact (hfold _ 0).2 m hm

end Store

namespace RevisedClass

variable {s : Store} {r : RevisedClass} {ds : List Declaration} {b : MethodId}
  (hmatches : r.Matches s)
include hmatches

/-- The previous method of a new body is declared, with its selector. -/
theorem mem_of_previous {e : MethodId × RevisedMethod} (he : e ∈ r.methods)
    (hb : e.2.previous = some b) :
    b ∈ (s.getClass r.holder).methods ∧ s.selector b = e.2.body.selector := by
  rw [(hmatches.methods e he).previous] at hb
  obtain ⟨hmem, hsel, -⟩ := Store.findAmong?_some hb
  exact ⟨hmem, hsel⟩

/-- A body without a previous method has a selector that was not declared. -/
theorem selector_ne_of_added {e : MethodId × RevisedMethod} (he : e ∈ r.methods)
    (hnone : e.2.previous = none) : ∀ m ∈ (s.getClass r.holder).methods,
      s.selector m ≠ e.2.body.selector := by
  intro m hm hsel
  rw [(hmatches.methods e he).previous, ← Option.isNone_iff_eq_none, Store.declared?,
    Store.findAmong?_isNone_iff] at hnone
  have := hnone m hm hsel
  simp at this

/-- A new body that has the ordinal and the selector of a declared method takes its place. -/
theorem previous_of_ordinal (hordinals : s.DistinctOrdinals) {e : MethodId × RevisedMethod}
    (he : e ∈ r.methods) (hb : b ∈ (s.getClass r.holder).methods)
    (hidnum : e.2.body.idnum = (s.getMethod b).idnum)
    (hsel : e.2.body.selector = s.selector b) : e.2.previous = some b := by
  cases hprevious : e.2.previous with
  | none => exact absurd hsel.symm (selector_ne_of_added hmatches he hprevious b hb)
  | some b' =>
    have hb' := (mem_of_previous hmatches he hprevious).1
    rw [hordinals.eq hb' hb (((hmatches.methods e he).idnum b' hprevious).symm.trans hidnum)]

/-- The new methods have ordinals of their own, if the declared ones had. -/
theorem nodup_ordinals (hordinals : s.DistinctOrdinals) (hdeclares : r.Declares ds)
    (haccepted : r.Accepted s) : (r.methods.map (·.2.body.idnum)).Nodup := by
  have hselectors : r.methods.Pairwise
      fun e e' => e.2.body.selector ≠ e'.2.body.selector := by
    have hnodup := hdeclares.distinct
    rwa [← hdeclares.selectors, List.Nodup, List.pairwise_map] at hnodup
  have hboth : r.methods.Pairwise fun e e' =>
      e.2.body.selector ≠ e'.2.body.selector ∧ e.2.Apart e'.2 :=
    hselectors.and haccepted.apart
  rw [List.Nodup, List.pairwise_map]
  refine hboth.imp_of_mem fun {e e'} he he' hne heq => ?_
  have hfresh : ∀ e ∈ r.methods, ∀ e' ∈ r.methods, e.2.previous = none →
      ∀ b, e'.2.previous = some b → e.2.body.idnum ≠ e'.2.body.idnum := by
    intro e he e' he' hnone b hb heq
    have hle := haccepted.ordinals e he hnone
    rw [heq, (hmatches.methods e' he').idnum b hb] at hle
    exact absurd (Store.idnum_lt_nextIdnum (mem_of_previous hmatches he' hb).1)
      (Nat.not_lt.mpr hle)
  cases hx : e.2.previous with
  | none =>
    cases hy : e'.2.previous with
    | none => exact hne.2 hx hy heq
    | some b => exact hfresh e he e' he' hx b hy heq
  | some b =>
    cases hy : e'.2.previous with
    | none => exact hfresh e' he' e he hy b hx heq.symm
    | some b' =>
      obtain ⟨hb, hsel⟩ := mem_of_previous hmatches he hx
      obtain ⟨hb', hsel'⟩ := mem_of_previous hmatches he' hy
      rw [(hmatches.methods e he).idnum b hx, (hmatches.methods e' he').idnum b' hy] at heq
      exact hne.1 (hsel.symm.trans ((congrArg s.selector (hordinals.eq hb hb' heq)).trans hsel'))

end RevisedClass

/-! ## Successors -/

namespace Linker

variable {l t : Linker} {holder c : ClassId} {ds : List Declaration} {r : RevisedClass}
  {root : Option ClassId} {m : MethodId}

/-- The method `n` of `t` is called and dispatched like the method `m` of `l`. -/
structure StandsFor (l t : Linker) (m n : MethodId) : Prop where
  hasMethod : t.store.HasMethod n
  selector : t.store.selector n = l.store.selector m
  access : (t.store.getMethod n).access = (l.store.getMethod m).access
  isStatic : (t.store.getMethod n).modifiers.isStatic = (l.store.getMethod m).modifiers.isStatic
  dispatch : (t.store.getMethod n).dispatch = (l.store.getMethod m).dispatch
  held : (t.store.getMethod n).holder = (l.store.getMethod m).holder

/-- A successor is declared by the class from now on, and stands for the method that it takes the
place of. -/
structure Succeeds (l t : Linker) (holder : ClassId) (m n : MethodId) : Prop
    extends StandsFor l t m n where
  mem : n ∈ (t.store.getClass holder).methods
  isNew : ¬ l.store.HasMethod n

/-- A new body succeeds its previous method. -/
theorem Redefined.succeeds (h : Redefined l t r) (hp : l.Prepared holder ds r)
    (w : l.store.WellFormed root) (hholder : l.store.HasClass r.holder)
    {n : MethodId} {x : RevisedMethod} (hx : (n, x) ∈ r.methods) (hm : x.previous = some m) :
    l.Succeeds t r.holder m n := by
  have hmem : n ∈ r.declared := List.mem_map_of_mem (f := (·.1)) hx
  have hget := h.getMethod_of_mem hx
  have haccepted := hp.accepted.methods _ hx
  obtain ⟨hold, hsel⟩ := RevisedClass.mem_of_previous h.matched hx hm
  obtain ⟨hhas, hheld, -⟩ := RevisedClass.declared_install w h.matched hholder hmem
  exact
    { mem := by rwa [h.methods, if_pos rfl]
      isNew := (h.declared n hmem).1
      hasMethod := by rwa [Store.HasMethod, h.methods_eq]
      selector := by
        rw [Store.selector, hget]
        exact hsel.symm
      access := by
        rw [hget]
        exact haccepted.access m hm
      isStatic := by
        rw [hget]
        exact haccepted.isStatic m hm
      dispatch := by
        rw [hget]
        exact haccepted.dispatch m hm
      held := by rw [h.getMethod, hheld, ((w.fits _ hholder).methods m hold).2] }

/-- What the tables of a registered class refer to is succeeded, if the class declares it. -/
theorem Redefined.succeeds_successor (h : Redefined l t r) (hp : l.Prepared holder ds r)
    (w : l.store.WellFormed root) (hholder : l.store.HasClass r.holder)
    (hordinals : l.store.DistinctOrdinals) (hc : c ∈ l.registry.all)
    (hm : m ∈ (l.store.getClass r.holder).methods) (hrefers : l.store.RefersTo c m) :
    l.Succeeds t r.holder m (l.successor r m) := by
  obtain ⟨x, hx, hidnum, hsel⟩ :=
    RevisedClass.counterpart_spec (hp.counterpart w hholder hc hm hrefers)
  exact h.succeeds hp w hholder hx
    (RevisedClass.previous_of_ordinal h.matched hordinals hx hm hidnum hsel)

theorem StandsFor.isBoundStatically {n : MethodId} (h : l.StandsFor t m n) :
    (t.store.getMethod n).isBoundStatically = (l.store.getMethod m).isBoundStatically := by
  have hsel : (t.store.getMethod n).selector = (l.store.getMethod m).selector := h.selector
  rw [Method.isBoundStatically, Method.isBoundStatically, h.isStatic, h.access, hsel]

/-- A method that is there stands for itself. -/
theorem Redefined.standsFor_self (h : Redefined l t r) (hm : l.store.HasMethod m) :
    l.StandsFor t m m where
  hasMethod := h.extends_.hasMethod hm
  selector := h.extends_.selector hm
  access := h.extends_.access hm
  isStatic := congrArg Modifiers.isStatic (h.extends_.modifiers hm)
  dispatch := by
    rw [h.getMethod, RevisedClass.getMethod_install, Store.getMethod_addMethods_of_has _ _ _ hm]
  held := h.extends_.holder hm

/-- A dispatched method that a class declares afterwards stands for one that the class declared. -/
theorem Redefined.exists_previous (h : Redefined l t r) (hp : l.Prepared holder ds r)
    (w : l.store.WellFormed root) (hholder : l.store.HasClass r.holder) {n : MethodId}
    (hn : n ∈ (t.store.getClass c).methods)
    (hdispatch : (t.store.getMethod n).dispatch ≠ .nonVirtual) :
    ∃ m ∈ (l.store.getClass c).methods, l.StandsFor t m n ∧ (c ≠ r.holder → m = n) := by
  rw [h.methods] at hn
  by_cases hc : c = r.holder
  · rw [if_pos hc] at hn
    obtain ⟨⟨_, x⟩, hx, rfl⟩ := List.mem_map.mp hn
    cases hprevious : x.previous with
    | none =>
      have hnone := ((hp.accepted.methods _ hx).added hprevious).1
      rw [h.getMethod_of_mem hx] at hdispatch
      exact absurd hnone hdispatch
    | some m =>
      have hm := (RevisedClass.mem_of_previous h.matched hx hprevious).1
      exact ⟨m, hc ▸ hm, (h.succeeds hp w hholder hx hprevious).toStandsFor, absurd hc⟩
  · rw [if_neg hc] at hn
    have hhas := ((w.fits c (Store.hasClass_of_mem_methods hn)).methods n hn).1
    exact ⟨n, hn, h.standsFor_self hhas, fun _ => rfl⟩

/-- What the class declares afterwards is described by one of the declarations. -/
theorem Redefined.exists_declaration (h : Redefined l t r) (hdeclares : r.Declares ds)
    {n : MethodId} (hn : n ∈ (t.store.getClass r.holder).methods) :
    ∃ d ∈ ds, d.Describes (t.store.getMethod n) := by
  rw [h.methods, if_pos rfl] at hn
  obtain ⟨⟨n, x⟩, hx, rfl⟩ := List.mem_map.mp hn
  obtain ⟨i, hi, hget⟩ := List.getElem_of_mem hx
  have hi' : i < ds.length := by rwa [hdeclares.bodies.length_eq]
  have hd := hdeclares.bodies.get hi' hi
  rw [List.get_eq_getElem, List.get_eq_getElem, hget] at hd
  refine ⟨_, List.getElem_mem hi', ?_⟩
  rw [h.getMethod_of_mem hx]
  exact ⟨hd.selector, hd.access, hd.modifiers, hd.code⟩

/-! ## What the tables of a class refer to -/

/-- What stands for a method in the tables of `c` once the class is redefined.  The tables of
registered classes are adjusted and no others. -/
def successorIn (l : Linker) (r : RevisedClass) (c : ClassId) (m : MethodId) : MethodId :=
  if c ∈ l.registry.all then l.successor r m else m

theorem Redefined.tables_exchange (h : Redefined l t r) (c : ClassId) :
    (t.store.getClass c).tables =
      (l.store.getClass c).tables.map (Tables.exchange (l.successorIn r c)) := by
  by_cases hc : c ∈ l.registry.all
  · have hsame : l.successorIn r c = l.successor r := funext fun m => if_pos hc
    rw [h.tables c hc, hsame]
  · rw [h.others c hc]
    cases (l.store.getClass c).tables with
    | none => rfl
    | some ts => exact congrArg some (exchange_eq_self fun m _ => if_neg hc).symm

/-- What the tables of a class refer to stays in them or is succeeded. -/
theorem Redefined.successorIn_cases (h : Redefined l t r) (hp : l.Prepared holder ds r)
    (w : l.store.WellFormed root) (hholder : l.store.HasClass r.holder)
    (hordinals : l.store.DistinctOrdinals) (hrefers : l.store.RefersTo c m) :
    l.successorIn r c m = m ∧
        (c ∈ l.registry.all → m ∉ (l.store.getClass r.holder).methods) ∨
      (c ∈ l.registry.all ∧ m ∈ (l.store.getClass r.holder).methods) ∧
        l.Succeeds t r.holder m (l.successorIn r c m) := by
  by_cases hc : c ∈ l.registry.all
  · rw [successorIn, if_pos hc]
    by_cases hm : m ∈ (l.store.getClass r.holder).methods
    · exact Or.inr ⟨⟨hc, hm⟩, h.succeeds_successor hp w hholder hordinals hc hm hrefers⟩
    · exact Or.inl ⟨successor_of_not_mem w hholder hm, fun _ => hm⟩
  · exact Or.inl ⟨if_neg hc, fun hc' => absurd hc' hc⟩

/-- What takes the place of a method in the tables of a class stands for the method. -/
theorem Redefined.standsFor (h : Redefined l t r) (hp : l.Prepared holder ds r)
    (w : l.store.WellFormed root) (hholder : l.store.HasClass r.holder)
    (hordinals : l.store.DistinctOrdinals) (hm : l.store.HasMethod m)
    (hrefers : l.store.RefersTo c m) : l.StandsFor t m (l.successorIn r c m) := by
  rcases h.successorIn_cases hp w hholder hordinals hrefers with ⟨hsame, -⟩ | ⟨-, hsucceeds⟩
  · rw [hsame]
    exact h.standsFor_self hm
  · exact hsucceeds.toStandsFor

end Linker
end ClassLinking
