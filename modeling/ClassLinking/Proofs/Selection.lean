import ClassLinking.Proofs.Currency

/-!
# The selection of defaults depends on the set of interfaces

The defaults of a class are selected among the declarations of its interfaces, in the order in which
the interfaces are listed, and that order comes from how the list of interfaces of the class was
written.  It has no influence on what is selected:

* whether a declaration is shadowed depends on which other declarations there are
  (`isShadowed_congr`);
* so the survivors are the same methods, and the choice among them, which is made only if there is
  one, is the same (`selectedDefault?_congr`);
* the selectors that are considered are the same ones, each once (`defaultsOf_perm`).

Two clauses of a definition that lead to the same set of interfaces, over a common superclass,
therefore select the same defaults, possibly in another order (`selection_ignores_clause`).  They do
so if each of their entries is covered by the other clause (`Covers`).
-/

namespace ClassLinking
namespace Store

open ClassDefinition

variable {s : Store} {root : Option ClassId} {superclass : Option ClassId} {c i : ClassId}
  {xs ys : List ClassId} {among among' candidates candidates' : List MethodId} {sel : Selector}

/-! ## Survivors -/

/-- Shadowing looks at all declarations, in whatever order. -/
theorem isShadowed_congr (h : among.Perm among') (c : ClassId) :
    s.isShadowed among c = s.isShadowed among' c := by
  rw [Bool.eq_iff_iff, isShadowed, isShadowed, List.any_eq_true, List.any_eq_true]
  exact exists_congr fun m => and_congr_left fun _ => h.mem_iff

theorem maximallySpecific_perm (h : among.Perm among') :
    (s.maximallySpecific among).Perm (s.maximallySpecific among') := by
  have hpred : ∀ m, ((s.holder? m).any fun c => !s.isShadowed among c) =
      (s.holder? m).any fun c => !s.isShadowed among' c := fun m => by
    simp only [isShadowed_congr h]
  rw [maximallySpecific, List.filter_congr fun m _ => hpred m]
  exact perm_eraseDups (h.filter _)

/-- A single survivor is the single survivor, and of several none is chosen. -/
theorem selectedDefault?_congr (h : candidates.Perm candidates') (sel : Selector) :
    s.selectedDefault? candidates sel = s.selectedDefault? candidates' sel := by
  have hperm := s.maximallySpecific_perm (h.filter (s.selector · = sel))
  unfold selectedDefault?
  generalize s.maximallySpecific (candidates.filter (s.selector · = sel)) = ms at hperm ⊢
  generalize s.maximallySpecific (candidates'.filter (s.selector · = sel)) = ms' at hperm ⊢
  match ms, ms', hperm.length_eq with
  | [], [], _ => rfl
  | [m], [m'], _ => rw [List.singleton_perm_singleton.mp hperm]
  | _ :: _ :: _, _ :: _ :: _, _ => rfl

/-! ## Selectors -/

theorem inheritable_perm (h : xs.Perm ys) : (s.inheritable xs).Perm (s.inheritable ys) :=
  (h.flatMap_right _).filter _

/-- The same interfaces in another order select the same defaults. -/
theorem defaultsOf_perm (h : xs.Perm ys) (own : List MethodId) (superclass : Option ClassId) :
    (s.defaultsOf own superclass xs).Perm (s.defaultsOf own superclass ys) := by
  have hcandidates := s.inheritable_perm h
  have hselectors := perm_eraseDups (hcandidates.map s.selector)
  unfold defaultsOf
  simp only [selectedDefault?_congr hcandidates]
  exact hselectors.filterMap _

/-! ## Clauses -/

/-- The clauses `xs` and `ys` give a class with the superclass the same set of interfaces. -/
def SameInterfaces (s : Store) (superclass : Option ClassId) (xs ys : List ClassId) : Prop :=
  ∀ i, i ∈ collectInterfaces s superclass xs ↔ i ∈ collectInterfaces s superclass ys

/-- Collecting lists each interface once, so the same set comes out as the same list, reordered. -/
theorem SameInterfaces.perm (h : s.SameInterfaces superclass xs ys) :
    (collectInterfaces s superclass xs).Perm (collectInterfaces s superclass ys) :=
  (List.perm_ext_iff_of_nodup nodup_eraseDups nodup_eraseDups).mpr h

/-- Each of `ys` is one of `xs`, or above one, or implemented by the superclass. -/
def Covers (s : Store) (superclass : Option ClassId) (xs ys : List ClassId) : Prop :=
  ∀ j ∈ ys, j ∈ xs ∨ (∃ i ∈ xs, j ∈ (s.getClass i).allInterfaces) ∨
    ∃ p, superclass = some p ∧ j ∈ (s.getClass p).allInterfaces

theorem covers_of_subset (h : ys ⊆ xs) : s.Covers superclass xs ys := fun _ hj => Or.inl (h hj)

/-- What an interface that is covered leads to is collected anyway. -/
theorem Covers.collectInterfaces_subset (h : s.Covers superclass xs ys) (w : s.WellFormed root)
    (hsuper : ∀ p, superclass = some p → s.HasClass p) (hxs : ∀ i ∈ xs, s.HasClass i) :
    collectInterfaces s superclass ys ⊆ collectInterfaces s superclass xs := by
  intro i hi
  rw [WellFormed.mem_collectInterfaces] at hi ⊢
  rcases hi with hi | ⟨j, hj, hij⟩
  · exact Or.inl hi
  · rcases h j hj with hj | ⟨k, hk, hjk⟩ | ⟨p, hp, hjp⟩
    · exact Or.inr ⟨j, hj, hij⟩
    · refine Or.inr ⟨k, hk, Or.inr ?_⟩
      rcases hij with rfl | hij
      · exact hjk
      · exact w.allInterfaces_trans k (hxs k hk) j hjk i hij
    · refine Or.inl ⟨p, hp, ?_⟩
      rcases hij with rfl | hij
      · exact hjp
      · exact w.allInterfaces_trans p (hsuper p hp) j hjp i hij

theorem sameInterfaces_of_covers (w : s.WellFormed root)
    (hsuper : ∀ p, superclass = some p → s.HasClass p) (hxs : ∀ i ∈ xs, s.HasClass i)
    (hys : ∀ i ∈ ys, s.HasClass i) (hxy : s.Covers superclass xs ys)
    (hyx : s.Covers superclass ys xs) : s.SameInterfaces superclass xs ys := fun _ =>
  ⟨fun hi => hyx.collectInterfaces_subset w hsuper hys hi,
    fun hi => hxy.collectInterfaces_subset w hsuper hxs hi⟩

/-- Only interfaces are collected if only interfaces are named. -/
theorem isInterface_of_mem_collectInterfaces (w : s.WellFormed root)
    (hsuper : ∀ p, superclass = some p → s.HasClass p) (hxs : ∀ i ∈ xs, s.HasClass i)
    (hints : ∀ i ∈ xs, (s.getClass i).isInterface = true)
    (hi : i ∈ collectInterfaces s superclass xs) : (s.getClass i).isInterface = true := by
  rcases WellFormed.mem_collectInterfaces.mp hi with ⟨p, hp, hi⟩ | ⟨j, hj, rfl | hi⟩
  · exact (w.allInterfaces_spec p (hsuper p hp) i hi).2
  · exact hints i hj
  · exact (w.allInterfaces_spec j (hxs j hj) i hi).2

end Store

/-! ## Definitions -/

namespace ClassDefinition

variable {d : ClassDefinition} {s : Store} {root superclass : Option ClassId} {ys : List ClassId}

/-- The clause is checked for nothing but interfaces. -/
theorem checkMembers_withInterfaces (h : d.checkMembers s = .ok ())
    (hys : ∀ i ∈ ys, (s.getClass i).isInterface = true) :
    { d with interfaces := ys }.checkMembers s = .ok () := by
  have hfind : (ys.find? fun i => !(s.getClass i).isInterface) = none := by
    rw [List.find?_eq_none]
    intro i hi
    rw [hys i hi]
    exact Bool.false_ne_true
  unfold checkMembers at h ⊢
  rw [hfind]
  split at h
  · cases h
  · exact h

/-- A definition that passes the checks passes them with any other clause of interfaces. -/
theorem check_withInterfaces (h : d.check s root = .ok superclass)
    (hys : ∀ i ∈ ys, (s.getClass i).isInterface = true) :
    { d with interfaces := ys }.check s root = .ok superclass := by
  unfold check at h ⊢
  change (do
    let superclass ← d.resolveSuperclass s root
    d.checkSuperclass s root superclass
    { d with interfaces := ys }.checkMembers s
    return superclass) = _
  cases hmembers : d.checkMembers s with
  | error e =>
    cases hresolve : d.resolveSuperclass s root with
    | error e => simp [hresolve, bind, Except.bind] at h
    | ok p =>
      cases hsuper : d.checkSuperclass s root p <;>
        simp [hresolve, hsuper, hmembers, bind, Except.bind] at h
  | ok _ =>
    rw [checkMembers_withInterfaces hmembers hys]
    rwa [hmembers] at h

end ClassDefinition

namespace Linker

open ClassDefinition

variable {l : Linker} {allowed : Command → Prop} {d : ClassDefinition} {ys : List ClassId}

/-- Whether a class is registered does not depend on its interfaces or defaults, so of two
definitions that differ in their clause only, both are accepted or neither, and a class that is
accepted has the same defaults either way. -/
theorem define_withInterfaces (w : l.store.WellFormed l.registry.root)
    (hd : d.Admissible l.store)
    (hsame : ∀ superclass, d.check l.store l.registry.root = .ok superclass →
      l.store.SameInterfaces superclass d.interfaces ys) :
    Outcome (define d) l
      (fun c t => ∃ t', define { d with interfaces := ys } l = .ok c t' ∧
        (t.store.getClass c).defaults.Perm (t'.store.getClass c).defaults)
      (fun _ _ => True) := by
  cases hcheck : d.check l.store l.registry.root with
  | error fault =>
    unfold Outcome define
    rw [hcheck]
    trivial
  | ok superclass =>
    have hacc := check_ok hcheck
    have hcheck' : { d with interfaces := ys }.check l.store l.registry.root = .ok superclass :=
      check_withInterfaces hcheck fun i hi => by
        refine Store.isInterface_of_mem_collectInterfaces w
          (fun p => hacc.hasClass_superclass w hd) hd.interfaces hacc.localInterfaces ?_
        rw [hsame superclass hcheck, Store.WellFormed.mem_collectInterfaces]
        exact Or.inr ⟨i, hi, Or.inl rfl⟩
    rw [Outcome, define_eq hcheck, define_eq hcheck']
    cases hinsert : ((l.registry.takeMethodTokens d.methods.length).takeClassToken).insert l.store
        (newClass l d superclass) l.store.nextClass with
    | error fault => trivial
    | ok r =>
      have hinsert' : ((l.registry.takeMethodTokens d.methods.length).takeClassToken).insert
          l.store (newClass l { d with interfaces := ys } superclass) l.store.nextClass = .ok r :=
        hinsert
      rw [hinsert']
      refine ⟨_, rfl, ?_⟩
      show (((l.store.addMethods _).addClass (newClass l d superclass)).getClass
        l.store.nextClass).defaults.Perm (((l.store.addMethods _).addClass
          (newClass l { d with interfaces := ys } superclass)).getClass l.store.nextClass).defaults
      rw [Store.DefinedBy.getClass_self, Store.DefinedBy.getClass_self, newClass, newClass]
      dsimp only
      split
      · exact List.Perm.refl _
      · exact Store.defaultsOf_perm (hsame superclass hcheck).perm _ _

/-- **The selection does not depend on how the clause is written.**  Two clauses that lead to the
same set of interfaces select the same default methods, in some order, and at most one of each
selector.  In every state of a run, that is so if the clauses are permutations of each other, or if
one of them also names an interface that is named already, is above one that is named, or is
implemented by the superclass; and then a class that can be defined with one of the clauses can be
defined with the other and has the same defaults. -/
theorem selection_ignores_clause (h : Reachable allowed l) :
    (∀ (s : Store) (own : List MethodId) (superclass : Option ClassId) (xs ys : List ClassId),
      s.SameInterfaces superclass xs ys →
        (s.defaultsOf own superclass (collectInterfaces s superclass xs)).Perm
          (s.defaultsOf own superclass (collectInterfaces s superclass ys)) ∧
        ((s.defaultsOf own superclass (collectInterfaces s superclass xs)).map s.selector).Nodup) ∧
    (∀ (superclass : Option ClassId) (xs : List ClassId),
      (∀ p, superclass = some p → l.store.HasClass p) → (∀ i ∈ xs, l.store.HasClass i) →
        (∀ ys, xs.Perm ys → l.store.SameInterfaces superclass xs ys) ∧
        ∀ i, (i ∈ xs ∨ (∃ k ∈ xs, i ∈ (l.store.getClass k).allInterfaces) ∨
            ∃ p, superclass = some p ∧ i ∈ (l.store.getClass p).allInterfaces) →
          l.store.SameInterfaces superclass xs (i :: xs)) ∧
    ∀ (d : ClassDefinition) (ys : List ClassId), d.Admissible l.store →
      (∀ superclass, d.check l.store l.registry.root = .ok superclass →
        l.store.SameInterfaces superclass d.interfaces ys) →
      Outcome (define d) l
        (fun c t => ∃ t', define { d with interfaces := ys } l = .ok c t' ∧
          (t.store.getClass c).defaults.Perm (t'.store.getClass c).defaults)
        (fun _ _ => True) := by
  have w := h.sound.wellFormed
  refine ⟨fun s own superclass xs ys hsame =>
      ⟨Store.defaultsOf_perm hsame.perm own superclass, Store.nodup_defaultsOf s own superclass _⟩,
    fun superclass xs hsuper hxs => ⟨fun ys hperm => ?_, fun i hi => ?_⟩,
    fun d ys hd hsame => define_withInterfaces w hd hsame⟩
  · exact Store.sameInterfaces_of_covers w hsuper hxs (fun j hj => hxs j (hperm.mem_iff.mpr hj))
      (Store.covers_of_subset hperm.symm.subset) (Store.covers_of_subset hperm.subset)
  · -- The interface that is added was collected, so it exists.
    have hhas : l.store.HasClass i := by
      rcases hi with hi | ⟨k, hk, hi⟩ | ⟨p, hp, hi⟩
      · exact hxs i hi
      · exact w.hasClass_of_mem_allInterfaces (hxs k hk) hi
      · exact w.hasClass_of_mem_allInterfaces (hsuper p hp) hi
    refine Store.sameInterfaces_of_covers w hsuper hxs (fun j hj => ?_) (fun j hj => ?_)
      (Store.covers_of_subset (List.subset_cons_self i xs))
    · rcases List.mem_cons.mp hj with rfl | hj
      · exact hhas
      · exact hxs j hj
    · rcases List.mem_cons.mp hj with rfl | hj
      · exact hi
      · exact Or.inl hj

/-- The interface `J` has the method of `I` once more, and `K` has another method. -/
def clauseState : Linker :=
  finish { config := .minimal }
    [.define { name := "Object" },
     .define { name := "I", flags := { isInterface := true }, methods := [publicMethod "m" [1]] },
     .define { name := "J", flags := { isInterface := true }, interfaces := [⟨1⟩],
               methods := [publicMethod "m" [2]] },
     .define { name := "K", flags := { isInterface := true }, methods := [publicMethod "n" [3]] }]

/-- A class that names `J` and `K` inherits the methods of these two, and it inherits no others if
it also names `I`. -/
theorem clauseState_selects :
    clauseState.store.defaultsOf [] (some ⟨0⟩)
        (collectInterfaces clauseState.store (some ⟨0⟩) [⟨2⟩, ⟨3⟩]) = [⟨1⟩, ⟨2⟩] ∧
      (clauseState.store.defaultsOf [] (some ⟨0⟩)
        (collectInterfaces clauseState.store (some ⟨0⟩) [⟨1⟩, ⟨2⟩, ⟨3⟩])).Perm [⟨1⟩, ⟨2⟩] := by
  have hstart : Reachable (fun _ => True) { config := .minimal } := .start ⟨rfl, rfl⟩ trivial
  have hrun : Reachable (fun _ => True) clauseState := hstart.finish (by decide +kernel)
  have hselected : clauseState.store.defaultsOf [] (some ⟨0⟩)
      (collectInterfaces clauseState.store (some ⟨0⟩) [⟨2⟩, ⟨3⟩]) = [⟨1⟩, ⟨2⟩] := by
    decide +kernel
  obtain ⟨hperm, hclauses, -⟩ := selection_ignores_clause hrun
  obtain ⟨-, hadd⟩ := hclauses (some ⟨0⟩) [⟨2⟩, ⟨3⟩] (by decide +kernel) (by decide +kernel)
  have hsame := hadd ⟨1⟩ (Or.inr (Or.inl ⟨⟨2⟩, by decide, by decide +kernel⟩))
  have h := (hperm clauseState.store [] (some ⟨0⟩) _ _ hsame).1
  rw [hselected] at h
  exact ⟨hselected, h.symm⟩

end Linker
end ClassLinking
