import ClassLinking.Definition
import ClassLinking.Proofs.Store

/-!
# Well-formed hierarchies

`Store.Fits` lists what the definition of a class guarantees of that class for ever: its superclass
chain is its superclass followed by the superclass's chain, whatever it refers to was defined before
it, its interfaces are the ones it can reach, and the methods it lists are held where they should
be.  A store all of whose classes fit is `WellFormed`.

Since references go to older classes only, a statement about all classes is proved along the
superclass chain (`WellFormed.superclass_induction`) or along references of any kind
(`WellFormed.reference_induction`).

Main statements:

* `mem_lineage_trans`, `lineage_suffix` --- the chain of a superclass is the end of one's own chain;
* `mem_allInterfaces_iff`, `allInterfaces_trans` --- what a class implements is closed upwards;
* `isSubtype_of_mem` --- the superclasses and the interfaces of a class are its supertypes.
-/

namespace ClassLinking
namespace Store

open ClassDefinition

/-- What definition guarantees of a class; `root` is the class at the top of the hierarchy. -/
structure Fits (s : Store) (root : Option ClassId) (c : ClassId) : Prop where
  isLoaded : (s.getClass c).isLoaded = true
  ancestors_eq : (s.getClass c).ancestors = (s.getClass c).superclass?.elim [] s.lineage
  superclass : ∀ p, (s.getClass c).superclass? = some p →
    p.index < c.index ∧ (s.getClass p).isInterface = false ∧ (s.getClass p).flags.isFinal = false
  top : (s.getClass c).superclass? = none →
    root = some c ∧ (s.getClass c).isInterface = false ∧ (s.getClass c).localInterfaces = []
  interface : (s.getClass c).isInterface = true → (s.getClass c).superclass? = root
  localInterfaces : ∀ i ∈ (s.getClass c).localInterfaces,
    i.index < c.index ∧ (s.getClass i).isInterface = true
  allInterfaces_eq : (s.getClass c).allInterfaces =
    collectInterfaces s (s.getClass c).superclass? (s.getClass c).localInterfaces
  methods : ∀ m ∈ (s.getClass c).methods, s.HasMethod m ∧ (s.getMethod m).holder = some c
  defaults : ∀ m ∈ (s.getClass c).defaults, s.HasMethod m ∧
    ∃ i ∈ (s.getClass c).allInterfaces, (s.getMethod m).holder = some i

/-- Every class fits, every method has a holder, and there is one root. -/
structure WellFormed (s : Store) (root : Option ClassId) : Prop where
  fits : ∀ c, s.HasClass c → s.Fits root c
  held : ∀ m, s.HasMethod m → ∃ c, (s.getMethod m).holder = some c ∧ s.HasClass c
  root_fits : ∀ r, root = some r → s.HasClass r ∧ (s.getClass r).superclass? = none
  rooted : ∀ c, s.HasClass c → root ≠ none

/-- The store without classes is well-formed. -/
theorem wellFormed_empty : WellFormed .empty none where
  fits := fun c h => absurd h (Nat.not_lt_zero _)
  held := fun m h => absurd h (Nat.not_lt_zero _)
  root_fits := fun r h => absurd h (by simp)
  rooted := fun c h => absurd h (Nat.not_lt_zero _)

namespace WellFormed

variable {s : Store} {root : Option ClassId}

/-! ## References -/

theorem hasClass_superclass (w : s.WellFormed root) {c p : ClassId} (hc : s.HasClass c)
    (hp : (s.getClass c).superclass? = some p) : s.HasClass p :=
  Nat.lt_trans ((w.fits c hc).superclass p hp).1 hc

theorem hasClass_localInterface (w : s.WellFormed root) {c i : ClassId} (hc : s.HasClass c)
    (hi : i ∈ (s.getClass c).localInterfaces) : s.HasClass i :=
  Nat.lt_trans ((w.fits c hc).localInterfaces i hi).1 hc

/-- A statement that passes from the superclass to the class holds of every class. -/
theorem superclass_induction (w : s.WellFormed root) {P : ClassId → Prop}
    (step : ∀ c, s.HasClass c → (∀ p, (s.getClass c).superclass? = some p → P p) → P c) :
    ∀ c, s.HasClass c → P c := by
  intro c
  induction hn : c.index using Nat.strongRecOn generalizing c with
  | _ n ih =>
    intro hc
    refine step c hc fun p hp => ?_
    have hlt := ((w.fits c hc).superclass p hp).1
    exact ih p.index (hn ▸ hlt) p rfl (w.hasClass_superclass hc hp)

/-- A statement that passes from all references of a class to the class holds of every class. -/
theorem reference_induction (w : s.WellFormed root) {P : ClassId → Prop}
    (step : ∀ c, s.HasClass c →
      (∀ p ∈ (s.getClass c).superclass?.toList ++ (s.getClass c).localInterfaces, P p) → P c) :
    ∀ c, s.HasClass c → P c := by
  intro c
  induction hn : c.index using Nat.strongRecOn generalizing c with
  | _ n ih =>
    intro hc
    refine step c hc fun p hp => ?_
    rw [List.mem_append, Option.mem_toList] at hp
    rcases hp with hp | hp
    · have hlt := ((w.fits c hc).superclass p hp).1
      exact ih p.index (hn ▸ hlt) p rfl (w.hasClass_superclass hc hp)
    · have hlt := ((w.fits c hc).localInterfaces p hp).1
      exact ih p.index (hn ▸ hlt) p rfl (w.hasClass_localInterface hc hp)

/-! ## The superclass chain -/

theorem mem_lineage_self (s : Store) (c : ClassId) : c ∈ s.lineage c := List.mem_cons_self ..

theorem lineage_of_superclass (w : s.WellFormed root) {c p : ClassId} (hc : s.HasClass c)
    (hp : (s.getClass c).superclass? = some p) : s.lineage c = c :: s.lineage p := by
  rw [lineage, (w.fits c hc).ancestors_eq, hp]
  rfl

theorem ancestors_of_superclass (w : s.WellFormed root) {c p : ClassId} (hc : s.HasClass c)
    (hp : (s.getClass c).superclass? = some p) : (s.getClass c).ancestors = s.lineage p := by
  rw [(w.fits c hc).ancestors_eq, hp]
  rfl

theorem ancestors_of_top {s : Store} {c : ClassId} (hp : (s.getClass c).superclass? = none) :
    (s.getClass c).ancestors = [] :=
  List.head?_eq_none_iff.mp hp

/-- Every class of a chain exists, is the class itself or older, and its chain is the end of the
chain. -/
theorem lineage_spec (w : s.WellFormed root) :
    ∀ c, s.HasClass c → ∀ a ∈ s.lineage c, s.HasClass a ∧ a.index ≤ c.index ∧
      s.lineage a <:+ s.lineage c := by
  refine w.superclass_induction fun c hc ih a ha => ?_
  rw [lineage, List.mem_cons] at ha
  rcases ha with rfl | ha
  · exact ⟨hc, Nat.le_refl _, List.suffix_refl _⟩
  · cases hp : (s.getClass c).superclass? with
    | none =>
      rw [ancestors_of_top hp] at ha
      exact absurd ha (List.not_mem_nil)
    | some p =>
      rw [w.ancestors_of_superclass hc hp] at ha
      obtain ⟨hca, hle, hsuf⟩ := ih p hp a ha
      have hlt := ((w.fits c hc).superclass p hp).1
      refine ⟨hca, by omega, ?_⟩
      rw [w.lineage_of_superclass hc hp]
      exact hsuf.trans (List.suffix_cons _ _)

theorem hasClass_of_mem_lineage (w : s.WellFormed root) {c a : ClassId} (hc : s.HasClass c)
    (ha : a ∈ s.lineage c) : s.HasClass a :=
  (w.lineage_spec c hc a ha).1

/-- The chain of a superclass is the end of one's own chain. -/
theorem lineage_suffix (w : s.WellFormed root) {c a : ClassId} (hc : s.HasClass c)
    (ha : a ∈ s.lineage c) : s.lineage a <:+ s.lineage c :=
  (w.lineage_spec c hc a ha).2.2

theorem mem_lineage_trans (w : s.WellFormed root) {a b c : ClassId} (hc : s.HasClass c)
    (hb : b ∈ s.lineage c) (ha : a ∈ s.lineage b) : a ∈ s.lineage c :=
  (w.lineage_suffix hc hb).subset ha

theorem mem_lineage_of_mem_ancestors {s : Store} {a c : ClassId}
    (h : a ∈ (s.getClass c).ancestors) : a ∈ s.lineage c :=
  List.mem_cons_of_mem _ h

/-- A class above another one is older. -/
theorem index_lt_of_mem_ancestors (w : s.WellFormed root) {a c : ClassId} (hc : s.HasClass c)
    (ha : a ∈ (s.getClass c).ancestors) : a.index < c.index := by
  cases hp : (s.getClass c).superclass? with
  | none =>
    rw [ancestors_of_top hp] at ha
    exact absurd ha (List.not_mem_nil)
  | some p =>
    rw [w.ancestors_of_superclass hc hp] at ha
    have hle := (w.lineage_spec p (w.hasClass_superclass hc hp) a ha).2.1
    have hlt := ((w.fits c hc).superclass p hp).1
    omega

theorem hasClass_of_mem_ancestors (w : s.WellFormed root) {a c : ClassId} (hc : s.HasClass c)
    (ha : a ∈ (s.getClass c).ancestors) : s.HasClass a :=
  w.hasClass_of_mem_lineage hc (mem_lineage_of_mem_ancestors ha)

/-- A superclass is neither an interface nor final. -/
theorem class_of_mem_ancestors (w : s.WellFormed root) :
    ∀ c, s.HasClass c → ∀ a ∈ (s.getClass c).ancestors,
      (s.getClass a).isInterface = false ∧ (s.getClass a).flags.isFinal = false := by
  refine w.superclass_induction fun c hc ih a ha => ?_
  cases hp : (s.getClass c).superclass? with
  | none =>
    rw [ancestors_of_top hp] at ha
    exact absurd ha (List.not_mem_nil)
  | some p =>
    rw [w.ancestors_of_superclass hc hp, lineage, List.mem_cons] at ha
    rcases ha with rfl | ha
    · exact ((w.fits c hc).superclass a hp).2
    · exact ih p hp a ha

/-- The chain of a class has no interfaces in it. -/
theorem isInterface_of_mem_lineage (w : s.WellFormed root) {a c : ClassId} (hc : s.HasClass c)
    (hint : (s.getClass c).isInterface = false) (ha : a ∈ s.lineage c) :
    (s.getClass a).isInterface = false := by
  rw [lineage, List.mem_cons] at ha
  rcases ha with rfl | ha
  · exact hint
  · exact (w.class_of_mem_ancestors c hc a ha).1

/-- Every chain ends at the root. -/
theorem root_mem_lineage (w : s.WellFormed root) {r : ClassId} (hr : root = some r) :
    ∀ c, s.HasClass c → r ∈ s.lineage c := by
  refine w.superclass_induction fun c hc ih => ?_
  cases hp : (s.getClass c).superclass? with
  | none =>
    have htop := ((w.fits c hc).top hp).1
    rw [hr, Option.some.injEq] at htop
    rw [htop]
    exact mem_lineage_self s c
  | some p =>
    rw [w.lineage_of_superclass hc hp]
    exact List.mem_cons_of_mem _ (ih p hp)

/-- Only a class that exists has ancestors. -/
theorem hasClass_of_ancestors {s : Store} {a c : ClassId} (h : a ∈ (s.getClass c).ancestors) :
    s.HasClass c := by
  by_contra hc
  rw [getClass_of_not hc] at h
  exact absurd h List.not_mem_nil

/-- A class above a class above is above. -/
theorem mem_ancestors_trans (w : s.WellFormed root) {a c d : ClassId}
    (hb : d ∈ (s.getClass c).ancestors) (ha : a ∈ s.lineage d) : a ∈ (s.getClass c).ancestors := by
  have hc := hasClass_of_ancestors hb
  have hac := w.mem_lineage_trans hc (mem_lineage_of_mem_ancestors hb) ha
  rw [lineage, List.mem_cons] at hac
  rcases hac with rfl | hac
  · have hd := w.hasClass_of_mem_ancestors hc hb
    have hlt := w.index_lt_of_mem_ancestors hc hb
    have hle := (w.lineage_spec d hd a ha).2.1
    omega
  · exact hac

/-- Two classes of one chain stand one above the other. -/
theorem mem_lineage_or_mem_ancestors (w : s.WellFormed root) {a c e : ClassId} (hc : s.HasClass c)
    (ha : a ∈ s.lineage c) (he : e ∈ s.lineage c) :
    a ∈ s.lineage e ∨ e ∈ (s.getClass a).ancestors := by
  rcases List.suffix_or_suffix_of_suffix (w.lineage_suffix hc ha) (w.lineage_suffix hc he) with
    h | h
  · exact Or.inl (h.subset (mem_lineage_self s a))
  · have hea := h.subset (mem_lineage_self s e)
    rw [lineage, List.mem_cons] at hea
    rcases hea with rfl | hea
    · exact Or.inl (mem_lineage_self s e)
    · exact Or.inr hea

/-- The classes between a class and one above it. -/
theorem ancestors_split (w : s.WellFormed root) :
    ∀ c, s.HasClass c → ∀ a ∈ (s.getClass c).ancestors, ∃ before,
      (s.getClass c).ancestors = before ++ s.lineage a ∧
        ∀ b ∈ before, a ∈ (s.getClass b).ancestors := by
  refine w.superclass_induction fun c hc ih a ha => ?_
  cases hp : (s.getClass c).superclass? with
  | none =>
    rw [ancestors_of_top hp] at ha
    exact absurd ha List.not_mem_nil
  | some p =>
    rw [w.ancestors_of_superclass hc hp, lineage, List.mem_cons] at ha
    rw [w.ancestors_of_superclass hc hp]
    rcases ha with rfl | ha
    · exact ⟨[], rfl, fun b hb => absurd hb List.not_mem_nil⟩
    · obtain ⟨before, heq, hbefore⟩ := ih p hp a ha
      refine ⟨p :: before, by rw [lineage, heq]; rfl, fun b hb => ?_⟩
      rcases List.mem_cons.mp hb with rfl | hb
      · exact ha
      · exact hbefore b hb

/-! ## Holders -/

/-- All classes are loaded, so a method keeps its holder. -/
theorem holder?_eq (w : s.WellFormed root) {m : MethodId} (hm : s.HasMethod m) :
    s.holder? m = (s.getMethod m).holder := by
  obtain ⟨c, hholder, hc⟩ := w.held m hm
  rw [holder?, hholder]
  simp [(w.fits c hc).isLoaded]

theorem hasClass_of_holder? (w : s.WellFormed root) {c : ClassId} {m : MethodId}
    (h : s.holder? m = some c) : s.HasClass c := by
  have hm := hasMethod_of_holder? h
  obtain ⟨d, hheld, hd⟩ := w.held m hm
  rw [w.holder?_eq hm, hheld, Option.some.injEq] at h
  exact h ▸ hd

theorem holder?_of_mem_methods (w : s.WellFormed root) {c : ClassId} {m : MethodId}
    (hc : s.HasClass c) (hm : m ∈ (s.getClass c).methods) : s.holder? m = some c := by
  obtain ⟨hhas, hholder⟩ := (w.fits c hc).methods m hm
  rw [w.holder?_eq hhas, hholder]

/-- No method is declared by two classes. -/
theorem eq_of_mem_methods (w : s.WellFormed root) {c d : ClassId} {m : MethodId}
    (hc : s.HasClass c) (hd : s.HasClass d) (hmc : m ∈ (s.getClass c).methods)
    (hmd : m ∈ (s.getClass d).methods) : c = d := by
  have h := (w.fits c hc).methods m hmc
  rw [((w.fits d hd).methods m hmd).2] at h
  exact (Option.some.inj h.2).symm

/-! ## Interfaces -/

theorem mem_collectInterfaces {superclass : Option ClassId} {xs : List ClassId} {i : ClassId} :
    i ∈ collectInterfaces s superclass xs ↔
      (∃ p, superclass = some p ∧ i ∈ (s.getClass p).allInterfaces) ∨
        ∃ j ∈ xs, i = j ∨ i ∈ (s.getClass j).allInterfaces := by
  rw [collectInterfaces, List.mem_eraseDups, List.mem_append, List.mem_flatMap]
  refine or_congr ?_ (exists_congr fun j => and_congr_right fun _ => List.mem_cons)
  cases superclass <;> simp

/-- The interfaces of a class are those of its superclass, those it names, and those above them. -/
theorem mem_allInterfaces_iff (w : s.WellFormed root) {c i : ClassId} (hc : s.HasClass c) :
    i ∈ (s.getClass c).allInterfaces ↔
      (∃ p, (s.getClass c).superclass? = some p ∧ i ∈ (s.getClass p).allInterfaces) ∨
        ∃ j ∈ (s.getClass c).localInterfaces, i = j ∨ i ∈ (s.getClass j).allInterfaces := by
  rw [(w.fits c hc).allInterfaces_eq, mem_collectInterfaces]

theorem allInterfaces_of_superclass (w : s.WellFormed root) {c p i : ClassId} (hc : s.HasClass c)
    (hp : (s.getClass c).superclass? = some p) (hi : i ∈ (s.getClass p).allInterfaces) :
    i ∈ (s.getClass c).allInterfaces :=
  (w.mem_allInterfaces_iff hc).mpr (Or.inl ⟨p, hp, hi⟩)

theorem allInterfaces_of_mem_lineage (w : s.WellFormed root) :
    ∀ c, s.HasClass c → ∀ a ∈ s.lineage c, ∀ i ∈ (s.getClass a).allInterfaces,
      i ∈ (s.getClass c).allInterfaces := by
  refine w.superclass_induction fun c hc ih a ha i hi => ?_
  rw [lineage, List.mem_cons] at ha
  rcases ha with rfl | ha
  · exact hi
  · cases hp : (s.getClass c).superclass? with
    | none =>
      rw [ancestors_of_top hp] at ha
      exact absurd ha List.not_mem_nil
    | some p =>
      rw [w.ancestors_of_superclass hc hp] at ha
      exact w.allInterfaces_of_superclass hc hp (ih p hp a ha i hi)

/-- The interfaces of a class are interfaces, and older than the class. -/
theorem allInterfaces_spec (w : s.WellFormed root) :
    ∀ c, s.HasClass c → ∀ i ∈ (s.getClass c).allInterfaces,
      i.index < c.index ∧ (s.getClass i).isInterface = true := by
  refine w.reference_induction fun c hc ih i hi => ?_
  rcases (w.mem_allInterfaces_iff hc).mp hi with ⟨p, hp, hip⟩ | ⟨j, hj, hij⟩
  · obtain ⟨hlt, hint⟩ := ih p (by simp [hp]) i hip
    have hlt' := ((w.fits c hc).superclass p hp).1
    exact ⟨by omega, hint⟩
  · obtain ⟨hlt, hint⟩ := (w.fits c hc).localInterfaces j hj
    rcases hij with rfl | hij
    · exact ⟨hlt, hint⟩
    · obtain ⟨hlt', hint'⟩ := ih j (by simp [hj]) i hij
      exact ⟨by omega, hint'⟩

theorem hasClass_of_mem_allInterfaces (w : s.WellFormed root) {c i : ClassId} (hc : s.HasClass c)
    (hi : i ∈ (s.getClass c).allInterfaces) : s.HasClass i :=
  Nat.lt_trans (w.allInterfaces_spec c hc i hi).1 hc

/-- What a class implements is closed upwards. -/
theorem allInterfaces_trans (w : s.WellFormed root) :
    ∀ c, s.HasClass c → ∀ i ∈ (s.getClass c).allInterfaces,
      ∀ j ∈ (s.getClass i).allInterfaces, j ∈ (s.getClass c).allInterfaces := by
  refine w.reference_induction fun c hc ih i hi j hj => ?_
  rw [w.mem_allInterfaces_iff hc]
  rcases (w.mem_allInterfaces_iff hc).mp hi with ⟨p, hp, hip⟩ | ⟨k, hk, hik⟩
  · exact Or.inl ⟨p, hp, ih p (by simp [hp]) i hip j hj⟩
  · refine Or.inr ⟨k, hk, Or.inr ?_⟩
    rcases hik with rfl | hik
    · exact hj
    · exact ih k (by simp [hk]) i hik j hj

/-- What is above a supertype in the chain of superclasses is above the class: an interface has
nothing but the root there. -/
theorem mem_ancestors_of_supertype (w : s.WellFormed root) {a c d : ClassId} (hc : s.HasClass c)
    (hd : d ∈ s.lineage c ∨ d ∈ (s.getClass c).allInterfaces) (ha : a ∈ (s.getClass d).ancestors) :
    a ∈ (s.getClass c).ancestors := by
  rcases hd with hd | hd
  · rcases List.mem_cons.mp hd with rfl | hd
    · exact ha
    · exact w.mem_ancestors_trans hd (mem_lineage_of_mem_ancestors ha)
  · obtain ⟨hlt, hint⟩ := w.allInterfaces_spec c hc d hd
    have hdc := w.hasClass_of_mem_allInterfaces hc hd
    have hsuper := (w.fits d hdc).interface hint
    cases hroot : root with
    | none =>
      rw [ancestors_of_top (hsuper.trans hroot)] at ha
      exact absurd ha List.not_mem_nil
    | some r =>
      have hadlt := w.index_lt_of_mem_ancestors hdc ha
      rw [w.ancestors_of_superclass hdc (hsuper.trans hroot), lineage,
        ancestors_of_top (w.root_fits r hroot).2, List.mem_singleton] at ha
      subst ha
      rcases List.mem_cons.mp (w.root_mem_lineage hroot c hc) with rfl | hr
      · exact absurd (Nat.lt_trans hadlt hlt) (Nat.lt_irrefl _)
      · exact hr

/-! ## Supertypes -/

theorem isSubtype_self (s : Store) (c : ClassId) : s.isSubtype c c = true := by
  simp [isSubtype]

theorem isSubtype_of_mem_allInterfaces (w : s.WellFormed root) {c i : ClassId} (hc : s.HasClass c)
    (hi : i ∈ (s.getClass c).allInterfaces) : s.isSubtype c i = true := by
  simp [isSubtype, implements, (w.allInterfaces_spec c hc i hi).2, hi]

/-- The classes of the chain and the interfaces are supertypes. -/
theorem isSubtype_of_mem (w : s.WellFormed root) {c d : ClassId} (hc : s.HasClass c)
    (hd : d ∈ s.lineage c ∨ d ∈ (s.getClass c).allInterfaces) : s.isSubtype c d = true := by
  rcases hd with hd | hd
  · rw [lineage, List.mem_cons] at hd
    rcases hd with rfl | hd
    · exact isSubtype_self s d
    · simp [isSubtype, (w.class_of_mem_ancestors c hc d hd).1, hd]
  · exact w.isSubtype_of_mem_allInterfaces hc hd

end WellFormed
end Store
end ClassLinking
