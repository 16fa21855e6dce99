import ClassLinking.Proofs.Takeover

/-!
# Virtual tables and overriding

What overriding means is said by recursion along the superclass chain: a method overrides one
above it that it can see, and it overrides whatever is overridden by a method that it overrides
(`Store.Overrides`).  Linking never computes this relation.  It compares a method with the
occupant of a slot and, if that is out of reach, with what the tables of the ancestors have in the
same slot.

`Linker.slot_mostDerived` says that both come to the same as long as overriding is transitive: the
slot that a method opened holds, in every subclass, the method of the most derived class that
overrides it.  The induction is along the superclass chain.  In its step a class takes the slot over
exactly if its method overrides the one that opened it (`overrides_of_takesOver` and
`takesOver_of_overrides`), which in turn needs the statement for all classes in between, since
these are the tables that the search looks at.
-/

namespace ClassLinking

namespace Store

/-- The two classes belong to the same runtime package. -/
def SamePackage (s : Store) (c d : ClassId) : Prop :=
  (s.getClass c).loader = (s.getClass d).loader ∧ (s.getClass c).package = (s.getClass d).package

/-- The class `d` declares the instance method `m`, and `a` above it declares `m'`, which has the
same selector and is not private. -/
structure Redeclares (s : Store) (d : ClassId) (m : MethodId) (a : ClassId) (m' : MethodId) :
    Prop where
  above : a ∈ (s.getClass d).ancestors
  declared : m ∈ (s.getClass d).methods
  redeclared : m' ∈ (s.getClass a).methods
  selector : s.selector m = s.selector m'
  isInstance : (s.getMethod m).isInstance = true
  notPrivate : (s.getMethod m').access.isPrivate = false

/-- The method `m` of `d` overrides the method `m'` of `a`. -/
inductive Overrides (s : Store) : ClassId → MethodId → ClassId → MethodId → Prop where
  /-- A public or protected method is overridden by every redeclaration. -/
  | visible {d a : ClassId} {m m' : MethodId} : s.Redeclares d m a m' →
    ((s.getMethod m').access.isPublic = true ∨ (s.getMethod m').access.isProtected = true) →
    Overrides s d m a m'
  /-- A package-private method is overridden from its own runtime package. -/
  | inPackage {d a : ClassId} {m m' : MethodId} : s.Redeclares d m a m' →
    (s.getMethod m').access.isPackagePrivate = true → s.SamePackage d a → Overrides s d m a m'
  /-- What is overridden by an overridden method is overridden. -/
  | through {d b a : ClassId} {m x m' : MethodId} : s.Redeclares d m a m' →
    Overrides s d m b x → Overrides s b x a m' → Overrides s d m a m'

/-- Of the methods of the classes from `c` up to `a` that are `m` or override it, `x` is the one
of the most derived class, which is `d`. -/
structure MostDerived (s : Store) (c a : ClassId) (m : MethodId) (d : ClassId) (x : MethodId) :
    Prop where
  mem : d ∈ s.lineage c
  declared : x ∈ (s.getClass d).methods
  eq_or_overrides : d = a ∧ x = m ∨ s.Overrides d x a m
  last : ∀ e ∈ s.lineage c, d ∈ (s.getClass e).ancestors →
    ∀ y ∈ (s.getClass e).methods, ¬ s.Overrides e y a m

variable {s : Store} {root : Option ClassId} {a c d e : ClassId} {m m' x y z : MethodId}

/-! ## The relation -/

theorem Overrides.redeclares (h : s.Overrides d m a m') : s.Redeclares d m a m' := by
  cases h with
  | visible h _ => exact h
  | inPackage h _ _ => exact h
  | through h _ _ => exact h

/-- What the access rule says about a method and a class. -/
theorem isOverridable_iff (w : s.WellFormed root) (ha : s.HasClass a)
    (hm : m ∈ (s.getClass a).methods) :
    s.isOverridable m (s.getClass d).loader (s.getClass d).name = true ↔
      (s.getMethod m).access.isPrivate = false ∧ ((s.getMethod m).access.isPublic = true ∨
        (s.getMethod m).access.isProtected = true ∨ s.SamePackage d a) := by
  rw [isOverridable, w.holder?_of_mem_methods ha hm, Option.any_some, SamePackage]
  simp only [Class.sharesPackage, Class.package, Bool.and_eq_true, Bool.not_eq_true',
    Bool.or_eq_true, beq_iff_eq, or_assoc]
  exact and_congr_right fun _ => or_congr_right (or_congr_right
    ⟨fun h => ⟨h.1.symm, h.2.symm⟩, fun h => ⟨h.1.symm, h.2.symm⟩⟩)

/-- A redeclaration overrides what it can see. -/
theorem Redeclares.overrides (h : s.Redeclares d m a m') (w : s.WellFormed root)
    (hover : s.isOverridable m' (s.getClass d).loader (s.getClass d).name = true) :
    s.Overrides d m a m' := by
  have ha := w.hasClass_of_mem_ancestors (WellFormed.hasClass_of_ancestors h.above) h.above
  obtain ⟨hprivate, hpublic | hprotected | hpackage⟩ :=
    (isOverridable_iff w ha h.redeclared).mp hover
  · exact .visible h (Or.inl hpublic)
  · exact .visible h (Or.inr hprotected)
  · cases hpp : (s.getMethod m').access.isPackagePrivate with
    | true => exact .inPackage h hpp hpackage
    | false =>
      refine .visible h ?_
      rw [Access.isPackagePrivate, hprivate, Bool.not_eq_false', Bool.or_eq_true,
        Bool.or_false] at hpp
      exact hpp

/-- Whatever a method overrides, it sees a method that overrides it, or the method itself. -/
theorem Overrides.exists_seen (w : s.WellFormed root) (h : s.Overrides d m a m') :
    ∃ e z, s.Redeclares d m e z ∧
      s.isOverridable z (s.getClass d).loader (s.getClass d).name = true ∧
      (e = a ∧ z = m' ∨ s.Overrides e z a m') := by
  induction h with
  | @visible d a m m' h haccess =>
    have ha := w.hasClass_of_mem_ancestors (WellFormed.hasClass_of_ancestors h.above) h.above
    exact ⟨a, m', h, (isOverridable_iff w ha h.redeclared).mpr
      ⟨h.notPrivate, haccess.imp_right Or.inl⟩, Or.inl ⟨rfl, rfl⟩⟩
  | @inPackage d a m m' h _ hpackage =>
    have ha := w.hasClass_of_mem_ancestors (WellFormed.hasClass_of_ancestors h.above) h.above
    exact ⟨a, m', h, (isOverridable_iff w ha h.redeclared).mpr
      ⟨h.notPrivate, Or.inr (Or.inr hpackage)⟩, Or.inl ⟨rfl, rfl⟩⟩
  | @through d b a m x m' h _ h₂ ih₁ _ =>
    obtain ⟨e, z, hz, hover, hor⟩ := ih₁
    refine ⟨e, z, hz, hover, Or.inr ?_⟩
    rcases hor with ⟨rfl, rfl⟩ | hez
    · exact h₂
    · have hzr := hez.redeclares
      have hxr := h₂.redeclares
      refine .through ⟨?_, hz.redeclared, h.redeclared, ?_, hzr.isInstance, h.notPrivate⟩ hez h₂
      · exact w.mem_ancestors_trans hzr.above (WellFormed.mem_lineage_of_mem_ancestors hxr.above)
      · rw [← hz.selector, h.selector]

end Store

namespace Linker

/-! ## One slot, from class to class -/

section Slot

variable {P : Config → Prop} {s : Store} {root : Option ClassId} {a c d e p : ClassId}
  {m x y z : MethodId} {i : Nat}

/-- The class `a` opened the slot `i` for its method `m`. -/
structure Opens (s : Store) (a : ClassId) (m : MethodId) (i : Nat) : Prop where
  declared : m ∈ (s.getClass a).methods
  isNew : s.superLength a ≤ i
  slot : s.slot a i = some m

/-- The slot holds the method of the most derived class that overrides `m`. -/
def HoldsMostDerived (s : Store) (a : ClassId) (m : MethodId) (i : Nat) (c : ClassId) : Prop :=
  ∃ d x, s.slot c i = some x ∧ s.MostDerived c a m d x

theorem Opens.bound (h : Opens s a m i) (T : Traced P root s) :
    (s.getMethod m).isBoundStatically = false := by
  have ha := (Store.linked_of_slot h.slot).hasClass
  have w := T.wellFormed
  rcases T.slot_own h.isNew h.slot with hdisp | hstands
  · exact hdisp.bound
  · obtain ⟨j, hj, -, -, -, hholder⟩ := hstands.met
    rw [((w.fits a ha).methods m h.declared).2, Option.some.injEq] at hholder
    have hlt := (w.allInterfaces_spec a ha j hj).1
    rw [hholder] at hlt
    exact absurd hlt (Nat.lt_irrefl _)

variable (T : Traced P root s) (hdistinct : s.Distinct) (ho : Opens s a m i)

include T ho in
/-- A method of the slot's hierarchy has the selector and is an instance method. -/
theorem mostDerived_isInstance (h : s.MostDerived c a m d x) :
    s.selector x = s.selector m ∧ (s.getMethod x).isInstance = true := by
  rcases h.eq_or_overrides with ⟨-, rfl⟩ | hx
  · exact ⟨rfl, Store.isInstance_of_bound (ho.bound T)⟩
  · exact ⟨hx.redeclares.selector, hx.redeclares.isInstance⟩

theorem mem_lineage_of_mostDerived (h : s.MostDerived c a m d x) : a ∈ s.lineage d := by
  rcases h.eq_or_overrides with ⟨rfl, -⟩ | hx
  · exact Store.WellFormed.mem_lineage_self s d
  · exact Store.WellFormed.mem_lineage_of_mem_ancestors hx.redeclares.above

include T in
/-- Of the classes above, those that fill the slot are `a` and the ones below it. -/
theorem mem_lineage_of_slot (ho : Opens s a m i) (hc : s.HasClass c) (ha : a ∈ s.lineage c)
    (he : e ∈ s.lineage c) (hz : s.slot e i = some z) : a ∈ s.lineage e := by
  have w := T.wellFormed
  refine (w.mem_lineage_or_mem_ancestors hc ha he).resolve_right fun hea => ?_
  have halinked := Store.linked_of_slot ho.slot
  cases hp : (s.getClass a).superclass? with
  | none =>
    rw [Store.WellFormed.ancestors_of_top hp] at hea
    exact List.not_mem_nil hea
  | some q =>
    rw [w.ancestors_of_superclass halinked.hasClass hp] at hea
    have hq := T.linkedUp a halinked q (Store.mem_definedFrom_superclass hp)
    have hle := T.length_le q hq.hasClass hq e hea
    have hlt := Store.lt_of_slot hz
    have hnew := ho.isNew
    rw [Store.superLength_of_superclass hp] at hnew
    omega

/-- A method of the slot's hierarchy: `m` itself or one that overrides it. -/
theorem selector_of_eq_or_overrides (h : e = a ∧ z = m ∨ s.Overrides e z a m) :
    s.selector z = s.selector m := by
  rcases h with ⟨-, rfl⟩ | h
  · rfl
  · exact h.redeclares.selector

include T hdistinct in
/-- A class that declares a method of the slot's hierarchy has it in the slot. -/
theorem slot_eq_of_declared (he : s.HasClass e) (h : HoldsMostDerived s a m i e)
    (hz : z ∈ (s.getClass e).methods) (hor : e = a ∧ z = m ∨ s.Overrides e z a m) :
    s.slot e i = some z := by
  have w := T.wellFormed
  obtain ⟨d, x, hslot, hmd⟩ := h
  have hde : d = e := by
    by_contra hne
    have hd := hmd.mem
    rw [Store.lineage, List.mem_cons] at hd
    have hd := hd.resolve_left hne
    rcases hor with ⟨rfl, -⟩ | hez
    · have had := mem_lineage_of_mostDerived hmd
      have hlt := w.index_lt_of_mem_ancestors he hd
      have hle := (w.lineage_spec d (w.hasClass_of_mem_ancestors he hd) e had).2.1
      omega
    · exact hmd.last e (Store.WellFormed.mem_lineage_self s e) hd z hz hez
  subst hde
  have hsel := (selector_of_eq_or_overrides hmd.eq_or_overrides).trans
    (selector_of_eq_or_overrides hor).symm
  rw [hslot, hdistinct.eq hmd.declared hz hsel]

section Step

variable (hc : s.HasClass c) (hp : (s.getClass c).superclass? = some p) (hap : a ∈ s.lineage p)
  (hall : ∀ e ∈ s.lineage p, a ∈ s.lineage e → HoldsMostDerived s a m i e)
  (hx : s.slot p i = some x) (hmd : s.MostDerived p a m d x)
  (hy : y ∈ (s.getClass c).methods) (hinst : (s.getMethod y).isInstance = true)
  (hsel : s.selector y = s.selector m)

include T ho hc hp hap hall hmd hy hinst hsel in
/-- A method that takes the slot over overrides `m`. -/
theorem overrides_of_takesOver (htakes : s.takesOver true c y i x = true) :
    s.Overrides c y a m := by
  have w := T.wellFormed
  have hpc := w.hasClass_superclass hc hp
  have hanc := w.ancestors_of_superclass hc hp
  have hdc := w.hasClass_of_mem_lineage hpc hmd.mem
  obtain ⟨-, h, hholder, hor⟩ := Store.takesOver_iff.mp htakes
  rw [w.holder?_of_mem_methods hdc hmd.declared, Option.some.injEq] at hholder
  subst hholder
  have hprivate := (Method.isInstance_iff.mp (Store.isInstance_of_bound (ho.bound T))).2
  have hself : s.Redeclares c y a m :=
    ⟨hanc ▸ hap, hy, ho.declared, hsel, hinst, hprivate⟩
  -- A method of the hierarchy that `y` sees is overridden, and with it whatever that overrides.
  have hseen : ∀ e z, s.MostDerived p a m d x → e ∈ s.lineage p → z ∈ (s.getClass e).methods →
      (e = a ∧ z = m ∨ s.Overrides e z a m) → (s.getMethod z).isInstance = true →
      s.isOverridable z (s.getClass c).loader (s.getClass c).name = true →
      s.Overrides c y a m := by
    intro e z _ he hz hez hzinst hover
    have hcz : s.Redeclares c y e z :=
      ⟨hanc ▸ he, hy, hz, hsel.trans (selector_of_eq_or_overrides hez).symm, hinst,
        (Method.isInstance_iff.mp hzinst).2⟩
    have hdirect := hcz.overrides w hover
    rcases hez with ⟨rfl, rfl⟩ | hez
    · exact hdirect
    · exact .through hself hdirect hez
  rcases hor with hover | ⟨-, -, z, hwalk, -⟩
  · exact hseen d x hmd hmd.mem hmd.declared hmd.eq_or_overrides
      (mostDerived_isInstance T ho hmd).2 hover
  · obtain ⟨e, he, hslot, hover⟩ := Store.transitivelyOverridden_some hwalk
    have hep : e ∈ s.lineage p := w.mem_lineage_trans hpc hmd.mem
      (Store.WellFormed.mem_lineage_of_mem_ancestors he)
    have hae := mem_lineage_of_slot T ho hpc hap hep hslot
    obtain ⟨d', x', hslot', hmd'⟩ := hall e hep hae
    rw [hslot, Option.some.injEq] at hslot'
    subst hslot'
    exact hseen d' z hmd (w.mem_lineage_trans hpc hep hmd'.mem) hmd'.declared
      hmd'.eq_or_overrides (mostDerived_isInstance T ho hmd').2 hover

include T hdistinct ho hc hp hap hall hx hmd hsel in
/-- A method that overrides `m` takes the slot over. -/
theorem takesOver_of_overrides (hplinked : s.Linked p) (hover : s.Overrides c y a m) :
    s.takesOver true c y i x = true := by
  have w := T.wellFormed
  have hpc := w.hasClass_superclass hc hp
  have hanc := w.ancestors_of_superclass hc hp
  have hdc := w.hasClass_of_mem_lineage hpc hmd.mem
  obtain ⟨hxsel, hxinst⟩ := mostDerived_isInstance T ho hmd
  have hxprivate := (Method.isInstance_iff.mp hxinst).2
  rw [Store.takesOver_iff]
  refine ⟨hxsel.trans hsel.symm, d, w.holder?_of_mem_methods hdc hmd.declared, ?_⟩
  obtain ⟨e, z, hz, hsees, hor⟩ := hover.exists_seen w
  have hep : e ∈ s.lineage p := hanc ▸ hz.above
  have hec := w.hasClass_of_mem_lineage hpc hep
  have hae : a ∈ s.lineage e := by
    rcases hor with ⟨rfl, -⟩ | hez
    · exact Store.WellFormed.mem_lineage_self s e
    · exact Store.WellFormed.mem_lineage_of_mem_ancestors hez.redeclares.above
  have hslot := slot_eq_of_declared T hdistinct hec (hall e hep hae) hz.redeclared hor
  -- The class of the method that `y` sees is that of the occupant or stands above it.
  rcases w.mem_lineage_or_mem_ancestors hpc hmd.mem hep with hde | hed
  · left
    rw [Store.lineage, List.mem_cons] at hde
    rcases hde with rfl | hde
    · have hxz : x = z := hdistinct.eq hmd.declared hz.redeclared
        ((selector_of_eq_or_overrides hmd.eq_or_overrides).trans
          (selector_of_eq_or_overrides hor).symm)
      rwa [hxz]
    · rcases hor with ⟨rfl, -⟩ | hez
      · have had := mem_lineage_of_mostDerived hmd
        have hlt := w.index_lt_of_mem_ancestors hec hde
        have hle := (w.lineage_spec d hdc e had).2.1
        omega
      · exact absurd hez (hmd.last e hep hde z hz.redeclared)
  · right
    obtain ⟨v, hv, hheld⟩ := T.exists_transitivelyOverridden hplinked hx hmd.mem hed hslot hsees
    rw [hxsel, ← hsel] at hv
    exact ⟨rfl, hxprivate, v, hv, hheld⟩

include T hdistinct ho hc hp hap hall in
/-- One class further down the chain. -/
theorem holdsMostDerived_step (hP : ∀ config, P config → config.transitiveOverrides = true)
    (hlinked : s.Linked c) : HoldsMostDerived s a m i c := by
  have w := T.wellFormed
  have hplinked := T.linkedUp c hlinked p (Store.mem_definedFrom_superclass hp)
  have hac : a ∈ s.lineage c := by
    rw [w.lineage_of_superclass hc hp]
    exact List.mem_cons_of_mem _ hap
  obtain ⟨d, x, hx, hmd⟩ := hall p (Store.WellFormed.mem_lineage_self s p) hap
  obtain ⟨hxsel, -⟩ := mostDerived_isInstance T ho hmd
  have hkeep : (∀ y ∈ (s.getClass c).methods, ¬ s.Overrides c y a m) → s.MostDerived c a m d x :=
    fun hno =>
      { mem := by
          rw [w.lineage_of_superclass hc hp]
          exact List.mem_cons_of_mem _ hmd.mem
        declared := hmd.declared
        eq_or_overrides := hmd.eq_or_overrides
        last := fun e he hde y hy => by
          rw [w.lineage_of_superclass hc hp, List.mem_cons] at he
          rcases he with rfl | he
          · exact hno y hy
          · exact hmd.last e he hde y hy }
  by_cases hex : ∃ y ∈ (s.getClass c).methods, s.selector y = s.selector m ∧
      (s.getMethod y).isInstance = true
  · obtain ⟨y, hy, hsel, hinst⟩ := hex
    have hslot := T.slot_takeover hdistinct hP hlinked hp hx hy
      (Store.bound_of_selector (ho.bound T) hsel hinst) (hxsel.trans hsel.symm)
    by_cases htakes : s.takesOver true c y i x = true
    · rw [if_pos htakes] at hslot
      refine ⟨c, y, hslot, Store.WellFormed.mem_lineage_self s c, hy, Or.inr ?_, fun e he hce => ?_⟩
      · exact overrides_of_takesOver T ho hc hp hap hall hmd hy hinst hsel htakes
      · have hlt := w.index_lt_of_mem_ancestors (w.hasClass_of_mem_lineage hc he) hce
        have hle := (w.lineage_spec c hc e he).2.1
        omega
    · rw [if_neg htakes] at hslot
      refine ⟨d, x, hslot, hkeep fun y' hy' hover => htakes ?_⟩
      have heq : y' = y := hdistinct.eq hy' hy (hover.redeclares.selector.trans hsel.symm)
      subst heq
      exact takesOver_of_overrides T hdistinct ho hc hp hap hall hx hmd hsel hplinked hover
  · refine ⟨d, x, T.slot_kept hlinked hp hx fun z hz hsel => ?_, hkeep fun y hy hover => ?_⟩
    · rcases hz.mem with hzm | hzd
      · exact hex ⟨z, hzm, hsel.symm.trans hxsel, Store.isInstance_of_bound hz.bound⟩
      · exact T.selector_default_ne hc hzd hac ho.declared (Store.isInstance_of_bound (ho.bound T))
          (hxsel.symm.trans hsel)
    · exact hex ⟨y, hy, hover.redeclares.selector, hover.redeclares.isInstance⟩

end Step

include T hdistinct ho in
/-- **The slot holds the most derived overrider in every subclass.**  The induction is along the
superclass chain; the statement is carried for all classes from `a` on, since the search for what is
overridden looks at their tables. -/
theorem holdsMostDerived (hP : ∀ config, P config → config.transitiveOverrides = true) :
    ∀ c, s.HasClass c → s.Linked c → ∀ e ∈ s.lineage c, a ∈ s.lineage e →
      HoldsMostDerived s a m i e := by
  have w := T.wellFormed
  have hbound := ho.bound T
  refine w.superclass_induction fun c hc ih hlinked e he hae => ?_
  have hbase : HoldsMostDerived s a m i a := by
    have ha := (Store.linked_of_slot ho.slot).hasClass
    refine ⟨a, m, ho.slot, Store.WellFormed.mem_lineage_self s a, ho.declared, Or.inl ⟨rfl, rfl⟩,
      fun b hb hab => ?_⟩
    have hlt := w.index_lt_of_mem_ancestors (w.hasClass_of_mem_lineage ha hb) hab
    have hle := (w.lineage_spec a ha b hb).2.1
    omega
  cases hp : (s.getClass c).superclass? with
  | none =>
    rw [Store.lineage, Store.WellFormed.ancestors_of_top hp, List.mem_singleton] at he
    subst he
    rw [Store.lineage, Store.WellFormed.ancestors_of_top hp, List.mem_singleton] at hae
    exact hae ▸ hbase
  | some p =>
    have hall := ih p hp (T.linkedUp c hlinked p (Store.mem_definedFrom_superclass hp))
    rw [w.lineage_of_superclass hc hp, List.mem_cons] at he
    rcases he with heq | he
    · rw [heq, w.lineage_of_superclass hc hp, List.mem_cons] at hae
      rw [heq]
      rcases hae with rfl | hap
      · exact hbase
      · exact holdsMostDerived_step T hdistinct ho hc hp hap hall hP hlinked
    · exact hall e he hae

end Slot

/-- **A slot belongs to the most derived overrider.**  In a run that defines classes and links
them with transitive overriding, let a linked class `a` have opened the slot `i` for its method
`m`.  Then the slot holds, in every linked class `c` that is `a` or extends it, the method of the
most derived class that is `m` or overrides it. -/
theorem slot_mostDerived {l : Linker} {a c : ClassId} {m : MethodId} {i : Nat}
    (h : Reachable (Builds fun config => config.transitiveOverrides = true) l)
    (hdistinct : l.store.Distinct) (hm : m ∈ (l.store.getClass a).methods)
    (hnew : l.store.superLength a ≤ i) (hslot : l.store.slot a i = some m)
    (hc : l.store.Linked c) (ha : a ∈ l.store.lineage c) :
    ∃ d x, l.store.slot c i = some x ∧ l.store.MostDerived c a m d x :=
  holdsMostDerived h.constructed.traced hdistinct ⟨hm, hnew, hslot⟩ (fun _ hconfig => hconfig) c
    hc.hasClass hc c (Store.WellFormed.mem_lineage_self _ c) ha

/-- A public method, a package-private one in another package and a public one in the first package
again. -/
def crossingRun : List Command :=
  let method (access : UInt32) : Declaration :=
    { selector := ⟨"m", "()V"⟩, word := access, code := [1] }
  [.define { name := "Object" },
   .define { name := "p1/A", superclass := some ⟨0⟩, methods := [method 1] },
   .define { name := "p2/B", superclass := some ⟨1⟩, methods := [method 0] },
   .define { name := "p1/C", superclass := some ⟨2⟩, methods := [method 1] },
   .link ⟨3⟩]

/-- The last class takes over the slot that the first one opened, past the method between. -/
theorem crossingRun_slot :
    let s := (finish { config := .minimal } crossingRun).store
    ∃ d x, s.slot ⟨3⟩ 0 = some x ∧ s.MostDerived ⟨3⟩ ⟨1⟩ ⟨0⟩ d x :=
  have hstart : Reachable (Builds fun config => config.transitiveOverrides = true)
    { config := .minimal } := .start ⟨rfl, rfl⟩ rfl
  slot_mostDerived (hstart.finish (by decide +kernel)) (by decide +kernel) (by decide +kernel)
    (by decide +kernel) (by decide +kernel) (by decide +kernel) (by decide +kernel)

end Linker
end ClassLinking
