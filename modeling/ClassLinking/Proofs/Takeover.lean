import ClassLinking.Proofs.Slots

/-!
# Taking a slot over

An inherited slot passes to the class exactly if the class declares an instance method of its
selector that may take it over from the method that is there (`Traced.slot_takeover`), or inherits a
default of its selector (`Traced.slot_takeover_default`); else it stays as it is
(`Traced.slot_kept`).  Whether a method may take a slot over was decided when the class was linked;
the answer speaks of tables that were there by then, so it is still the same in every later store
(`Origin.takes_eq`).
-/

namespace ClassLinking

namespace Store

/-- Whether `m`, declared by `c`, takes the slot `i` over from `occupant`. -/
def takesOver (s : Store) (transitive : Bool) (c : ClassId) (m : MethodId) (i : Nat)
    (occupant : MethodId) : Bool :=
  FillEnv.takes ⟨s, transitive, fun _ _ _ => none⟩
    ⟨m, false, (s.getClass c).loader, (s.getClass c).name⟩ i occupant

variable {s t : Store} {root : Option ClassId} {c h : ClassId} {m o : MethodId} {i : Nat}
  {transitive : Bool}

/-- What the tables of linked classes say does not change. -/
theorem transitivelyOverridden_grows (w : s.WellFormed root) (hg : s.Grows t) (hhoused : s.Housed)
    (target : Selector) (i : Nat) (loader : LoaderId) (className : String) {above : List ClassId}
    (habove : ∀ a ∈ above, s.Linked a) :
    t.transitivelyOverridden? target i loader className above =
      s.transitivelyOverridden? target i loader className above := by
  induction above with
  | nil => rfl
  | cons a rest ih =>
    have hlinked := habove a List.mem_cons_self
    obtain ⟨ts, hts⟩ := linked_iff.mp hlinked
    have hname := hg.extends.name hlinked.hasClass
    unfold transitivelyOverridden?
    simp only [hts, hg.tables_eq a ts hts]
    cases hm : ts.vtable.methodAt i with
    | none => rfl
    | some m =>
      have hhas := hhoused a i m ((slot_of_tables hts).trans hm)
      simp only [hg.extends.selector hhas, hg.extends.isOverridable w hhas, hname,
        ih fun b hb => habove b (List.mem_cons_of_mem _ hb)]

/-- What it takes to take a slot over. -/
theorem takesOver_iff : s.takesOver transitive c m i o = true ↔
    s.selector o = s.selector m ∧ ∃ h, s.holder? o = some h ∧
      (s.isOverridable o (s.getClass c).loader (s.getClass c).name = true ∨
        transitive = true ∧ (s.getMethod o).access.isPrivate = false ∧
          ∃ x, s.transitivelyOverridden? (s.selector m) i (s.getClass c).loader (s.getClass c).name
            (s.getClass h).ancestors = .ok (some x) ∧ (s.holder? x).isSome = true) := by
  rw [takesOver, FillEnv.takes_iff]
  simp only [Bool.false_eq_true, false_or]

end Store

namespace Linker

variable {P : Config → Prop} {l : Linker} {s : Store} {c p : ClassId} {root : Option ClassId}
  {i : Nat} {m o : MethodId} {transitive : Bool}

/-- A declared method is placed for its own class. -/
theorem placement_eq (w : l.store.WellFormed root) (hc : l.store.HasClass c)
    (hm : m ∈ (l.store.getClass c).methods) : l.fillEnv.placement c m false =
      ⟨m, false, (l.store.getClass c).loader, (l.store.getClass c).name⟩ := by
  rw [FillEnv.placement, show l.fillEnv.store = l.store from rfl,
    w.holder?_of_mem_methods hc hm]
  rfl

/-- The decision about a slot still stands. -/
theorem Origin.takes_eq (o' : l.Origin s c) (hm : m ∈ (l.store.getClass c).methods)
    (ho : l.store.HasMethod o) (habove : ∀ h, (l.store.getMethod o).holder = some h →
      ∀ a ∈ (l.store.getClass h).ancestors, l.store.Linked a) :
    l.fillEnv.takes (l.fillEnv.placement c m false) i o =
      s.takesOver l.config.transitiveOverrides c m i o := by
  obtain ⟨root, w⟩ := o'.wellFormed
  have hc := o'.ready.hasClass
  have hg := o'.grows
  have hext := hg.extends
  have hmhas := ((w.fits c hc).methods m hm).1
  have hheld := w.holder?_eq ho
  have hplace : l.fillEnv.placement c m false =
      ⟨m, false, (l.store.getClass c).loader, (l.store.getClass c).name⟩ :=
    placement_eq w hc hm
  obtain ⟨h, hholder, hhc⟩ := w.held o ho
  have hwalk := Store.transitivelyOverridden_grows w hg o'.housed (l.store.selector m) i
    (l.store.getClass c).loader (l.store.getClass c).name (habove h hholder)
  have hanc : (s.getClass h).ancestors = (l.store.getClass h).ancestors := by
    rw [hext.class_eq h hhc]
  rw [hplace, Bool.eq_iff_iff]
  show l.store.takesOver l.config.transitiveOverrides c m i o = true ↔ _
  rw [Store.takesOver_iff, Store.takesOver_iff, hext.selector ho, hext.selector hmhas,
    hext.holder? w ho, hheld, hholder, hext.access ho, hext.loader hc, hext.name hc,
    hext.isOverridable w ho]
  refine and_congr_right fun _ => exists_congr fun h' => and_congr_right fun heq => ?_
  cases heq
  rw [hanc, hwalk]
  refine or_congr_right (and_congr_right fun _ => and_congr_right fun _ => exists_congr fun x =>
    and_congr_right fun hx => ?_)
  obtain ⟨a, -, ha, -⟩ := Store.transitivelyOverridden_some hx
  rw [hext.holder? w (o'.housed a i x ha)]

namespace Traced

/-- **A slot is taken over** by the declared method of its selector, if that may take it. -/
theorem slot_takeover (T : Traced P root s) (hdistinct : s.Distinct)
    (hP : ∀ config, P config → config.transitiveOverrides = transitive) (hc : s.Linked c)
    (hp : (s.getClass c).superclass? = some p) (ho : s.slot p i = some o)
    (hm : m ∈ (s.getClass c).methods) (hbound : (s.getMethod m).isBoundStatically = false)
    (hsel : s.selector o = s.selector m) :
    s.slot c i = some (if s.takesOver transitive c m i o then m else o) := by
  obtain ⟨l, hconfig, o'⟩ := T.origins c hc
  obtain ⟨size, layout, itable, f, hsize, hbuilt, htables⟩ := o'.built
  obtain ⟨root', w⟩ := o'.wellFormed
  have hcl := o'.ready.hasClass
  have hext := o'.grows.extends
  have hplinked := o'.linked_superclass hp
  obtain ⟨before, after, hsplit, hothers⟩ := T.exists_split_placements hdistinct hc.hasClass o' hm
    (Store.isInstance_of_bound hbound)
  -- The question whether `m` takes the slot over is the one that was asked when `c` was linked.
  have hi := Store.lt_of_slot ho
  rw [← Store.superLength_of_superclass hp, ← o'.inherited_eq hsize] at hi
  have hstart : l.store.inheritedAt c i = some o := (o'.inheritedAt_eq hp).trans ho
  have ho' : l.store.slot p i = some o := (hplinked.slot_grows o'.grows).symm.trans ho
  have hohas := o'.housed p i o ho'
  rw [o'.grows.methods hcl] at hm
  have hmhas := ((w.fits c hcl).methods m hm).1
  rw [hext.selector hohas, hext.selector hmhas] at hsel
  rw [hext.isBoundStatically hmhas] at hbound
  have htaken := hbuilt.methodAt_taken hi hsplit hstart hsel hbound
    fun q hq => Or.inr (hothers q hq)
  rw [Store.slot_of_tables htables, ← hP _ hconfig, ← o'.takes_eq hm hohas fun h hholder a ha => ?_]
  · exact htaken
  · have hpc := (hplinked.grows o'.grows).hasClass
    obtain ⟨d, hd, hmem⟩ := T.holder_slot p hpc i o ho
    rw [hext.holder hohas, hholder, Option.some.injEq] at hd
    subst hd
    obtain ⟨h', hh', hhc⟩ := w.held o hohas
    rw [hholder, Option.some.injEq] at hh'
    have hanc : (s.getClass h).ancestors = (l.store.getClass h).ancestors := by
      rw [hh', hext.class_eq h' hhc]
    have hmem' := Store.WellFormed.mem_lineage_of_mem_ancestors
      (T.wellFormed.mem_ancestors_of_supertype hpc hmem (hanc ▸ ha))
    rw [hext.lineage hplinked.hasClass] at hmem'
    exact o'.linkedUp.lineage w p hplinked.hasClass hplinked a hmem'

/-- A default takes over every inherited slot of its selector. -/
theorem slot_takeover_default (T : Traced P root s) (hc : s.Linked c)
    (hp : (s.getClass c).superclass? = some p) (ho : s.slot p i = some o)
    (hm : m ∈ (s.getClass c).defaults) (hsel : s.selector o = s.selector m) :
    s.slot c i = some m := by
  obtain ⟨l, -, o'⟩ := T.origins c hc
  obtain ⟨size, layout, itable, f, hlaid⟩ := o'.built
  obtain ⟨root', w⟩ := o'.wellFormed
  have hcl := o'.ready.hasClass
  have hext := o'.grows.extends
  have hplinked := o'.linked_superclass hp
  have hi := Store.lt_of_slot ho
  rw [← Store.superLength_of_superclass hp, ← o'.inherited_eq hlaid.sized] at hi
  have hstart : l.store.inheritedAt c i = some o := (o'.inheritedAt_eq hp).trans ho
  have hohas := o'.housed p i o ((hplinked.slot_grows o'.grows).symm.trans ho)
  obtain ⟨before, after, hsplit, hothers⟩ := T.exists_split_placements_default hc.hasClass o' hm
  rw [o'.grows.defaults hcl] at hm
  have hmhas := ((w.fits c hcl).defaults m hm).1
  rw [hext.selector hohas, hext.selector hmhas] at hsel
  have htaken := hlaid.built.methodAt_taken hi hsplit hstart hsel
    (o'.inheritsDefaults.isDefault m hm).2 hothers
  obtain ⟨h, hheld, -⟩ := w.held o hohas
  have hholder : l.store.holder? o = some h := by rw [w.holder?_eq hohas, hheld]
  rw [if_pos (FillEnv.takes_default hsel hholder)] at htaken
  exact (Store.slot_of_tables hlaid.tables).trans htaken

/-- A slot stays as it is if the class has no method of its selector. -/
theorem slot_kept (T : Traced P root s) (hc : s.Linked c)
    (hp : (s.getClass c).superclass? = some p) (ho : s.slot p i = some o)
    (hnone : ∀ x, s.Dispatches c x → s.selector o ≠ s.selector x) : s.slot c i = some o := by
  have hi := Store.lt_of_slot ho
  rw [← Store.superLength_of_superclass hp] at hi
  rcases T.slot_inherited hc hp hi with hsame | ⟨x, -, hx, o', ho', hsel⟩
  · rw [hsame, ho]
  · rw [ho, Option.some.injEq] at ho'
    subst ho'
    exact absurd hsel (hnone x hx)

/-- Below a class its slot keeps the method, or has a method of one of the classes further down. -/
theorem slot_below (T : Traced P root s) {k : ClassId} (hm : s.slot k i = some m) :
    ∀ c, s.HasClass c → s.Linked c → ∀ before above, s.lineage c = before ++ k :: above →
      ∃ x, s.slot c i = some x ∧ s.selector x = s.selector m ∧
        (x = m ∨ ∃ b ∈ before, k ∈ (s.getClass b).ancestors ∧ s.Dispatches b x) := by
  have w := T.wellFormed
  refine w.superclass_induction fun c hc ih hlinked before above hsplit => ?_
  cases before with
  | nil =>
    rw [Store.lineage, List.nil_append, List.cons.injEq] at hsplit
    exact ⟨m, hsplit.1 ▸ hm, rfl, Or.inl rfl⟩
  | cons b before =>
    cases hp : (s.getClass c).superclass? with
    | none =>
      rw [Store.lineage, Store.WellFormed.ancestors_of_top hp, List.cons_append,
        List.cons.injEq] at hsplit
      exact absurd hsplit.2 (by simp)
    | some p =>
      rw [w.lineage_of_superclass hc hp, List.cons_append, List.cons.injEq] at hsplit
      obtain ⟨rfl, hrest⟩ := hsplit
      have hplinked := T.linkedUp c hlinked p (Store.mem_definedFrom_superclass hp)
      obtain ⟨x, hx, hsel, hor⟩ := ih p hp hplinked before above hrest
      have hi := Store.lt_of_slot hx
      rw [← Store.superLength_of_superclass hp] at hi
      rcases T.slot_inherited hlinked hp hi with hsame | ⟨y, hy, hdisp, x', hx', hsel'⟩
      · exact ⟨x, hsame.trans hx, hsel,
          hor.imp_right (.imp fun b hb => ⟨List.mem_cons_of_mem _ hb.1, hb.2⟩)⟩
      · rw [hx, Option.some.injEq] at hx'
        subst hx'
        refine ⟨y, hy, hsel'.symm.trans hsel, Or.inr ⟨c, List.mem_cons_self, ?_, hdisp⟩⟩
        rw [w.ancestors_of_superclass hc hp, hrest]
        exact List.mem_append_right _ List.mem_cons_self

/-! ## Looking through the tables above an occupant -/

/-- Tables agree on the selector of a slot that is filled in one of them. -/
theorem agree_of_slot (T : Traced P root s) (hp : s.Linked p) (ho : s.slot p i = some o)
    {above : List ClassId} (habove : ∀ a ∈ above, a ∈ s.lineage p) :
    s.Agree (s.selector o) i above := by
  intro a ha
  have hap := habove a ha
  refine ⟨T.linkedUp.lineage T.wellFormed p hp.hasClass hp a hap, fun m hm => ?_⟩
  have hsel := T.selector_slot p hp.hasClass hp a hap i (Store.lt_of_slot hm)
  rw [ho, hm, Option.map_some, Option.map_some, Option.some.injEq] at hsel
  exact hsel.symm

/-- Looking for something to override finds it, if a class above has it in the slot. -/
theorem exists_transitivelyOverridden (T : Traced P root s) (hp : s.Linked p)
    (ho : s.slot p i = some o) {d e : ClassId} (hd : d ∈ s.lineage p)
    (hed : e ∈ (s.getClass d).ancestors) (hm : s.slot e i = some m) {loader : LoaderId}
    {className : String} (hover : s.isOverridable m loader className = true) :
    ∃ x, s.transitivelyOverridden? (s.selector o) i loader className (s.getClass d).ancestors =
      .ok (some x) ∧ (s.holder? x).isSome = true := by
  have w := T.wellFormed
  have hpc := hp.hasClass
  have hdc := w.hasClass_of_mem_lineage hpc hd
  have hmem : ∀ b ∈ (s.getClass d).ancestors, b ∈ s.lineage p := fun b hb =>
    w.mem_lineage_trans hpc hd (Store.WellFormed.mem_lineage_of_mem_ancestors hb)
  have hagree := T.agree_of_slot hp ho hmem
  obtain ⟨before, hsplit, hbefore⟩ := w.ancestors_split d hdc e hed
  -- Between the two classes the slot is filled, since it is in the upper one.
  have hfilled : ∀ b ∈ before, (s.slot b i).isSome = true := fun b hb => by
    have hbd : b ∈ (s.getClass d).ancestors := hsplit ▸ List.mem_append_left _ hb
    have hbl := (hagree b hbd).1
    have hle := T.length_le b hbl.hasClass hbl e
      (Store.WellFormed.mem_lineage_of_mem_ancestors (hbefore b hb))
    have hsel := T.selector_slot p hpc hp b (hmem b hbd) i
      (Nat.lt_of_lt_of_le (Store.lt_of_slot hm) hle)
    rw [← Option.isSome_map (f := s.selector), ← hsel, ho]
    rfl
  rw [hsplit, Store.lineage] at hagree ⊢
  obtain ⟨x, hx⟩ := Store.transitivelyOverridden_exists hagree hfilled hm hover
  refine ⟨x, hx, ?_⟩
  obtain ⟨b, -, hb, -⟩ := Store.transitivelyOverridden_some hx
  have hxhas := T.housed b i x hb
  obtain ⟨h, hheld, -⟩ := w.held x hxhas
  rw [w.holder?_eq hxhas, hheld]
  rfl

end Traced
end Linker
end ClassLinking
