import ClassLinking.Proofs.Origins

/-!
# The slots of linked classes

What building says about one table, put in terms of the store that the table is in by now: how a
table continues the superclass's, what stands behind the inherited slots, and which methods have a
slot for certain.  A default has the slot that is listed for it (`Traced.slot_defaultSlots`), and a
declared method the one that its dispatch index names (`Traced.dispatch_declared`).

From these follows what every table of a hierarchy has in common.  A slot has one selector all along
the superclass chain (`Traced.selector_slot`), and its method is held by a supertype
(`Traced.holder_slot`).  So looking through the tables of ancestors at one slot never fails
(`Store.transitivelyOverridden_ok`).
-/

namespace ClassLinking

theorem Method.isInstance_iff {x : Method} : x.isInstance = true ↔
    x.modifiers.isStatic = false ∧ x.access.isPrivate = false := by
  simp [isInstance]

namespace Store

/-- The class declares `m` or inherits it as a default, and `m` is dispatched dynamically. -/
structure Dispatches (s : Store) (c : ClassId) (m : MethodId) : Prop where
  mem : m ∈ (s.getClass c).methods ∨ m ∈ (s.getClass c).defaults
  bound : (s.getMethod m).isBoundStatically = false

/-- A placeholder for a method of one of the interfaces of `c`.  The class has no default of the
selector, and it is the first of its chain to meet the method. -/
structure StandsIn (s : Store) (c : ClassId) (m : MethodId) : Prop where
  access : (s.getMethod m).access = .onlyPublic
  modifiers : (s.getMethod m).modifiers = .miranda
  met : ∃ i ∈ (s.getClass c).allInterfaces, ∃ x ∈ (s.getClass i).methods,
    s.selector m = s.selector x ∧ (s.getMethod m).holder = some i
  notDefault : ∀ d ∈ (s.getClass c).defaults, s.selector d ≠ s.selector m
  first : ∀ p, (s.getClass c).superclass? = some p →
    s.lookupInInterfaces? p (s.selector m) false = none

/-- No class declares two methods of one selector. -/
def Distinct (s : Store) : Prop := ∀ c, ((s.getClass c).methods.map s.selector).Nodup

variable {s : Store} {root : Option ClassId} {c : ClassId} {m x : MethodId} {sel : Selector}

/-- What holds of every class can be found out class by class. -/
theorem forall_getClass_iff {Q : Class → Prop} (h : Q default) :
    (∀ c, Q (s.getClass c)) ↔ ∀ k ∈ s.classes.toList, Q k := by
  constructor
  · intro hall k hk
    obtain ⟨n, hn, rfl⟩ := Array.getElem_of_mem (Array.mem_toList_iff.mp hk)
    have hget := hall ⟨n⟩
    rwa [getClass, Array.getD_eq_getD_getElem?, Array.getElem?_eq_getElem hn,
      Option.getD_some] at hget
  · intro hall c
    by_cases hc : s.HasClass c
    · refine hall _ (Array.mem_toList_iff.mpr ?_)
      rw [getClass, Array.getD_eq_getD_getElem?, Array.getElem?_eq_getElem hc, Option.getD_some]
      exact Array.getElem_mem hc
    · rw [getClass_of_not hc]
      exact h

instance (s : Store) : Decidable s.Distinct :=
  decidable_of_iff _ (s.forall_getClass_iff (Q := fun k => (k.methods.map s.selector).Nodup)
    List.nodup_nil).symm

/-- A class declares an instance method of a selector if one of its methods is one. -/
theorem declaresInstance_iff : s.declaresInstance sel c = true ↔
    ∃ m ∈ (s.getClass c).methods, s.selector m = sel ∧ (s.getMethod m).isInstance = true := by
  rw [declaresInstance, declared?, findAmong?, List.find?_isSome]
  simp

/-- What is not bound statically is neither static nor private. -/
theorem isInstance_of_bound (h : (s.getMethod m).isBoundStatically = false) :
    (s.getMethod m).isInstance = true := by
  simp only [Method.isBoundStatically, Bool.or_eq_false_iff] at h
  exact Method.isInstance_iff.mpr h.1

/-- An instance method is dispatched dynamically if a method of its selector is. -/
theorem bound_of_selector (hm : (s.getMethod m).isBoundStatically = false)
    (hsel : s.selector x = s.selector m) (hinst : (s.getMethod x).isInstance = true) :
    (s.getMethod x).isBoundStatically = false := by
  simp only [Method.isBoundStatically, Bool.or_eq_false_iff] at hm
  have hsel' : (s.getMethod x).selector = (s.getMethod m).selector := hsel
  simp [Method.isBoundStatically, Method.isInstance_iff.mp hinst, hsel', hm.2]

/-- In a class without two methods of one selector, a method is known by its selector. -/
theorem Distinct.eq (h : s.Distinct) (hm : m ∈ (s.getClass c).methods)
    (hx : x ∈ (s.getClass c).methods) (hsel : s.selector m = s.selector x) : m = x :=
  List.inj_on_of_nodup_map (h c) hm hx hsel

/-- A class declares no instance method of a selector that a default was selected for. -/
theorem Selected.selector_ne (h : s.Selected c) {d : MethodId} (hd : d ∈ (s.getClass c).defaults)
    (hm : m ∈ (s.getClass c).methods) (hinst : (s.getMethod m).isInstance = true) :
    s.selector m ≠ s.selector d := fun hsel => by
  have hundecided := h.undecided d hd
  rw [isDecidedByClasses, Bool.or_eq_false_iff, Option.isSome_eq_false_iff] at hundecided
  have hstatic : LookupFilter.nonStatic.accepts (s.getMethod m) = true := by
    simp [LookupFilter.accepts, LookupFilter.nonStatic, (Method.isInstance_iff.mp hinst).1]
  have hnone := findAmong?_isNone_iff.mp hundecided.1 m hm hsel
  rw [hstatic] at hnone
  cases hnone

/-- The only declaration of a selector is the one that is found. -/
theorem Distinct.declared?_eq (h : s.Distinct) {f : LookupFilter}
    (hm : m ∈ (s.getClass c).methods) (hf : f.accepts (s.getMethod m) = true) :
    s.declared? c (s.selector m) f = some m := by
  cases hfound : s.declared? c (s.selector m) f with
  | none =>
    have hnone := findAmong?_isNone_iff.mp (Option.isNone_iff_eq_none.mpr hfound) m hm rfl
    rw [hf] at hnone
    cases hnone
  | some x =>
    obtain ⟨hx, hsel, -⟩ := findAmong?_some hfound
    rw [h.eq hx hm hsel]

end Store

namespace Linker

variable {P : Config → Prop} {l : Linker} {s : Store} {c p : ClassId} {root : Option ClassId}
  {size : VTableSize} {i : Nat} {m : MethodId}

/-! ## From the origin to the store -/

namespace Origin

theorem superclass_eq (o : l.Origin s c) :
    (s.getClass c).superclass? = (l.store.getClass c).superclass? :=
  o.grows.extends.superclass? o.ready.hasClass

theorem linked_superclass (o : l.Origin s c) (hp : (s.getClass c).superclass? = some p) :
    l.store.Linked p :=
  o.ready.definedFrom p (Store.mem_definedFrom_superclass (o.superclass_eq ▸ hp))

/-- What the table was built from is what the superclass has. -/
theorem inheritedAt_eq (o : l.Origin s c) (hp : (s.getClass c).superclass? = some p) :
    l.store.inheritedAt c i = s.slot p i := by
  have hlinked := o.linked_superclass hp
  rw [Store.inheritedAt_eq_slot (o.superclass_eq ▸ hp) hlinked, hlinked.slot_grows o.grows]

theorem inherited_eq (o : l.Origin s c)
    (hsize : l.store.vtableSize l.config c = .ok size) : size.inherited = s.superLength c := by
  rw [Store.inherited_eq_superLength hsize, Store.superLength, Store.superLength, o.superclass_eq]
  cases hp : (l.store.getClass c).superclass? with
  | none => rfl
  | some p =>
    exact ((o.linked_superclass (o.superclass_eq.trans hp)).vtableLength_grows o.grows).symm

theorem hasMethod_of_placement (o : l.Origin s c) {q : Placement}
    (hq : q ∈ l.fillEnv.placements c) : l.store.HasMethod q.method := by
  obtain ⟨root, w⟩ := o.wellFormed
  exact hasMethod_of_mem_placements w o.ready.hasClass hq

theorem dispatches (o : l.Origin s c) {q : Placement} (hq : q ∈ l.fillEnv.placements c)
    (hbound : l.fillEnv.isBound q = false) : s.Dispatches c q.method where
  mem := by
    rw [o.grows.methods o.ready.hasClass, o.grows.defaults o.ready.hasClass]
    rcases FillEnv.mem_placements.mp hq with ⟨m, hm, rfl⟩ | ⟨m, hm, rfl⟩
    · exact Or.inl hm
    · exact Or.inr hm
  bound := by
    rw [o.grows.extends.isBoundStatically (o.hasMethod_of_placement hq)]
    exact hbound

/-- A placeholder in the table of `c` still stands in for what it was made for. -/
theorem standsIn (o : l.Origin s c) {x : MethodId} (hx : x ∈ l.store.pendingMirandas c)
    (h : IsPlaceholder l.store s x m) : s.StandsIn c m := by
  obtain ⟨root, w⟩ := o.wellFormed
  have hext := o.grows.extends
  have hc := o.ready.hasClass
  obtain ⟨i, hi, hxi⟩ := hasMethod_of_mem_pendingMirandas w hc hx
  have hic := w.hasClass_of_mem_allInterfaces hc hi
  obtain ⟨hhas, hholder⟩ := (w.fits i hic).methods x hxi
  have hsel : s.selector m = l.store.selector x := by rw [h.selector, hext.selector hhas]
  refine ⟨h.access, h.modifiers, ⟨i, ?_, x, ?_, h.selector, ?_⟩, fun d hd => ?_, fun p hp => ?_⟩
  · rwa [hext.allInterfaces hc]
  · rwa [o.grows.methods hic]
  · rw [h.holder, hext.holder hhas, hholder]
  · rw [o.grows.defaults hc] at hd
    rw [hsel, hext.selector ((w.fits c hc).defaults d hd).1]
    exact Store.selector_default_ne_of_pending hx d hd
  · rw [hext.superclass? hc] at hp
    rw [hsel, o.grows.lookupInInterfaces? w (w.hasClass_superclass hc hp)]
    exact Store.lookupInInterfaces?_of_pending hx hp

end Origin

/-! ## One table -/

/-- A declared method that was the only one of its selector has the index of a slot that it stands
in, or it was left without a slot, being final. -/
theorem LaysOut.dispatch_declared {layout : VTableLayout} {itable : ITable} {f : Fill}
    {before after : List Placement} (h : l.LaysOut s c size layout itable f)
    (hint : (l.store.getClass c).isInterface = false) (hm : m ∈ (l.store.getClass c).methods)
    (hbound : (l.store.getMethod m).isBoundStatically = false)
    (hsplit : l.fillEnv.placements c = before ++ l.fillEnv.placement c m false :: after)
    (hothers : ∀ q ∈ before ++ after, l.store.selector m ≠ l.fillEnv.selector q) :
    (∃ i, (s.getMethod m).dispatch = .virtual i ∧ s.slot c i = some m) ∨
      (s.getMethod m).dispatch = .nonVirtual ∧
        l.store.isFinalMethod m (l.store.getClass c).flags = true := by
  have hint' : (l.fillEnv.store.getClass c).isInterface = false := hint
  have hindex := h.indexes hint m hm
  rcases h.built.lastIndex?_declared hsplit hothers hbound with ⟨i, hi, hslot⟩ | ⟨hi, hor⟩
  · rw [hindex, Option.some.injEq] at hi
    exact Or.inl ⟨i, hi, (Store.slot_of_tables h.tables).trans hslot⟩
  · rw [hindex, Option.some.injEq] at hi
    exact Or.inr ⟨by rw [hi, FillEnv.initialIndex, hint', Bool.and_false, if_neg (by simp)],
      hor.resolve_right (by simp [hint'])⟩

namespace Traced

/-- A table is at least as long as the superclass's. -/
theorem superLength_le (T : Traced P root s) (hc : s.Linked c) :
    s.superLength c ≤ (s.getClass c).vtableLength := by
  obtain ⟨l, -, o⟩ := T.origins c hc
  obtain ⟨size, layout, itable, f, hsize, hbuilt, htables⟩ := o.built
  have hlength := (Store.vtableSize_ok hsize).2
  rw [Store.vtableLength_of_tables htables, ← o.inherited_eq hsize]
  show size.inherited ≤ layout.table.length
  rw [hbuilt.length_eq]
  omega

/-- An inherited slot keeps its method, or passes to a method of the same selector. -/
theorem slot_inherited (T : Traced P root s) (hc : s.Linked c)
    (hp : (s.getClass c).superclass? = some p) (hi : i < s.superLength c) :
    s.slot c i = s.slot p i ∨ ∃ x, s.slot c i = some x ∧ s.Dispatches c x ∧
      ∃ m, s.slot p i = some m ∧ s.selector m = s.selector x := by
  obtain ⟨l, -, o⟩ := T.origins c hc
  obtain ⟨size, layout, itable, f, hsize, hbuilt, htables⟩ := o.built
  rw [← o.inherited_eq hsize] at hi
  have hslot : s.slot c i = layout.table.methodAt i := Store.slot_of_tables htables
  have hstart := o.inheritedAt_eq (i := i) hp
  rcases hbuilt.methodAt_inherited hi with hsame | ⟨q, hq, hocc, hbound, m, hm, hsel⟩
  · exact Or.inl (hslot.trans (hsame.trans hstart))
  · refine Or.inr ⟨q.method, hslot.trans hocc, o.dispatches hq hbound, m, hstart.symm.trans hm, ?_⟩
    have hm' : l.store.HasMethod m := by
      have hlinked := o.linked_superclass hp
      refine o.housed p i m ?_
      rw [← hlinked.slot_grows o.grows, ← hstart]
      exact hm
    rw [o.grows.extends.selector hm', o.grows.extends.selector (o.hasMethod_of_placement hq)]
    exact hsel

/-- A slot behind the inherited ones holds a method of the class or stands for a pending miranda. -/
theorem slot_own_pending (T : Traced P root s) (hi : s.superLength c ≤ i)
    (hm : s.slot c i = some m) :
    s.Dispatches c m ∨ ∃ x ∈ s.pendingMirandas c, s.selector x = s.selector m := by
  obtain ⟨l, -, o⟩ := T.origins c (Store.linked_of_slot hm)
  obtain ⟨size, layout, itable, f, hsize, hbuilt, htables⟩ := o.built
  obtain ⟨root', w⟩ := o.wellFormed
  rw [← o.inherited_eq hsize] at hi
  rw [Store.slot_of_tables htables] at hm
  rw [o.grows.pendingMirandas w o.ready.hasClass]
  rcases hbuilt.methodAt_own (Store.vtableSize_ok hsize).1 hi hm with
    ⟨q, hq, rfl, hbound⟩ | ⟨x, hx, h⟩
  · exact Or.inl (o.dispatches hq hbound)
  · exact Or.inr ⟨x, hx, h.selector.symm⟩

/-- A slot behind the inherited ones holds a method of the class or a placeholder. -/
theorem slot_own (T : Traced P root s) (hi : s.superLength c ≤ i) (hm : s.slot c i = some m) :
    s.Dispatches c m ∨ s.StandsIn c m := by
  obtain ⟨l, -, o⟩ := T.origins c (Store.linked_of_slot hm)
  obtain ⟨size, layout, itable, f, hsize, hbuilt, htables⟩ := o.built
  rw [← o.inherited_eq hsize] at hi
  rw [Store.slot_of_tables htables] at hm
  rcases hbuilt.methodAt_own (Store.vtableSize_ok hsize).1 hi hm with
    ⟨q, hq, rfl, hbound⟩ | ⟨x, hx, h⟩
  · exact Or.inl (o.dispatches hq hbound)
  · exact Or.inr (o.standsIn hx h)

/-- The defaults of a class stand in the slots that are listed for them. -/
theorem slot_defaultSlots (T : Traced P root s) {ts : Tables}
    (hts : (s.getClass c).tables = some ts) :
    List.Forall₂ (fun m slot => s.slot c slot = some m)
      (s.getClass c).defaults ts.defaultSlots := by
  obtain ⟨l, -, o⟩ := T.origins c (Store.linked_iff.mpr ⟨ts, hts⟩)
  obtain ⟨size, layout, itable, f, hlaid⟩ := o.built
  have htables := hlaid.tables
  have hslots := hlaid.built.methodAt_defaultSlots o.inheritsDefaults
  rw [hts, Option.some.injEq] at htables
  rw [o.grows.defaults o.ready.hasClass, htables]
  exact hslots.imp fun m slot hslot => (Store.slot_of_tables hlaid.tables).trans hslot

/-- Every default has a slot. -/
theorem exists_slot_default (T : Traced P root s) (hc : s.Linked c)
    (hm : m ∈ (s.getClass c).defaults) : ∃ i, s.slot c i = some m := by
  obtain ⟨ts, hts⟩ := Store.linked_iff.mp hc
  have hslots := T.slot_defaultSlots hts
  obtain ⟨j, hj, rfl⟩ := List.getElem_of_mem hm
  exact ⟨_, hslots.get hj (hslots.length_eq ▸ hj)⟩

/-- The interface table of a class is bound to what the class implements. -/
theorem binds (T : Traced P root s) {ts : Tables} (hts : (s.getClass c).tables = some ts)
    (hint : (s.getClass c).isInterface = false) : Binds s c ts.itable := by
  obtain ⟨l, -, o⟩ := T.origins c (Store.linked_iff.mpr ⟨ts, hts⟩)
  obtain ⟨size, layout, itable, f, hlaid⟩ := o.built
  obtain ⟨root', w⟩ := o.wellFormed
  have hc := o.ready.hasClass
  have htables := hlaid.tables
  rw [hts, Option.some.injEq] at htables
  rw [o.grows.extends.isInterface hc] at hint
  have hinterfaces := o.linkedUp.allInterfaces w c hc o.ready.definedFrom
  have hnodup := T.wellFormed.nodup_allInterfaces (o.grows.hasClass hc)
  rw [htables]
  dsimp only
  rw [hlaid.bound hint, ← o.grows.interfaceTable w hc hinterfaces]
  exact .of_interfaceTable hnodup

/-- The methods of a linked interface are numbered. -/
theorem numbered (T : Traced P root s) (hc : s.Linked c)
    (hint : (s.getClass c).isInterface = true) : Numbered s c := by
  obtain ⟨l, -, o⟩ := T.origins c hc
  obtain ⟨size, layout, itable, f, hlaid⟩ := o.built
  rw [o.grows.extends.isInterface o.ready.hasClass] at hint
  exact (hlaid.numbered hint).2

theorem numbered_of_mem (T : Traced P root s) (hc : s.Linked c) {j : ClassId}
    (hj : j ∈ (s.getClass c).allInterfaces) : Numbered s j :=
  T.numbered (T.linkedUp.allInterfaces T.wellFormed c hc.hasClass (T.linkedUp c hc) j hj)
    (T.wellFormed.allInterfaces_spec c hc.hasClass j hj).2

/-- Every pending miranda has a slot with a public placeholder. -/
theorem exists_slot_pending (T : Traced P root s) (hc : s.Linked c)
    (hm : m ∈ s.pendingMirandas c) : ∃ i x, s.slot c i = some x ∧ s.selector x = s.selector m ∧
      (s.getMethod x).access = .onlyPublic := by
  obtain ⟨l, -, o⟩ := T.origins c hc
  obtain ⟨size, layout, itable, f, hsize, hbuilt, htables⟩ := o.built
  obtain ⟨root', w⟩ := o.wellFormed
  rw [o.grows.pendingMirandas w o.ready.hasClass] at hm
  obtain ⟨i, x, hx, hplaceholder⟩ := hbuilt.exists_placeholder hm
  exact ⟨i, x, (Store.slot_of_tables htables).trans hx, hplaceholder.selector,
    hplaceholder.access⟩

/-- Neither the class nor a superclass declares an instance method of a default's selector. -/
theorem selector_default_ne (T : Traced P root s) (hc : s.HasClass c)
    {d : MethodId} (hd : d ∈ (s.getClass c).defaults) {a : ClassId} (ha : a ∈ s.lineage c)
    (hm : m ∈ (s.getClass a).methods) (hinst : (s.getMethod m).isInstance = true) :
    s.selector m ≠ s.selector d := fun hsel => by
  have hundecided := (T.selected c hc).undecided d hd
  rw [Store.isDecidedByClasses, Bool.or_eq_false_iff] at hundecided
  rw [Store.lineage, List.mem_cons] at ha
  rcases ha with rfl | ha
  · exact (T.selected _ hc).selector_ne hd hm hinst hsel
  · cases hp : (s.getClass c).superclass? with
    | none =>
      rw [Store.WellFormed.ancestors_of_top hp] at ha
      exact List.not_mem_nil ha
    | some p =>
      rw [T.wellFormed.ancestors_of_superclass hc hp] at ha
      have hany := hundecided.2
      rw [hp, Option.any_some, List.any_eq_false] at hany
      exact hany a ha (Store.declaresInstance_iff.mpr ⟨m, hm, hsel, hinst⟩)

/-- When the table was built, a declared instance method was the only one of its selector. -/
theorem exists_split_placements (T : Traced P root s) (hdistinct : s.Distinct) (hc : s.HasClass c)
    (o : l.Origin s c) (hm : m ∈ (s.getClass c).methods)
    (hinst : (s.getMethod m).isInstance = true) :
    ∃ before after, l.fillEnv.placements c = before ++ l.fillEnv.placement c m false :: after ∧
      ∀ q ∈ before ++ after, l.store.selector m ≠ l.fillEnv.selector q := by
  obtain ⟨root', w⟩ := o.wellFormed
  have f := w.fits c o.ready.hasClass
  have hext := o.grows.extends
  have hmethods := o.grows.methods o.ready.hasClass
  have hne := fun d hd => T.selector_default_ne (d := d) hc hd
    (Store.WellFormed.mem_lineage_self s c) hm hinst
  have hnodup := hdistinct c
  rw [hmethods] at hm
  rw [hmethods, List.map_congr_left fun x hx => hext.selector (f.methods x hx).1] at hnodup
  refine FillEnv.exists_split_placements hnodup (fun d hd => ?_) hm
  have hsel := hne d (by rwa [o.grows.defaults o.ready.hasClass])
  rwa [hext.selector (f.methods m hm).1, hext.selector (f.defaults d hd).1] at hsel

/-- When the table was built, a default was the only one of its selector, methods that are bound
statically aside. -/
theorem exists_split_placements_default (T : Traced P root s) (hc : s.HasClass c)
    (o : l.Origin s c) (hm : m ∈ (s.getClass c).defaults) :
    ∃ before after, l.fillEnv.placements c = before ++ l.fillEnv.placement c m true :: after ∧
      ∀ q ∈ before ++ after, l.fillEnv.isBound q = true ∨
        l.store.selector m ≠ l.fillEnv.selector q := by
  obtain ⟨root', w⟩ := o.wellFormed
  have f := w.fits c o.ready.hasClass
  have hext := o.grows.extends
  have hne := fun x hx => T.selector_default_ne (m := x) hc hm
    (Store.WellFormed.mem_lineage_self s c) hx
  rw [o.grows.defaults o.ready.hasClass] at hm
  refine FillEnv.exists_split_placements_default o.inheritsDefaults.nodup (fun x hx => ?_) hm
  have hxhas := (f.methods x hx).1
  cases hbound : (l.store.getMethod x).isBoundStatically with
  | true => exact Or.inl hbound
  | false =>
    have hsel := hne x (by rwa [o.grows.methods o.ready.hasClass])
      (Store.isInstance_of_bound (by rwa [hext.isBoundStatically hxhas]))
    rw [hext.selector hxhas, hext.selector (f.defaults m hm).1] at hsel
    exact Or.inr hsel.symm

/-- A declared method has the dispatch index of a slot that it stands in.  A final one need not. -/
theorem dispatch_declared (T : Traced P root s) (hdistinct : s.Distinct) (hc : s.Linked c)
    (hint : (s.getClass c).isInterface = false) (hm : m ∈ (s.getClass c).methods)
    (hbound : (s.getMethod m).isBoundStatically = false) :
    (∃ i, (s.getMethod m).dispatch = .virtual i ∧ s.slot c i = some m) ∨
      (s.getMethod m).dispatch = .nonVirtual ∧ s.isFinalMethod m (s.getClass c).flags = true := by
  obtain ⟨l, -, o⟩ := T.origins c hc
  obtain ⟨size, layout, itable, f, hlaid⟩ := o.built
  obtain ⟨root', w⟩ := o.wellFormed
  have hcl := o.ready.hasClass
  have hext := o.grows.extends
  obtain ⟨before, after, hsplit, hothers⟩ := T.exists_split_placements hdistinct hc.hasClass o hm
    (Store.isInstance_of_bound hbound)
  rw [o.grows.methods hcl] at hm
  have hhas := ((w.fits c hcl).methods m hm).1
  rw [hext.isBoundStatically hhas] at hbound
  rw [hext.isInterface hcl] at hint
  rw [hext.flags hcl, hext.isFinalMethod w hhas]
  exact hlaid.dispatch_declared hint hm hbound hsplit hothers

/-- Every declared method that is dispatched dynamically and not final has a slot. -/
theorem exists_slot_declared (T : Traced P root s) (hdistinct : s.Distinct) (hc : s.Linked c)
    (hint : (s.getClass c).isInterface = false) (hm : m ∈ (s.getClass c).methods)
    (hbound : (s.getMethod m).isBoundStatically = false)
    (hfinal : s.isFinalMethod m (s.getClass c).flags = false) : ∃ i, s.slot c i = some m := by
  rcases T.dispatch_declared hdistinct hc hint hm hbound with ⟨i, -, hi⟩ | ⟨-, hfinal'⟩
  · exact ⟨i, hi⟩
  · rw [hfinal] at hfinal'
    cases hfinal'

/-! ## The tables of a hierarchy -/

/-- What a class has of its superclass, and what a superclass has of its own. -/
theorem length_le (T : Traced P root s) : ∀ c, s.HasClass c → s.Linked c → ∀ a ∈ s.lineage c,
    (s.getClass a).vtableLength ≤ (s.getClass c).vtableLength := by
  have w := T.wellFormed
  refine w.superclass_induction fun c hc ih hlinked a ha => ?_
  cases hp : (s.getClass c).superclass? with
  | none =>
    rw [Store.lineage, Store.WellFormed.ancestors_of_top hp, List.mem_singleton] at ha
    rw [ha]
  | some p =>
    rw [w.lineage_of_superclass hc hp, List.mem_cons] at ha
    rcases ha with rfl | ha
    · exact Nat.le_refl _
    · have hle := T.superLength_le hlinked
      rw [Store.superLength_of_superclass hp] at hle
      have hplinked := T.linkedUp c hlinked p (Store.mem_definedFrom_superclass hp)
      exact Nat.le_trans (ih p hp hplinked a ha) hle

/-- A slot has one selector all along the superclass chain, and is empty nowhere or everywhere. -/
theorem selector_slot (T : Traced P root s) : ∀ c, s.HasClass c → s.Linked c → ∀ a ∈ s.lineage c,
    ∀ i < (s.getClass a).vtableLength,
      (s.slot c i).map s.selector = (s.slot a i).map s.selector := by
  have w := T.wellFormed
  refine w.superclass_induction fun c hc ih hlinked a ha i hi => ?_
  cases hp : (s.getClass c).superclass? with
  | none =>
    rw [Store.lineage, Store.WellFormed.ancestors_of_top hp, List.mem_singleton] at ha
    rw [ha]
  | some p =>
    rw [w.lineage_of_superclass hc hp, List.mem_cons] at ha
    rcases ha with rfl | ha
    · rfl
    · have hplinked := T.linkedUp c hlinked p (Store.mem_definedFrom_superclass hp)
      have hle := T.length_le p (w.hasClass_superclass hc hp) hplinked a ha
      rw [← ih p hp hplinked a ha i hi]
      rcases T.slot_inherited (i := i) hlinked hp
          (by rw [Store.superLength_of_superclass hp]; omega) with hsame | ⟨x, hx, -, m, hm, hsel⟩
      · rw [hsame]
      · rw [hx, hm, Option.map_some, Option.map_some, hsel]

/-- The method in a slot is held by the class, by a superclass or by an interface of the class. -/
theorem holder_slot (T : Traced P root s) : ∀ c, s.HasClass c → ∀ i m, s.slot c i = some m →
    ∃ d, (s.getMethod m).holder = some d ∧
      (d ∈ s.lineage c ∨ d ∈ (s.getClass c).allInterfaces) := by
  have w := T.wellFormed
  refine w.superclass_induction fun c hc ih i m hm => ?_
  have hlinked := Store.linked_of_slot hm
  have hoffers : ∀ x, s.Dispatches c x → ∃ d, (s.getMethod x).holder = some d ∧
      (d ∈ s.lineage c ∨ d ∈ (s.getClass c).allInterfaces) := fun x hx => by
    rcases hx.mem with hx | hx
    · exact ⟨c, ((w.fits c hc).methods x hx).2, Or.inl (Store.WellFormed.mem_lineage_self s c)⟩
    · obtain ⟨-, j, hj, hholder⟩ := (w.fits c hc).defaults x hx
      exact ⟨j, hholder, Or.inr hj⟩
  by_cases hi : i < s.superLength c
  · cases hp : (s.getClass c).superclass? with
    | none =>
      rw [Store.superLength, hp] at hi
      exact absurd hi (Nat.not_lt_zero _)
    | some p =>
      rcases T.slot_inherited hlinked hp hi with hsame | ⟨x, hx, hdisp, -⟩
      · rw [hm] at hsame
        obtain ⟨d, hholder, hd⟩ := ih p hp i m hsame.symm
        refine ⟨d, hholder, hd.imp (fun hd => ?_) (fun hd => ?_)⟩
        · rw [w.lineage_of_superclass hc hp]
          exact List.mem_cons_of_mem _ hd
        · exact w.allInterfaces_of_superclass hc hp hd
      · rw [hm, Option.some.injEq] at hx
        exact hx ▸ hoffers x hdisp
  · rcases T.slot_own (by omega) hm with hdisp | hstands
    · exact hoffers m hdisp
    · obtain ⟨j, hj, -, -, -, hholder⟩ := hstands.met
      exact ⟨j, hholder, Or.inr hj⟩

end Traced
end Linker

/-! ## Looking through the tables of ancestors -/

namespace Store

variable {s : Store} {target : Selector} {i : Nat} {loader : LoaderId} {className : String}
  {above before after : List ClassId} {a : ClassId} {m : MethodId}

/-- The classes are linked, and those that fill the slot have the selector there. -/
def Agree (s : Store) (target : Selector) (i : Nat) (above : List ClassId) : Prop :=
  ∀ a ∈ above, s.Linked a ∧ ∀ m, s.slot a i = some m → s.selector m = target

/-- The search does not fail where the tables agree. -/
theorem transitivelyOverridden_ok (h : s.Agree target i above) (loader : LoaderId)
    (className : String) :
    ∃ found, s.transitivelyOverridden? target i loader className above = .ok found := by
  induction above with
  | nil => exact ⟨none, rfl⟩
  | cons a rest ih =>
    obtain ⟨hlinked, hsel⟩ := h a List.mem_cons_self
    obtain ⟨ts, hts⟩ := linked_iff.mp hlinked
    unfold transitivelyOverridden?
    simp only [hts]
    cases hm : ts.vtable.methodAt i with
    | none => exact ⟨none, rfl⟩
    | some m =>
      have hsel' := hsel m ((slot_of_tables hts).trans hm)
      simp only [hsel', ne_eq, not_true_eq_false, if_false]
      split
      · exact ⟨some m, rfl⟩
      · exact ih fun b hb => h b (List.mem_cons_of_mem _ hb)

/-- What the search finds is in the slot of one of the classes, and may be overridden. -/
theorem transitivelyOverridden_some
    (h : s.transitivelyOverridden? target i loader className above = .ok (some m)) :
    ∃ a ∈ above, s.slot a i = some m ∧ s.isOverridable m loader className = true := by
  induction above with
  | nil => cases h
  | cons a rest ih =>
    unfold transitivelyOverridden? at h
    split at h
    · cases h
    · rename_i ts hts
      split at h
      · cases h
      · rename_i x hx
        split at h
        · cases h
        · split at h
          · rename_i hover
            cases h
            exact ⟨a, List.mem_cons_self, (slot_of_tables hts).trans hx, hover⟩
          · obtain ⟨b, hb, hrest⟩ := ih h
            exact ⟨b, List.mem_cons_of_mem _ hb, hrest⟩

/-- The search gets as far as a class whose method may be overridden, if the slot is filled up to
there. -/
theorem transitivelyOverridden_exists (h : s.Agree target i (before ++ a :: after))
    (hbefore : ∀ b ∈ before, (s.slot b i).isSome = true) (hm : s.slot a i = some m)
    (hover : s.isOverridable m loader className = true) :
    ∃ m', s.transitivelyOverridden? target i loader className (before ++ a :: after) =
      .ok (some m') := by
  induction before with
  | nil =>
    obtain ⟨hlinked, hsel⟩ := h a List.mem_cons_self
    obtain ⟨ts, hts⟩ := linked_iff.mp hlinked
    have hmethod := hm
    rw [slot_of_tables hts] at hmethod
    rw [List.nil_append]
    unfold transitivelyOverridden?
    simp only [hts, hmethod, hsel m hm, ne_eq, not_true_eq_false, if_false, hover, if_true]
    exact ⟨m, rfl⟩
  | cons b before ih =>
    obtain ⟨hlinked, hsel⟩ := h b List.mem_cons_self
    obtain ⟨ts, hts⟩ := linked_iff.mp hlinked
    obtain ⟨x, hx⟩ := Option.isSome_iff_exists.mp (hbefore b List.mem_cons_self)
    have hmethod := hx
    rw [slot_of_tables hts] at hmethod
    rw [List.cons_append]
    unfold transitivelyOverridden?
    simp only [hts, hmethod, hsel x hx, ne_eq, not_true_eq_false, if_false]
    split
    · exact ⟨x, rfl⟩
    · exact ih (fun c hc => h c (List.mem_cons_of_mem _ hc)) fun c hc =>
        hbefore c (List.mem_cons_of_mem _ hc)

end Store
end ClassLinking
