import ClassLinking.Proofs.Branches

/-!
# Filling a table in two branches

The table of a class may be filled in one branch of linking and in another one, when the tables of
its superclasses are the same there and overriding is transitive in both or in neither
(`FillEnv.Parallel`).  Then the methods that are placed meet the same occupants, and so they take
the same slots over, need slots of their own in both branches or in neither, and get the same
dispatch indices (`Places.alike`, `PlacesAll.alike`, `ListsSlots.alike`).  With the sizes equal as
well (`Parallel.size_eq`), finished tables differ in nothing but their placeholders
(`Built.alike`).
-/

namespace ClassLinking

/-- Two fills that gave the same indices, with related occupants in their slots. -/
structure Fill.Alike (R : MethodId → MethodId → Prop) (f f' : Fill) : Prop where
  used : f'.used = f.used
  occupant : ∀ i, Option.Rel R (f.occupant i) (f'.occupant i)
  lastIndex? : ∀ m, f'.lastIndex? m = f.lastIndex? m

/-- A method that `c` or one of its supertypes holds. -/
structure Store.Member (s : Store) (c : ClassId) (m : MethodId) : Prop where
  hasMethod : s.HasMethod m
  held : ∃ h, (s.getMethod m).holder = some h ∧ s.Above c h

namespace FillEnv

open Store

/-- The class `c` is there from the start, and what its table is filled from is the same in two
branches. -/
structure Parallel (root : Option ClassId) (base : Store) (c : ClassId) (env env' : FillEnv) :
    Prop where
  branches : Branches root base env.store env'.store
  transitive : env'.transitive = env.transitive
  hasClass : base.HasClass c
  above : ∀ a ∈ (base.getClass c).ancestors, SameTables base env.store env'.store a

variable {root : Option ClassId} {base : Store} {c : ClassId} {env env' : FillEnv}

theorem Parallel.symm (h : Parallel root base c env env') : Parallel root base c env' env :=
  ⟨h.branches.symm, h.transitive.symm, h.hasClass, fun a ha => (h.above a ha).symm⟩

/-- Occupants of a slot in two tables of `c`: the same method, which a supertype of `c` holds. -/
structure SameOccupant (base : Store) (c : ClassId) (env env' : FillEnv) (a b : MethodId) :
    Prop where
  same : SameMethod base env.store env'.store a b
  held : ∃ h, (env.store.getMethod a).holder = some h ∧ base.Above c h

namespace Parallel

variable (h : Parallel root base c env env') {p : Placement} {ps : List Placement} {i : Nat}
  {inherited : Nat} {m a b : MethodId} {q : ClassId} {f f₁ f' f₁' : Fill} {slots slots' : List Nat}
include h

theorem sameOccupant_symm (hab : SameOccupant base c env env' a b) :
    SameOccupant base c env' env b a :=
  ⟨hab.same.symm, by rw [h.branches.holder_eq hab.same]; exact hab.held⟩

/-! ## Taking slots over -/

/-- A search above the holder of an occupant answers in both branches if it answers in one of
them. -/
theorem search_ok (hab : SameOccupant base c env env' a b) {d : ClassId}
    (hd : env.store.holder? a = some d) {target : Selector} {loader : LoaderId}
    {className : String} {x : Option MethodId}
    (hx : env.store.transitivelyOverridden? target i loader className
      (env.store.getClass d).ancestors = .ok x) :
    ∃ y, env'.store.transitivelyOverridden? target i loader className
        (env'.store.getClass d).ancestors = .ok y ∧
      Option.Rel (SameMethod base env.store env'.store) x y := by
  have B := h.branches
  -- The holder is a supertype of `c`, so what stands above it stands above `c`.
  obtain ⟨d', hd', habove⟩ := hab.held
  rw [B.left.wellFormed.holder?_eq (B.hasMethod hab.same).1, hd', Option.some.injEq] at hd
  subst hd
  have hdc : base.HasClass d' := by
    rcases habove with hmem | hmem
    · exact B.start.hasClass_of_mem_lineage h.hasClass hmem
    · exact B.start.hasClass_of_mem_allInterfaces h.hasClass hmem
  rw [B.left.grows.class_eq d' hdc] at hx
  rw [B.right.grows.class_eq d' hdc]
  exact B.transitivelyOverridden?_ok (fun k hk => h.above k
    (B.start.mem_ancestors_of_supertype h.hasClass habove hk)) hx

/-- What is taken over in one branch is taken over in the other one. -/
theorem takes_of_takes (hab : SameOccupant base c env env' a b) (hp : base.HasMethod p.method)
    (htakes : env.takes p i a = true) : env'.takes p i b = true := by
  have B := h.branches
  obtain ⟨hsel, d, hd, hor⟩ := takes_iff.mp htakes
  have hselp : env'.store.selector p.method = env.store.selector p.method :=
    B.selector_eq (.inl ⟨hp, rfl⟩)
  refine takes_iff.mpr ⟨by rw [B.selector_eq hab.same, hsel, hselp], d,
    by rw [B.holder?_eq hab.same, hd], ?_⟩
  rw [h.transitive, B.access_eq hab.same, B.isOverridable_eq hab.same, hselp]
  refine hor.imp_right (Or.imp_right ?_)
  rintro ⟨htransitive, hprivate, x, hx, hheld⟩
  obtain ⟨_, hy, hrel⟩ := h.search_ok hab hd hx
  obtain ⟨y, rfl, hxy⟩ := exists_of_optionRel hrel
  exact ⟨htransitive, hprivate, y, hy, by rw [B.holder?_eq hxy, hheld]⟩

theorem takes_eq (hab : SameOccupant base c env env' a b) (hp : base.HasMethod p.method) :
    env'.takes p i b = env.takes p i a :=
  Bool.eq_iff_iff.mpr
    ⟨h.symm.takes_of_takes (h.sameOccupant_symm hab) hp, h.takes_of_takes hab hp⟩

section Alike

variable (hf : f.Alike (SameOccupant base c env env') f') (hp : base.HasMethod p.method)
include hf hp

theorem taken_eq : env'.taken c p inherited f' = env.taken c p inherited f := by
  have B := h.branches
  have hany : ∀ i, (f'.occupant i).any (env'.takes p i) = (f.occupant i).any (env.takes p i) :=
    fun i => by
    have hocc := hf.occupant i
    generalize f.occupant i = x, f'.occupant i = y at hocc
    cases hocc with
    | none => rfl
    | some hab => exact h.takes_eq hab hp
  rw [taken, taken, B.isBoundStatically_eq hp, B.superclass?_eq]
  simp only [hany]

theorem needsSlot_eq : env'.needsSlot c p inherited f' = env.needsSlot c p inherited f := by
  have B := h.branches
  have hflags : (env'.store.getClass c).flags = (env.store.getClass c).flags := by
    rw [B.class_eq c]
  have hint : (env'.store.getClass c).isInterface = (env.store.getClass c).isInterface := by
    rw [B.class_eq c]
    rfl
  rw [needsSlot, needsSlot, h.taken_eq hf hp, B.isBoundStatically_eq hp, B.isFinalMethod_eq hp,
    hflags, hint, B.superclass?_eq, B.access_eq (.inl ⟨hp, rfl⟩)]

theorem lastSlot?_eq : env'.lastSlot? c p inherited f' = env.lastSlot? c p inherited f := by
  rw [lastSlot?, lastSlot?, h.needsSlot_eq hf hp, h.taken_eq hf hp, hf.used]

theorem indexGiven_eq : env'.indexGiven c p inherited f' = env.indexGiven c p inherited f := by
  have B := h.branches
  have hinitial : env'.initialIndex c p.method = env.initialIndex c p.method := by
    rw [initialIndex, initialIndex, B.isBoundStatically_eq hp, B.isFinalMethod_eq hp,
      B.class_eq c]
    rfl
  rw [indexGiven, indexGiven, h.lastSlot?_eq hf hp, hinitial]

end Alike

/-! ## Placing -/

/-- A method that a supertype of `c` held from the start may be an occupant in both branches. -/
theorem sameOccupant_of_member (hm : base.Member c m) :
    SameOccupant base c env env' m m :=
  ⟨.inl ⟨hm.hasMethod, rfl⟩, by
    rw [h.branches.left.grows.extends.holder hm.hasMethod]
    exact hm.held⟩

/-- Placing one method keeps two fills alike. -/
theorem places (hf : f.Alike (SameOccupant base c env env') f') (hp : base.Member c p.method)
    (hplaces : env.Places c p inherited f f₁) (hplaces' : env'.Places c p inherited f' f₁') :
    f₁.Alike (SameOccupant base c env env') f₁' where
  used := by rw [hplaces.used, hplaces'.used, hf.used, h.needsSlot_eq hf hp.hasMethod]
  occupant := fun i => by
    rw [hplaces.occupant, hplaces'.occupant, h.taken_eq hf hp.hasMethod,
      h.needsSlot_eq hf hp.hasMethod, hf.used]
    split
    · exact .some (h.sameOccupant_of_member hp)
    · exact hf.occupant i
  lastIndex? := fun m => by
    rw [hplaces.gives m, hplaces'.gives m, h.indexGiven_eq hf hp.hasMethod, hf.lastIndex?]

theorem placesAll (hf : f.Alike (SameOccupant base c env env') f')
    (hps : ∀ p ∈ ps, base.Member c p.method) (hall : env.PlacesAll c inherited ps f f₁)
    (hall' : env'.PlacesAll c inherited ps f' f₁') :
    f₁.Alike (SameOccupant base c env env') f₁' := by
  induction hall generalizing f' with
  | nil f =>
    cases hall'
    exact hf
  | cons hplaces hrest ih =>
    obtain ⟨hp, hps⟩ := List.forall_mem_cons.mp hps
    obtain _ | ⟨hplaces', hrest'⟩ := hall'
    exact ih (h.places hf hp hplaces hplaces') hps hrest'

/-- The slots of defaults are listed alike. -/
theorem listsSlots (hf : f.Alike (SameOccupant base c env env') f')
    (hps : ∀ p ∈ ps, base.Member c p.method)
    (hlists : env.ListsSlots c inherited ps slots f f₁)
    (hlists' : env'.ListsSlots c inherited ps slots' f' f₁') :
    slots' = slots ∧ f₁.Alike (SameOccupant base c env env') f₁' := by
  induction hlists generalizing f' slots' with
  | nil f =>
    cases hlists'
    exact ⟨rfl, hf⟩
  | cons hplaces hrest ih =>
    obtain ⟨hp, hps⟩ := List.forall_mem_cons.mp hps
    obtain _ | ⟨hplaces', hrest'⟩ := hlists'
    obtain ⟨hslots, halike⟩ := ih (h.places hf hp hplaces hplaces') hps hrest'
    exact ⟨by rw [hslots, h.lastSlot?_eq hf hp.hasMethod], halike⟩

/-- A method is placed alike in both branches. -/
theorem placement_eq (hm : base.HasMethod m) (isDefault : Bool) :
    env'.placement c m isDefault = env.placement c m isDefault := by
  have B := h.branches
  rw [placement, placement, B.holder?_eq (.inl ⟨hm, rfl⟩), B.class_eq]

/-! ## Sizes -/

/-- The superclass's table is among those that are the same. -/
theorem superclass (hp : (base.getClass c).superclass? = some q) :
    SameTables base env.store env'.store q :=
  h.above q (by
    rw [h.branches.start.ancestors_of_superclass h.hasClass hp]
    exact WellFormed.mem_lineage_self base q)

theorem superLength_eq : env'.store.superLength c = env.store.superLength c := by
  have B := h.branches
  rw [superLength, superLength, B.superclass?_eq, B.left.grows.extends.superclass? h.hasClass]
  cases hp : (base.getClass c).superclass? with
  | none => rfl
  | some q => exact (h.superclass hp).vtableLength_eq

theorem inheritedLength_eq :
    env'.store.inheritedLength (env'.store.getClass c).superclass? =
      env.store.inheritedLength (env.store.getClass c).superclass? := by
  have B := h.branches
  rw [B.superclass?_eq, B.left.grows.extends.superclass? h.hasClass]
  cases hp : (base.getClass c).superclass? with
  | none => rfl
  | some q =>
    obtain ⟨ts, ts', hts, hts', halike⟩ := (h.superclass hp).tables
    simp only [inheritedLength, hts, hts', halike.length]

/-- A declared method needs a slot of its own in both branches or in neither. -/
theorem needsNewSlot_eq (hm : base.HasMethod m) (transitive : Bool) (loader : LoaderId)
    (className : String) (flags : ClassFlags) :
    env'.store.needsNewSlot transitive m (base.getClass c).superclass? loader className flags =
      env.store.needsNewSlot transitive m (base.getClass c).superclass? loader className
        flags := by
  have B := h.branches
  have w := B.start
  have hsame : SameMethod base env.store env'.store m m := .inl ⟨hm, rfl⟩
  have hdefault : env'.store.isDefault m = env.store.isDefault m := by
    rw [B.right.grows.extends.isDefault w hm, B.left.grows.extends.isDefault w hm]
  have hselector : (env'.store.getMethod m).selector = (env.store.getMethod m).selector :=
    B.selector_eq hsame
  unfold needsNewSlot
  dsimp only
  rw [hdefault, B.isBoundStatically_eq hm, B.isFinalMethod_eq hm, B.access_eq hsame, hselector]
  cases hp : (base.getClass c).superclass? with
  | none => rfl
  | some q =>
    have hq := w.hasClass_superclass h.hasClass hp
    have hlineage : ∀ k ∈ base.lineage q, base.HasClass k :=
      fun k hk => w.hasClass_of_mem_lineage hq hk
    dsimp only
    rw [B.right.grows.extends.lineage hq, B.left.grows.extends.lineage hq,
      B.right.grows.slotFromChain w _ _ _ _ _ hlineage,
      B.left.grows.slotFromChain w _ _ _ _ _ hlineage,
      B.right.grows.lookupInInterfaces? w hq, B.left.grows.lookupInInterfaces? w hq,
      (h.superclass hp).isEmpty_mirandas_eq]

theorem declaredNewSlots_eq (transitive : Bool) :
    env'.store.declaredNewSlots transitive c = env.store.declaredNewSlots transitive c := by
  have B := h.branches
  have hc := h.hasClass
  unfold declaredNewSlots
  dsimp only
  rw [B.right.grows.methods hc, B.left.grows.methods hc, B.right.grows.extends.superclass? hc,
    B.left.grows.extends.superclass? hc, B.class_eq c]
  exact List.filter_congr fun m hm =>
    h.needsNewSlot_eq ((B.start.fits c hc).methods m hm).1 ..

/-- The table of `c` has one size in both branches, whatever else the settings are. -/
theorem size_eq {config config' : Config} {size size' : VTableSize}
    (htransitive : config'.transitiveOverrides = config.transitiveOverrides)
    (hsize : env.store.vtableSize config c = .ok size)
    (hsize' : env'.store.vtableSize config' c = .ok size') :
    size'.inherited = size.inherited ∧ size'.length = size.length := by
  have B := h.branches
  have hc := h.hasClass
  have hinherited : size'.inherited = size.inherited := by
    rw [inherited_eq_superLength hsize', h.superLength_eq, inherited_eq_superLength hsize]
  refine ⟨hinherited, ?_⟩
  rw [(vtableSize_ok hsize').2, (vtableSize_ok hsize).2, hinherited, htransitive,
    h.declaredNewSlots_eq, B.right.grows.reservedMirandas B.start hc,
    B.left.grows.reservedMirandas B.start hc, B.right.grows.extends.isInterface hc,
    B.left.grows.extends.isInterface hc]

/-- Sizing has the same outcome in both branches, under the same settings. -/
theorem vtableSize_eq (config : Config) :
    env'.store.vtableSize config c = env.store.vtableSize config c := by
  have B := h.branches
  have hname : (env'.store.getClass c).name = (env.store.getClass c).name := by rw [B.class_eq c]
  have hint : (env'.store.getClass c).isInterface = (env.store.getClass c).isInterface := by
    rw [B.class_eq c]
    rfl
  have hmirandas : env'.store.reservedMirandas c = env.store.reservedMirandas c := by
    rw [B.right.grows.reservedMirandas B.start h.hasClass,
      B.left.grows.reservedMirandas B.start h.hasClass]
  unfold vtableSize
  dsimp only
  rw [h.inheritedLength_eq, h.declaredNewSlots_eq, hmirandas, hint, hname, B.superclass?_eq]

theorem pendingMirandas_eq :
    env'.store.pendingMirandas c = env.store.pendingMirandas c := by
  have B := h.branches
  rw [B.right.grows.pendingMirandas B.start h.hasClass,
    B.left.grows.pendingMirandas B.start h.hasClass]

/-! ## Tables -/

/-- What a class declares is held by itself. -/
theorem members_methods : ∀ m ∈ (base.getClass c).methods, base.Member c m := fun m hm => by
  obtain ⟨hhas, hholder⟩ := (h.branches.start.fits c h.hasClass).methods m hm
  exact ⟨hhas, c, hholder, .inl (WellFormed.mem_lineage_self base c)⟩

/-- Its defaults are held by its interfaces. -/
theorem members_defaults : ∀ m ∈ (base.getClass c).defaults, base.Member c m := fun m hm => by
  obtain ⟨hhas, i, hi, hholder⟩ := (h.branches.start.fits c h.hasClass).defaults m hm
  exact ⟨hhas, i, hholder, .inr hi⟩

/-- A table starts with what the superclass has, which is the same in both branches. -/
theorem start {size size' : VTableSize}
    (hsize : size'.inherited = size.inherited) :
    (env.start c size).Alike (SameOccupant base c env env') (env'.start c size') where
  used := hsize
  occupant := fun i => by
    have B := h.branches
    have w := B.start
    have hc := h.hasClass
    have hsuper := B.left.grows.extends.superclass? hc
    have hsuper' := B.right.grows.extends.superclass? hc
    rw [occupant_start, occupant_start]
    cases hp : (base.getClass c).superclass? with
    | none =>
      rw [inheritedAt_top (hsuper.trans hp), inheritedAt_top (hsuper'.trans hp)]
      exact .none
    | some q =>
      have hq := w.hasClass_superclass hc hp
      have hslot := (h.superclass hp).slot i
      have hheld := B.left.coherent.holder_slot q i
      rw [inheritedAt_eq_slot (hsuper.trans hp) (h.superclass hp).linked.1,
        inheritedAt_eq_slot (hsuper'.trans hp) (h.superclass hp).linked.2]
      generalize env.store.slot q i = x, env'.store.slot q i = y at hslot hheld
      cases hslot with
      | none => exact .none
      | some hsame =>
        obtain ⟨d, hd, habove⟩ := hheld _ rfl
        have habove' := above_of_superclass w hc hp ((B.left.grows.extends.above_iff hq).mp habove)
        exact .some ⟨hsame, d, hd, habove'⟩
  lastIndex? := fun m => rfl

/-- **Tables that are built in two branches are filled alike.** -/
theorem built {size size' : VTableSize}
    (hsize : size'.inherited = size.inherited) {layout layout' : VTableLayout} {t t' : Store}
    (hbuilt : layout.Built env c size t f) (hbuilt' : layout'.Built env' c size' t' f') :
    layout'.defaultSlots = layout.defaultSlots ∧
      f.Alike (SameOccupant base c env env') f' := by
  have B := h.branches
  have hc := h.hasClass
  obtain ⟨f₁, hdeclared, hdefaults⟩ := hbuilt.filled
  obtain ⟨f₁', hdeclared', hdefaults'⟩ := hbuilt'.filled
  have hplacements : ∀ (ms : List MethodId) (isDefault : Bool), (∀ m ∈ ms, base.Member c m) →
      (∀ p ∈ ms.map (env.placement c · isDefault), base.Member c p.method) ∧
        ms.map (env'.placement c · isDefault) = ms.map (env.placement c · isDefault) :=
    fun ms isDefault hms => ⟨List.forall_mem_map.mpr hms,
      List.map_congr_left fun m hm => h.placement_eq (hms m hm).hasMethod isDefault⟩
  rw [B.left.grows.methods hc] at hdeclared
  rw [B.right.grows.methods hc, (hplacements _ false h.members_methods).2, hsize] at hdeclared'
  rw [B.left.grows.defaults hc] at hdefaults
  rw [B.right.grows.defaults hc, (hplacements _ true h.members_defaults).2, hsize] at hdefaults'
  have halike := h.placesAll (h.start hsize) (hplacements _ false h.members_methods).1
    hdeclared hdeclared'
  exact h.listsSlots halike (hplacements _ true h.members_defaults).1 hdefaults hdefaults'

end Parallel
end FillEnv
end ClassLinking
