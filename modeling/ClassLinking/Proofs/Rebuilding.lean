import ClassLinking.Proofs.Canonicity

/-!
# Building tables in two branches

Where the tables of a class can be built in one branch of linking, they can be built in every other
one that comes to the class, under the same settings and with the same conflicts recorded.  What a
branch did before does not matter, since the tables above the class are the same in both.

Two passes are run side by side for this.  `Follows` says that the second one answers as the first
one does, and it goes through a pass line by line.  Filling a virtual table follows the other
branch's as long as the slots have the same occupants (`Fill.Matches`), up to the identities of
placeholders.  Placeholders fit behind the slots in use, as many slots as there are in the other
branch; a finished table passes verification in any case; and an interface table is bound by the
very same pass, since it is about methods that were there at the start.
-/

namespace ClassLinking

open Store

/-! ## Two steps side by side -/

section Follows

variable {ε σ α β : Type} {R : σ → σ → Prop} {x y : EStateM ε σ α} {s s' : σ}

/-- If `x` answers in `s`, then `y` gives the same answer in `s'`, and both come to related
states. -/
def Follows (R : σ → σ → Prop) (x : EStateM ε σ α) (s : σ) (y : EStateM ε σ α) (s' : σ) : Prop :=
  ∀ a t, x s = .ok a t → ∃ t', y s' = .ok a t' ∧ R t t'

theorem Follows.pure (h : R s s') (a : α) :
    Follows R (pure a : EStateM ε σ α) s (pure a) s' := by
  intro b t hb
  cases hb
  exact ⟨s', rfl, h⟩

/-- There is nothing to follow where the first step fails. -/
theorem Follows.of_throw (e : ε) : Follows R (throw e) s y s' := by
  intro a t ha
  cases ha

theorem Follows.modify {f g : σ → σ} (h : R (f s) (g s')) :
    Follows R (modify f : EStateM ε σ PUnit) s (modify g) s' := by
  intro b t hb
  cases hb
  exact ⟨g s', rfl, h⟩

/-- One step after another: where the first one answers, the others do, and the next steps follow
one another. -/
theorem Follows.bind_of {α' : Type} {y : EStateM ε σ α'} {f : α → EStateM ε σ β}
    {g : α' → EStateM ε σ β}
    (h : ∀ a t, x s = .ok a t → ∃ a' t', y s' = .ok a' t' ∧ Follows R (f a) t (g a') t') :
    Follows R (x >>= f) s (y >>= g) s' := by
  intro b u hb
  obtain ⟨a, t, hx, hf⟩ := bind_eq_ok_iff.mp hb
  obtain ⟨a', t', hy, hfg⟩ := h a t hx
  rw [bind_of_ok hy]
  exact hfg b u hf

/-- The second steps start in related states. -/
theorem Follows.bind {f g : α → EStateM ε σ β} (h : Follows R x s y s')
    (hfg : ∀ a t t', R t t' → Follows R (f a) t (g a) t') :
    Follows R (x >>= f) s (y >>= g) s' :=
  .bind_of fun a t hx =>
    let ⟨t', hy, hR⟩ := h a t hx
    ⟨a, t', hy, hfg a t t' hR⟩

theorem Follows.get_bind {f g : σ → EStateM ε σ β} (h : Follows R (f s) s (g s') s') :
    Follows R (get >>= f) s (get >>= g) s' :=
  h

theorem Follows.ofExcept {R : Linker → Linker → Prop} {l l' : Linker} (h : R l l')
    (r : Except LinkError α) : Follows R (LinkM.ofExcept r) l (LinkM.ofExcept r) l' := by
  cases r with
  | ok a => exact .pure h a
  | error e => exact .of_throw e

end Follows

/-! ## Filling -/

section Matches

variable {R : MethodId → MethodId → Prop} {f f' : Fill} {m : MethodId} {slot : Nat}

/-- Two fills with the same number of slots, the same number of them in use, and related
occupants. -/
structure Fill.Matches (R : MethodId → MethodId → Prop) (f f' : Fill) : Prop where
  size : f'.slots.size = f.slots.size
  used : f'.used = f.used
  occupant : ∀ i, Option.Rel R (f.occupant i) (f'.occupant i)

theorem Fill.Matches.note (h : f.Matches R f') (e e' : VTableEvent) :
    Follows (Fill.Matches R) (FillM.note e) f (FillM.note e') f' :=
  .modify ⟨h.size, h.used, h.occupant⟩

theorem Fill.Matches.setIndex (h : f.Matches R f') (m : MethodId) (index : DispatchIndex) :
    Follows (Fill.Matches R) (FillM.setIndex m index) f (FillM.setIndex m index) f' :=
  .modify ⟨h.size, h.used, h.occupant⟩

/-- What is put into a slot of both stands there in both. -/
theorem Fill.occupant_put {f f₁ : Fill} (h : f₁.slots = f.slots.setIfInBounds slot (some m))
    (i : Nat) :
    f₁.occupant i = if i = slot ∧ slot < f.slots.size then some m else f.occupant i := by
  rw [Fill.occupant, Fill.occupant, h]
  by_cases hi : i = slot
  · subst hi
    by_cases hlt : i < f.slots.size
    · simp [hlt]
    · simp [hlt]
  · simp [hi, Ne.symm hi]

theorem Fill.Matches.put {f₁ f₁' : Fill} (h : f.Matches R f') (hm : R m m)
    (hslots : f₁.slots = f.slots.setIfInBounds slot (some m))
    (hslots' : f₁'.slots = f'.slots.setIfInBounds slot (some m)) (hused : f₁'.used = f₁.used) :
    f₁.Matches R f₁' where
  size := by rw [hslots, hslots', Array.size_setIfInBounds, Array.size_setIfInBounds, h.size]
  used := hused
  occupant := fun i => by
    rw [Fill.occupant_put hslots, Fill.occupant_put hslots', h.size]
    split
    · exact .some hm
    · exact h.occupant i

theorem Fill.Matches.setSlot (h : f.Matches R f') (hm : R m m) (slot : Nat) :
    Follows (Fill.Matches R) (FillM.setSlot slot m) f (FillM.setSlot slot m) f' :=
  .modify (h.put hm rfl rfl h.used)

theorem Fill.Matches.append (h : f.Matches R f') (hm : R m m) (name name' : String) :
    Follows (Fill.Matches R) (FillM.append name m) f (FillM.append name' m) f' := by
  intro slot f₁ hf₁
  unfold FillM.append at hf₁ ⊢
  rw [h.size, h.used]
  split at hf₁
  · rename_i hroom
    cases hf₁
    rw [if_pos hroom]
    exact ⟨_, rfl, h.put hm rfl rfl rfl⟩
  · cases hf₁

end Matches

namespace FillEnv.Parallel

variable {root : Option ClassId} {base : Store} {c : ClassId} {env env' : FillEnv}
  {p : Placement} {f f' : Fill} {m a b : MethodId} {d : ClassId} {slot inherited : Nat}
  (h : Parallel root base c env env')
  (hf : f.Matches (SameOccupant base c env env') f')
include h hf

/-- Whose method is overridden in a slot. -/
theorem overridden_follows (hab : SameOccupant base c env env' a b) (hp : base.Member c p.method)
    (hd : env.store.holder? a = some d) :
    Follows (Fill.Matches (SameOccupant base c env env')) (env.overridden? p slot a d) f
      (env'.overridden? p slot b d) f' := by
  have B := h.branches
  have hselector : env'.store.selector p.method = env.store.selector p.method :=
    B.selector_eq (.inl ⟨hp.hasMethod, rfl⟩)
  unfold overridden?
  dsimp only
  rw [B.isOverridable_eq hab.same, h.transitive, B.access_eq hab.same, hselector]
  split
  · exact .pure hf _
  · split
    · cases hx : env.store.transitivelyOverridden? (env.store.selector p.method) slot p.loader
          p.className (env.store.getClass d).ancestors with
      | error e => exact .of_throw e
      | ok x =>
        obtain ⟨y, hy, hrel⟩ := h.search_ok hab hd hx
        rw [hy]
        cases hrel with
        | none => exact .pure hf _
        | some hsame =>
          refine .bind (hf.note _ _) fun _ _ _ hf₁ => ?_
          rw [B.holder?_eq hsame]
          exact .pure hf₁ _
    · exact .pure hf _

variable (hconflict : env'.conflict? = env.conflict?)
include hconflict

/-- Taking a slot over. -/
theorem takeOver_follows (hp : base.Member c p.method) (owner : ClassId) :
    Follows (Fill.Matches (SameOccupant base c env env')) (env.takeOver c p slot a owner) f
      (env'.takeOver c p slot b owner) f' := by
  have B := h.branches
  have hselector : env'.store.selector p.method = env.store.selector p.method :=
    B.selector_eq (.inl ⟨hp.hasMethod, rfl⟩)
  have hloader : (env'.store.getClass owner).loader = (env.store.getClass owner).loader := by
    rw [B.class_eq]
  unfold takeOver
  dsimp only
  rw [hselector, hconflict, hloader]
  cases env.conflict? (env.store.selector p.method).descriptor p.loader
      (env.store.getClass owner).loader with
  | some typeName => exact .bind (hf.note _ _) fun _ _ _ _ => .of_throw _
  | none =>
    refine .bind (hf.setSlot (h.sameOccupant_of_member hp) slot) fun _ _ _ hf₁ => ?_
    split
    · exact .bind (hf₁.setIndex _ _) fun _ _ _ hf₂ => hf₂.note _ _
    · exact hf₁.note _ _

/-- Meeting a slot. -/
theorem meetSlot_follows (hp : base.Member c p.method) :
    Follows (Fill.Matches (SameOccupant base c env env')) (env.meetSlot c p slot) f
      (env'.meetSlot c p slot) f' := by
  have B := h.branches
  have hselector : env'.store.selector p.method = env.store.selector p.method :=
    B.selector_eq (.inl ⟨hp.hasMethod, rfl⟩)
  have hocc : Option.Rel (SameOccupant base c env env') f.slots[slot]?.join f'.slots[slot]?.join :=
    hf.occupant slot
  unfold meetSlot
  refine .get_bind ?_
  generalize f.slots[slot]?.join = x, f'.slots[slot]?.join = y at hocc
  cases hocc with
  | none => exact .pure hf _
  | some hab =>
    dsimp only
    rw [B.selector_eq hab.same, hselector, B.holder?_eq hab.same]
    split
    · exact .pure hf _
    · cases hd : env.store.holder? _ with
      | none => exact .pure hf _
      | some d =>
        refine .bind (h.overridden_follows hf hab hp hd) fun owner _ _ hf₁ => ?_
        cases owner with
        | none => exact .bind (hf₁.note _ _) fun _ _ _ hf₂ => .pure hf₂ _
        | some owner =>
          exact .bind (h.takeOver_follows hf₁ hconflict hp owner) fun _ _ _ hf₂ => .pure hf₂ _

/-- Meeting slots, in order. -/
theorem meetSlots_follows (hp : base.Member c p.method) (slots : List Nat) :
    Follows (Fill.Matches (SameOccupant base c env env')) (env.meetSlots c p slots) f
      (env'.meetSlots c p slots) f' := by
  induction slots generalizing f f' with
  | nil => exact .pure hf _
  | cons slot rest ih =>
    refine .bind (h.meetSlot_follows hf hconflict hp) fun took _ _ hf₁ => ?_
    exact .bind (ih hf₁) fun taken _ _ hf₂ => .pure hf₂ _

/-- Placing a method. -/
theorem place_follows (hm : base.Member c m) (isDefault : Bool) :
    Follows (Fill.Matches (SameOccupant base c env env')) (env.place c inherited m isDefault) f
      (env'.place c inherited m isDefault) f' := by
  have B := h.branches
  have hflags : (env'.store.getClass c).flags = (env.store.getClass c).flags := by
    rw [B.class_eq c]
  have hint : (env'.store.getClass c).isInterface = (env.store.getClass c).isInterface := by
    rw [B.class_eq c]
    rfl
  have hstart : (env.startPlacing c m isDefault f).Matches (SameOccupant base c env env')
      (env'.startPlacing c m isDefault f') := by
    obtain ⟨hslots, hused⟩ : f.SameSlots (env.startPlacing c m isDefault f) :=
      sameSlots_startPlacing
    obtain ⟨hslots', hused'⟩ : f'.SameSlots (env'.startPlacing c m isDefault f') :=
      sameSlots_startPlacing
    refine ⟨by rw [hslots, hslots', hf.size], by rw [hused, hused', hf.used], fun i => ?_⟩
    rw [Fill.occupant, Fill.occupant, hslots, hslots']
    exact hf.occupant i
  have hover : Follows (Fill.Matches (SameOccupant base c env env'))
      (env.placeOver c inherited m isDefault) (env.startPlacing c m isDefault f)
      (env'.placeOver c inherited m isDefault) (env'.startPlacing c m isDefault f') := by
    unfold placeOver
    dsimp only
    rw [B.isFinalMethod_eq hm.hasMethod, hflags, hint, B.superclass?_eq,
      B.access_eq (.inl ⟨hm.hasMethod, rfl⟩), h.placement_eq hm.hasMethod]
    split
    · exact .pure hstart _
    · exact .bind (h.meetSlots_follows hstart hconflict hm _) fun _ _ _ hf₁ => .pure hf₁ _
  intro placed f₁ hplaced
  rw [place_eq] at hplaced ⊢
  rw [B.isBoundStatically_eq hm.hasMethod]
  split at hplaced
  · rename_i hbound
    cases hplaced
    exact ⟨_, if_pos hbound, hstart⟩
  · rename_i hbound
    rw [if_neg hbound]
    exact hover placed f₁ hplaced

/-- Placing a declared method. -/
theorem placeDeclared_follows (hm : base.Member c m) :
    Follows (Fill.Matches (SameOccupant base c env env')) (env.placeDeclared c inherited m) f
      (env'.placeDeclared c inherited m) f' := by
  unfold placeDeclared
  refine .bind (h.place_follows hf hconflict hm false) fun placed _ _ hf₁ => ?_
  split
  · refine .bind (hf₁.append (h.sameOccupant_of_member hm) _ _) fun slot _ _ hf₂ => ?_
    exact .bind (hf₂.setIndex _ _) fun _ _ _ hf₃ => hf₃.note _ _
  · exact .pure hf₁ _

/-- Placing a default. -/
theorem placeDefault_follows (hm : base.Member c m) :
    Follows (Fill.Matches (SameOccupant base c env env')) (env.placeDefault c inherited m) f
      (env'.placeDefault c inherited m) f' := by
  unfold placeDefault
  refine .bind (h.place_follows hf hconflict hm true) fun placed _ _ hf₁ => ?_
  split
  · refine .bind (hf₁.append (h.sameOccupant_of_member hm) _ _) fun slot _ _ hf₂ => ?_
    exact .bind (hf₂.note _ _) fun _ _ _ hf₃ => .pure hf₃ _
  · exact .pure hf₁ _

theorem placeAllDeclared_follows {ms : List MethodId} (hms : ∀ m ∈ ms, base.Member c m) :
    Follows (Fill.Matches (SameOccupant base c env env')) (env.placeAllDeclared c inherited ms) f
      (env'.placeAllDeclared c inherited ms) f' := by
  induction ms generalizing f f' with
  | nil => exact .pure hf _
  | cons m ms ih =>
    obtain ⟨hm, hrest⟩ := List.forall_mem_cons.mp hms
    exact .bind (h.placeDeclared_follows hf hconflict hm) fun _ _ _ hf₁ => ih hf₁ hrest

theorem placeAllDefaults_follows {ms : List MethodId} (hms : ∀ m ∈ ms, base.Member c m) :
    Follows (Fill.Matches (SameOccupant base c env env')) (env.placeAllDefaults c inherited ms) f
      (env'.placeAllDefaults c inherited ms) f' := by
  induction ms generalizing f f' with
  | nil => exact .pure hf _
  | cons m ms ih =>
    obtain ⟨hm, hrest⟩ := List.forall_mem_cons.mp hms
    refine .bind (h.placeDefault_follows hf hconflict hm) fun slot _ _ hf₁ => ?_
    exact .bind (ih hf₁ hrest) fun _ _ _ hf₂ => .pure hf₂ _

/-- **Filling a virtual table** answers in both branches if it answers in one of them. -/
theorem placeAll_follows :
    Follows (Fill.Matches (SameOccupant base c env env')) (env.placeAll c inherited) f
      (env'.placeAll c inherited) f' := by
  have B := h.branches
  unfold placeAll
  dsimp only
  rw [B.left.grows.methods h.hasClass, B.right.grows.methods h.hasClass,
    B.left.grows.defaults h.hasClass, B.right.grows.defaults h.hasClass]
  exact .bind (h.placeAllDeclared_follows hf hconflict h.members_methods) fun _ _ _ hf₁ =>
    h.placeAllDefaults_follows hf₁ hconflict h.members_defaults

omit hf hconflict in
/-- The two tables start with matching slots. -/
theorem start_matches {size : VTableSize}
    (hinherited : env.store.inheritedLength (env.store.getClass c).superclass? =
      .ok size.inherited) (hle : size.inherited ≤ size.length) :
    (env.start c size).Matches (SameOccupant base c env env') (env'.start c size) where
  size := by
    have hinherited' := h.inheritedLength_eq.trans hinherited
    rw [size_start hinherited hle, size_start hinherited' hle]
  used := rfl
  occupant := (h.start rfl).occupant

end FillEnv.Parallel

/-! ## Binding -/

namespace Store.Branches

variable {root : Option ClassId} {base s t : Store} {c i : ClassId} {m target : MethodId}
  (B : Branches root base s t) (conflict? : String → LoaderId → LoaderId → Option String)
include B

theorem displayName_eq (hm : base.HasMethod m) : t.displayName m = s.displayName m := by
  rw [B.right.grows.extends.displayName B.start hm, B.left.grows.extends.displayName B.start hm]

/-- An implementation is checked in the same way in both branches. -/
theorem checkBinding_eq (htarget : base.HasMethod target) (c i : ClassId) :
    t.checkBinding conflict? c i target = s.checkBinding conflict? c i target := by
  have hsame : SameMethod base s t target target := .inl ⟨htarget, rfl⟩
  have hloader : ∀ d, (t.getClass d).loader = (s.getClass d).loader := fun d => by
    rw [B.class_eq d]
  have hname : (t.getClass c).name = (s.getClass c).name := by rw [B.class_eq c]
  unfold checkBinding
  simp only [B.holder?_eq hsame, B.selector_eq hsame, hloader, hname]

section Blocks

variable (hc : base.HasClass c)
include hc

theorem bindMethod_eq (hm : base.HasMethod m) (hindex : t.interfaceIndex? m = s.interfaceIndex? m)
    (i : ClassId) (start length : Nat) :
    t.bindMethod conflict? c i start length m = s.bindMethod conflict? c i start length m := by
  have hentry : t.entryOf (t.implementation? c (t.selector m)) =
      s.entryOf (s.implementation? c (s.selector m)) :=
    (B.right.grows.entryFor B.start hc hm).trans (B.left.grows.entryFor B.start hc hm).symm
  unfold bindMethod
  rw [hindex]
  simp only [hentry, B.displayName_eq hm]
  cases hfound : s.entryOf (s.implementation? c (s.selector m)) with
  | empty => rfl
  | inaccessible => rfl
  | bound target =>
    have htarget : base.HasMethod target := by
      have hbase := (B.left.grows.entryFor B.start hc hm).symm.trans hfound
      exact hasMethod_of_implementation? B.start hc (entryOf_eq_bound hbase).1
    simp only [B.checkBinding_eq conflict? htarget]

/-- **An interface table is bound by the same pass in both branches**, if the interfaces have their
numbers. -/
theorem bindBlocks_eq {blocks : List (ClassId × Nat)}
    (hblocks : ∀ e ∈ blocks, SameTables base s t e.1) (start : Nat) :
    t.bindBlocks conflict? c start blocks = s.bindBlocks conflict? c start blocks := by
  induction blocks generalizing start with
  | nil => rfl
  | cons block rest ih =>
    obtain ⟨i, length⟩ := block
    obtain ⟨hi, hrest⟩ := List.forall_mem_cons.mp hblocks
    have hic := B.left.hasClass_iff.mp hi.linked.1.hasClass
    have hmethods : ∀ ms ⊆ (base.getClass i).methods,
        t.bindMethods conflict? c i start length ms =
          s.bindMethods conflict? c i start length ms := fun ms hms => by
      induction ms with
      | nil => rfl
      | cons m ms ih =>
        obtain ⟨hm, hms⟩ := List.cons_subset.mp hms
        have hindex : t.interfaceIndex? m = s.interfaceIndex? m := by
          rw [interfaceIndex?, interfaceIndex?, hi.dispatch m hm]
        rw [bindMethods, bindMethods, B.bindMethod_eq conflict? hc
          ((B.start.fits i hic).methods m hm).1 hindex, ih hms]
    rw [bindBlocks, bindBlocks, ih hrest, B.right.grows.methods hic, B.left.grows.methods hic,
      hmethods _ (List.Subset.refl _)]

omit hc in
/-- The blocks of interfaces with the same tables are the same. -/
theorem visitedInterfaces_eq {interfaces : List ClassId}
    (hinterfaces : ∀ i ∈ interfaces, SameTables base s t i) :
    t.visitedInterfaces interfaces = s.visitedInterfaces interfaces := by
  refine visitedInterfaces_congr (fun i hi => ?_) fun i hi => by rw [B.class_eq i]
  have hic := B.left.hasClass_iff.mp (hinterfaces i hi).linked.1.hasClass
  have hmethods := B.left.grows.methods hic
  refine blockLength_congr_interfaceIndex ((B.right.grows.methods hic).trans hmethods.symm)
    fun m hm => ?_
  rw [interfaceIndex?, interfaceIndex?, (hinterfaces i hi).dispatch m (hmethods ▸ hm)]

end Blocks

end Store.Branches

/-! ## Building -/

namespace Linker

variable {root : Option ClassId} {base : Store} {l l' t u u' v : Linker} {c : ClassId}
  {size : VTableSize} {layout : VTableLayout} {itable : ITable} {transitive : Bool}

/-- A virtual table that is built in one branch is built in the other one. -/
theorem buildVTable_answers (P : FillEnv.Parallel root base c l.fillEnv l'.fillEnv)
    (hconflict : l'.conflict? = l.conflict?)
    (hsize : l.store.vtableSize l.config c = .ok size)
    (hbuild : buildVTable c size l = .ok layout u) :
    ∃ layout' u', buildVTable c size l' = .ok layout' u' ∧ l'.Prepares c u' ∧
      ∃ f', layout'.Built l'.fillEnv c size u'.store f' ∧
        Indexes f' (l'.store.getClass c).methods u'.store := by
  have B : Branches root base l.store l'.store := P.branches
  have hc := B.left.hasClass_iff.mpr P.hasClass
  have hc' := B.right.hasClass_iff.mpr P.hasClass
  obtain ⟨hinherited, hlength⟩ := vtableSize_ok hsize
  have hle : size.inherited ≤ size.length := by omega
  have hinherited' : l'.store.inheritedLength (l'.store.getClass c).superclass? =
      .ok size.inherited := P.inheritedLength_eq.trans hinherited
  have hsize' : l'.store.vtableSize l.config c = .ok size := (P.vtableSize_eq _).trans hsize
  -- The pass that was run, and the one that follows it.
  have hfill : Outcome (l.fillEnv.placeAll c size.inherited) (l.fillEnv.start c size)
      (fun _ f => ∃ slots,
        l.fillEnv.placeAll c size.inherited (l.fillEnv.start c size) = .ok slots f)
      (fun _ _ => True) :=
    FillEnv.placeAll_outcome.eqn.imp (fun slots _ h => ⟨slots, h.1⟩) fun _ _ _ => trivial
  obtain ⟨-, f, hbuilt, -, -, slots, hfilled⟩ :=
    (buildVTable_outcome_of B.left.wellFormed hc hinherited hle hfill).of_ok hbuild
  obtain ⟨f', hfilled', hmatches⟩ :=
    P.placeAll_follows (P.start_matches hinherited hle) hconflict slots f hfilled
  have hfill' : Outcome (l'.fillEnv.placeAll c size.inherited) (l'.fillEnv.start c size)
      (fun _ g => g.used = f.used) (fun _ _ => False) :=
    (outcome_of_ok hfilled').mpr hmatches.used
  have houtcome := buildVTable_outcome_of B.right.wellFormed hc' hinherited' hle hfill'
  refine (houtcome.imp (fun _ _ h => ?_) fun e _ he => ?_).exists_ok
  · obtain ⟨hprep, f', hbuilt', hindexes, -⟩ := h
    exact ⟨hprep, f', hbuilt', hindexes⟩
  · -- The pass itself answers, its placeholders fit as in the other branch, and the table verifies.
    have hroom := hbuilt.room hinherited hle
    obtain ⟨-, -, hnot | ⟨g, name, n, hused, hfull, -⟩ | hunverified⟩ := he
    · exact hnot
    · have hpending : l'.store.pendingMirandas c = l.store.pendingMirandas c :=
        P.pendingMirandas_eq
      rw [hused, hpending] at hfull
      exact Nat.not_le.mpr hfull hroom
    · obtain ⟨layout', s, g, hprep, hbuilt', herror⟩ := hunverified
      rw [hbuilt'.verifyVTable_ok B.right.coherent B.right.wellFormed hc' hsize' hprep] at herror
      cases herror

/-- A binding pass answers wherever it is run. -/
theorem runBinding_answers {pass : BindM Unit} {table : ITable}
    (h : runBinding c pass table u = .ok itable v) (u' : Linker) :
    ∃ v', runBinding c pass table u' = .ok itable v' := by
  unfold runBinding at h ⊢
  cases hpass : pass { table } with
  | ok a b =>
    simp only [hpass] at h ⊢
    cases h
    exact ⟨_, rfl⟩
  | error e b =>
    simp only [hpass] at h
    cases h

/-- An interface table that is built in one branch is built in the other one. -/
theorem buildITable_answers (B : Branches root base u.store u'.store) (hc : base.HasClass c)
    (hconflict : u'.conflict? = u.conflict?)
    (hinterfaces : ∀ i ∈ (base.getClass c).allInterfaces, SameTables base u.store u'.store i) :
    Follows (fun _ _ => True) (buildITable c) u (buildITable c) u' := by
  have hname : (u'.store.getClass c).name = (u.store.getClass c).name := by rw [B.class_eq c]
  have hint : (u'.store.getClass c).isInterface = (u.store.getClass c).isInterface := by
    rw [B.class_eq c]
    rfl
  have hall := B.left.grows.extends.allInterfaces hc
  have hall' := B.right.grows.extends.allInterfaces hc
  unfold buildITable
  refine .get_bind ?_
  dsimp only
  rw [hint, hname, hall, hall', B.visitedInterfaces_eq hinterfaces, hconflict]
  split
  · exact .bind_of fun _ _ _ => ⟨_, _, rfl, .pure trivial _⟩
  · have hnone : (base.getClass c).allInterfaces.find?
        (fun i => !(u'.store.getClass i).isLinked) = none := by
      rw [List.find?_eq_none]
      intro i hi
      have hlinked : (u'.store.getClass i).isLinked = true := (hinterfaces i hi).linked.2
      simp [hlinked]
    rw [hnone]
    split
    · exact .of_throw _
    · rw [B.bindBlocks_eq u.conflict? hc fun e he => hinterfaces e.1 (mem_visitedInterfaces he).1]
      refine .bind_of fun table v hv => ?_
      obtain ⟨v', hv'⟩ := runBinding_answers hv u'
      exact ⟨table, v', hv', .bind (.ofExcept trivial _) fun _ _ _ _ => .pure trivial _⟩

/-- **Tables that are built in one branch are built in the other one.**  Both branches are paths
from `base`, and they come to the class under the same settings, with the same conflicts recorded.
-/
theorem buildTables_answers (hbase : Branch root base base) (hmirandas : base.MirandasExist)
    (hl : OnPath root transitive base l) (hl' : OnPath root transitive base l')
    (hconfig : l'.config = l.config) (hconflict : l'.conflict? = l.conflict?)
    (hready : Ready l.store c) (hready' : Ready l'.store c) :
    Follows (fun _ _ => True) (buildTables c) l (buildTables c) l' := by
  obtain ⟨hc, hancestors, hinterfaces⟩ := hl.path.linked_above hbase hready
  obtain ⟨-, hancestors', hinterfaces'⟩ := hl'.path.linked_above hbase hready'
  have hleft := hl.path.branch hbase
  have hright := hl'.path.branch hbase
  have P : FillEnv.Parallel root base c l.fillEnv l'.fillEnv :=
    { branches := ⟨hbase.wellFormed, hleft, hright⟩
      transitive := hl'.transitive.trans hl.transitive.symm
      hasClass := hc
      above := fun a ha => hl.path.sameTables hbase hmirandas hl'.path (hancestors a ha)
        (hancestors' a ha) }
  have hsizes : l'.store.vtableSize l'.config c = l.store.vtableSize l.config c := by
    rw [hconfig]
    exact P.vtableSize_eq l.config
  unfold buildTables
  refine .get_bind ?_
  rw [hsizes]
  cases hsize : l.store.vtableSize l.config c with
  | error e => exact .bind_of fun _ _ h => by cases h
  | ok size =>
    refine .bind_of fun _ _ h => ?_
    cases h
    refine ⟨size, l', rfl, .bind_of fun layout u hu => ?_⟩
    obtain ⟨hinherited, hlength⟩ := vtableSize_ok hsize
    have hprep := ((buildVTable_outcome hleft.wellFormed hready.hasClass hinherited
      (by omega)).of_ok hu).1
    obtain ⟨layout', u', hu', hprep', f', hbuilt', hindexes'⟩ :=
      buildVTable_answers P hconflict hsize hu
    refine ⟨layout', u', hu', .bind_of fun itable v hv => ?_⟩
    -- The interfaces have kept their tables so far.
    have hpath := hl.path.prepares hready hprep.store
    have hpath' := hl'.path.prepares hready' hprep'.store
    have hsame : ∀ i ∈ (base.getClass c).allInterfaces, SameTables base u.store u'.store i :=
      fun i hi => hpath.sameTables hbase hmirandas hpath'
        (hprep.store.linked_iff.mpr (hinterfaces i hi))
        (hprep'.store.linked_iff.mpr (hinterfaces' i hi))
    have hconflict' : u'.conflict? = u.conflict? := by
      rw [hprep'.continues.conflict?_eq, hprep.continues.conflict?_eq, hconflict]
    obtain ⟨v', hv', -⟩ := buildITable_answers
      ⟨hbase.wellFormed, hpath.branch hbase, hpath'.branch hbase⟩ hc hconflict' hsame itable v hv
    refine ⟨itable, v', hv', fun _ _ _ => ?_⟩
    obtain ⟨hlinked, hfresh⟩ :=
      hready'.built hprep' hright.wellFormed hright.linkedUp hbuilt' hindexes'
    have hprep_v := ((buildITable_outcome (hpath'.branch hbase).wellFormed hlinked
      hfresh).of_ok hv').1
    obtain ⟨_, w', hw', -⟩ := (install_outcome (hprep'.trans hprep_v) hready' _).exists_ok
    exact ⟨w', hw', trivial⟩

end Linker
end ClassLinking
