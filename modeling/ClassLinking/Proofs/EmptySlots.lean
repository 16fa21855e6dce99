import ClassLinking.Proofs.Consistency
import ClassLinking.Proofs.InterfaceSlots

/-!
# Slots that stay empty

Sizing a virtual table must not count too little, and it does not (`placements_fit`).  Here is when
it counts too much.  A slot that is counted and not filled is never filled later, and every subclass
inherits it.

What sizing reserves for interface methods comes out even: each selector that it reserves a slot for
is the one of a default that needs the slot or of a placeholder (`length_reserved_le`).  So slots
stay empty only because of declared methods that are counted, and then take inherited slots over
(`length_eq_iff`).

Sizing does not look at the inherited slots.  It asks what the superclasses declare, and if they
declare nothing that the method overrides, it asks whether the superclass has placeholders of its
own.  That misses the slots that interface methods have got further up: those of defaults, those of
placeholders that a class above the superclass has introduced, and any of them if a declaration that
is out of reach stands below.  `Store.Overcounts` puts together when this happens, and `filled_iff`
says that it is the only way in which a slot of a table stays empty.
-/

namespace ClassLinking

/-! ## The slots in use -/

namespace FillEnv

variable {env : FillEnv} {c : ClassId} {p : Placement} {ps : List Placement} {inherited i : Nat}
  {f f' : Fill}

/-- One placement leaves the slots alone that are not in use afterwards. -/
theorem Places.occupant_of_used_le (h : env.Places c p inherited f f') (hused : inherited ≤ f.used)
    (hi : f'.used ≤ i) : f'.occupant i = f.occupant i := by
  rw [h.used] at hi
  rw [h.occupant, if_neg]
  rintro (htaken | ⟨hneeds, rfl⟩)
  · have hlt := (mem_taken htaken).1
    omega
  · rw [hneeds, Bool.toNat_true] at hi
    omega

/-- One placement fills the slot that it takes into use. -/
theorem Places.isSome_occupant (h : env.Places c p inherited f f')
    (hbefore : i < f.used → (f.occupant i).isSome = true) (hi : i < f'.used) :
    (f'.occupant i).isSome = true := by
  rw [h.occupant]
  split
  · rfl
  · rename_i hnot
    rw [not_or] at hnot
    refine hbefore ?_
    rw [h.used] at hi
    cases hneeds : env.needsSlot c p inherited f with
    | false => simpa [hneeds] using hi
    | true =>
      have hne : i ≠ f.used := fun heq => hnot.2 ⟨hneeds, heq⟩
      rw [hneeds, Bool.toNat_true] at hi
      omega

namespace PlacesAll

theorem occupant_of_used_le (h : env.PlacesAll c inherited ps f f') (hused : inherited ≤ f.used)
    (hi : f'.used ≤ i) : f'.occupant i = f.occupant i := by
  induction h with
  | nil => rfl
  | cons hp h ih =>
    rw [ih (Nat.le_trans hused hp.used_le) hi,
      hp.occupant_of_used_le hused (Nat.le_trans h.used_le hi)]

theorem isSome_occupant (h : env.PlacesAll c inherited ps f f')
    (hbefore : i < f.used → (f.occupant i).isSome = true) (hi : i < f'.used) :
    (f'.occupant i).isSome = true := by
  induction h with
  | nil => exact hbefore hi
  | cons hp _ ih => exact ih (fun hi => hp.isSome_occupant hbefore hi) hi

end PlacesAll
end FillEnv

/-- The slots behind the inherited ones are all filled exactly if all of them are used. -/
theorem VTableLayout.Built.filled_iff {env : FillEnv} {c : ClassId} {size : VTableSize}
    {layout : VTableLayout} {t : Store} {f : Fill} (h : layout.Built env c size t f)
    (hinherited : env.store.inheritedLength (env.store.getClass c).superclass? =
      .ok size.inherited)
    (hfits : f.used + (env.store.pendingMirandas c).length ≤ size.length) :
    (∀ i, size.inherited ≤ i → i < size.length → ∃ m, layout.table.methodAt i = some m) ↔
      f.used + (env.store.pendingMirandas c).length = size.length := by
  have hplaced := h.placed
  have hstart : (env.start c size).used = size.inherited := rfl
  have hle := h.inherited_le_used
  constructor
  · intro hall
    by_contra hne
    obtain ⟨m, hm⟩ := hall (f.used + (env.store.pendingMirandas c).length) (by omega) (by omega)
    rw [h.methodAt, if_neg (by omega), hplaced.occupant_of_used_le (Nat.le_refl _) (by omega),
      FillEnv.occupant_start, Store.inheritedAt_eq_none hinherited (by omega)] at hm
    cases hm
  · intro heq i hi hlt
    rw [← Option.isSome_iff_exists, h.methodAt]
    split
    · rename_i hpending
      have hlength := h.placeholders.length_eq
      rw [List.getElem?_eq_getElem (by omega)]
      rfl
    · exact hplaced.isSome_occupant (fun hi' => by omega) (by omega)

namespace Store

variable {s t : Store} {root : Option ClassId} {a c p : ClassId} {m : MethodId} {sel : Selector}
  {loader : LoaderId} {className : String}

/-! ## Methods that are counted too much -/

/-- The class declares an instance method of the selector that a declaration in `className`
overrides. -/
def DeclaresOverridable (s : Store) (sel : Selector) (loader : LoaderId) (className : String)
    (a : ClassId) : Prop :=
  ∃ x ∈ (s.getClass a).methods, s.selector x = sel ∧ (s.getMethod x).isInstance = true ∧
    s.isOverridable x loader className = true

/-- The class meets an interface method of the selector, and no class from it up declares one. -/
def MeetsFirst (s : Store) (a : ClassId) (sel : Selector) : Prop :=
  s.Meets a sel ∧ ∀ b ∈ s.lineage a, s.declaresInstance sel b = false

/-- The class `c` declares `m`, which takes over a slot that an interface method has got above, and
yet `m` is counted: nothing that is declared above is overridden by it, and either something is
declared there, or the superclass has no placeholders of its own. -/
@[mk_iff overcounts_iff_and]
structure Overcounts (s : Store) (c : ClassId) (m : MethodId) : Prop where
  notInterface : (s.getClass c).isInterface = false
  bound : (s.getMethod m).isBoundStatically = false
  notFinal : s.isFinalMethod m (s.getClass c).flags = false
  notPackagePrivate : (s.getMethod m).access.isPackagePrivate = false
  met : ∃ a ∈ (s.getClass c).ancestors, s.MeetsFirst a (s.selector m)
  outOfReach : ∀ a ∈ (s.getClass c).ancestors,
    ¬ s.DeclaresOverridable (s.selector m) (s.getClass c).loader (s.getClass c).name a
  unseen : (∃ a ∈ (s.getClass c).ancestors, s.declaresInstance (s.selector m) a = true) ∨
    ∀ p, (s.getClass c).superclass? = some p → (s.getClass p).mirandas = []

instance (s : Store) (c : ClassId) (sel : Selector) : Decidable (s.Meets c sel) :=
  inferInstanceAs (Decidable (∃ i ∈ (s.getClass c).allInterfaces,
    ∃ m ∈ (s.getClass i).methods, _ ∧ _))

instance (s : Store) (sel : Selector) (loader : LoaderId) (className : String) (a : ClassId) :
    Decidable (s.DeclaresOverridable sel loader className a) :=
  inferInstanceAs (Decidable (∃ x ∈ (s.getClass a).methods, _ ∧ _ ∧ _))

instance (s : Store) (a : ClassId) (sel : Selector) : Decidable (s.MeetsFirst a sel) :=
  inferInstanceAs (Decidable (_ ∧ ∀ b ∈ s.lineage a, _))

instance (s : Store) (c : ClassId) (m : MethodId) : Decidable (s.Overcounts c m) :=
  haveI : Decidable (∀ p, (s.getClass c).superclass? = some p → (s.getClass p).mirandas = []) :=
    inferInstanceAs (Decidable (∀ p ∈ (s.getClass c).superclass?, _))
  decidable_of_iff _ (overcounts_iff_and s c m).symm

theorem DeclaresOverridable.declaresInstance (h : s.DeclaresOverridable sel loader className a) :
    s.declaresInstance sel a = true := by
  obtain ⟨x, hx, hsel, hinst, -⟩ := h
  exact declaresInstance_iff.mpr ⟨x, hx, hsel, hinst⟩

/-- If overriding is transitive, the chain denies a slot because of a declaration that is
overridden, wherever it stands, and without one it asks for a slot if there is a declaration at
all. -/
theorem AllConform.slotFromChain_transitive (h : s.AllConform) (sel : Selector) (loader : LoaderId)
    (className : String) (outOfReach : Bool) (ks : List ClassId) :
    ((∃ k ∈ ks, s.DeclaresOverridable sel loader className k) →
      s.slotFromChain true sel loader className outOfReach ks = some false) ∧
    ((∀ k ∈ ks, ¬ s.DeclaresOverridable sel loader className k) →
      s.slotFromChain true sel loader className outOfReach ks =
        if outOfReach || ks.any (s.declaresInstance sel) then some true else none) := by
  induction ks generalizing outOfReach with
  | nil => exact ⟨fun ⟨k, hk, _⟩ => absurd hk List.not_mem_nil, fun _ => by simp [slotFromChain]⟩
  | cons k above ih =>
    rw [List.exists_mem_cons_iff, List.forall_mem_cons, List.any_cons]
    rcases h.slotFromChain_cons true sel loader className outOfReach k above with
      ⟨hk, heq⟩ | ⟨m, hm, hsel, hinst, heq⟩
    · rw [heq, hk, Bool.false_or]
      have hnot : ¬ s.DeclaresOverridable sel loader className k := fun hover => by
        rw [hover.declaresInstance] at hk
        cases hk
      exact ⟨fun hor => (ih outOfReach).1 (hor.resolve_left hnot),
        fun hnone => (ih outOfReach).2 hnone.2⟩
    · have hk := declaresInstance_iff.mpr ⟨m, hm, hsel, hinst⟩
      rw [heq, hk, Bool.true_or, Bool.or_true, if_pos rfl]
      cases hover : s.isOverridable m loader className with
      | true => exact ⟨fun _ => by simp, fun hnone => absurd ⟨m, hm, hsel, hinst, hover⟩ hnone.1⟩
      | false =>
        rw [if_neg (by simp)]
        refine ⟨fun hor => (ih true).1 (hor.resolve_left ?_), fun hnone => by
          rw [(ih true).2 hnone.2, Bool.true_or, if_pos rfl]⟩
        rintro ⟨x, hx, hxsel, -, hxover⟩
        rw [h.isDistinct.eq hx hm (hxsel.trans hsel.symm), hover] at hxover
        cases hxover

/-- Only methods that are dispatched dynamically are counted, final ones left out. -/
theorem dispatched_of_needsNewSlot {transitive : Bool} {superclass : Option ClassId}
    {flags : ClassFlags}
    (h : s.needsNewSlot transitive m superclass loader className flags = true) :
    flags.isInterface = false ∧ (s.getMethod m).isBoundStatically = false ∧
      s.isFinalMethod m flags = false := by
  unfold needsNewSlot at h
  dsimp only at h
  split at h
  · cases h
  · rename_i hint
    split at h
    · cases h
    · rename_i hbound
      split at h
      · cases h
      · rename_i hfinal
        rw [Bool.or_eq_true, not_or] at hbound
        exact ⟨Bool.eq_false_iff.mpr hint, Bool.eq_false_iff.mpr hbound.2,
          Bool.eq_false_iff.mpr hfinal⟩

/-- When a declared method is counted under transitive overriding. -/
theorem mem_declaredNewSlots_iff (h : s.AllConform) (w : s.WellFormed root) (hc : s.HasClass c)
    (hp : (s.getClass c).superclass? = some p) (hm : m ∈ (s.getClass c).methods) :
    m ∈ s.declaredNewSlots true c ↔
      (s.getClass c).isInterface = false ∧ (s.getMethod m).isBoundStatically = false ∧
      s.isFinalMethod m (s.getClass c).flags = false ∧
      ((s.getMethod m).access.isPackagePrivate = true ∨
        (∀ a ∈ (s.getClass c).ancestors,
          ¬ s.DeclaresOverridable (s.selector m) (s.getClass c).loader (s.getClass c).name a) ∧
        ((∃ a ∈ (s.getClass c).ancestors, s.declaresInstance (s.selector m) a = true) ∨
          (s.getClass p).mirandas = [] ∨ ¬ s.Meets p (s.selector m))) := by
  rw [declaredNewSlots, List.mem_filter, and_iff_right hm, w.ancestors_of_superclass hc hp]
  obtain ⟨hdenied, hasked⟩ := h.slotFromChain_transitive (s.selector m) (s.getClass c).loader
    (s.getClass c).name false (s.lineage p)
  have hmeets : (s.lookupInInterfaces? p (s.selector m) false).isSome = true ↔
      s.Meets p (s.selector m) :=
    h.regular.lookupInInterfaces?_isSome_iff w (w.hasClass_superclass hc hp)
  have hsel : (s.getMethod m).selector = s.selector m := rfl
  cases hint : (s.getClass c).isInterface with
  | true =>
    have hflag : (s.getClass c).flags.isInterface = true := hint
    simp [needsNewSlot, hflag]
  | false =>
    have hflag : (s.getClass c).flags.isInterface = false := hint
    have hdefault : s.isDefault m = false := by
      simp [isDefault, w.holder?_of_mem_methods hc hm, hint]
    simp only [needsNewSlot, hflag, hdefault, hp, hsel, Bool.false_or, Bool.false_eq_true, if_false]
    cases (s.getMethod m).isBoundStatically with
    | true => simp
    | false =>
      cases s.isFinalMethod m (s.getClass c).flags with
      | true => simp
      | false =>
        cases (s.getMethod m).access.isPackagePrivate with
        | true => simp
        | false =>
          by_cases hover : ∃ a ∈ s.lineage p, s.DeclaresOverridable (s.selector m)
              (s.getClass c).loader (s.getClass c).name a
          · rw [hdenied hover]
            obtain ⟨a, ha, hover⟩ := hover
            simp only [Bool.false_eq_true, if_false, false_or, true_and, false_iff, not_and]
            exact fun hnone => absurd hover (hnone a ha)
          · have hnone : ∀ a ∈ s.lineage p, ¬ s.DeclaresOverridable (s.selector m)
                (s.getClass c).loader (s.getClass c).name a := fun a ha h => hover ⟨a, ha, h⟩
            rw [hasked hnone, Bool.false_or]
            by_cases hany : (s.lineage p).any (s.declaresInstance (s.selector m)) = true
            · simp only [hany, if_true, Bool.false_eq_true, if_false, false_or, true_and, true_iff]
              exact ⟨hnone, Or.inl (List.any_eq_true.mp hany)⟩
            · have hnot : ¬ ∃ a ∈ s.lineage p, s.declaresInstance (s.selector m) a = true :=
                fun h => hany (List.any_eq_true.mpr h)
              simp only [hany, Bool.false_eq_true, if_false, false_or, true_and, Bool.not_eq_true',
                Bool.and_eq_false_iff, hnot, ← hmeets, List.isEmpty_iff, Bool.not_eq_false',
                Bool.not_eq_true, and_iff_right hnone]

/-! ## Later stores -/

section Grows

variable (w : s.WellFormed root) (hg : s.Grows t)
include w hg

/-- A class has the same methods of a kind later on. -/
theorem Grows.exists_method_iff (hc : s.HasClass c) {Q Q' : MethodId → Prop}
    (h : ∀ m, s.HasMethod m → (Q' m ↔ Q m)) :
    (∃ m ∈ (t.getClass c).methods, Q' m) ↔ ∃ m ∈ (s.getClass c).methods, Q m := by
  rw [hg.methods hc]
  exact exists_congr fun m => and_congr_right fun hm => h m ((w.fits c hc).methods m hm).1

theorem Grows.declaresOverridable_iff (hc : s.HasClass c) :
    t.DeclaresOverridable sel loader className c ↔
      s.DeclaresOverridable sel loader className c :=
  hg.exists_method_iff w hc fun m hm => by
    rw [hg.extends.selector hm, hg.extends.isInstance hm, hg.extends.isOverridable w hm]

theorem Grows.meets_iff (hc : s.HasClass c) : t.Meets c sel ↔ s.Meets c sel := by
  rw [Meets, hg.extends.allInterfaces hc]
  refine exists_congr fun i => and_congr_right fun hi => ?_
  exact hg.exists_method_iff w (w.hasClass_of_mem_allInterfaces hc hi) fun m hm => by
    rw [hg.extends.selector hm, hg.extends.isInstance hm]

theorem Grows.meetsFirst_iff (hc : s.HasClass c) : t.MeetsFirst c sel ↔ s.MeetsFirst c sel := by
  rw [MeetsFirst, MeetsFirst, hg.meets_iff w hc, hg.extends.lineage hc]
  refine and_congr_right fun _ => forall₂_congr fun b hb => ?_
  rw [hg.declaresInstance w (w.hasClass_of_mem_lineage hc hb)]

/-- Once its superclass is linked, it is settled what a class counts too much. -/
theorem Grows.overcounts_iff (hc : s.HasClass c)
    (hup : ∀ p, (s.getClass c).superclass? = some p → s.Linked p)
    (hm : m ∈ (s.getClass c).methods) : t.Overcounts c m ↔ s.Overcounts c m := by
  have hext := hg.extends
  have hhas := ((w.fits c hc).methods m hm).1
  have hanc : (t.getClass c).ancestors = (s.getClass c).ancestors := by rw [hext.class_eq c hc]
  have habove : ∀ a ∈ (s.getClass c).ancestors, s.HasClass a := fun a =>
    w.hasClass_of_mem_ancestors hc
  have hmet : (∃ a ∈ (s.getClass c).ancestors, t.MeetsFirst a (s.selector m)) ↔
      ∃ a ∈ (s.getClass c).ancestors, s.MeetsFirst a (s.selector m) :=
    exists_congr fun a => and_congr_right fun ha => hg.meetsFirst_iff w (habove a ha)
  have hreach : (∀ a ∈ (s.getClass c).ancestors, ¬ t.DeclaresOverridable (s.selector m)
      (s.getClass c).loader (s.getClass c).name a) ↔ ∀ a ∈ (s.getClass c).ancestors,
        ¬ s.DeclaresOverridable (s.selector m) (s.getClass c).loader (s.getClass c).name a :=
    forall₂_congr fun a ha => not_congr (hg.declaresOverridable_iff w (habove a ha))
  have hdeclared : (∃ a ∈ (s.getClass c).ancestors,
      t.declaresInstance (s.selector m) a = true) ↔
        ∃ a ∈ (s.getClass c).ancestors, s.declaresInstance (s.selector m) a = true :=
    exists_congr fun a => and_congr_right fun ha => by rw [hg.declaresInstance w (habove a ha)]
  have hnone : (∀ p, (s.getClass c).superclass? = some p → (t.getClass p).mirandas = []) ↔
      ∀ p, (s.getClass c).superclass? = some p → (s.getClass p).mirandas = [] := by
    refine forall₂_congr fun p hp => ?_
    obtain ⟨ts, hts⟩ := linked_iff.mp (hup p hp)
    rw [Class.mirandas, Class.mirandas, hg.tables_eq p ts hts, hts]
  rw [overcounts_iff_and, overcounts_iff_and, hext.isInterface hc, hext.isBoundStatically hhas,
    hext.isFinalMethod w hhas, hext.flags hc, hext.access hhas, hext.selector hhas,
    hext.loader hc, hext.name hc, hext.superclass? hc, hanc, hmet, hreach, hdeclared, hnone]

end Grows

end Store

namespace Linker

open Store

variable {P : Config → Prop} {l : Linker} {s : Store} {root : Option ClassId} {a c p : ClassId}
  {m o x : MethodId} {i : Nat} {size : VTableSize}

/-! ## Where the methods in slots come from -/

/-- A default belongs to an interface that its class meets, and no class of the chain declares its
selector. -/
theorem Traced.meetsFirst_of_default (T : Traced P root s) (hc : s.HasClass c)
    (hm : m ∈ (s.getClass c).defaults) : s.MeetsFirst c (s.selector m) := by
  obtain ⟨j, hj, hmj⟩ := (T.selected c hc).declared m hm
  have hinst := Store.isInstance_of_bound ((T.inheritsDefaults c hc).isDefault m hm).2
  refine ⟨⟨j, hj, m, hmj, rfl, hinst⟩, fun b hb => ?_⟩
  rw [Bool.eq_false_iff, ne_eq, Store.declaresInstance_iff]
  rintro ⟨x, hx, hsel, hxinst⟩
  exact T.selector_default_ne hc hm hb hx hxinst hsel

/-- A pending miranda is declared by no class of the chain, and the class meets it. -/
theorem Traced.meetsFirst_of_pending (T : Traced P root s) (hc : s.HasClass c)
    (hm : m ∈ s.pendingMirandas c) : s.MeetsFirst c (s.selector m) := by
  refine ⟨Store.meets_of_pending T.wellFormed hc hm, fun b hb => ?_⟩
  have hnew := (Store.isNewMiranda_of_pending hm).2
  simp only [Store.isNewMiranda, Store.isMiranda, Bool.and_eq_true] at hnew
  obtain ⟨⟨⟨⟨-, hown⟩, -⟩, hchain⟩, -⟩ := hnew
  rw [Store.lineage, List.mem_cons] at hb
  rcases hb with rfl | hb
  · exact Option.isSome_eq_false_iff.mpr hown
  · cases hp : (s.getClass c).superclass? with
    | none =>
      rw [Store.WellFormed.ancestors_of_top hp] at hb
      exact absurd hb List.not_mem_nil
    | some p =>
      rw [T.wellFormed.ancestors_of_superclass hc hp] at hb
      rw [hp, Option.all_some, Bool.not_eq_true', List.any_eq_false] at hchain
      exact Bool.eq_false_iff.mpr (hchain b hb)

/-- A method in a slot is declared by a class of the chain, or it is there for an interface method
that a class of the chain was the first to meet.  The induction is along the chain. -/
theorem Traced.exists_origin_of_slot (T : Traced P root s) :
    ∀ c, s.HasClass c → ∀ i x, s.slot c i = some x → ∃ a ∈ s.lineage c,
      (x ∈ (s.getClass a).methods ∧ (s.getMethod x).isInstance = true) ∨
        s.MeetsFirst a (s.selector x) := by
  have w := T.wellFormed
  refine w.superclass_induction fun c hc ih i x hx => ?_
  have hlinked := Store.linked_of_slot hx
  have hself := Store.WellFormed.mem_lineage_self s c
  have hdispatched : s.Dispatches c x → ∃ a ∈ s.lineage c,
      (x ∈ (s.getClass a).methods ∧ (s.getMethod x).isInstance = true) ∨
        s.MeetsFirst a (s.selector x) := fun hdisp => by
    refine ⟨c, hself, hdisp.mem.imp (fun hxm => ?_) (T.meetsFirst_of_default hc)⟩
    exact ⟨hxm, Store.isInstance_of_bound hdisp.bound⟩
  by_cases hi : i < s.superLength c
  · cases hp : (s.getClass c).superclass? with
    | none =>
      rw [Store.superLength, hp] at hi
      exact absurd hi (Nat.not_lt_zero _)
    | some p =>
      rcases T.slot_inherited hlinked hp hi with hsame | ⟨y, hy, hdisp, -⟩
      · obtain ⟨a, ha, hor⟩ := ih p hp i x (hsame.symm.trans hx)
        exact ⟨a, w.lineage_of_superclass hc hp ▸ List.mem_cons_of_mem _ ha, hor⟩
      · rw [hx, Option.some.injEq] at hy
        exact hdispatched (hy ▸ hdisp)
  · rcases T.slot_own_pending (Nat.le_of_not_lt hi) hx with hdisp | ⟨m, hm, hsel⟩
    · exact hdispatched hdisp
    · exact ⟨c, hself, Or.inr (hsel ▸ T.meetsFirst_of_pending hc hm)⟩

/-- A method that takes a slot over and overrides no declaration above does so in a slot that was
made for an interface method. -/
theorem Traced.exists_meetsFirst_of_takesOver (T : Traced P root s) (hp : s.Linked p)
    (hreach : ∀ a ∈ s.lineage p, ¬ s.DeclaresOverridable (s.selector m) (s.getClass c).loader
      (s.getClass c).name a)
    (ho : s.slot p i = some o) (htakes : s.takesOver true c m i o = true) :
    ∃ a ∈ s.lineage p, s.MeetsFirst a (s.selector m) := by
  have w := T.wellFormed
  have hpc := hp.hasClass
  -- What is overridden in the slot is not declared, so it is there for an interface method.
  have hfirst : ∀ e y, e ∈ s.lineage p → s.slot e i = some y → s.selector y = s.selector m →
      s.isOverridable y (s.getClass c).loader (s.getClass c).name = true →
      ∃ a ∈ s.lineage p, s.MeetsFirst a (s.selector m) := fun e y he hy hsel hover => by
    obtain ⟨a, ha, hor⟩ := T.exists_origin_of_slot e (w.hasClass_of_mem_lineage hpc he) i y hy
    have hap := w.mem_lineage_trans hpc he ha
    rcases hor with ⟨hya, hyinst⟩ | hfirst
    · exact absurd ⟨y, hya, hsel, hyinst, hover⟩ (hreach a hap)
    · exact ⟨a, hap, hsel ▸ hfirst⟩
  obtain ⟨hsel, h, hh, hover | ⟨-, -, y, hwalk, -⟩⟩ := Store.takesOver_iff.mp htakes
  · exact hfirst p o (Store.WellFormed.mem_lineage_self s p) ho hsel hover
  · obtain ⟨e, he, hy, hover⟩ := Store.transitivelyOverridden_some hwalk
    obtain ⟨d, hd, hmem⟩ := T.holder_slot p hpc i o ho
    rw [w.holder?_eq (T.housed p i o ho), hd, Option.some.injEq] at hh
    have hep : e ∈ s.lineage p := Store.WellFormed.mem_lineage_of_mem_ancestors
      (w.mem_ancestors_of_supertype hpc hmem (hh ▸ he))
    have hagree := T.selector_slot p hpc hp e hep i (Store.lt_of_slot hy)
    rw [ho, hy, Option.map_some, Option.map_some, Option.some.injEq] at hagree
    exact hfirst e y hep hy (hagree.symm.trans hsel) hover

/-- A method takes over the slot of an interface method that a class above was the first to meet. -/
theorem Traced.exists_takesOver_of_meetsFirst (T : Traced P root s) (hrules : s.AllConform)
    (hp : s.Linked p) (hap : a ∈ s.lineage p) (hint : (s.getClass a).isInterface = false)
    (hfirst : s.MeetsFirst a (s.selector m)) :
    ∃ i o, s.slot p i = some o ∧ s.takesOver true c m i o = true := by
  have halinked := T.linkedUp.lineage T.wellFormed p hp.hasClass hp a hap
  obtain ⟨i, x, hx, hsel, hopen⟩ :=
    T.exists_slot_open hrules.regular a halinked.hasClass halinked hint hfirst.2 hfirst.1
  obtain ⟨before, above, hsplit⟩ := List.append_of_mem hap
  exact ⟨i, T.exists_takesOver_of_passed hrules.regular hp hsplit hx hsel hopen.isOverridable
    (Or.inl rfl)⟩

/-- **When a method that takes a slot over is counted.**  Counting sees declarations above, and the
placeholders of the superclass. -/
theorem Traced.overcounts_iff (T : Traced P root s) (hrules : s.AllConform) (hc : s.HasClass c)
    (hup : ∀ p, (s.getClass c).superclass? = some p → s.Linked p)
    (hm : m ∈ (s.getClass c).methods) :
    s.Overcounts c m ↔ m ∈ s.declaredNewSlots true c ∧
      (s.getMethod m).access.isPackagePrivate = false ∧
      ∃ p i o, (s.getClass c).superclass? = some p ∧ s.slot p i = some o ∧
        s.takesOver true c m i o = true := by
  have w := T.wellFormed
  constructor
  · intro h
    obtain ⟨a, ha, hfirst⟩ := h.met
    cases hp : (s.getClass c).superclass? with
    | none =>
      rw [Store.WellFormed.ancestors_of_top hp] at ha
      exact absurd ha List.not_mem_nil
    | some p =>
      have hap : a ∈ s.lineage p := w.ancestors_of_superclass hc hp ▸ ha
      obtain ⟨i, o, ho, htakes⟩ := T.exists_takesOver_of_meetsFirst hrules (hup p hp) hap
        (w.class_of_mem_ancestors c hc a ha).1 hfirst
      exact ⟨(Store.mem_declaredNewSlots_iff hrules w hc hp hm).mpr ⟨h.notInterface, h.bound,
        h.notFinal, Or.inr ⟨h.outOfReach, h.unseen.imp_right fun h => Or.inl (h p hp)⟩⟩,
        h.notPackagePrivate, p, i, o, rfl, ho, htakes⟩
  · rintro ⟨hcounted, hpackage, p, i, o, hp, ho, htakes⟩
    have hplinked := hup p hp
    have hanc := w.ancestors_of_superclass hc hp
    obtain ⟨hint, hbound, hfinal, hor⟩ :=
      (Store.mem_declaredNewSlots_iff hrules w hc hp hm).mp hcounted
    rw [hpackage] at hor
    obtain ⟨hreach, hunseen⟩ := hor.resolve_left Bool.false_ne_true
    obtain ⟨a, ha, hfirst⟩ :=
      T.exists_meetsFirst_of_takesOver hplinked (hanc ▸ hreach) ho htakes
    refine ⟨hint, hbound, hfinal, hpackage, ⟨a, hanc ▸ ha, hfirst⟩, hreach, ?_⟩
    rcases hunseen with hdeclared | hnone | hnot
    · exact Or.inl hdeclared
    · refine Or.inr fun p' hp' => ?_
      rw [hp, Option.some.injEq] at hp'
      exact hp' ▸ hnone
    · exact absurd (hfirst.1.of_mem_lineage w hplinked.hasClass ha) hnot

/-! ## Counting what is filled -/

section Count

variable {q : Placement} (T : Traced P root l.store) (hrules : l.store.AllConform)
  (hready : Ready l.store c) (hsize : l.store.vtableSize l.config c = .ok size)

include hready in
/-- A method that could have a slot of its own and needs none takes one over. -/
theorem exists_takes_of_not_needsSlot
    (hbound : (l.store.getMethod q.method).isBoundStatically = false)
    (hfinal : l.store.isFinalMethod q.method (l.store.getClass c).flags = false)
    (hint : (l.store.getClass c).isInterface = false) (hneeds : l.needsSlot c size q = false) :
    (l.store.getMethod q.method).access.isPackagePrivate = false ∧ ∃ p i o,
      (l.store.getClass c).superclass? = some p ∧ l.store.slot p i = some o ∧
        l.fillEnv.takes q i o = true := by
  have hflag : (l.fillEnv.store.getClass c).isInterface = false := hint
  have hbound' : (l.fillEnv.store.getMethod q.method).isBoundStatically = false := hbound
  have hfinal' :
      l.fillEnv.store.isFinalMethod q.method (l.fillEnv.store.getClass c).flags = false := hfinal
  simp only [needsSlot, FillEnv.needsSlot, hbound', hfinal', hflag, Bool.not_false, Bool.true_and,
    Bool.or_eq_false_iff, List.isEmpty_eq_false_iff] at hneeds
  obtain ⟨⟨hsuper, hpackage⟩, htaken⟩ := hneeds
  obtain ⟨i, hi⟩ := List.exists_mem_of_ne_nil _ htaken
  obtain ⟨-, -, o, ho, -, htakes⟩ := FillEnv.mem_taken hi
  rw [FillEnv.occupant_start] at ho
  obtain ⟨p, hp⟩ := Option.isSome_iff_exists.mp (Option.isNone_eq_false_iff.mp hsuper)
  have hplinked := hready.definedFrom p (Store.mem_definedFrom_superclass hp)
  exact ⟨hpackage, p, i, o, hp, (Store.inheritedAt_eq_slot hp hplinked).symm.trans ho, htakes⟩

include T hrules hready in
/-- A default whose selector has a slot reserved for it needs the slot. -/
theorem needsSlot_of_reserved (hint : (l.store.getClass c).isInterface = false)
    (hm : m ∈ (l.store.getClass c).defaults) (hx : x ∈ l.store.reservedMirandas c)
    (hsel : l.store.selector x = l.store.selector m) :
    l.needsSlot c size (l.fillEnv.placement c m true) = true := by
  have w := T.wellFormed
  have hc := hready.hasClass
  obtain ⟨hdefault, hbound⟩ := (T.inheritsDefaults c hc).isDefault m hm
  have hnew := (Store.mem_newMirandas hx).2
  simp only [Store.isNewMiranda, Store.isMiranda, Bool.and_eq_true] at hnew
  obtain ⟨⟨-, hchain⟩, hfirst⟩ := hnew
  by_contra hneeds
  obtain ⟨-, p, i, o, hp, ho, htakes⟩ := exists_takes_of_not_needsSlot hready hbound
    (by simp [Store.isFinalMethod, FillEnv.placement, hdefault]) hint (Bool.eq_false_iff.mpr hneeds)
  have hpc := w.hasClass_superclass hc hp
  have hosel : l.store.selector o = l.store.selector x :=
    (FillEnv.takes_iff.mp htakes).1.trans hsel.symm
  -- Nothing above declares the selector, so the slot is one of an interface method.
  obtain ⟨a, ha, ⟨hoa, hinst⟩ | hmeets⟩ := T.exists_origin_of_slot p hpc i o ho
  · rw [hp, Option.all_some, Bool.not_eq_true', List.any_eq_false] at hchain
    exact hchain a ha (Store.declaresInstance_iff.mpr ⟨o, hoa, hosel, hinst⟩)
  · have hpmeets := hmeets.1.of_mem_lineage w hpc ha
    rw [hosel, ← hrules.regular.lookupInInterfaces?_isSome_iff w hpc] at hpmeets
    rw [hp, Option.all_some, Option.isNone_iff_eq_none] at hfirst
    rw [hfirst] at hpmeets
    cases hpmeets

include T hrules hready in
/-- **What is reserved for interface methods is needed.**  Each selector that a slot is reserved for
is the one of a default that needs a slot, or is pending. -/
theorem length_reserved_le (hint : (l.store.getClass c).isInterface = false) :
    (l.store.reservedMirandas c).length ≤
      (l.store.getClass c).defaults.countP
        (fun m => l.needsSlot c size (l.fillEnv.placement c m true)) +
      (l.store.pendingMirandas c).length := by
  let needing := (l.store.getClass c).defaults.filter fun m =>
    l.needsSlot c size (l.fillEnv.placement c m true)
  have hsub : (l.store.reservedMirandas c).map l.store.selector ⊆
      needing.map l.store.selector ++ (l.store.pendingMirandas c).map l.store.selector := by
    intro sel hsel
    obtain ⟨x, hx, rfl⟩ := List.mem_map.mp hsel
    rw [List.mem_append]
    by_cases hdefault : ∃ d ∈ (l.store.getClass c).defaults,
        l.store.selector d = l.store.selector x
    · obtain ⟨d, hd, hdsel⟩ := hdefault
      exact Or.inl (List.mem_map.mpr ⟨d, List.mem_filter.mpr ⟨hd,
        needsSlot_of_reserved T hrules hready hint hd hx hdsel.symm⟩, hdsel⟩)
    · obtain ⟨hmet, hnew⟩ := Store.mem_newMirandas hx
      have hds : (some (l.store.getClass c).defaults).all
          (fun ds => (l.store.findAmong? ds (l.store.selector x) .all).isNone) = true := by
        rw [Option.all_some, Store.findAmong?_isNone_iff]
        exact fun d hd hdsel => absurd ⟨d, hd, hdsel⟩ hdefault
      have hnew' : l.store.isNewMiranda (l.store.getClass c).superclass?
          (l.store.getClass c).methods (some (l.store.getClass c).defaults) x = true := by
        simp only [Store.isNewMiranda, Store.isMiranda, Bool.and_eq_true] at hnew ⊢
        obtain ⟨⟨⟨⟨hkind, hown⟩, -⟩, hchain⟩, hfirst⟩ := hnew
        exact ⟨⟨⟨⟨hkind, hown⟩, hds⟩, hchain⟩, hfirst⟩
      obtain ⟨m, hm, hmsel⟩ := Store.exists_newMiranda hmet hnew'
      have hpending : m ∈ l.store.pendingMirandas c := by
        unfold Store.pendingMirandas
        simp only [hint, Bool.false_eq_true, if_false]
        exact hm
      exact Or.inr (List.mem_map.mpr ⟨m, hpending, hmsel⟩)
  have hlength := (List.subperm_of_subset Store.nodup_newMirandas hsub).length_le
  rw [List.length_append, List.length_map, List.length_map, List.length_map,
    ← List.countP_eq_length_filter] at hlength
  exact hlength

include T hrules hready hsize in
/-- **The table is as long as what is filled exactly if the declared methods that are counted need
their slots.** -/
theorem length_eq_iff : size.inherited + (l.fillEnv.placements c).countP (l.needsSlot c size) +
      (l.store.pendingMirandas c).length = size.length ↔
    ∀ m ∈ l.store.declaredNewSlots l.config.transitiveOverrides c,
      l.needsSlot c size (l.fillEnv.placement c m false) = true := by
  rw [(Store.vtableSize_ok hsize).2]
  cases hint : (l.store.getClass c).isInterface with
  | true =>
    have hflag : (l.store.getClass c).flags.isInterface = true := hint
    have hnone : (l.fillEnv.placements c).countP (l.needsSlot c size) = 0 := by
      rw [List.countP_eq_zero]
      intro q _
      simp [needsSlot, FillEnv.needsSlot, fillEnv, hint]
    have hdeclared : l.store.declaredNewSlots l.config.transitiveOverrides c = [] := by
      simp [Store.declaredNewSlots, Store.needsNewSlot, hflag]
    simp [hnone, hdeclared, Store.pendingMirandas, hint]
  | false =>
    have hcount : (l.store.getClass c).methods.countP
        (fun m => l.needsSlot c size (l.fillEnv.placement c m false)) =
          (l.store.declaredNewSlots l.config.transitiveOverrides c).countP
            fun m => l.needsSlot c size (l.fillEnv.placement c m false) := by
      rw [Store.declaredNewSlots, List.countP_filter]
      refine List.countP_congr fun m hm => ?_
      rw [Bool.and_eq_true, iff_self_and]
      exact needsNewSlot_of_needsSlot T hrules hready hsize hm
    have hle := List.countP_le_length (l := l.store.declaredNewSlots l.config.transitiveOverrides c)
      (p := fun m => l.needsSlot c size (l.fillEnv.placement c m false))
    have hothers := countP_defaults_add_length_pending_le T hrules hready hsize
    have hothers' : (l.store.reservedMirandas c).length ≤
        (l.store.getClass c).defaults.countP
          (fun m => l.needsSlot c size (l.fillEnv.placement c m true)) +
        (l.store.pendingMirandas c).length :=
      length_reserved_le T hrules hready hint
    rw [← List.countP_eq_length, FillEnv.placements, List.countP_append, List.countP_map,
      List.countP_map]
    simp only [Bool.false_eq_true, if_false, Function.comp_def]
    change (l.store.getClass c).methods.countP _ = _ at hcount
    show size.inherited + ((l.store.getClass c).methods.countP _ +
      (l.store.getClass c).defaults.countP _) + _ = _ ↔ _
    omega

include T hrules hready hsize in
/-- A counted method needs its slot exactly if it is not counted too much. -/
theorem needsSlot_iff_not_overcounts (htransitive : l.config.transitiveOverrides = true) :
    (∀ m ∈ l.store.declaredNewSlots l.config.transitiveOverrides c,
      l.needsSlot c size (l.fillEnv.placement c m false) = true) ↔
    ∀ m ∈ (l.store.getClass c).methods, ¬ l.store.Overcounts c m := by
  have w := T.wellFormed
  have hc := hready.hasClass
  have hover := fun m hm => T.overcounts_iff (m := m) hrules hc
    (fun p hp => hready.definedFrom p (Store.mem_definedFrom_superclass hp)) hm
  have htakes : ∀ m ∈ (l.store.getClass c).methods, ∀ i o,
      l.fillEnv.takes (l.fillEnv.placement c m false) i o = l.store.takesOver true c m i o := by
    intro m hm i o
    rw [placement_eq w hc hm, ← htransitive]
    rfl
  rw [htransitive]
  constructor
  · intro hall m hm hm'
    obtain ⟨hcounted, hpackage, p, i, o, hp, ho, htake⟩ := (hover m hm).mp hm'
    have hneeds := hall m hcounted
    rw [needsSlot_eq_false_of_takes hready hsize hp ho ((htakes m hm i o).trans htake)
      hpackage] at hneeds
    cases hneeds
  · intro hall m hcounted
    obtain ⟨hm, hnew⟩ := List.mem_filter.mp hcounted
    by_contra hneeds
    obtain ⟨hint, hbound, hfinal⟩ := Store.dispatched_of_needsNewSlot hnew
    obtain ⟨hpackage, p, i, o, hp, ho, htake⟩ := exists_takes_of_not_needsSlot
      (q := l.fillEnv.placement c m false) hready hbound hfinal hint (Bool.eq_false_iff.mpr hneeds)
    exact hall m hm ((hover m hm).mpr
      ⟨hcounted, hpackage, p, i, o, hp, ho, (htakes m hm i o).symm.trans htake⟩)

end Count

/-! ## Every table -/

/-- The slots behind the inherited ones are all filled exactly if the class counts no method too
much. -/
theorem Origin.fillsOwn_iff (o : l.Origin s c) (T : Traced P root l.store)
    (hrules : l.store.AllConform) (htransitive : l.config.transitiveOverrides = true) :
    (∀ i, s.superLength c ≤ i → i < (s.getClass c).vtableLength → ∃ m, s.slot c i = some m) ↔
      ∀ m ∈ (s.getClass c).methods, ¬ s.Overcounts c m := by
  obtain ⟨size, layout, itable, f, hlaid⟩ := o.built
  have w := T.wellFormed
  have hready := o.ready
  have hc := hready.hasClass
  have hslot : ∀ i, s.slot c i = layout.table.methodAt i := fun i =>
    Store.slot_of_tables hlaid.tables
  have hlength : (s.getClass c).vtableLength = size.length :=
    (Store.vtableLength_of_tables hlaid.tables).trans hlaid.built.length_eq
  have hused := hlaid.built.placed.used_eq (Nat.le_refl _)
    (pairwise_apart_placements T hrules hready)
  have hstart : (l.fillEnv.start c size).used = size.inherited := rfl
  change f.used = _ + (l.fillEnv.placements c).countP (l.needsSlot c size) at hused
  rw [hstart] at hused
  have hfits := placements_fit T hrules hready hlaid.sized
  rw [← hused] at hfits
  have hfilled := hlaid.built.filled_iff (Store.vtableSize_ok hlaid.sized).1 hfits
  change _ ↔ f.used + (l.store.pendingMirandas c).length = size.length at hfilled
  rw [hused, length_eq_iff T hrules hready hlaid.sized,
    needsSlot_iff_not_overcounts T hrules hready hlaid.sized htransitive] at hfilled
  simp only [← o.inherited_eq hlaid.sized, hlength, hslot]
  rw [hfilled, o.grows.methods hc]
  refine forall₂_congr fun m hm => not_congr (o.grows.overcounts_iff w hc (fun p hp => ?_) hm).symm
  exact hready.definedFrom p (Store.mem_definedFrom_superclass hp)

/-- A table is filled exactly if the superclass's is and the slots behind it are. -/
theorem Traced.filled_iff (T : Traced P root s) (hc : s.Linked c)
    (hp : (s.getClass c).superclass? = some p) :
    (∀ i < (s.getClass c).vtableLength, ∃ m, s.slot c i = some m) ↔
      (∀ i, s.superLength c ≤ i → i < (s.getClass c).vtableLength → ∃ m, s.slot c i = some m) ∧
        ∀ i < (s.getClass p).vtableLength, ∃ m, s.slot p i = some m := by
  have w := T.wellFormed
  have hpc : p ∈ s.lineage c := w.lineage_of_superclass hc.hasClass hp ▸
    List.mem_cons_of_mem _ (Store.WellFormed.mem_lineage_self s p)
  have hle := T.superLength_le hc
  have hsame : ∀ i < (s.getClass p).vtableLength,
      (∃ m, s.slot c i = some m) ↔ ∃ m, s.slot p i = some m := fun i hi => by
    rw [← Option.isSome_iff_exists, ← Option.isSome_iff_exists,
      ← Option.isSome_map (f := s.selector), T.selector_slot c hc.hasClass hc p hpc i hi,
      Option.isSome_map]
  rw [Store.superLength_of_superclass hp] at hle ⊢
  constructor
  · intro hall
    exact ⟨fun i _ hi => hall i hi,
      fun i hi => (hsame i hi).mp (hall i (Nat.lt_of_lt_of_le hi hle))⟩
  · rintro ⟨hown, habove⟩ i hi
    by_cases hlt : i < (s.getClass p).vtableLength
    · exact (hsame i hlt).mpr (habove i hlt)
    · exact hown i (Nat.le_of_not_lt hlt) hi

/-- **When all slots of a table are filled.**  In every state that defining and linking lead to
under transitive overriding, let the classes be as the class-file format guarantees.  Then all slots
of a linked class are filled exactly if neither the class nor a superclass counts a method too much.
The induction is along the superclass chain. -/
theorem filled_iff_not_overcounts
    (hr : Reachable (Builds fun config => config.transitiveOverrides = true) l)
    (hrules : l.store.AllConform) : ∀ c, l.store.Linked c →
      ((∀ i < (l.store.getClass c).vtableLength, ∃ m, l.store.slot c i = some m) ↔
        ∀ a ∈ l.store.lineage c, ∀ m ∈ (l.store.getClass a).methods,
          ¬ l.store.Overcounts a m) := by
  have T := hr.constructed.traced
  have w := T.wellFormed
  have hown : ∀ c, l.store.Linked c → ((∀ i, l.store.superLength c ≤ i →
      i < (l.store.getClass c).vtableLength → ∃ m, l.store.slot c i = some m) ↔
        ∀ m ∈ (l.store.getClass c).methods, ¬ l.store.Overcounts c m) := fun c hc => by
    obtain ⟨l₀, root, htransitive, o, T₀⟩ := hr.builtTraced c hc
    exact o.fillsOwn_iff T₀ (hrules.of_grows T₀.wellFormed o.grows) htransitive
  intro c hc
  have hmain : ∀ c, l.store.HasClass c → l.store.Linked c →
      ((∀ i < (l.store.getClass c).vtableLength, ∃ m, l.store.slot c i = some m) ↔
        ∀ a ∈ l.store.lineage c, ∀ m ∈ (l.store.getClass a).methods,
          ¬ l.store.Overcounts a m) := by
    refine w.superclass_induction fun c hc ih hlinked => ?_
    cases hp : (l.store.getClass c).superclass? with
    | none =>
      have hzero : l.store.superLength c = 0 := by
        rw [Store.superLength, hp]
        rfl
      rw [Store.lineage, Store.WellFormed.ancestors_of_top hp, List.forall_mem_singleton,
        ← hown c hlinked, hzero]
      exact ⟨fun h i _ hi => h i hi, fun h i hi => h i (Nat.zero_le i) hi⟩
    | some p =>
      have hplinked := T.linkedUp c hlinked p (Store.mem_definedFrom_superclass hp)
      rw [T.filled_iff hlinked hp, hown c hlinked, ih p hp hplinked,
        w.lineage_of_superclass hc hp, List.forall_mem_cons]
  exact hmain c hc.hasClass hc

/-- A class has a placeholder for an interface method, its subclass declares nothing, and a class
below that declares the method. -/
def placeholderRun : List Command :=
  [.define { name := "Object" },
   .define { name := "I", flags := .makeInterface {},
             methods := [(publicMethod "m" []).makeAbstract] },
   .define { name := "Z", superclass := some ⟨0⟩, interfaces := [⟨1⟩] },
   .define { name := "Y", superclass := some ⟨2⟩ },
   .define { name := "X", superclass := some ⟨3⟩, methods := [publicMethod "m" [1]] },
   .link ⟨4⟩]

/-- The method takes the placeholder's slot over, is counted all the same, and a slot stays
empty. -/
theorem placeholderRun_leaves_slot :
    let s := (finish { config := .minimal } placeholderRun).store
    (s.getClass ⟨4⟩).vtableLength = 2 ∧ s.slot ⟨4⟩ 0 = some ⟨1⟩ ∧
      ¬ ∀ i < (s.getClass ⟨4⟩).vtableLength, ∃ m, s.slot ⟨4⟩ i = some m := by
  intro s
  have hstart : Reachable (Builds fun config => config.transitiveOverrides = true)
    { config := .minimal } := .start ⟨rfl, rfl⟩ rfl
  have hrun : Reachable (Builds fun config => config.transitiveOverrides = true)
      (finish { config := .minimal } placeholderRun) := hstart.finish (by decide +kernel)
  have hfilled := filled_iff_not_overcounts hrun (by decide +kernel) ⟨4⟩ (by decide +kernel)
  refine ⟨by decide +kernel, by decide +kernel, fun hall => ?_⟩
  exact hfilled.mp hall ⟨4⟩ (by decide +kernel) ⟨1⟩ (by decide +kernel) (by decide +kernel)

end Linker
end ClassLinking
