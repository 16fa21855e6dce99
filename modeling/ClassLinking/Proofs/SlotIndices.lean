import ClassLinking.Proofs.AddedOverrides

/-!
# Dispatch indices point back at their methods

A declared method has one dispatch index, which a call site remembers instead of the method.  So the
index has to lead back: either the method is not called through a slot, or it names a slot of the
class's own table, and in this slot stands the method itself (`Store.PointsBack`).

A method may take over several inherited slots and get one of its own besides.  It keeps the index
of the last one that it came to, and no method after it takes this slot away, since nothing else of
its selector is placed (`Installs.pointsBack`).  A redefinition gives a new body the index of the
method whose place it takes, and puts it into the slots of that method; what it adds is not called
through a slot (`Redefined.pointsBack`).  So in all states of a run the indices of registered
classes point back, and as long as a class declares a selector, the index stays the same from the
time the class was linked (`indices_point_back`).
-/

namespace ClassLinking

open FillEnv Linker

/-! ## The indices of one table -/

namespace FillEnv

variable {env : FillEnv} {c : ClassId} {p : Placement} {inherited : Nat} {f : Fill} {m : MethodId}

/-- A method that is bound statically comes to no slot. -/
theorem lastSlot?_of_isBound (h : env.isBound p = true) :
    env.lastSlot? c p inherited f = none := by
  unfold isBound at h
  simp [lastSlot?, needsSlot, taken, h]

/-- A declared method is placed once, and defaults get no index. -/
theorem exists_split_declared (hnodup : (env.store.getClass c).methods.Nodup)
    (hm : m ∈ (env.store.getClass c).methods) :
    ∃ before after, env.placements c = before ++ env.placement c m false :: after ∧
      ∀ q ∈ after, q.isDefault = true ∨ q.method ≠ m := by
  obtain ⟨before, after, hsplit⟩ := List.append_of_mem hm
  rw [hsplit, List.nodup_middle, List.nodup_cons] at hnodup
  refine ⟨before.map (env.placement c · false), after.map (env.placement c · false) ++
    (env.store.getClass c).defaults.map (env.placement c · true), ?_, fun q hq => ?_⟩
  · rw [placements, hsplit, List.map_append, List.map_cons, List.append_assoc, List.cons_append]
  · rcases List.mem_append.mp hq with hq | hq
    · obtain ⟨x, hx, rfl⟩ := List.mem_map.mp hq
      refine Or.inr fun heq : x = m => hnodup.1 (List.mem_append_right _ (heq ▸ hx))
    · obtain ⟨d, -, rfl⟩ := List.mem_map.mp hq
      exact Or.inl rfl

end FillEnv

/-- A declared method that is bound statically is marked as not virtual, and stays so. -/
theorem VTableLayout.Built.lastIndex?_of_isBound {env : FillEnv} {c : ClassId} {size : VTableSize}
    {layout : VTableLayout} {s : Store} {f : Fill} {m : MethodId}
    (h : layout.Built env c size s f) (hnodup : (env.store.getClass c).methods.Nodup)
    (hm : m ∈ (env.store.getClass c).methods)
    (hbound : (env.store.getMethod m).isBoundStatically = true) :
    f.lastIndex? m = some .nonVirtual := by
  obtain ⟨before, after, hsplit, hafter⟩ := env.exists_split_declared hnodup hm
  have hplaced := h.placed
  rw [hsplit] at hplaced
  obtain ⟨f₁, f₂, -, hp, h₂⟩ := hplaced.split_at
  have hinitial : env.initialIndex c m = .nonVirtual := by simp [initialIndex, hbound]
  calc f.lastIndex? m = f₂.lastIndex? m := h₂.lastIndex?_eq hafter
    _ = (env.indexGiven c (env.placement c m false) size.inherited f₁).or (f₁.lastIndex? m) :=
        hp.gives.lastIndex?_self
    _ = some .nonVirtual := by
        have hslot : env.lastSlot? c (env.placement c m false) size.inherited f₁ = none :=
          lastSlot?_of_isBound hbound
        rw [indexGiven, if_neg (by simp [placement]), hslot, Option.some_or]
        exact congrArg some hinitial

namespace Store

variable {s t : Store} {root : Option ClassId} {c : ClassId} {m m' : MethodId} {i : Nat}

/-- The dispatch index of every method that `c` declares leads back to the method: it is not called
through a slot, or it stands in the slot of `c` that the index names. -/
structure PointsBack (s : Store) (c : ClassId) : Prop where
  placed : ∀ m ∈ (s.getClass c).methods, (s.getMethod m).dispatch = .nonVirtual ∨
    ∃ i, (s.getMethod m).dispatch = .virtual i ∧ s.slot c i = some m
  bound : ∀ m ∈ (s.getClass c).methods, (s.getMethod m).isBoundStatically = true →
    (s.getMethod m).dispatch = .nonVirtual

/-- A method stands in the slot that its index names. -/
theorem PointsBack.slot (h : s.PointsBack c) (hm : m ∈ (s.getClass c).methods)
    (hi : (s.getMethod m).dispatch = .virtual i) : s.slot c i = some m := by
  rcases h.placed m hm with hnone | ⟨j, hj, hslot⟩
  · rw [hi] at hnone
    cases hnone
  · rw [hi] at hj
    cases hj
    exact hslot

/-- Two methods do not share an index. -/
theorem PointsBack.eq_of_dispatch (h : s.PointsBack c) (hm : m ∈ (s.getClass c).methods)
    (hm' : m' ∈ (s.getClass c).methods) (hi : (s.getMethod m).dispatch = .virtual i)
    (hi' : (s.getMethod m').dispatch = .virtual i) : m = m' :=
  Option.some.inj ((h.slot hm hi).symm.trans (h.slot hm' hi'))

/-- Indices that point back do so as long as nothing is redefined. -/
theorem PointsBack.grows (h : s.PointsBack c) (w : s.WellFormed root) (hg : s.Grows t)
    (hc : s.Linked c) : t.PointsBack c := by
  have hmethods := hg.methods hc.hasClass
  refine ⟨fun m hm => ?_, fun m hm hbound => ?_⟩
  · rw [hmethods] at hm
    rw [hc.dispatch_grows hg w hm]
    exact (h.placed m hm).imp_right fun ⟨i, hi, hslot⟩ => ⟨i, hi, (hc.slot_grows hg).trans hslot⟩
  · rw [hmethods] at hm
    rw [hg.extends.isBoundStatically ((w.fits c hc.hasClass).methods m hm).1] at hbound
    rw [hc.dispatch_grows hg w hm]
    exact h.bound m hm hbound

end Store

namespace Linker

open Store

variable {l t : Linker} {root : Option ClassId} {c holder : ClassId} {ds : List Declaration}
  {r : RevisedClass} {x : Command} {xs : List Command}

/-- **Building the tables of a class** gives the methods that it declares indices that point
back. -/
theorem Installs.pointsBack (h : l.Installs t c) (w : l.store.WellFormed root)
    (hready : Ready l.store c) (hdistinct : l.store.Distinct) (hapart : l.store.DefaultsApart c)
    (hint : (l.store.getClass c).isInterface = false) : t.store.PointsBack c := by
  obtain ⟨size, layout, itable, f, hlaid⟩ := h.tables
  have hmethods := h.grows.methods hready.hasClass
  have hindex := hlaid.indexes hint
  have hnodup : (l.store.getClass c).methods.Nodup := (hdistinct c).of_map _
  have hbound : ∀ m ∈ (l.store.getClass c).methods,
      (t.store.getMethod m).isBoundStatically = (l.store.getMethod m).isBoundStatically :=
    fun m hm => h.grows.extends.isBoundStatically ((w.fits c hready.hasClass).methods m hm).1
  have hstatic : ∀ m ∈ (l.store.getClass c).methods, (l.store.getMethod m).isBoundStatically →
      (t.store.getMethod m).dispatch = .nonVirtual := fun m hm hb =>
    Option.some.inj ((hindex m hm).symm.trans (hlaid.built.lastIndex?_of_isBound hnodup hm hb))
  refine ⟨fun m hm => ?_, fun m hm hb => ?_⟩
  · rw [hmethods] at hm
    cases hb : (l.store.getMethod m).isBoundStatically with
    | true => exact Or.inl (hstatic m hm hb)
    | false =>
      obtain ⟨before, after, hsplit, hothers⟩ := @FillEnv.exists_split_placements l.fillEnv c m
        (hdistinct c) (fun d hd => hapart d hd m hm hb) hm
      exact (hlaid.dispatch_declared hint hm hb hsplit hothers).symm.imp_left And.left
  · rw [hmethods] at hm
    rw [hbound m hm] at hb
    exact hstatic m hm hb

/-- Linking keeps that indices point back. -/
theorem linkRule_pointsBack (root : Option ClassId) (config : Config) (cs : List ClassId) :
    LinkRule root config
      (fun s => s.PlacesApart ∧ ∀ c ∈ cs, s.Linked c → (s.getClass c).isInterface = false →
        s.PointsBack c) (fun _ => True) where
  prepares := fun s t c w ⟨h, hback⟩ hready hp => by
    have hg := hp.grows w (tables_of_not_linked hready.unlinked)
    refine ⟨h.prepares w hready hp, fun d hd hlinked hint => ?_⟩
    rw [hp.linked_iff] at hlinked
    rw [hp.getClass] at hint
    exact (hback d hd hlinked hint).grows w hg hlinked
  installs := fun l t c _ w hup ⟨h, hback⟩ hready hi _ => by
    refine ⟨h.installs w hup hready hi, fun d hd hlinked hint => ?_⟩
    by_cases hdc : d = c
    · subst hdc
      rw [hi.grows.extends.isInterface hready.hasClass] at hint
      exact hi.pointsBack w hready h.distinct (h.unlinked d hready.hasClass hready.unlinked) hint
    · rw [Linked, hi.others d hdc] at hlinked
      rw [hi.others d hdc] at hint
      exact (hback d hd hlinked hint).grows w hi.grows hlinked
  fails := fun _ _ _ _ _ _ _ _ _ => trivial
  tooDeep := fun _ => trivial

/-! ## Redefining -/

section Redefined

variable (h : Redefined l t r) (hp : l.Prepared holder ds r) (hl : l.Sound)
  (hholder : l.store.HasClass r.holder)
include h hp hl hholder

/-- **A redefined body has the index of the body that it replaced.** -/
theorem Redefined.dispatch_of_selector (hdistinct : l.store.Distinct) {m n : MethodId}
    (hm : m ∈ (l.store.getClass r.holder).methods) (hn : n ∈ (t.store.getClass r.holder).methods)
    (hsel : t.store.selector n = l.store.selector m) :
    (t.store.getMethod n).dispatch = (l.store.getMethod m).dispatch := by
  obtain ⟨x, hx, hprevious⟩ := h.exists_previous_of_selector (hdistinct r.holder) hm hn hsel
  exact (h.succeeds hp hl.wellFormed hholder hx hprevious).dispatch

variable (hordinals : l.store.DistinctOrdinals)
include hordinals

/-- The indices of a registered class still point back when it is redefined. -/
theorem Redefined.pointsBack (hdistinct : t.store.Distinct) (hreg : r.holder ∈ l.registry.all)
    (hback : l.store.PointsBack r.holder) : t.store.PointsBack r.holder := by
  have hmethods : (t.store.getClass r.holder).methods = r.declared := by rw [h.methods, if_pos rfl]
  refine ⟨fun n hn => ?_, fun n hn hbound => ?_⟩
  · have hn' := hn
    rw [hmethods] at hn
    obtain ⟨⟨_, x⟩, hx, rfl⟩ := List.mem_map.mp hn
    cases hprevious : x.previous with
    | none =>
      rw [h.getMethod_of_mem hx]
      exact Or.inl ((hp.accepted.methods _ hx).added hprevious).1
    | some m =>
      have hm := (RevisedClass.mem_of_previous h.matched hx hprevious).1
      have hsucceeds := h.succeeds hp hl.wellFormed hholder hx hprevious
      rw [hsucceeds.dispatch]
      exact (hback.placed m hm).imp_right fun ⟨i, hi, hslot⟩ => ⟨i, hi,
        h.slot_of_previous hp hl hordinals hholder hdistinct hreg hm hn' hsucceeds.selector hslot⟩
  · rw [hmethods] at hn
    obtain ⟨⟨_, x⟩, hx, rfl⟩ := List.mem_map.mp hn
    cases hprevious : x.previous with
    | none =>
      rw [h.getMethod_of_mem hx]
      exact ((hp.accepted.methods _ hx).added hprevious).1
    | some m =>
      have hm := (RevisedClass.mem_of_previous h.matched hx hprevious).1
      have hsucceeds := h.succeeds hp hl.wellFormed hholder hx hprevious
      rw [hsucceeds.isBoundStatically] at hbound
      rw [hsucceeds.dispatch]
      exact hback.bound m hm hbound

/-- The indices of a class still point back when another class is redefined. -/
theorem Redefined.pointsBack_of_ne (hc : l.store.HasClass c) (hne : c ≠ r.holder)
    (hback : l.store.PointsBack c) : t.store.PointsBack c := by
  have hmethods : (t.store.getClass c).methods = (l.store.getClass c).methods := by
    rw [h.methods, if_neg hne]
  have hself : ∀ m ∈ (l.store.getClass c).methods, l.StandsFor t m m := fun m hm =>
    h.standsFor_self ((hl.wellFormed.fits c hc).methods m hm).1
  refine ⟨fun m hm => ?_, fun m hm hbound => ?_⟩
  · rw [hmethods] at hm
    rw [(hself m hm).dispatch]
    exact (hback.placed m hm).imp_right fun ⟨i, hi, hslot⟩ =>
      ⟨i, hi, h.slot_of_ne hp hl hordinals hholder hc hne hm hslot⟩
  · rw [hmethods] at hm
    rw [(hself m hm).isBoundStatically] at hbound
    rw [(hself m hm).dispatch]
    exact hback.bound m hm hbound

end Redefined

/-! ## Runs -/

/-- The indices of all registered classes point back. -/
def PointsBack (l : Linker) : Prop :=
  ∀ c ∈ l.registry.all, l.store.Linked c → (l.store.getClass c).isInterface = false →
    l.store.PointsBack c

/-- **Every command keeps that indices point back.** -/
theorem Places.pointsBack_after (hI : Places l) (hback : l.PointsBack) (hx : x.Admissible l.store)
    (honce : x.DeclaresOnce) : (x.after l).PointsBack := by
  have w := hI.sound.wellFormed
  have hdistinct := (hI.after hx honce).apart.distinct
  have hsteps := hI.sound.steps hx (linkRule_pointsBack _ _ l.registry.all) ⟨hI.apart, hback⟩
  generalize x.after l = t at hdistinct hsteps ⊢
  cases hsteps with
  | defines hd _ =>
    intro c hreg hc hint
    obtain ⟨-, hlinked, hsame⟩ := hd.of_linked hc
    rw [hsame] at hint
    exact (hback c (hd.mem_of_linked hreg hlinked) hlinked hint).grows w hd.grows hlinked
  | links _ hr =>
    have hall : t.registry.all = l.registry.all := by rw [hr.continues.registry]; rfl
    rw [PointsBack, hall]
    exact hr.holds.2
  | @redefines _ _ _ r hp hholder hr =>
    have hall : t.registry.all = l.registry.all := all_eq_of_classes hr.classes.1
    intro c hreg hc hint
    rw [hall] at hreg
    rw [hr.linked_iff] at hc
    rw [hr.extends_.isInterface hc.hasClass] at hint
    have hbefore := hback c hreg hc hint
    by_cases hch : c = r.holder
    · subst hch
      exact hr.pointsBack hp hI.sound hholder hI.ordinals hdistinct hreg hbefore
    · exact hr.pointsBack_of_ne hp hI.sound hholder hI.ordinals hc.hasClass hch hbefore
  | keeps _ hstore hall =>
    rw [PointsBack, hall, hstore]
    exact hback

/-- **A selector keeps its index**, as long as the linked class declares it. -/
theorem Places.dispatch_of_selector (hI : Places l) (hx : x.Admissible l.store)
    (honce : x.DeclaresOnce) (hc : l.store.Linked c) {m n : MethodId}
    (hm : m ∈ (l.store.getClass c).methods) (hn : n ∈ ((x.after l).store.getClass c).methods)
    (hsel : (x.after l).store.selector n = l.store.selector m) :
    ((x.after l).store.getMethod n).dispatch = (l.store.getMethod m).dispatch := by
  have w := hI.sound.wellFormed
  have hmhas := ((w.fits c hc.hasClass).methods m hm).1
  have hdistinct := (hI.after hx honce).apart.distinct
  have hsteps := hI.sound.steps_true hx
  generalize x.after l = t at hdistinct hsteps hn hsel ⊢
  have hgrows : l.store.Grows t.store →
      (t.store.getMethod n).dispatch = (l.store.getMethod m).dispatch := fun hg => by
    have hmt : m ∈ (t.store.getClass c).methods := by rwa [hg.methods hc.hasClass]
    rw [hdistinct.eq hn hmt (hsel.trans (hg.extends.selector hmhas).symm),
      hc.dispatch_grows hg w hm]
  cases hsteps with
  | defines hd _ => exact hgrows hd.grows
  | links _ hr => exact hgrows hr.grows
  | @redefines _ _ _ r hp hholder hr =>
    by_cases hch : c = r.holder
    · subst hch
      exact hr.dispatch_of_selector hp hI.sound hholder hI.apart.distinct hm hn hsel
    · have hself := hr.standsFor_self hmhas
      have hmt : m ∈ (t.store.getClass c).methods := by rwa [hr.methods, if_neg hch]
      rw [hdistinct.eq hn hmt (hsel.trans hself.selector.symm), hself.dispatch]
  | keeps _ hstore _ => exact hgrows (hstore ▸ .refl _)

/-- What is known of the indices in every state of a run. -/
structure Indexed (l : Linker) : Prop where
  places : Places l
  pointsBack : l.PointsBack
  complete : l.registry.nextClassRow ≤ Token.rows → l.Complete

theorem Indexed.after (h : Indexed l) (hx : x.Admissible l.store) (honce : x.DeclaresOnce) :
    Indexed (x.after l) where
  places := h.places.after hx honce
  pointsBack := h.places.pointsBack_after h.pointsBack hx honce
  complete := fun hrows =>
    have hcounts := h.places.sound.counts hx
    hcounts.complete hrows (h.complete (Nat.le_trans hcounts.rows_le hrows))

/-- **Dispatch indices point back at their methods.**  In all states of a run every method that a
registered class declares is not called through a slot, as it is if it is bound statically, or it
stands in the slot of the class that its index names, which no other method has for its index.
Whatever is done next, a linked class keeps the index of a selector that it goes on declaring.
Every class is registered until the tokens run out. -/
theorem indices_point_back (h : l.IsEmpty) (hxs : Admits Command.DeclaresOnce l xs) :
    ∀ t ∈ l.states xs,
      (∀ c ∈ t.registry.all, t.store.Linked c → (t.store.getClass c).isInterface = false →
        t.store.PointsBack c ∧
        ∀ m ∈ (t.store.getClass c).methods, ∀ m' ∈ (t.store.getClass c).methods, ∀ i,
          (t.store.getMethod m).dispatch = .virtual i →
          (t.store.getMethod m').dispatch = .virtual i → m = m') ∧
      (∀ x : Command, x.Admissible t.store → x.DeclaresOnce → ∀ c, t.store.Linked c →
        ∀ m ∈ (t.store.getClass c).methods, ∀ n ∈ ((x.after t).store.getClass c).methods,
          (x.after t).store.selector n = t.store.selector m →
          ((x.after t).store.getMethod n).dispatch = (t.store.getMethod m).dispatch) ∧
      (t.registry.nextClassRow ≤ Token.rows →
        ∀ c, t.store.HasClass c → c ∈ t.registry.all) := by
  have hstart : Indexed l :=
    ⟨h.places, fun c _ hc => absurd hc (h.not_linked c), fun _ => h.complete⟩
  intro t ht
  have hI := forall_states (fun _ _ hI honce hx => hI.after hx honce) hstart hxs t ht
  refine ⟨fun c hreg hc hint => ?_, fun x hx honce c hc m hm n hn hsel => ?_, fun hrows => ?_⟩
  · have hback := hI.pointsBack c hreg hc hint
    exact ⟨hback, fun m hm m' hm' i hi hi' => hback.eq_of_dispatch hm hm' hi hi'⟩
  · exact hI.places.dispatch_of_selector hx honce hc hm hn hsel
  · exact (hI.complete hrows).registered

/-- A class overrides one method and adds another one, which is called without a slot; both get new
bodies. -/
def rebodiedRun : List Command :=
  [.define { name := "Object" },
   .define { name := "A", superclass := some ⟨0⟩, methods := [publicMethod "m" [1]] },
   .define { name := "B", superclass := some ⟨1⟩,
             methods := [publicMethod "m" [2], (publicMethod "f" [3]).makeFinal] },
   .link ⟨2⟩,
   .redefine ⟨2⟩ [(publicMethod "f" [4]).makeFinal, publicMethod "m" [5]]]

/-- The new body of the overriding method stands in the inherited slot and has its index. -/
theorem rebodiedRun_points_back :
    ((finish { config := .minimal } rebodiedRun).store.PointsBack ⟨2⟩ ∧
      ((finish { config := .minimal } rebodiedRun).store.getClass ⟨2⟩).methods = [⟨3⟩, ⟨4⟩]) ∧
    ((finish { config := .minimal } rebodiedRun).store.getMethod ⟨3⟩).dispatch = .nonVirtual ∧
    ((finish { config := .minimal } rebodiedRun).store.getMethod ⟨4⟩).dispatch = .virtual 0 :=
  ⟨⟨((indices_point_back ⟨rfl, rfl⟩ (by decide +kernel) _ (finish_mem_states _ _)).1 ⟨2⟩
      (by decide +kernel) (by decide +kernel) (by decide +kernel)).1, by decide +kernel⟩,
    by decide +kernel, by decide +kernel⟩

end Linker
end ClassLinking
