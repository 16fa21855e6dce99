import ClassLinking.Proofs.Steps
import ClassLinking.Proofs.Takeover
import ClassLinking.Proofs.Verification

/-!
# Overrides that a redefinition adds

A method that a class declares takes over every inherited slot whose method it overrides
(`Store.TakesOverrides`).  Linking sees to it: the method is placed over all of these slots, and
nothing that is placed besides it has its selector.  A redefinition puts the successor of a method
where the method was, so it keeps what was taken over.

But a redefinition also adds methods, and no table is built again.  It refuses an added method that
would need a slot of its own, and a final method never needs one.  A final method takes over
inherited slots all the same when tables are built; added by a redefinition it goes through and the
slots stay with the superclass's method.  This is the only way in which an
override is missed: in all states of a run every registered class has taken over what it overrides
exactly if no redefinition of the run goes through that adds an override (`takes_overrides_iff`).
-/

namespace ClassLinking

/-- A method of this declaration is bound statically. -/
def Declaration.isBoundStatically (d : Declaration) : Bool :=
  (Modifiers.ofWord d.word).isStatic || (Access.ofWord d.word).isPrivate || d.selector.isInitializer

theorem Declaration.Describes.isBoundStatically {d : Declaration} {x : Method}
    (h : d.Describes x) : x.isBoundStatically = d.isBoundStatically := by
  rw [Method.isBoundStatically, Declaration.isBoundStatically, h.selector, h.access, h.modifiers]

namespace Store

variable {s t : Store} {root : Option ClassId} {c : ClassId} {sel : Selector} {i : Nat}

/-! ## Taking over what is overridden -/

/-- The superclass of `c` has a method in slot `i` that a declaration of `sel` in `c` overrides. -/
def IsOverridableAt (s : Store) (c : ClassId) (sel : Selector) (i : Nat) : Prop :=
  ∃ p ∈ (s.getClass c).superclass?, ∃ o ∈ s.slot p i,
    s.selector o = sel ∧ s.isOverridable o (s.getClass c).loader (s.getClass c).name = true

instance (s : Store) (c : ClassId) (sel : Selector) (i : Nat) :
    Decidable (s.IsOverridableAt c sel i) :=
  inferInstanceAs (Decidable (∃ p ∈ (s.getClass c).superclass?, ∃ o ∈ s.slot p i, _ ∧ _))

/-- Every method that the class `c` declares, if it is dispatched dynamically, is in each slot that
the superclass has for a method that it overrides. -/
def TakesOverrides (s : Store) (c : ClassId) : Prop :=
  (s.getClass c).isInterface = false → ∀ m ∈ (s.getClass c).methods,
    (s.getMethod m).isBoundStatically = false →
      ∀ i, s.IsOverridableAt c (s.selector m) i → s.slot c i = some m

/-- No default of `c` has the selector of a method that `c` declares, unless the method is bound
statically. -/
def DefaultsApart (s : Store) (c : ClassId) : Prop :=
  ∀ d ∈ (s.getClass c).defaults, ∀ m ∈ (s.getClass c).methods,
    (s.getMethod m).isBoundStatically = false → s.selector m ≠ s.selector d

/-- Defaults are selected apart from what the class declares. -/
theorem Selected.defaultsApart (h : s.Selected c) : s.DefaultsApart c :=
  fun _ hd _ hm hbound => h.selector_ne hd hm (isInstance_of_bound hbound)

theorem DefaultsApart.of_extends (h : s.DefaultsApart c) (w : s.WellFormed root) (hc : s.HasClass c)
    (hext : s.Extends t) (hmethods : (t.getClass c).methods = (s.getClass c).methods)
    (hdefaults : (t.getClass c).defaults = (s.getClass c).defaults) : t.DefaultsApart c := by
  intro d hd m hm hbound
  rw [hdefaults] at hd
  rw [hmethods] at hm
  have hdhas := ((w.fits c hc).defaults d hd).1
  have hmhas := ((w.fits c hc).methods m hm).1
  rw [hext.isBoundStatically hmhas] at hbound
  rw [hext.selector hmhas, hext.selector hdhas]
  exact h d hd m hm hbound

/-- Classes that are not linked yet have their defaults apart from what they declare. -/
def UnlinkedApart (s : Store) : Prop := ∀ c, s.HasClass c → ¬ s.Linked c → s.DefaultsApart c

/-- Defaults stay apart in the classes that are unlinked still and keep what they have. -/
theorem UnlinkedApart.of_extends (h : s.UnlinkedApart) (w : s.WellFormed root) (hext : s.Extends t)
    (hsize : t.classes.size = s.classes.size)
    (hkeep : ∀ c, s.HasClass c → ¬ t.Linked c → ¬ s.Linked c ∧
      (t.getClass c).methods = (s.getClass c).methods ∧
        (t.getClass c).defaults = (s.getClass c).defaults) : t.UnlinkedApart :=
  fun c hc hunlinked => by
    rw [HasClass, hsize] at hc
    obtain ⟨hbefore, hmethods, hdefaults⟩ := hkeep c hc hunlinked
    exact (h c hc hbefore).of_extends w hc hext hmethods hdefaults

/-- Linking leaves fewer classes unlinked, and those as they were. -/
theorem UnlinkedApart.grows (h : s.UnlinkedApart) (w : s.WellFormed root) (hg : s.Grows t)
    (hsize : t.classes.size = s.classes.size) : t.UnlinkedApart :=
  h.of_extends w hg.extends hsize fun _ hc hunlinked =>
    ⟨fun hlinked => hunlinked (hlinked.grows hg), hg.methods hc, hg.defaults hc⟩

/-- What a class overrides stays as long as the slots of its superclass do. -/
theorem isOverridableAt_of_extends (w : s.WellFormed root) (hhoused : s.Housed) (hext : s.Extends t)
    (hc : s.HasClass c) (hslot : ∀ p ∈ (s.getClass c).superclass?, t.slot p i = s.slot p i) :
    t.IsOverridableAt c sel i ↔ s.IsOverridableAt c sel i := by
  unfold IsOverridableAt
  rw [hext.superclass? hc, hext.loader hc, hext.name hc]
  refine exists_congr fun p => and_congr_right fun hp => ?_
  rw [hslot p hp]
  refine exists_congr fun o => and_congr_right fun ho => ?_
  rw [hext.selector (hhoused p i o ho), hext.isOverridable w (hhoused p i o ho)]

theorem TakesOverrides.of_extends (h : s.TakesOverrides c) (w : s.WellFormed root)
    (hhoused : s.Housed) (hext : s.Extends t) (hc : s.HasClass c)
    (hmethods : (t.getClass c).methods = (s.getClass c).methods)
    (hslot : ∀ i, t.slot c i = s.slot c i)
    (hsuper : ∀ p ∈ (s.getClass c).superclass?, ∀ i, t.slot p i = s.slot p i) :
    t.TakesOverrides c := by
  intro hint m hm hbound i hover
  rw [hext.isInterface hc] at hint
  rw [hmethods] at hm
  have hhas := ((w.fits c hc).methods m hm).1
  rw [hext.isBoundStatically hhas] at hbound
  rw [hext.selector hhas,
    isOverridableAt_of_extends w hhoused hext hc fun p hp => hsuper p hp i] at hover
  rw [hslot]
  exact h hint m hm hbound i hover

/-- Tables that were built before keep what they have taken over. -/
theorem TakesOverrides.grows (h : s.TakesOverrides c) (w : s.WellFormed root) (hup : s.LinkedUp)
    (hhoused : s.Housed) (hg : s.Grows t) (hc : s.Linked c) : t.TakesOverrides c :=
  h.of_extends w hhoused hg.extends hc.hasClass (hg.methods hc.hasClass) (fun _ => hc.slot_grows hg)
    fun p hp _ => (hup c hc p (mem_definedFrom_superclass hp)).slot_grows hg

end Store

namespace Linker

open Store

variable {l t : Linker} {c : ClassId}

/-! ## Linking -/

/-- **Building the tables of a class** places what it declares over all that it overrides. -/
theorem Installs.takesOverrides (h : l.Installs t c) (w : l.store.WellFormed root)
    (hhoused : l.store.Housed) (hready : Ready l.store c) (hdistinct : l.store.Distinct)
    (hapart : l.store.DefaultsApart c) : t.store.TakesOverrides c := by
  obtain ⟨size, layout, itable, f, hlaid⟩ := h.tables
  have hc := hready.hasClass
  have hext := h.grows.extends
  intro _ m hm hbound i ⟨p, hp, o, ho, hsel, hover⟩
  rw [h.grows.methods hc] at hm
  rw [hext.superclass? hc] at hp
  rw [hext.loader hc, hext.name hc] at hover
  have hplinked := hready.definedFrom p (mem_definedFrom_superclass hp)
  have hmhas := ((w.fits c hc).methods m hm).1
  have ho' : l.store.slot p i = some o := (hplinked.slot_grows h.grows).symm.trans ho
  have hohas := hhoused p i o ho'
  rw [hext.isBoundStatically hmhas] at hbound
  rw [hext.selector hohas, hext.selector hmhas] at hsel
  rw [hext.isOverridable w hohas] at hover
  -- Nothing else of the selector is placed, and the access rules give the slot to the method.
  obtain ⟨before, after, hsplit, hothers⟩ :=
    @FillEnv.exists_split_placements l.fillEnv c m (hdistinct c)
      (fun d hd => hapart d hd m hm hbound) hm
  have hi := lt_of_slot ho'
  rw [← inherited_eq_vtableLength hlaid.sized hp] at hi
  have htaken := hlaid.built.methodAt_taken hi hsplit ((inheritedAt_eq_slot hp hplinked).trans ho')
    hsel hbound fun q hq => Or.inr (hothers q hq)
  obtain ⟨d, hheld, -⟩ := w.held o hohas
  have htakes : l.store.takesOver l.config.transitiveOverrides c m i o = true :=
    takesOver_iff.mpr ⟨hsel, d, by rw [w.holder?_eq hohas, hheld], Or.inl hover⟩
  rw [placement_eq w hc hm] at htaken
  exact (slot_of_tables hlaid.tables).trans (htaken.trans (congrArg some (if_pos htakes)))

end Linker

/-- What there is to know of a store before the tables of a class are built in it: the tables are
coherent, no class declares a selector twice, and classes that are not linked yet have their
defaults apart from what they declare. -/
structure Store.PlacesApart (s : Store) : Prop where
  coherent : s.Coherent
  distinct : s.Distinct
  unlinked : ∀ c, s.HasClass c → ¬ s.Linked c → s.DefaultsApart c

namespace Store

open Linker

variable {s u : Store} {l t : Linker} {root : Option ClassId} {c : ClassId}

/-- Linking declares nothing. -/
theorem Distinct.of_grows (h : s.Distinct) (w : s.WellFormed root) (hg : s.Grows u)
    (hsize : u.classes.size = s.classes.size) : u.Distinct := by
  intro c
  by_cases hc : s.HasClass c
  · exact nodup_of_extends (f := Method.selector) (fun _ _ _ => rfl) (h c) w hg.extends hc
      (hg.methods hc)
  · rw [getClass_of_not (by rwa [HasClass, hsize])]
    exact List.nodup_nil

theorem PlacesApart.prepares (h : s.PlacesApart) (w : s.WellFormed root)
    (hready : Ready s c) (hp : s.Prepares c u) : u.PlacesApart := by
  have hg := hp.grows w (tables_of_not_linked hready.unlinked)
  have hsize : u.classes.size = s.classes.size := by rw [hp.classes_eq]
  exact ⟨h.coherent.prepares hp, h.distinct.of_grows w hg hsize,
    UnlinkedApart.grows h.unlinked w hg hsize⟩

theorem PlacesApart.installs (h : l.store.PlacesApart) (w : l.store.WellFormed root)
    (hup : l.store.LinkedUp) (hready : Ready l.store c) (hi : l.Installs t c) :
    t.store.PlacesApart :=
  ⟨h.coherent.installs w hup hready hi, h.distinct.of_grows w hi.grows hi.size_eq,
    UnlinkedApart.grows h.unlinked w hi.grows hi.size_eq⟩

end Store

namespace Linker

open Store

variable {l t : Linker} {root : Option ClassId} {c holder : ClassId} {ds : List Declaration}
  {r : RevisedClass} {x : Command} {xs : List Command}

/-- Linking keeps that classes have taken over what they override. -/
theorem linkRule_takesOverrides (root : Option ClassId) (config : Config) (cs : List ClassId) :
    LinkRule root config
      (fun s => s.PlacesApart ∧ ∀ c ∈ cs, s.Linked c → s.TakesOverrides c) (fun _ => True) where
  prepares := fun s t c w ⟨h, htakes⟩ hready hp => by
    have hg := hp.grows w (tables_of_not_linked hready.unlinked)
    have hslot : ∀ d i, t.slot d i = s.slot d i := fun d i => slot_congr (by rw [hp.getClass])
    refine ⟨h.prepares w hready hp, fun d hd hd' => ?_⟩
    have hold : s.Linked d := by rwa [hp.linked_iff] at hd'
    exact (htakes d hd hold).of_extends w h.coherent.housed hg.extends hold.hasClass
      (hg.methods hold.hasClass) (hslot d) fun p _ => hslot p
  installs := fun l t c _ w hup ⟨h, htakes⟩ hready hi _ => by
    refine ⟨h.installs w hup hready hi, fun d hd hd' => ?_⟩
    by_cases hdc : d = c
    · rw [hdc]
      exact hi.takesOverrides w h.coherent.housed hready h.distinct
        (h.unlinked c hready.hasClass hready.unlinked)
    · rw [Linked, hi.others d hdc] at hd'
      exact (htakes d hd hd').grows w hup h.coherent.housed hi.grows hd'
  fails := fun _ _ _ _ _ _ _ _ _ => trivial
  tooDeep := fun _ => trivial

/-! ## Redefining -/

/-- What stands for a method is overridden by the same declarations. -/
theorem StandsFor.isOverridable {m n : MethodId} (h : l.StandsFor t m n)
    (w : l.store.WellFormed root) (hext : l.store.Extends t.store) (wt : t.store.WellFormed root)
    (hm : l.store.HasMethod m) (loader : LoaderId) (className : String) :
    t.store.isOverridable n loader className = l.store.isOverridable m loader className := by
  obtain ⟨d, hheld, hd⟩ := w.held m hm
  rw [Store.isOverridable, Store.isOverridable, h.access, wt.holder?_eq h.hasMethod, h.held,
    w.holder?_eq hm, hheld, Option.any_some, Option.any_some, hext.class_eq d hd]
  rfl

/-- A redefinition leaves a class with the same slots to override. -/
theorem Redefined.isOverridableAt_iff (h : Redefined l t r) (hp : l.Prepared holder ds r)
    (hl : l.Sound) (hhoused : l.store.Housed) (hholder : l.store.HasClass r.holder)
    (hordinals : l.store.DistinctOrdinals) (hc : l.store.HasClass c) {sel : Selector} {i : Nat} :
    t.store.IsOverridableAt c sel i ↔ l.store.IsOverridableAt c sel i := by
  have hext := h.extends_
  unfold IsOverridableAt
  rw [hext.superclass? hc, hext.loader hc, hext.name hc]
  refine exists_congr fun p => and_congr_right fun _ => ?_
  rw [slot_exchange (h.tables_exchange p)]
  cases ho : l.store.slot p i with
  | none => simp
  | some o =>
    have hohas := hhoused p i o ho
    have hstands := h.standsFor hp hl.wellFormed hholder hordinals hohas (refersTo_of_slot ho)
    simp only [Option.map_some, Option.mem_some_iff, exists_eq_left', hstands.selector,
      hstands.isOverridable hl.wellFormed hext h.wellFormed hohas]

/-- The new list of methods for `holder` has one that is not bound statically and overrides a method
in the superclass's table, and the class has declared no method of the selector. -/
def AddsOverride (l : Linker) (holder : ClassId) (ds : List Declaration) : Prop :=
  holder ∈ l.registry.all ∧ (l.store.getClass holder).isInterface = false ∧
    ∃ d ∈ ds, d.isBoundStatically = false ∧
      (∀ m ∈ (l.store.getClass holder).methods, l.store.selector m ≠ d.selector) ∧
      ∃ i < l.store.superLength holder, l.store.IsOverridableAt holder d.selector i

instance (l : Linker) (holder : ClassId) (ds : List Declaration) :
    Decidable (l.AddsOverride holder ds) :=
  inferInstanceAs (Decidable (_ ∧ _ ∧ ∃ d ∈ ds, _ ∧ _ ∧ ∃ i < _, _))

section Redefined

variable (h : Redefined l t r) (hp : l.Prepared holder ds r) (hl : l.Sound)
  (hordinals : l.store.DistinctOrdinals) (hholder : l.store.HasClass r.holder)
include h hp hl hordinals hholder

/-- A method that takes the place of another one is in the slots that this one has taken over. -/
theorem Redefined.slot_of_previous (hdistinct : t.store.Distinct) (hreg : r.holder ∈ l.registry.all)
    {m n : MethodId} (hm : m ∈ (l.store.getClass r.holder).methods)
    (hn : n ∈ (t.store.getClass r.holder).methods) (hsel : t.store.selector n = l.store.selector m)
    {i : Nat} (hslot : l.store.slot r.holder i = some m) : t.store.slot r.holder i = some n := by
  rw [slot_exchange (h.tables_exchange r.holder), hslot, Option.map_some, Option.some.injEq]
  rcases h.successorIn_cases hp hl.wellFormed hholder hordinals (refersTo_of_slot hslot) with
    ⟨-, hnot⟩ | ⟨-, hsucceeds⟩
  · exact absurd hm (hnot hreg)
  · exact hdistinct.eq hsucceeds.mem hn (hsucceeds.selector.trans hsel.symm)

/-- The methods of a class that is not redefined stay in their slots. -/
theorem Redefined.slot_of_ne (hc : l.store.HasClass c) (hne : c ≠ r.holder) {m : MethodId}
    (hm : m ∈ (l.store.getClass c).methods) {i : Nat} (hslot : l.store.slot c i = some m) :
    t.store.slot c i = some m := by
  have w := hl.wellFormed
  rw [slot_exchange (h.tables_exchange c), hslot, Option.map_some, Option.some.injEq]
  rcases h.successorIn_cases hp w hholder hordinals (refersTo_of_slot hslot) with
    ⟨hsame, -⟩ | ⟨⟨-, hmem⟩, -⟩
  · exact hsame
  · exact absurd (w.eq_of_mem_methods hc hholder hm hmem) hne

variable (happart : l.store.PlacesApart)
include happart

/-- A redefinition of another class leaves what a class has taken over. -/
theorem Redefined.takesOverrides_of_ne (hlinked : l.store.Linked c) (hc : c ≠ r.holder)
    (htakes : l.store.TakesOverrides c) : t.store.TakesOverrides c := by
  have hcl := hlinked.hasClass
  have hext := h.extends_
  intro hint m hm hbound i hover
  rw [hext.isInterface hcl] at hint
  rw [h.methods, if_neg hc] at hm
  have hhas := ((hl.wellFormed.fits c hcl).methods m hm).1
  rw [hext.isBoundStatically hhas] at hbound
  rw [hext.selector hhas,
    h.isOverridableAt_iff hp hl happart.coherent.housed hholder hordinals hcl] at hover
  exact h.slot_of_ne hp hl hordinals hholder hcl hc hm (htakes hint m hm hbound i hover)

/-- **Redefining a class** keeps what the class has taken over exactly if it adds no override. -/
theorem Redefined.takesOverrides_iff (hdistinct : t.store.Distinct)
    (hreg : r.holder ∈ l.registry.all) (htakes : l.store.TakesOverrides r.holder) :
    t.store.TakesOverrides r.holder ↔ ¬ l.AddsOverride r.holder ds := by
  have w := hl.wellFormed
  have hext := h.extends_
  have hoverridable : ∀ sel i, t.store.IsOverridableAt r.holder sel i ↔
      l.store.IsOverridableAt r.holder sel i := fun _ _ =>
    h.isOverridableAt_iff hp hl happart.coherent.housed hholder hordinals hholder
  constructor
  · rintro hafter ⟨-, hint, d, hd, hbound, hnew, i, -, hover⟩
    obtain ⟨j, hj, rfl⟩ := List.getElem_of_mem hd
    have hall := h.forall₂_declared hp.declares
    have hj' := hall.length_eq ▸ hj
    obtain ⟨hnot, hdescribes, -⟩ := hall.get hj hj'
    rw [List.get_eq_getElem] at hnot hdescribes
    have hsel : t.store.selector (t.store.getClass r.holder).methods[j] = ds[j].selector :=
      hdescribes.selector
    have hslot := hafter ((hext.isInterface hholder).trans hint) _ (List.getElem_mem hj')
      (hdescribes.isBoundStatically.trans hbound) i
      ((hoverridable _ i).mpr (hsel ▸ hover))
    rw [slot_exchange (h.tables_exchange r.holder)] at hslot
    obtain ⟨o, ho, hsucc⟩ := Option.map_eq_some_iff.mp hslot
    rcases h.successorIn_cases hp w hholder hordinals (refersTo_of_slot ho) with
      ⟨hsame, -⟩ | ⟨⟨-, hmem⟩, hsucceeds⟩
    · exact hnot (hsucc ▸ hsame.symm ▸ happart.coherent.housed _ i o ho)
    · refine hnew o hmem (hsucceeds.selector.symm.trans ?_)
      rw [hsucc, hsel]
  · intro hadds hint n hn hbound i hover
    have hn' := hn
    rw [hext.isInterface hholder] at hint
    rw [hoverridable] at hover
    rw [h.methods, if_pos rfl] at hn
    obtain ⟨⟨_, x⟩, hx, rfl⟩ := List.mem_map.mp hn
    cases hprevious : x.previous with
    | some m =>
      have hm := (RevisedClass.mem_of_previous h.matched hx hprevious).1
      have hsucceeds := h.succeeds hp w hholder hx hprevious
      rw [hsucceeds.isBoundStatically] at hbound
      rw [hsucceeds.selector] at hover
      exact h.slot_of_previous hp hl hordinals hholder hdistinct hreg hm hn'
        hsucceeds.selector (htakes hint m hm hbound i hover)
    | none =>
      obtain ⟨d, hd, hdescribes⟩ := h.exists_declaration hp.declares hn'
      have hadded := RevisedClass.selector_ne_of_added h.matched hx hprevious
      have hsel : d.selector = x.body.selector := by
        rw [← hdescribes.selector, h.getMethod_of_mem hx]
      obtain ⟨p, hp', o, ho, hosel, hopen⟩ := hover
      refine absurd ⟨hreg, hint, d, hd, hdescribes.isBoundStatically.symm.trans hbound,
        fun m hm => hsel ▸ hadded m hm, i, ?_, p, hp', o, ho, ?_, hopen⟩ hadds
      · rw [superLength_of_superclass hp']
        exact lt_of_slot ho
      · exact hosel.trans hdescribes.selector

end Redefined

/-! ## Runs -/

/-- What is known in every state of a run. -/
structure Places (l : Linker) : Prop where
  sound : l.Sound
  ordinals : l.store.DistinctOrdinals
  apart : l.store.PlacesApart

/-- All registered classes have taken over what they override. -/
def TakesOverrides (l : Linker) : Prop :=
  ∀ c ∈ l.registry.all, l.store.Linked c → l.store.TakesOverrides c

/-- The registered classes after a definition are the new one and those from before. -/
theorem Defines.mem_of_linked (hd : l.Defines t c) {d : ClassId} (hreg : d ∈ t.registry.all)
    (hlinked : l.store.Linked d) : d ∈ l.registry.all := by
  obtain ⟨e, he, rfl⟩ := List.mem_map.mp hreg
  rw [hd.classes] at he
  rcases mem_insertByToken he with rfl | he
  · exact absurd hlinked.hasClass (hd.isNew ▸ Nat.lt_irrefl _)
  · exact List.mem_map_of_mem he

/-- A new class has its defaults apart. -/
theorem Defines.unlinkedApart (hd : l.Defines t c) (h : l.store.UnlinkedApart)
    (w : l.store.WellFormed root) : t.store.UnlinkedApart := fun d hc hunlinked => by
  rcases (hd.hasClass_iff d).mp hc with hc | rfl
  · exact (h d hc fun hlinked => hunlinked (hlinked.grows hd.grows)).of_extends w hc
      hd.grows.extends (hd.grows.methods hc) (hd.grows.defaults hc)
  · exact hd.selected.defaultsApart

/-- A redefinition is one of a linked class. -/
theorem Redefined.unlinkedApart (h : Redefined l t r) (hp : l.Prepared holder ds r)
    (hapart : l.store.UnlinkedApart) (w : l.store.WellFormed root) : t.store.UnlinkedApart := by
  refine hapart.of_extends w h.extends_ h.size_eq fun c _ hunlinked => ?_
  rw [h.linked_iff] at hunlinked
  have hne : c ≠ r.holder := fun heq => hunlinked (heq ▸ hp.holder_eq ▸ hp.linked)
  exact ⟨hunlinked, by rw [h.methods, if_neg hne], h.defaults c hunlinked⟩

/-- **Defaults stay apart until a class is linked**, replacements of single methods included. -/
theorem Maintained.unlinkedApart (h : Maintained l) : l.store.UnlinkedApart := by
  induction h with
  | start hempty =>
    intro c hc
    rw [hempty.store] at hc
    exact absurd hc (Nat.not_lt_zero _)
  | @command l x hl hx ih =>
    have w := hl.sound.wellFormed
    have hsteps := hl.sound.steps_true hx
    generalize x.after l = t at hsteps ⊢
    cases hsteps with
    | defines hd _ => exact hd.unlinkedApart ih w
    | links _ hr => exact ih.grows w hr.grows hr.size_eq
    | redefines hp _ hr => exact hr.unlinkedApart hp ih w
    | keeps _ hstore _ => exact hstore ▸ ih
  | body hl _ _ ih =>
    exact ih.of_extends hl.sound.wellFormed (Store.extends_addMethods _ _) rfl
      fun _ _ hunlinked => ⟨hunlinked, rfl, rfl⟩
  | replace c old new hl ih =>
    have hreplaced : ∀ {t}, Replaced c old new _ t → t.store.UnlinkedApart := fun ht =>
      ih.of_extends hl.sound.wellFormed ht.extends ht.classes_size fun d _ hunlinked => by
        have hbefore := fun hlinked => hunlinked (ht.linked_iff.mpr hlinked)
        rw [ht.unlinked d hbefore]
        exact ⟨hbefore, rfl, rfl⟩
    exact ((replaceMethod_outcome c old new).imp (fun _ _ ht => hreplaced ht)
      (fun _ t ht => ht.elim (fun heq => heq ▸ ih) fun ht => hreplaced ht)).final

/-- A new class is placed apart from others. -/
theorem Places.defines (hI : Places l) (hd : l.Defines t c) (hs : t.Sound)
    (hordinals : t.store.DistinctOrdinals) (hcoherent : t.store.Coherent)
    (hdistinct : t.store.Distinct) : Places t :=
  ⟨hs, hordinals, hcoherent, hdistinct, hd.unlinkedApart hI.apart.unlinked hI.sound.wellFormed⟩

/-- A new class has not taken over anything. -/
theorem Places.defines_takesOverrides (hI : Places l) (htakes : l.TakesOverrides)
    (hd : l.Defines t c) : t.TakesOverrides := by
  intro d hreg hc
  obtain ⟨-, hlinked, -⟩ := hd.of_linked hc
  exact (htakes d (hd.mem_of_linked hreg hlinked) hlinked).grows hI.sound.wellFormed
    hI.sound.linkedUp hI.apart.coherent.housed hd.grows hlinked

/-- A class that is not linked is placed apart after a redefinition: another class was redefined. -/
theorem Places.redefined (hI : Places l) (h : Redefined l t r) (hp : l.Prepared holder ds r)
    (hs : t.Sound) (hordinals : t.store.DistinctOrdinals) (hcoherent : t.store.Coherent)
    (hdistinct : t.store.Distinct) : Places t :=
  ⟨hs, hordinals, hcoherent, hdistinct,
    h.unlinkedApart hp hI.apart.unlinked hI.sound.wellFormed⟩

/-- **A redefinition** keeps what the registered classes have taken over exactly if it adds no
override. -/
theorem Redefined.allTakeOverrides_iff (h : Redefined l t r) (hp : l.Prepared holder ds r)
    (hI : Places l) (hholder : l.store.HasClass r.holder) (hdistinct : t.store.Distinct)
    (htakes : l.TakesOverrides) : t.TakesOverrides ↔ ¬ l.AddsOverride r.holder ds := by
  have hall : t.registry.all = l.registry.all := by
    obtain ⟨n, hn⟩ := h.registry
    rw [hn]
    rfl
  have hlinked : l.store.Linked r.holder := hp.holder_eq ▸ hp.linked
  have hiff := fun hreg => h.takesOverrides_iff hp hI.sound hI.ordinals hholder hI.apart
    hdistinct hreg (htakes r.holder hreg hlinked)
  rw [TakesOverrides, hall]
  simp only [h.linked_iff]
  refine ⟨fun hafter hadds => (hiff hadds.1).mp (hafter r.holder hadds.1 hlinked) hadds,
    fun hno c hreg hc => ?_⟩
  by_cases hch : c = r.holder
  · subst hch
    exact (hiff hreg).mpr hno
  · exact h.takesOverrides_of_ne hp hI.sound hI.ordinals hholder hI.apart hc hch
      (htakes c hreg hc)

/-- Every command keeps what is known in every state. -/
theorem Places.after (hI : Places l) (hx : x.Admissible l.store) (honce : x.DeclaresOnce) :
    Places (x.after l) := by
  have hsound := hI.sound.after hx
  have hordinals := hI.sound.distinctOrdinals_after hI.ordinals hx
  have hdistinct := hI.sound.distinct_after hI.apart.distinct hx honce
  have hcoherent := hI.sound.coherent_after hI.apart.coherent hx
  have hsteps := hI.sound.steps hx (linkRule_takesOverrides _ _ []) ⟨hI.apart, by simp⟩
  generalize x.after l = t at hsound hordinals hdistinct hcoherent hsteps ⊢
  cases hsteps with
  | defines hd _ => exact hI.defines hd hsound hordinals hcoherent hdistinct
  | links _ hr => exact ⟨hsound, hordinals, hr.holds.1⟩
  | redefines hp hholder hr => exact hI.redefined hr hp hsound hordinals hcoherent hdistinct
  | keeps _ hstore _ => exact ⟨hsound, hordinals, hstore ▸ hI.apart⟩

/-- **One step.**  A command keeps what the registered classes have taken over exactly if it does
not add an override to one of them. -/
theorem Places.step (hI : Places l) (htakes : l.TakesOverrides) (hx : x.Admissible l.store)
    (honce : x.DeclaresOnce) : Places (x.after l) ∧ ((x.after l).TakesOverrides ↔
      ¬ l.Commits AddsOverride x) := by
  have hplaces := hI.after hx honce
  have hsteps := hI.sound.steps hx (linkRule_takesOverrides _ _ l.registry.all) ⟨hI.apart, htakes⟩
  refine ⟨hplaces, ?_⟩
  generalize x.after l = t at hplaces hsteps ⊢
  cases hsteps with
  | defines hd _ => exact iff_of_true (hI.defines_takesOverrides htakes hd) id
  | links hne hr =>
    have hall : t.registry.all = l.registry.all := by rw [hr.continues.registry]; rfl
    refine iff_of_true ?_ (not_commits fun holder ds heq => absurd heq (hne holder ds))
    rw [TakesOverrides, hall]
    exact hr.holds.2
  | redefines hp hholder hr =>
    rw [commits_redefine hp, ← hp.holder_eq]
    exact hr.allTakeOverrides_iff hp hI hholder hplaces.apart.distinct htakes
  | keeps hno hstore hall =>
    refine iff_of_true ?_ (not_commits hno)
    rw [TakesOverrides, hall, hstore]
    exact htakes

theorem IsEmpty.places (h : l.IsEmpty) : Places l where
  sound := h.sound
  ordinals := h.distinctOrdinals
  apart :=
    { coherent := h.coherent
      distinct := h.distinct
      unlinked := fun c hc => by
        rw [h.store] at hc
        exact absurd hc (Nat.not_lt_zero _) }

/-- **When overrides are missed.**  In all states of a run every registered class that is linked has
each dispatched method that it declares in all the slots that the method overrides, exactly if no
redefinition of the run adds an override. -/
theorem takes_overrides_iff (h : l.IsEmpty) (hxs : Admits Command.DeclaresOnce l xs) :
    (∀ t ∈ l.states xs, ∀ c ∈ t.registry.all, t.store.Linked c → t.store.TakesOverrides c) ↔
      Avoids AddsOverride l xs :=
  forall_states_iff_avoids (I := Places) (Q := TakesOverrides)
    (fun _ _ hI htakes honce hx => hI.step htakes hx honce) h.places
    (fun c _ hc => absurd hc (h.not_linked c)) hxs

/-- A class gets a final method with the selector of a method that it inherits. -/
def finalRun : List Command :=
  [.define { name := "Object" },
   .define { name := "A", superclass := some ⟨0⟩, methods := [publicMethod "m" [1]] },
   .define { name := "B", superclass := some ⟨1⟩ },
   .link ⟨2⟩,
   .redefine ⟨2⟩ [(publicMethod "m" [2]).makeFinal]]

/-- The last step of the run leaves the superclass's method in the slot. -/
theorem finalRun_misses_override :
    ¬ ∀ t ∈ states { config := .minimal } finalRun, ∀ c ∈ t.registry.all, t.store.Linked c →
      t.store.TakesOverrides c := fun h =>
  absurd ((takes_overrides_iff ⟨rfl, rfl⟩ (by decide +kernel)).mp h) (by decide +kernel)

end Linker
end ClassLinking
