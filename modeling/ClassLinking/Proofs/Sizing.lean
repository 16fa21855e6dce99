import ClassLinking.Proofs.Takeover
import Mathlib.Data.Fintype.Basic
import Mathlib.Data.List.Perm.Subperm

/-!
# The computed length of a virtual table

A virtual table is sized before it is filled.  Sizing asks what the classes of the chain declare and
which interface methods are met for the first time; filling asks what stands in the inherited slots.
`placements_fit` says that the two agree as far as they have to: filling never needs more slots than
sizing has counted.

What is declared above has to be traced to slots for this.

* An interface method that no class of the chain declares has a slot, and whatever stands there is
  public (`Traced.exists_slot_open`).
* A declared method that is not counted takes an inherited slot over: the slot of the declaration
  that it overrides (`exists_takesOver_of_chain`), or the slot of an interface method that the
  superclass met (`exists_takesOver_of_meets`).

Two methods of one selector in a class, or an overridden final method, would upset the count.  The
class-file format excludes them, which is what `Store.Conforms` says.  For interface methods to have
open slots less is enough (`Store.Regular`): final methods do not matter to them.
-/

namespace ClassLinking

/-- At most one of the three access levels is given. -/
def Access.isSingle (a : Access) : Bool :=
  !(a.isPublic && a.isPrivate || a.isPublic && a.isProtected || a.isPrivate && a.isProtected)

namespace Store

/-- What the class-file format guarantees of a class: its methods differ in their selectors and have
one access level each, an interface has no methods but public and private ones, and a class does not
override a final method. -/
structure Conforms (s : Store) (k : Class) : Prop where
  distinct : (k.methods.map s.selector).Nodup
  access : ∀ m ∈ k.methods, (s.getMethod m).access.isSingle = true
  interface : k.isInterface = true → ∀ m ∈ k.methods,
    ((s.getMethod m).access.isPublic = true ∨ (s.getMethod m).access.isPrivate = true) ∧
      (s.getMethod m).modifiers.isOverpass = false
  final : k.isInterface = false → ∀ m ∈ k.methods, (s.getMethod m).isInstance = true →
    ∀ a ∈ k.ancestors, ∀ m' ∈ (s.getClass a).methods, (s.getMethod m').isInstance = true →
      (s.getMethod m').modifiers.isFinal = true → s.selector m' = s.selector m →
        s.isOverridable m' k.loader k.name = false

/-- Every class is as the class-file format guarantees. -/
def AllConform (s : Store) : Prop := ∀ c, s.Conforms (s.getClass c)

/-- No class declares two methods of one selector, and the methods of an interface are either public
or private and not overpasses. -/
structure Regular (s : Store) : Prop where
  distinct : s.Distinct
  interface : ∀ i, (s.getClass i).isInterface = true → ∀ m ∈ (s.getClass i).methods,
    (s.getMethod m).access.isPublic = !(s.getMethod m).access.isPrivate ∧
      (s.getMethod m).modifiers.isOverpass = false

instance (s : Store) : Decidable s.Regular :=
  decidable_of_iff (s.Distinct ∧ ∀ k ∈ s.classes.toList, k.isInterface = true → ∀ m ∈ k.methods,
      (s.getMethod m).access.isPublic = !(s.getMethod m).access.isPrivate ∧
        (s.getMethod m).modifiers.isOverpass = false)
    ((and_congr_right fun _ => (s.forall_getClass_iff (fun _ => List.forall_mem_nil _)).symm).trans
      ⟨fun h => ⟨h.1, h.2⟩, fun h => ⟨h.distinct, h.interface⟩⟩)

/-- One of the interfaces of `c` declares an instance method of the selector. -/
def Meets (s : Store) (c : ClassId) (sel : Selector) : Prop :=
  ∃ i ∈ (s.getClass c).allInterfaces, ∃ m ∈ (s.getClass i).methods,
    s.selector m = sel ∧ (s.getMethod m).isInstance = true

/-- Public, and so overridden by every redeclaration. -/
def IsOpen (s : Store) (m : MethodId) : Prop :=
  (s.getMethod m).access.isPublic = true ∧ (s.getMethod m).access.isPrivate = false

variable {s t : Store} {root : Option ClassId} {c p i k : ClassId} {m x : MethodId} {sel : Selector}
  {loader : LoaderId} {className : String}

instance (s : Store) (k : Class) : Decidable (s.Conforms k) :=
  decidable_of_iff (_ ∧ _ ∧ _ ∧ _)
    ⟨fun h => ⟨h.1, h.2.1, h.2.2.1, h.2.2.2⟩, fun h => ⟨h.distinct, h.access, h.interface, h.final⟩⟩

theorem conforms_default (s : Store) : s.Conforms default where
  distinct := List.nodup_nil
  access := fun _ hm => absurd hm List.not_mem_nil
  interface := fun _ _ hm => absurd hm List.not_mem_nil
  final := fun _ _ hm => absurd hm List.not_mem_nil

instance (s : Store) : Decidable s.AllConform :=
  decidable_of_iff _ (s.forall_getClass_iff s.conforms_default).symm

theorem AllConform.isDistinct (h : s.AllConform) : s.Distinct := fun c => (h c).distinct

theorem AllConform.regular (h : s.AllConform) : s.Regular where
  distinct := h.isDistinct
  interface := fun i hint m hm => by
    obtain ⟨haccess, hoverpass⟩ := (h i).interface hint m hm
    have hsingle := (h i).access m hm
    simp only [Access.isSingle, Bool.not_eq_true', Bool.or_eq_false_iff] at hsingle
    refine ⟨?_, hoverpass⟩
    rcases haccess with hpublic | hprivate
    · simpa [hpublic] using hsingle.1.1
    · simpa [hprivate] using hsingle.1.1

theorem IsOpen.isOverridable (h : s.IsOpen m) : s.isOverridable m loader className = true := by
  simp [Store.isOverridable, h.1, h.2]

/-- An instance method of an interface is public. -/
theorem Regular.isOpen (h : s.Regular) (hi : (s.getClass i).isInterface = true)
    (hm : m ∈ (s.getClass i).methods) (hinst : (s.getMethod m).isInstance = true) :
    s.IsOpen m := by
  have hprivate := (Method.isInstance_iff.mp hinst).2
  exact ⟨by rw [(h.interface i hi m hm).1, hprivate, Bool.not_false], hprivate⟩

/-- The two stores say the same of a method, as far as the class-file format is concerned. -/
structure KeepsMethod (s t : Store) (m : MethodId) : Prop where
  selector : t.selector m = s.selector m
  access : (t.getMethod m).access = (s.getMethod m).access
  modifiers : (t.getMethod m).modifiers = (s.getMethod m).modifiers
  isOverridable : ∀ loader className,
    t.isOverridable m loader className = s.isOverridable m loader className

theorem KeepsMethod.symm (h : KeepsMethod s t m) : KeepsMethod t s m :=
  ⟨h.selector.symm, h.access.symm, h.modifiers.symm, fun _ _ => (h.isOverridable _ _).symm⟩

theorem KeepsMethod.isInstance (h : KeepsMethod s t m) :
    (t.getMethod m).isInstance = (s.getMethod m).isInstance := by
  rw [Method.isInstance, Method.isInstance, h.access, h.modifiers]

theorem Grows.keepsMethod (hg : s.Grows t) (w : s.WellFormed root) (hc : s.HasClass c)
    (hm : m ∈ (s.getClass c).methods) : KeepsMethod s t m :=
  have hhas := ((w.fits c hc).methods m hm).1
  ⟨hg.extends.selector hhas, hg.extends.access hhas, hg.extends.modifiers hhas,
    fun _ _ => hg.extends.isOverridable w hhas _ _⟩

/-- A class conforms in one store as in the other, if its methods and those above it are the
same. -/
theorem Conforms.of_same {k : Class} (h : s.Conforms k)
    (hown : ∀ m ∈ k.methods, KeepsMethod s t m)
    (habove : ∀ a ∈ k.ancestors, (t.getClass a).methods = (s.getClass a).methods ∧
      ∀ m ∈ (s.getClass a).methods, KeepsMethod s t m) : t.Conforms k := by
  refine ⟨?_, fun m hm => ?_, fun hint m hm => ?_, fun hint m hm hinst a ha m' hm' => ?_⟩
  · rw [List.map_congr_left fun m hm => (hown m hm).selector]
    exact h.distinct
  · rw [(hown m hm).access]
    exact h.access m hm
  · rw [(hown m hm).access, (hown m hm).modifiers]
    exact h.interface hint m hm
  · obtain ⟨hmethods, hsame⟩ := habove a ha
    rw [hmethods] at hm'
    have hsame' := hsame m' hm'
    rw [hsame'.isInstance, hsame'.modifiers, hsame'.selector, (hown m hm).selector,
      hsame'.isOverridable]
    exact h.final hint m hm ((hown m hm).isInstance ▸ hinst) a ha m' hm'

/-- Linking changes nothing that the class-file format speaks of. -/
theorem Conforms.grows_iff (w : s.WellFormed root) (hg : s.Grows t) (hc : s.HasClass c) :
    t.Conforms (t.getClass c) ↔ s.Conforms (s.getClass c) := by
  have hown : ∀ m ∈ (s.getClass c).methods, KeepsMethod s t m := fun m hm =>
    hg.keepsMethod w hc hm
  have habove : ∀ a ∈ (s.getClass c).ancestors,
      (t.getClass a).methods = (s.getClass a).methods ∧
        ∀ m ∈ (s.getClass a).methods, KeepsMethod s t m := fun a ha =>
    have hac := w.hasClass_of_mem_ancestors hc ha
    ⟨hg.methods hac, fun m hm => hg.keepsMethod w hac hm⟩
  -- The tables are all that is new in the class, and it conforms whatever they are.
  rw [hg.class_eq c hc]
  constructor
  · rintro ⟨hdistinct, haccess, hinterface, hfinal⟩
    refine Conforms.of_same ⟨hdistinct, haccess, hinterface, hfinal⟩
      (fun m hm => (hown m hm).symm) fun a ha => ?_
    obtain ⟨hmethods, hsame⟩ := habove a ha
    exact ⟨hmethods.symm, fun m hm => (hsame m (hmethods ▸ hm)).symm⟩
  · intro h
    obtain ⟨hdistinct, haccess, hinterface, hfinal⟩ := h.of_same hown habove
    exact ⟨hdistinct, haccess, hinterface, hfinal⟩

theorem AllConform.grows (h : s.AllConform) (w : s.WellFormed root) (hg : s.Grows t)
    (hsize : t.classes.size = s.classes.size) : t.AllConform := by
  intro c
  by_cases hc : s.HasClass c
  · exact (Conforms.grows_iff w hg hc).mpr (h c)
  · rw [getClass_of_not (by rwa [HasClass, hsize])]
    exact t.conforms_default

/-- What conforms has conformed all along. -/
theorem AllConform.of_grows (h : t.AllConform) (w : s.WellFormed root) (hg : s.Grows t) :
    s.AllConform := by
  intro c
  by_cases hc : s.HasClass c
  · exact (Conforms.grows_iff w hg hc).mp (h c)
  · rw [getClass_of_not hc]
    exact s.conforms_default

/-- A look-up in the interfaces finds the instance methods that they declare. -/
theorem Regular.lookupInInterfaces?_isSome_iff (h : s.Regular) (w : s.WellFormed root)
    (hc : s.HasClass c) : (s.lookupInInterfaces? c sel false).isSome = true ↔ s.Meets c sel := by
  rw [lookupInInterfaces?, List.isSome_findSome?, List.any_eq_true]
  refine exists_congr fun i => and_congr_right fun hi => ?_
  have hint := (w.allInterfaces_spec c hc i hi).2
  simp only [Bool.false_and, Bool.not_false, Bool.and_true, Option.isSome_filter,
    Option.any_eq_true]
  constructor
  · rintro ⟨m, hfound, hpublic⟩
    obtain ⟨hm, hsel, haccepts⟩ := findAmong?_some hfound
    have hprivate : (s.getMethod m).access.isPrivate = false := by
      simpa [hpublic] using (h.interface i hint m hm).1
    refine ⟨m, hm, hsel, ?_⟩
    simp only [LookupFilter.accepts, LookupFilter.nonStatic, hprivate] at haccepts
    simp only [Method.isInstance, hprivate]
    simpa using haccepts
  · rintro ⟨m, hm, rfl, hinst⟩
    refine ⟨m, h.distinct.declared?_eq hm ?_, (h.isOpen hint hm hinst).1⟩
    simp [LookupFilter.accepts, LookupFilter.nonStatic, (Method.isInstance_iff.mp hinst).1]

/-- An interface method that nothing implements, and that the superclass does not meet, is a new
miranda of the class. -/
theorem Regular.exists_newMiranda (h : s.Regular) (w : s.WellFormed root) (hc : s.HasClass c)
    (defaults : Option (List MethodId)) (hi : i ∈ (s.getClass c).allInterfaces)
    (hm : m ∈ (s.getClass i).methods) (hinst : (s.getMethod m).isInstance = true)
    (hchain : ∀ a ∈ s.lineage c, s.declaresInstance (s.selector m) a = false)
    (hdefaults : ∀ ds, defaults = some ds → ∀ d ∈ ds, s.selector d ≠ s.selector m)
    (hfirst : ∀ p, (s.getClass c).superclass? = some p → ¬ s.Meets p (s.selector m)) :
    ∃ m' ∈ s.newMirandas (s.getClass c).superclass? (s.getClass c).methods defaults
      (s.getClass c).localInterfaces, s.selector m' = s.selector m := by
  have hint := (w.allInterfaces_spec c hc i hi).2
  refine Store.exists_newMiranda (mem_metMethods.mpr ?_) ?_
  · rcases (w.mem_allInterfaces_iff hc).mp hi with ⟨p, hp, hip⟩ | ⟨j, hj, hij⟩
    · exact absurd ⟨i, hip, m, hm, rfl, hinst⟩ (hfirst p hp)
    · exact ⟨j, hj, i, hij, hm⟩
  · have hown := hchain c (WellFormed.mem_lineage_self s c)
    have hds : (defaults.all fun ds => (s.findAmong? ds (s.selector m) .all).isNone) = true := by
      cases defaults with
      | none => rfl
      | some ds =>
        rw [Option.all_some, findAmong?_isNone_iff]
        exact fun d hd hsel => absurd hsel (hdefaults ds rfl d hd)
    have hsuper : ((s.getClass c).superclass?.all fun p =>
        !(s.lineage p).any (s.declaresInstance (s.selector m))) = true := by
      cases hp : (s.getClass c).superclass? with
      | none => rfl
      | some p =>
        rw [Option.all_some, Bool.not_eq_true', List.any_eq_false]
        intro a ha
        rw [hchain a (w.lineage_of_superclass hc hp ▸ List.mem_cons_of_mem _ ha)]
        simp
    have hlookup : ((s.getClass c).superclass?.all fun p =>
        (s.lookupInInterfaces? p (s.selector m) false).isNone) = true := by
      cases hp : (s.getClass c).superclass? with
      | none => rfl
      | some p =>
        rw [Option.all_some, ← Option.not_isSome, Bool.not_eq_true', Bool.eq_false_iff, ne_eq,
          h.lookupInInterfaces?_isSome_iff w (w.hasClass_superclass hc hp)]
        exact hfirst p hp
    rw [declaresInstance, Option.isSome_eq_false_iff] at hown
    simp only [isNewMiranda, isMiranda, Bool.and_eq_true, Bool.not_eq_true']
    exact ⟨⟨⟨⟨⟨hinst, (h.interface i hint m hm).2⟩, hown⟩, hds⟩, hsuper⟩, hlookup⟩

/-! ## What the chain says -/

/-- One class of the chain: it is passed by if it declares no instance method, and else its method
decides or is out of reach. -/
theorem AllConform.slotFromChain_cons (h : s.AllConform) (transitive : Bool) (sel : Selector)
    (loader : LoaderId) (className : String) (outOfReach : Bool) (k : ClassId)
    (above : List ClassId) :
    (s.declaresInstance sel k = false ∧
      s.slotFromChain transitive sel loader className outOfReach (k :: above) =
        s.slotFromChain transitive sel loader className outOfReach above) ∨
    ∃ m ∈ (s.getClass k).methods, s.selector m = sel ∧ (s.getMethod m).isInstance = true ∧
      s.slotFromChain transitive sel loader className outOfReach (k :: above) =
        if s.isOverridable m loader className then some (outOfReach && !transitive)
        else s.slotFromChain transitive sel loader className true above := by
  have hpass : (∀ m, s.declared? k sel .all = some m → (s.getMethod m).isInstance = false) →
      s.declaresInstance sel k = false := by
    intro hm
    rw [Bool.eq_false_iff, ne_eq, declaresInstance_iff]
    rintro ⟨x, hx, rfl, hinst⟩
    rw [hm x (h.isDistinct.declared?_eq hx (LookupFilter.accepts_all _))] at hinst
    cases hinst
  cases hfound : s.declared? k sel .all with
  | none =>
    refine Or.inl ⟨hpass fun m hm => ?_, by simp [slotFromChain, hfound]⟩
    rw [hfound] at hm
    cases hm
  | some m =>
    obtain ⟨hm, hsel, -⟩ := findAmong?_some hfound
    cases hinst : (s.getMethod m).isInstance with
    | false =>
      refine Or.inl ⟨hpass fun x hx => ?_, by simp [slotFromChain, hfound, hinst]⟩
      rw [hfound, Option.some.injEq] at hx
      exact hx ▸ hinst
    | true => exact Or.inr ⟨m, hm, hsel, hinst, by simp [slotFromChain, hfound, hinst]⟩

/-- The chain says nothing if no class of it declares an instance method. -/
theorem AllConform.slotFromChain_none (h : s.AllConform) {transitive outOfReach : Bool}
    {ks : List ClassId}
    (hnone : s.slotFromChain transitive sel loader className outOfReach ks = none) :
    outOfReach = false ∧ ∀ a ∈ ks, s.declaresInstance sel a = false := by
  induction ks generalizing outOfReach with
  | nil =>
    unfold slotFromChain at hnone
    cases outOfReach with
    | false => exact ⟨rfl, fun a ha => absurd ha List.not_mem_nil⟩
    | true => cases hnone
  | cons k above ih =>
    rcases h.slotFromChain_cons transitive sel loader className outOfReach k above with
      ⟨hk, heq⟩ | ⟨m, -, -, -, heq⟩
    · rw [heq] at hnone
      obtain ⟨hreach, habove⟩ := ih hnone
      exact ⟨hreach, List.forall_mem_cons.mpr ⟨hk, habove⟩⟩
    · rw [heq] at hnone
      split at hnone
      · cases hnone
      · exact absurd (ih hnone).1 (by simp)

/-- The chain denies a slot because of a declaration that is overridden, and that stands behind
nothing out of reach unless overriding is transitive. -/
theorem AllConform.slotFromChain_false (h : s.AllConform) {transitive outOfReach : Bool}
    {ks : List ClassId}
    (hfalse : s.slotFromChain transitive sel loader className outOfReach ks = some false) :
    ∃ before k above m, ks = before ++ k :: above ∧ m ∈ (s.getClass k).methods ∧
      s.selector m = sel ∧ (s.getMethod m).isInstance = true ∧
      s.isOverridable m loader className = true ∧ (transitive = true ∨
        outOfReach = false ∧ ∀ b ∈ before, s.declaresInstance sel b = false) := by
  induction ks generalizing outOfReach with
  | nil =>
    unfold slotFromChain at hfalse
    cases outOfReach with
    | false => cases hfalse
    | true => cases hfalse
  | cons k above ih =>
    rcases h.slotFromChain_cons transitive sel loader className outOfReach k above with
      ⟨hk, heq⟩ | ⟨m, hm, hsel, hinst, heq⟩
    · rw [heq] at hfalse
      obtain ⟨before, k', above', m, rfl, hm, hsel, hinst, hover, hor⟩ := ih hfalse
      exact ⟨k :: before, k', above', m, rfl, hm, hsel, hinst, hover,
        hor.imp_right fun hreach => ⟨hreach.1, List.forall_mem_cons.mpr ⟨hk, hreach.2⟩⟩⟩
    · rw [heq] at hfalse
      split at hfalse
      · rename_i hover
        rw [Option.some.injEq, Bool.and_eq_false_iff, Bool.not_eq_false'] at hfalse
        exact ⟨[], k, above, m, rfl, hm, hsel, hinst, hover,
          hfalse.symm.imp_right fun hreach => ⟨hreach, fun b hb => absurd hb List.not_mem_nil⟩⟩
      · obtain ⟨before, k', above', m', rfl, hm', hsel', hinst', hover', hor⟩ := ih hfalse
        exact ⟨k :: before, k', above', m', rfl, hm', hsel', hinst', hover',
          Or.inl (hor.resolve_right fun hreach => absurd hreach.1 (by simp))⟩

end Store

namespace Linker

variable {P : Config → Prop} {s : Store} {root : Option ClassId} {c p k : ClassId}
  {m o : MethodId} {sel : Selector} {transitive : Bool} {loader : LoaderId} {className : String}

/-! ## The slots of what is declared above -/

/-- A default comes from an interface, so it is public. -/
theorem Traced.isOpen_of_default (T : Traced P root s) (hrules : s.Regular) (hc : s.HasClass c)
    (hm : m ∈ (s.getClass c).defaults) : s.IsOpen m := by
  obtain ⟨i, hi, hmi⟩ := (T.selected c hc).declared m hm
  have hint := (T.wellFormed.allInterfaces_spec c hc i hi).2
  have hbound := ((T.inheritsDefaults c hc).isDefault m hm).2
  exact hrules.isOpen hint hmi (Store.isInstance_of_bound hbound)

/-- **What an interface declares and no class of the chain does has a slot.**  The class that
meets the interface first has a default or a placeholder there; further down the slot passes to
defaults at most. The induction is along the superclass chain. -/
theorem Traced.exists_slot_open (T : Traced P root s) (hrules : s.Regular) :
    ∀ c, s.HasClass c → s.Linked c → (s.getClass c).isInterface = false →
      (∀ a ∈ s.lineage c, s.declaresInstance sel a = false) → s.Meets c sel →
        ∃ i x, s.slot c i = some x ∧ s.selector x = sel ∧ s.IsOpen x := by
  have w := T.wellFormed
  refine w.superclass_induction fun c hc ih hlinked hint hchain hmeets => ?_
  by_cases hfirst : ∃ p, (s.getClass c).superclass? = some p ∧ s.Meets p sel
  · obtain ⟨p, hp, hmeets'⟩ := hfirst
    have hplinked := T.linkedUp c hlinked p (Store.mem_definedFrom_superclass hp)
    have hpint := ((w.fits c hc).superclass p hp).2.1
    have hlineage := w.lineage_of_superclass hc hp
    obtain ⟨i, x, hx, hsel, hopen⟩ := ih p hp hplinked hpint
      (fun a ha => hchain a (hlineage ▸ List.mem_cons_of_mem _ ha)) hmeets'
    have hi := Store.lt_of_slot hx
    rw [← Store.superLength_of_superclass hp] at hi
    rcases T.slot_inherited hlinked hp hi with hsame | ⟨y, hy, hdisp, x', hx', hsel'⟩
    · exact ⟨i, x, hsame.trans hx, hsel, hopen⟩
    · rw [hx, Option.some.injEq] at hx'
      have hysel : s.selector y = sel := by rw [← hsel', ← hx', hsel]
      refine ⟨i, y, hy, hysel, ?_⟩
      rcases hdisp.mem with hym | hyd
      · have hnone := hchain c (Store.WellFormed.mem_lineage_self s c)
        rw [Store.declaresInstance_iff.mpr
          ⟨y, hym, hysel, Store.isInstance_of_bound hdisp.bound⟩] at hnone
        cases hnone
      · exact T.isOpen_of_default hrules hc hyd
  · obtain ⟨j, hj, m, hm, rfl, hinst⟩ := hmeets
    by_cases hdefault : ∃ d ∈ (s.getClass c).defaults, s.selector d = s.selector m
    · obtain ⟨d, hd, hsel⟩ := hdefault
      obtain ⟨i, hi⟩ := T.exists_slot_default hlinked hd
      exact ⟨i, d, hi, hsel, T.isOpen_of_default hrules hc hd⟩
    · obtain ⟨m', hm', hsel⟩ := hrules.exists_newMiranda w hc
        (some (s.getClass c).defaults) hj hm hinst hchain
        (fun ds hds d hd hsel => by
          cases hds
          exact hdefault ⟨d, hd, hsel⟩)
        (fun p hp hmeets => hfirst ⟨p, hp, hmeets⟩)
      have hpending : m' ∈ s.pendingMirandas c := by
        unfold Store.pendingMirandas
        simp only [hint, Bool.false_eq_true, if_false]
        exact hm'
      obtain ⟨i, x, hx, hxsel, haccess⟩ := T.exists_slot_pending hlinked hpending
      exact ⟨i, x, hx, hxsel.trans hsel, by rw [Store.IsOpen, haccess]; exact ⟨rfl, rfl⟩⟩

/-- Every method in a table has a holder. -/
theorem Traced.exists_holder? (T : Traced P root s) {i : Nat} (ho : s.slot p i = some o) :
    ∃ h, s.holder? o = some h := by
  have hhas := T.housed p i o ho
  obtain ⟨h, hh, -⟩ := T.wellFormed.held o hhas
  exact ⟨h, by rw [T.wellFormed.holder?_eq hhas, hh]⟩

/-- A public method is taken over by every declaration of its selector. -/
theorem Traced.takesOver_of_isOpen (T : Traced P root s) {i : Nat} (ho : s.slot p i = some o)
    (hsel : s.selector o = s.selector m) (hopen : s.IsOpen o) :
    s.takesOver transitive c m i o = true := by
  obtain ⟨h, hh⟩ := T.exists_holder? ho
  exact Store.takesOver_iff.mpr ⟨hsel, h, hh, Or.inl hopen.isOverridable⟩

/-- A declared method takes over the slot of an interface method that the superclass meets. -/
theorem exists_takesOver_of_meets (T : Traced P root s) (hrules : s.Regular)
    (hplinked : s.Linked p) (hint : (s.getClass p).isInterface = false)
    (hchain : ∀ a ∈ s.lineage p, s.declaresInstance (s.selector m) a = false)
    (hmeets : s.Meets p (s.selector m)) :
    ∃ i o, s.slot p i = some o ∧ s.takesOver transitive c m i o = true := by
  obtain ⟨i, o, ho, hsel, hopen⟩ :=
    T.exists_slot_open hrules p hplinked.hasClass hplinked hint hchain hmeets
  exact ⟨i, o, ho, T.takesOver_of_isOpen ho hsel hopen⟩

/-- A method that can be overridden has got a slot in `k`.  Whatever has passed into the slot by `p`
is taken over, if overriding is transitive or no class in between declares the selector. -/
theorem Traced.exists_takesOver_of_passed (T : Traced P root s) (hrules : s.Regular)
    (hplinked : s.Linked p) {before above : List ClassId} {x : MethodId} {i : Nat}
    (hsplit : s.lineage p = before ++ k :: above) (hx : s.slot k i = some x)
    (hsel : s.selector x = s.selector m)
    (hover : s.isOverridable x (s.getClass c).loader (s.getClass c).name = true)
    (hor : transitive = true ∨ ∀ b ∈ before, s.declaresInstance (s.selector m) b = false) :
    ∃ o, s.slot p i = some o ∧ s.takesOver transitive c m i o = true := by
  have w := T.wellFormed
  have hpc := hplinked.hasClass
  obtain ⟨o, ho, hosel, hor'⟩ := T.slot_below hx p hpc hplinked before above hsplit
  have hselm : s.selector o = s.selector m := hosel.trans hsel
  refine ⟨o, ho, ?_⟩
  rcases hor' with rfl | ⟨b, hb, hkb, hdisp⟩
  · obtain ⟨h, hh⟩ := T.exists_holder? ho
    exact Store.takesOver_iff.mpr ⟨hselm, h, hh, Or.inl hover⟩
  · have hbp : b ∈ s.lineage p := hsplit ▸ List.mem_append_left _ hb
    have hbc := w.hasClass_of_mem_lineage hpc hbp
    have hoinst := Store.isInstance_of_bound hdisp.bound
    rcases hdisp.mem with hob | hod
    · rcases hor with htrans | hnone
      · refine Store.takesOver_iff.mpr ⟨hselm, b, w.holder?_of_mem_methods hbc hob,
          Or.inr ⟨htrans, (Method.isInstance_iff.mp hoinst).2, ?_⟩⟩
        rw [← hselm]
        exact T.exists_transitivelyOverridden hplinked ho hbp hkb hx hover
      · have hdeclares := Store.declaresInstance_iff.mpr ⟨o, hob, hselm, hoinst⟩
        rw [hnone b hb] at hdeclares
        cases hdeclares
    · exact T.takesOver_of_isOpen ho hselm (T.isOpen_of_default hrules hbc hod)

/-- A declared method takes over the slot of the declaration above that denies it one of its own. -/
theorem exists_takesOver_of_chain (T : Traced P root s) (hrules : s.AllConform) (hc : s.HasClass c)
    (hint : (s.getClass c).isInterface = false) (hp : (s.getClass c).superclass? = some p)
    (hplinked : s.Linked p) (hm : m ∈ (s.getClass c).methods)
    (hbound : (s.getMethod m).isBoundStatically = false)
    (hfalse : s.slotFromChain transitive (s.selector m) (s.getClass c).loader (s.getClass c).name
      false (s.lineage p) = some false) :
    ∃ i o, s.slot p i = some o ∧ s.takesOver transitive c m i o = true := by
  have w := T.wellFormed
  have hpc := hplinked.hasClass
  obtain ⟨before, k, above, x, hsplit, hx, hsel, hxinst, hover, hor⟩ :=
    hrules.slotFromChain_false hfalse
  have hkp : k ∈ s.lineage p := hsplit ▸ List.mem_append_right _ List.mem_cons_self
  have hkabove : k ∈ (s.getClass c).ancestors := w.ancestors_of_superclass hc hp ▸ hkp
  obtain ⟨hkint, hkfinal⟩ := w.class_of_mem_ancestors c hc k hkabove
  have hnotfinal : (s.getMethod x).modifiers.isFinal = false := by
    rw [Bool.eq_false_iff]
    intro hfinal
    have hnot := (hrules c).final hint m hm (Store.isInstance_of_bound hbound) k hkabove x hx hxinst
      hfinal hsel
    rw [hover] at hnot
    cases hnot
  have hfinal : s.isFinalMethod x (s.getClass k).flags = false := by
    simp [Store.isFinalMethod, hnotfinal, hkfinal]
  obtain ⟨i, hi⟩ := T.exists_slot_declared hrules.isDistinct
    (T.linkedUp.lineage w p hpc hplinked k hkp) hkint hx
    (Store.bound_of_selector hbound hsel hxinst) hfinal
  -- The slot is inherited by `p`, where it may have passed to a class in between.
  exact ⟨i, T.exists_takesOver_of_passed hrules.regular hplinked hsplit hi hsel hover
    (hor.imp_right fun hreach => hreach.2)⟩

/-! ## Counting the slots -/

section Count

variable {l : Linker} {size : VTableSize} {q : Placement}
  (T : Traced P root l.store) (hrules : l.store.AllConform) (hready : Ready l.store c)
  (hsize : l.store.vtableSize l.config c = .ok size)

/-- Whether a method needs a slot of its own when it is placed in the table of `c`. -/
def needsSlot (l : Linker) (c : ClassId) (size : VTableSize) (q : Placement) : Bool :=
  l.fillEnv.needsSlot c q size.inherited (l.fillEnv.start c size)

include hready hsize in
/-- A method that takes over a slot of the superclass needs no slot of its own, unless it is
package-private. -/
theorem needsSlot_eq_false_of_takes (hp : (l.store.getClass c).superclass? = some p) {i : Nat}
    (ho : l.store.slot p i = some o) (htakes : l.fillEnv.takes q i o = true)
    (hpackage : (l.store.getMethod q.method).access.isPackagePrivate = false) :
    l.needsSlot c size q = false := by
  have hplinked := hready.definedFrom p (Store.mem_definedFrom_superclass hp)
  cases hbound : (l.store.getMethod q.method).isBoundStatically with
  | true => simp [needsSlot, FillEnv.needsSlot, fillEnv, hbound]
  | false =>
    have hi := Store.lt_of_slot ho
    rw [← Store.inherited_eq_vtableLength hsize hp] at hi
    have hstart : (l.fillEnv.start c size).occupant i = some o := by
      rw [FillEnv.occupant_start]
      exact (Store.inheritedAt_eq_slot hp hplinked).trans ho
    have hmem : i ∈ l.fillEnv.taken c q size.inherited (l.fillEnv.start c size) := by
      unfold FillEnv.taken
      rw [if_neg (by simp [fillEnv, hbound, hp]), List.mem_filter, List.mem_range, hstart]
      exact ⟨hi, htakes⟩
    have htaken : (l.fillEnv.taken c q size.inherited (l.fillEnv.start c size)).isEmpty = false :=
      List.isEmpty_eq_false_iff.mpr (List.ne_nil_of_mem hmem)
    refine Bool.and_eq_false_iff.mpr (Or.inr ?_)
    rw [htaken, Bool.or_false]
    simp [fillEnv, hp, hpackage]

include T hrules hready hsize in
/-- **A declared method that needs a slot is counted.** -/
theorem needsNewSlot_of_needsSlot (hm : m ∈ (l.store.getClass c).methods)
    (hneeds : l.needsSlot c size (l.fillEnv.placement c m false) = true) :
    l.store.needsNewSlot l.config.transitiveOverrides m (l.store.getClass c).superclass?
      (l.store.getClass c).loader (l.store.getClass c).name (l.store.getClass c).flags = true := by
  have w := T.wellFormed
  have hc := hready.hasClass
  have hparts := hneeds
  simp only [needsSlot, FillEnv.needsSlot, Bool.and_eq_true, Bool.not_eq_true'] at hparts
  obtain ⟨⟨⟨hbound, hfinal⟩, hint⟩, -⟩ := hparts
  change (l.store.getMethod m).isBoundStatically = false at hbound
  change l.store.isFinalMethod m (l.store.getClass c).flags = false at hfinal
  change (l.store.getClass c).flags.isInterface = false at hint
  have hdefault : l.store.isDefault m = false := by
    have hcint : (l.store.getClass c).isInterface = false := hint
    simp [Store.isDefault, w.holder?_of_mem_methods hc hm, hcint]
  unfold Store.needsNewSlot
  simp only [hint, hdefault, hbound, hfinal, Bool.false_eq_true, if_false, Bool.or_self]
  cases hp : (l.store.getClass c).superclass? with
  | none => rfl
  | some p =>
    have hplinked := hready.definedFrom p (Store.mem_definedFrom_superclass hp)
    have hpint := ((w.fits c hc).superclass p hp).2.1
    cases hpackage : (l.store.getMethod m).access.isPackagePrivate with
    | true => simp
    | false =>
      have hno : ¬ ∃ i o, l.store.slot p i = some o ∧
          l.store.takesOver l.config.transitiveOverrides c m i o = true := by
        rintro ⟨i, o, ho, htakes⟩
        rw [needsSlot_eq_false_of_takes hready hsize hp ho (by
          rw [placement_eq w hc hm]
          exact htakes) hpackage] at hneeds
        cases hneeds
      simp only [Bool.false_eq_true, if_false]
      split
      · rename_i answer hanswer
        cases answer with
        | true => rfl
        | false =>
          exact absurd
            (exists_takesOver_of_chain T hrules hc hint hp hplinked hm hbound hanswer) hno
      · rename_i hanswer
        rw [Bool.not_eq_true', Bool.and_eq_false_iff]
        refine Or.inr (Bool.eq_false_iff.mpr fun hfound => hno ?_)
        exact exists_takesOver_of_meets T hrules.regular hplinked hpint
          (hrules.slotFromChain_none hanswer).2
          ((hrules.regular.lookupInInterfaces?_isSome_iff w hplinked.hasClass).mp hfound)

include T hrules hready hsize in
/-- A default that needs a slot is met by the class for the first time, so a slot is reserved for
its selector. -/
theorem exists_reserved_of_needsSlot (hm : m ∈ (l.store.getClass c).defaults)
    (hneeds : l.needsSlot c size (l.fillEnv.placement c m true) = true) :
    ∃ m' ∈ l.store.reservedMirandas c, l.store.selector m' = l.store.selector m := by
  have w := T.wellFormed
  have hc := hready.hasClass
  obtain ⟨i, hi, hmi⟩ := (T.selected c hc).declared m hm
  have hinst := Store.isInstance_of_bound ((T.inheritsDefaults c hc).isDefault m hm).2
  have hopen := T.isOpen_of_default hrules.regular hc hm
  have hchain : ∀ a ∈ l.store.lineage c,
      l.store.declaresInstance (l.store.selector m) a = false := by
    intro a ha
    rw [Bool.eq_false_iff, ne_eq, Store.declaresInstance_iff]
    rintro ⟨x, hx, hsel, hxinst⟩
    exact T.selector_default_ne hc hm ha hx hxinst hsel
  refine hrules.regular.exists_newMiranda w hc none hi hmi hinst hchain (fun _ h => by cases h)
    fun p hp hmeets => ?_
  have hplinked := hready.definedFrom p (Store.mem_definedFrom_superclass hp)
  obtain ⟨j, x, hx, hsel, -⟩ := T.exists_slot_open hrules.regular p hplinked.hasClass hplinked
    ((w.fits c hc).superclass p hp).2.1
    (fun a ha => hchain a (w.lineage_of_superclass hc hp ▸ List.mem_cons_of_mem _ ha)) hmeets
  obtain ⟨h, hh⟩ := T.exists_holder? hx
  rw [needsSlot_eq_false_of_takes hready hsize hp hx (FillEnv.takes_default hsel hh)
    (by simp [FillEnv.placement, Access.isPackagePrivate, hopen.1])] at hneeds
  cases hneeds

/-- A pending miranda has a slot reserved for its selector. -/
theorem exists_reserved_of_pending {s : Store} (hm : m ∈ s.pendingMirandas c) :
    ∃ m' ∈ s.reservedMirandas c, s.selector m' = s.selector m := by
  obtain ⟨hmet, hnew⟩ := Store.isNewMiranda_of_pending hm
  refine Store.exists_newMiranda hmet ?_
  simp only [Store.isNewMiranda, Store.isMiranda, Bool.and_eq_true] at hnew ⊢
  obtain ⟨⟨⟨⟨⟨hinst, hoverpass⟩, hown⟩, -⟩, hchain⟩, hlookup⟩ := hnew
  exact ⟨⟨⟨⟨⟨hinst, hoverpass⟩, hown⟩, rfl⟩, hchain⟩, hlookup⟩

include T hrules hready hsize in
/-- Defaults that need slots and pending mirandas have different selectors, and a slot is reserved
for each of them. -/
theorem countP_defaults_add_length_pending_le :
    (l.store.getClass c).defaults.countP
        (fun m => l.needsSlot c size (l.fillEnv.placement c m true)) +
      (l.store.pendingMirandas c).length ≤ (l.store.reservedMirandas c).length := by
  have hd := T.inheritsDefaults c hready.hasClass
  let needing := (l.store.getClass c).defaults.filter fun m =>
    l.needsSlot c size (l.fillEnv.placement c m true)
  have hnodup : (needing.map l.store.selector ++
      (l.store.pendingMirandas c).map l.store.selector).Nodup := by
    refine List.nodup_append.mpr ⟨hd.nodup.sublist (List.filter_sublist.map _),
      l.store.nodup_pendingMirandas c, ?_⟩
    intro sel hsel sel' hsel' heq
    obtain ⟨d, hd, rfl⟩ := List.mem_map.mp hsel
    obtain ⟨m, hm, rfl⟩ := List.mem_map.mp hsel'
    exact Store.selector_default_ne_of_pending hm d (List.mem_filter.mp hd).1 heq
  have hsub : needing.map l.store.selector ++ (l.store.pendingMirandas c).map l.store.selector ⊆
      (l.store.reservedMirandas c).map l.store.selector := by
    intro sel hsel
    rw [List.mem_map]
    rcases List.mem_append.mp hsel with hsel | hsel
    · obtain ⟨d, hd, rfl⟩ := List.mem_map.mp hsel
      obtain ⟨hd, hneeds⟩ := List.mem_filter.mp hd
      exact exists_reserved_of_needsSlot T hrules hready hsize hd hneeds
    · obtain ⟨m, hm, rfl⟩ := List.mem_map.mp hsel
      exact exists_reserved_of_pending hm
  have hlength := (List.subperm_of_subset hnodup hsub).length_le
  rw [List.length_append, List.length_map, List.length_map, List.length_map] at hlength
  rw [List.countP_eq_length_filter]
  exact hlength

include T hrules hready hsize in
/-- **Filling needs no more slots than sizing has counted.** -/
theorem placements_fit : size.inherited +
    (l.fillEnv.placements c).countP (l.needsSlot c size) + (l.store.pendingMirandas c).length ≤
      size.length := by
  rw [(Store.vtableSize_ok hsize).2]
  cases hint : (l.store.getClass c).isInterface with
  | true =>
    have hnone : (l.fillEnv.placements c).countP (l.needsSlot c size) = 0 := by
      rw [List.countP_eq_zero]
      intro q _
      simp [needsSlot, FillEnv.needsSlot, fillEnv, hint]
    rw [hnone, Store.pendingMirandas]
    simp [hint]
  | false =>
    have hdeclared : (l.store.getClass c).methods.countP
        (fun m => l.needsSlot c size (l.fillEnv.placement c m false)) ≤
          (l.store.declaredNewSlots l.config.transitiveOverrides c).length := by
      rw [Store.declaredNewSlots, ← List.countP_eq_length_filter]
      exact List.countP_mono_left fun m hm hneeds =>
        needsNewSlot_of_needsSlot T hrules hready hsize hm hneeds
    have hothers := countP_defaults_add_length_pending_le T hrules hready hsize
    rw [FillEnv.placements, List.countP_append, List.countP_map, List.countP_map]
    simp only [Bool.false_eq_true, if_false]
    simp only [Function.comp_def]
    change (l.store.getClass c).methods.countP _ ≤ _ at hdeclared
    show size.inherited + ((l.store.getClass c).methods.countP _ +
      (l.store.getClass c).defaults.countP _) + _ ≤ _
    omega

end Count

end Linker

end ClassLinking
