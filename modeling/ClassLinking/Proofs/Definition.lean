import ClassLinking.Proofs.Growth
import ClassLinking.Proofs.Outcome

/-!
# What a definition guarantees

A definition that is accepted adds one class, which fits into the hierarchy; a definition that is
refused leaves the store alone.  The class starts without tables, with methods of its own that are
current, and with the defaults that were selected for it.

The selection is described by two structures.  `Store.InheritsDefaults` says what the defaults
are: bodies that interfaces hold, no two of one selector.  `Store.Selected` says how they were
found: the interfaces of the class declare them, and neither the class nor a superclass has
anything to say about their selectors.
-/

namespace ClassLinking

/-! ## One of each kind -/

section OneOfEach

variable {α β : Type} [BEq β] [LawfulBEq β] (key : α → β) {l : List α} {x : α}

theorem mem_of_mem_eraseDupsBy (r : α → α → Bool) (h : x ∈ l.eraseDupsBy r) : x ∈ l := by
  induction hn : l.length using Nat.strongRecOn generalizing l with
  | _ n ih =>
    cases l with
    | nil => exact h
    | cons a l =>
      rw [List.eraseDupsBy_cons, List.mem_cons] at h
      rcases h with rfl | h
      · exact List.mem_cons_self
      · have hle := List.length_filter_le (fun b => decide (r b a = false)) l
        rw [List.length_cons] at hn
        have hmem := ih _ (by omega) h rfl
        exact List.mem_cons_of_mem _ (List.mem_filter.mp hmem).1

/-- What is left depends on which elements of the list are alike. -/
theorem eraseDupsBy_congr {r r' : α → α → Bool} (h : ∀ a ∈ l, ∀ b ∈ l, r a b = r' a b) :
    l.eraseDupsBy r = l.eraseDupsBy r' := by
  induction hn : l.length using Nat.strongRecOn generalizing l with
  | _ n ih =>
    cases l with
    | nil => rfl
    | cons a l =>
      have hfilter : (l.filter fun b => decide (r b a = false)) =
          l.filter fun b => decide (r' b a = false) := List.filter_congr fun b hb => by
        rw [h b (List.mem_cons_of_mem _ hb) a List.mem_cons_self]
      have hle := List.length_filter_le (fun b => decide (r' b a = false)) l
      rw [List.length_cons] at hn
      rw [List.eraseDupsBy_cons, List.eraseDupsBy_cons, hfilter,
        ih _ (by omega) (fun x hx y hy => ?_) rfl]
      exact h x (List.mem_cons_of_mem _ (List.mem_filter.mp hx).1) y
        (List.mem_cons_of_mem _ (List.mem_filter.mp hy).1)

/-- An element that is left out has a representative. -/
theorem exists_mem_eraseDupsBy (h : x ∈ l) :
    ∃ y ∈ l.eraseDupsBy (fun a b => key a == key b), key y = key x := by
  induction hn : l.length using Nat.strongRecOn generalizing l with
  | _ n ih =>
    cases l with
    | nil => exact absurd h List.not_mem_nil
    | cons a l =>
      rw [List.eraseDupsBy_cons]
      by_cases ha : key x = key a
      · exact ⟨a, List.mem_cons_self, ha.symm⟩
      · have hle := List.length_filter_le (fun b => decide ((key b == key a) = false)) l
        rw [List.length_cons] at hn
        have hx : x ∈ l := (List.mem_cons.mp h).resolve_left fun hxa => ha (by rw [hxa])
        have hx' : x ∈ l.filter fun b => decide ((key b == key a) = false) :=
          List.mem_filter.mpr ⟨hx, by simpa using ha⟩
        obtain ⟨y, hy, hkey⟩ := ih _ (by omega) hx' rfl
        exact ⟨y, List.mem_cons_of_mem _ hy, hkey⟩

/-- No two elements that are left have the same key. -/
theorem nodup_map_eraseDupsBy : ((l.eraseDupsBy fun a b => key a == key b).map key).Nodup := by
  induction hn : l.length using Nat.strongRecOn generalizing l with
  | _ n ih =>
    cases l with
    | nil => exact List.nodup_nil
    | cons a l =>
      rw [List.eraseDupsBy_cons, List.map_cons, List.nodup_cons]
      have hle := List.length_filter_le (fun b => decide ((key b == key a) = false)) l
      rw [List.length_cons] at hn
      refine ⟨fun hmem => ?_, ih _ (by omega) rfl⟩
      obtain ⟨b, hb, hkey⟩ := List.mem_map.mp hmem
      have hfilter := (List.mem_filter.mp (mem_of_mem_eraseDupsBy _ hb)).2
      rw [hkey] at hfilter
      simp at hfilter

theorem nodup_eraseDups [BEq α] [LawfulBEq α] : l.eraseDups.Nodup := by
  have h := nodup_map_eraseDupsBy id (l := l)
  rwa [List.map_id] at h

/-- Which elements are left does not depend on their order. -/
theorem perm_eraseDups [BEq α] [LawfulBEq α] {l' : List α} (h : l.Perm l') :
    l.eraseDups.Perm l'.eraseDups := by
  rw [List.perm_ext_iff_of_nodup nodup_eraseDups nodup_eraseDups]
  intro x
  rw [List.mem_eraseDups, List.mem_eraseDups, h.mem_iff]

end OneOfEach

namespace Store

/-- A class lists each of its interfaces once. -/
theorem WellFormed.nodup_allInterfaces {s : Store} {root : Option ClassId} {c : ClassId}
    (w : s.WellFormed root) (hc : s.HasClass c) : (s.getClass c).allInterfaces.Nodup := by
  rw [(w.fits c hc).allInterfaces_eq]
  exact nodup_eraseDups

/-- The defaults of a class are bodies in interfaces that are dispatched dynamically, each of its
own selector; an interface has none. -/
structure InheritsDefaults (s : Store) (c : ClassId) : Prop where
  nodup : ((s.getClass c).defaults.map s.selector).Nodup
  isDefault : ∀ m ∈ (s.getClass c).defaults,
    s.isDefault m = true ∧ (s.getMethod m).isBoundStatically = false
  interface : (s.getClass c).isInterface = true → (s.getClass c).defaults = []

/-- The defaults of a class are declared by its interfaces, and neither the class nor a superclass
decides what their selectors mean. -/
structure Selected (s : Store) (c : ClassId) : Prop where
  declared : ∀ m ∈ (s.getClass c).defaults,
    ∃ i ∈ (s.getClass c).allInterfaces, m ∈ (s.getClass i).methods
  undecided : ∀ m ∈ (s.getClass c).defaults,
    s.isDecidedByClasses (s.getClass c).methods (s.getClass c).superclass? (s.selector m) = false

variable {s t : Store} {root : Option ClassId} {c : ClassId} {m : MethodId}

theorem InheritsDefaults.of_eq (h : s.InheritsDefaults c) (w : s.WellFormed root)
    (hc : s.HasClass c) (hext : s.Extends t)
    (heq : (t.getClass c).defaults = (s.getClass c).defaults) : t.InheritsDefaults c where
  nodup := by
    rw [heq, List.map_congr_left fun m hm => hext.selector ((w.fits c hc).defaults m hm).1]
    exact h.nodup
  isDefault := fun m hm => by
    rw [heq] at hm
    have hhas := ((w.fits c hc).defaults m hm).1
    rw [hext.isDefault w hhas, hext.isBoundStatically hhas]
    exact h.isDefault m hm
  interface := fun hint => by
    rw [hext.isInterface hc] at hint
    rw [heq, h.interface hint]

theorem Grows.isDecidedByClasses (h : s.Grows t) (w : s.WellFormed root) (hc : s.HasClass c)
    (sel : Selector) :
    t.isDecidedByClasses (t.getClass c).methods (t.getClass c).superclass? sel =
      s.isDecidedByClasses (s.getClass c).methods (s.getClass c).superclass? sel := by
  unfold Store.isDecidedByClasses
  rw [h.methods hc, h.extends.superclass? hc,
    h.extends.findAmong? (fun m hm => ((w.fits c hc).methods m hm).1)]
  cases hp : (s.getClass c).superclass? with
  | none => rfl
  | some p =>
    have hpc := w.hasClass_superclass hc hp
    rw [Option.any_some, Option.any_some, h.any_declaresInstance w hpc]

theorem Selected.grows (h : s.Selected c) (w : s.WellFormed root) (hc : s.HasClass c)
    (hg : s.Grows t) : t.Selected c where
  declared := fun m hm => by
    rw [hg.defaults hc] at hm
    obtain ⟨i, hi, hmi⟩ := h.declared m hm
    rw [hg.extends.allInterfaces hc]
    exact ⟨i, hi, by rwa [hg.methods (w.hasClass_of_mem_allInterfaces hc hi)]⟩
  undecided := fun m hm => by
    rw [hg.defaults hc] at hm
    rw [hg.isDecidedByClasses w hc, hg.extends.selector ((w.fits c hc).defaults m hm).1,
      h.undecided m hm]

/-! ## Selecting defaults -/

theorem mem_inheritable {interfaces : List ClassId} (h : m ∈ s.inheritable interfaces) :
    (∃ i ∈ interfaces, m ∈ (s.getClass i).methods) ∧
      (s.getMethod m).isBoundStatically = false := by
  rw [inheritable, List.mem_filter, List.mem_flatMap] at h
  exact ⟨h.1, by simpa using h.2⟩

theorem selectedDefault?_some {candidates : List MethodId} {sel : Selector}
    (h : s.selectedDefault? candidates sel = some m) :
    m ∈ candidates ∧ s.selector m = sel ∧ (s.getMethod m).modifiers.isAbstract = false := by
  unfold selectedDefault? at h
  split at h
  · rename_i only honly
    split at h
    · cases h
    · rename_i habstract
      cases h
      have hmem : m ∈ s.maximallySpecific (candidates.filter (s.selector · = sel)) := by
        rw [honly]
        exact List.mem_singleton_self m
      rw [maximallySpecific, List.mem_eraseDups] at hmem
      obtain ⟨hcand, hsel⟩ := List.mem_filter.mp (List.mem_filter.mp hmem).1
      exact ⟨hcand, by simpa using hsel, by simpa using habstract⟩
  · cases h

theorem mem_defaultsOf {own : List MethodId} {superclass : Option ClassId}
    {interfaces : List ClassId} (h : m ∈ s.defaultsOf own superclass interfaces) :
    m ∈ s.inheritable interfaces ∧ (s.getMethod m).modifiers.isAbstract = false ∧
      s.isDecidedByClasses own superclass (s.selector m) = false := by
  unfold defaultsOf at h
  obtain ⟨sel, -, hsel⟩ := List.mem_filterMap.mp h
  split at hsel
  · cases hsel
  · rename_i hdecided
    obtain ⟨hmem, rfl, habstract⟩ := selectedDefault?_some hsel
    exact ⟨hmem, habstract, by simpa using hdecided⟩

theorem nodup_defaultsOf (s : Store) (own : List MethodId) (superclass : Option ClassId)
    (interfaces : List ClassId) :
    ((s.defaultsOf own superclass interfaces).map s.selector).Nodup := by
  have hkey : ∀ sels : List Selector, sels.Nodup → ((sels.filterMap fun sel =>
      if s.isDecidedByClasses own superclass sel then none
      else s.selectedDefault? (s.inheritable interfaces) sel).map s.selector).Nodup := by
    intro sels hsels
    induction sels with
    | nil => exact List.nodup_nil
    | cons sel sels ih =>
      obtain ⟨hnot, htail⟩ := List.nodup_cons.mp hsels
      rw [List.filterMap_cons]
      split
      · exact ih htail
      · rename_i m hm
        rw [List.map_cons, List.nodup_cons]
        refine ⟨fun hmem => hnot ?_, ih htail⟩
        obtain ⟨m', hm', heq⟩ := List.mem_map.mp hmem
        obtain ⟨sel', hsel', hfound⟩ := List.mem_filterMap.mp hm'
        have hself : s.selector m = sel := by
          split at hm
          · cases hm
          · exact (selectedDefault?_some hm).2.1
        have hother : s.selector m' = sel' := by
          split at hfound
          · cases hfound
          · exact (selectedDefault?_some hfound).2.1
        rw [← hself, ← heq, hother]
        exact hsel'
  exact hkey _ nodup_eraseDups

end Store

namespace ClassDefinition

/-- A definition refers to classes that exist. -/
structure Admissible (d : ClassDefinition) (s : Store) : Prop where
  superclass : ∀ p, d.superclass = some p → s.HasClass p
  interfaces : ∀ i ∈ d.interfaces, s.HasClass i

variable {d : ClassDefinition} {s : Store} {root : Option ClassId} {superclass : Option ClassId}

/-- What a class that passes the checks refers to, and how many methods it declares. -/
structure Accepted (d : ClassDefinition) (s : Store) (root superclass : Option ClassId) : Prop where
  interface : d.flags.isInterface = true → superclass = root ∧ root ≠ none
  given : superclass = root ∨ superclass = d.superclass
  extendable : ∀ p, superclass = some p →
    (s.getClass p).isInterface = false ∧ (s.getClass p).flags.isFinal = false
  top : superclass = none → root = none
  localInterfaces : ∀ i ∈ d.interfaces, (s.getClass i).isInterface = true
  numbered : d.methods.length ≤ maxMethods

theorem resolveSuperclass_ok (h : d.resolveSuperclass s root = .ok superclass) :
    (d.flags.isInterface = true → superclass = root ∧ root ≠ none) ∧
      (superclass = root ∨ superclass = d.superclass) := by
  unfold resolveSuperclass at h
  split at h
  · cases root with
    | none => cases h
    | some r =>
      dsimp only at h
      split at h
      · cases h
        exact ⟨fun _ => ⟨rfl, by simp⟩, Or.inl rfl⟩
      · cases h
  · rename_i hint
    cases h
    exact ⟨fun h => absurd h hint, Or.inr rfl⟩

theorem checkSuperclass_ok (h : d.checkSuperclass s root superclass = .ok ()) :
    (∀ p, superclass = some p →
      (s.getClass p).isInterface = false ∧ (s.getClass p).flags.isFinal = false) ∧
      (superclass = none → root = none) := by
  unfold checkSuperclass at h
  cases superclass with
  | some p =>
    dsimp only at h
    split at h
    · cases h
    · rename_i hcond
      rw [Bool.or_eq_true, not_or, Bool.not_eq_true, Bool.not_eq_true] at hcond
      refine ⟨fun q hq => ?_, fun hq => absurd hq (by simp)⟩
      cases hq
      exact hcond
  | none =>
    dsimp only at h
    split at h
    · cases h
    · rename_i hroot
      rw [Option.not_isSome_iff_eq_none] at hroot
      exact ⟨fun q hq => absurd hq (by simp), fun _ => hroot⟩

theorem checkMembers_ok (h : d.checkMembers s = .ok ()) :
    (∀ i ∈ d.interfaces, (s.getClass i).isInterface = true) ∧ d.methods.length ≤ maxMethods := by
  unfold checkMembers at h
  split at h
  · cases h
  · rename_i hnone
    split at h
    · cases h
    · rename_i hle
      exact ⟨fun i hi => by simpa using List.find?_eq_none.mp hnone i hi, Nat.not_lt.mp hle⟩

theorem check_ok (h : d.check s root = .ok superclass) : d.Accepted s root superclass := by
  unfold check at h
  cases hresolve : d.resolveSuperclass s root with
  | error e => simp [hresolve, bind, Except.bind] at h
  | ok p =>
    cases hsuper : d.checkSuperclass s root p with
    | error e => simp [hresolve, hsuper, bind, Except.bind] at h
    | ok _ =>
      cases hmembers : d.checkMembers s with
      | error e => simp [hresolve, hsuper, hmembers, bind, Except.bind] at h
      | ok _ =>
        simp only [hresolve, hsuper, hmembers, bind, Except.bind, pure, Except.pure,
          Except.ok.injEq] at h
        subst h
        obtain ⟨hinterface, hgiven⟩ := resolveSuperclass_ok hresolve
        obtain ⟨hextendable, htop⟩ := checkSuperclass_ok hsuper
        obtain ⟨hinterfaces, hnumbered⟩ := checkMembers_ok hmembers
        exact ⟨hinterface, hgiven, hextendable, htop, hinterfaces, hnumbered⟩

theorem Accepted.hasClass_superclass (h : d.Accepted s root superclass) (w : s.WellFormed root)
    (hd : d.Admissible s) {p : ClassId} (hp : superclass = some p) : s.HasClass p := by
  rcases h.given with hroot | hsuper
  · exact (w.root_fits p (hroot ▸ hp)).1
  · exact hd.superclass p (hsuper ▸ hp)

end ClassDefinition

/-! ## The store with a class added -/

namespace Store

variable {s : Store} {root : Option ClassId} {d : ClassDefinition} {superclass : Option ClassId}
  {k : Class} {ms : List Method} {c : ClassId} {m : MethodId}

/-- The class that a definition adds to `s`, together with the methods `ms`. -/
structure DefinedBy (s : Store) (d : ClassDefinition) (superclass : Option ClassId)
    (ms : List Method) (k : Class) : Prop where
  isLoaded : k.isLoaded = true
  flags : k.flags = d.flags
  ancestors : k.ancestors = superclass.elim [] s.lineage
  localInterfaces : k.localInterfaces = d.interfaces
  allInterfaces : k.allInterfaces = ClassDefinition.collectInterfaces s superclass d.interfaces
  methods : k.methods = s.nextMethods ms.length
  defaults : k.defaults = if d.flags.isInterface then []
    else (s.addMethods ms).defaultsOf k.methods superclass k.allInterfaces
  tables : k.tables = none
  held : ∀ x ∈ ms, x.holder = some s.nextClass ∧ x.revision = .current

namespace DefinedBy

theorem superclass_eq (h : s.DefinedBy d superclass ms k) : k.superclass? = superclass := by
  rw [Class.superclass?, h.ancestors]
  cases superclass <;> rfl

/-- Methods and their class are added at the end of the store. -/
theorem grows (h : s.DefinedBy d superclass ms k) : s.Grows ((s.addMethods ms).addClass k) where
  classes_le := by
    rw [size_addClass, classes_addMethods]
    exact Nat.le_succ _
  methods_le := by
    rw [methods_addClass, size_addMethods]
    exact Nat.le_add_right ..
  class_eq := fun c hc => by rw [getClass_addClass_of_has (s.addMethods ms) k c hc]; rfl
  tables_eq := fun c ts hts => by
    rw [getClass_addClass_of_has (s.addMethods ms) k c (hasClass_of_tables hts)]
    exact hts
  method_eq := fun m hm => by rw [getMethod_addClass, getMethod_addMethods_of_has _ _ _ hm]
  dispatch_eq := fun _ _ _ m _ hm => by
    rw [getMethod_addClass, getMethod_addMethods_of_has _ _ _ hm]
  new_current := fun m hm => by
    rw [getMethod_addClass, getMethod_addMethods_of_not _ _ _ hm, List.getD_eq_getElem?_getD]
    cases hx : ms[m.index - s.methods.size]? with
    | none => rfl
    | some x => exact (h.held x (List.mem_of_getElem? hx)).2
  undeclared := fun m hm hnot => by
    refine ⟨fun c hmc => ?_, by rw [getMethod_addClass, getMethod_addMethods_of_has _ _ _ hm]⟩
    by_cases hc : s.HasClass c
    · rw [getClass_addClass_of_has (s.addMethods ms) k c hc] at hmc
      exact hnot c hmc
    · by_cases hself : c = s.nextClass
      · rw [hself, show s.nextClass = (s.addMethods ms).nextClass from rfl,
          getClass_addClass_self, h.methods, mem_nextMethods] at hmc
        exact Nat.not_lt.mpr hmc.1 hm
      · have hnone : ¬ ((s.addMethods ms).addClass k).HasClass c := fun hhas =>
          ((hasClass_addClass (s.addMethods ms) k c).mp hhas).elim hc hself
        rw [getClass_of_not hnone] at hmc
        exact List.not_mem_nil hmc

theorem getClass_self (s : Store) (ms : List Method) (k : Class) :
    ((s.addMethods ms).addClass k).getClass s.nextClass = k :=
  getClass_addClass_self (s.addMethods ms) k

theorem getClass_of_has (s : Store) (ms : List Method) (k : Class) (hc : s.HasClass c) :
    ((s.addMethods ms).addClass k).getClass c = s.getClass c :=
  getClass_addClass_of_has (s.addMethods ms) k c hc

theorem hasClass_iff (s : Store) (ms : List Method) (k : Class) :
    ((s.addMethods ms).addClass k).HasClass c ↔ s.HasClass c ∨ c = s.nextClass :=
  hasClass_addClass (s.addMethods ms) k c

/-- What is added is held by the class that is added. -/
theorem new_held (h : s.DefinedBy d superclass ms k) (hm : ¬ s.HasMethod m)
    (hm' : ((s.addMethods ms).addClass k).HasMethod m) :
    (((s.addMethods ms).addClass k).getMethod m).holder = some s.nextClass := by
  rw [hasMethod_addClass, hasMethod_addMethods] at hm'
  have hlt : m.index - s.methods.size < ms.length := by
    unfold HasMethod at hm
    omega
  rw [getMethod_addClass, getMethod_addMethods_of_not _ _ _ hm, List.getD_eq_getElem?_getD,
    List.getElem?_eq_getElem hlt]
  exact (h.held _ (List.getElem_mem hlt)).1

theorem mem_methods (h : s.DefinedBy d superclass ms k) (hm : m ∈ k.methods) :
    ¬ s.HasMethod m ∧ ((s.addMethods ms).addClass k).HasMethod m := by
  rw [h.methods, mem_nextMethods] at hm
  rw [hasMethod_addClass, hasMethod_addMethods, HasMethod]
  omega

/-- The defaults of the added class are methods of its interfaces. -/
theorem mem_defaults (h : s.DefinedBy d superclass ms k) (hm : m ∈ k.defaults) :
    (∃ i ∈ k.allInterfaces, m ∈ (s.getClass i).methods) ∧
      ((s.addMethods ms).getMethod m).isBoundStatically = false ∧
      ((s.addMethods ms).getMethod m).modifiers.isAbstract = false ∧
      (s.addMethods ms).isDecidedByClasses k.methods superclass
        ((s.addMethods ms).selector m) = false := by
  rw [h.defaults] at hm
  split at hm
  · exact absurd hm List.not_mem_nil
  · obtain ⟨hmem, habstract, hdecided⟩ := mem_defaultsOf hm
    obtain ⟨hheld, hbound⟩ := mem_inheritable hmem
    exact ⟨hheld, hbound, habstract, hdecided⟩

end DefinedBy

/-- The root class after a class was added. -/
def rootAfter (s : Store) (root superclass : Option ClassId) : Option ClassId :=
  if superclass.isNone then some s.nextClass else root

/-- The root changes with the first class only. -/
theorem rootAfter_of_has (w : s.WellFormed root) (hacc : d.Accepted s root superclass)
    (hc : s.HasClass c) : s.rootAfter root superclass = root := by
  unfold rootAfter
  split
  · rename_i hnone
    rw [Option.isNone_iff_eq_none] at hnone
    exact absurd (hacc.top hnone) (w.rooted c hc)
  · rfl

/-- Every class that a new one refers to exists. -/
theorem Accepted_allInterfaces (w : s.WellFormed root) (hd : d.Admissible s)
    (hacc : d.Accepted s root superclass) {i : ClassId}
    (hi : i ∈ ClassDefinition.collectInterfaces s superclass d.interfaces) : s.HasClass i := by
  rcases WellFormed.mem_collectInterfaces.mp hi with ⟨p, hp, hi⟩ | ⟨j, hj, rfl | hi⟩
  · exact w.hasClass_of_mem_allInterfaces (hacc.hasClass_superclass w hd hp) hi
  · exact hd.interfaces i hj
  · exact w.hasClass_of_mem_allInterfaces (hd.interfaces j hj) hi

/-- The added class fits into the hierarchy. -/
theorem fits_define (w : s.WellFormed root) (hd : d.Admissible s)
    (hacc : d.Accepted s root superclass) (h : s.DefinedBy d superclass ms k) :
    ((s.addMethods ms).addClass k).Fits (s.rootAfter root superclass) s.nextClass := by
  have hext := h.grows.extends
  have hself := DefinedBy.getClass_self s ms k
  have hold := fun {c} => DefinedBy.getClass_of_has (c := c) s ms k
  have hsuper : ∀ p, superclass = some p → s.HasClass p := fun p => hacc.hasClass_superclass w hd
  refine ⟨?_, ?_, ?_, ?_, ?_, ?_, ?_, ?_, ?_⟩
  · rw [hself, h.isLoaded]
  · rw [hself, h.superclass_eq, h.ancestors]
    cases hp : superclass with
    | none => rfl
    | some p => exact (hext.lineage (hsuper p hp)).symm
  · intro p hp
    rw [hself, h.superclass_eq] at hp
    rw [hold (hsuper p hp)]
    exact ⟨hsuper p hp, hacc.extendable p hp⟩
  · intro hp
    rw [hself, h.superclass_eq] at hp
    rw [hself]
    refine ⟨by rw [rootAfter, hp]; rfl, ?_, ?_⟩
    · rw [Class.isInterface, h.flags]
      by_contra hint
      obtain ⟨hroot, hne⟩ := hacc.interface (by simpa using hint)
      exact hne (hroot ▸ hp)
    · rw [h.localInterfaces, List.eq_nil_iff_forall_not_mem]
      exact fun i hi => w.rooted i (hd.interfaces i hi) (hacc.top hp)
  · intro hint
    rw [hself, Class.isInterface, h.flags] at hint
    obtain ⟨hroot, hne⟩ := hacc.interface hint
    rw [hself, h.superclass_eq, rootAfter, hroot, if_neg]
    simpa using hne
  · intro i hi
    rw [hself, h.localInterfaces] at hi
    rw [hold (hd.interfaces i hi)]
    exact ⟨hd.interfaces i hi, hacc.localInterfaces i hi⟩
  · rw [hself, h.superclass_eq, h.localInterfaces, h.allInterfaces,
      hext.collectInterfaces hsuper hd.interfaces]
  · intro m hm
    rw [hself] at hm
    obtain ⟨hnew, hhas⟩ := h.mem_methods hm
    exact ⟨hhas, h.new_held hnew hhas⟩
  · intro m hm
    rw [hself] at hm
    obtain ⟨⟨i, hi, hmi⟩, -⟩ := h.mem_defaults hm
    have hic : s.HasClass i := Accepted_allInterfaces w hd hacc (h.allInterfaces ▸ hi)
    obtain ⟨hhas, hholder⟩ := (w.fits i hic).methods m hmi
    rw [hself]
    exact ⟨hext.hasMethod hhas, i, hi, by rw [hext.holder hhas, hholder]⟩

/-- The store stays well-formed. -/
theorem wellFormed_define (w : s.WellFormed root) (hd : d.Admissible s)
    (hacc : d.Accepted s root superclass) (h : s.DefinedBy d superclass ms k) :
    ((s.addMethods ms).addClass k).WellFormed (s.rootAfter root superclass) := by
  have hext := h.grows.extends
  have hself := DefinedBy.getClass_self s ms k
  refine ⟨fun c hc => ?_, fun m hm => ?_, fun r hr => ?_, fun c hc => ?_⟩
  · rcases (DefinedBy.hasClass_iff s ms k).mp hc with hc | rfl
    · rw [rootAfter_of_has w hacc hc]
      refine w.fits_extends hext hc (fun m hm => ?_) (fun m hm => ?_)
      · rw [DefinedBy.getClass_of_has s ms k hc] at hm
        obtain ⟨hhas, hholder⟩ := (w.fits c hc).methods m hm
        exact ⟨hext.hasMethod hhas, by rw [hext.holder hhas, hholder]⟩
      · rw [DefinedBy.getClass_of_has s ms k hc] at hm
        obtain ⟨hhas, i, hi, hholder⟩ := (w.fits c hc).defaults m hm
        exact ⟨hext.hasMethod hhas, i, hi, by rw [hext.holder hhas, hholder]⟩
    · exact fits_define w hd hacc h
  · by_cases hms : s.HasMethod m
    · obtain ⟨c, hholder, hc⟩ := w.held m hms
      exact ⟨c, by rw [hext.holder hms, hholder], hext.hasClass hc⟩
    · exact ⟨s.nextClass, h.new_held hms hm, (DefinedBy.hasClass_iff s ms k).mpr (Or.inr rfl)⟩
  · by_cases hnone : superclass = none
    · rw [rootAfter, hnone] at hr
      cases hr
      exact ⟨(DefinedBy.hasClass_iff s ms k).mpr (Or.inr rfl), by
        rw [hself, h.superclass_eq, hnone]⟩
    · rw [rootAfter, if_neg (by simpa using hnone)] at hr
      obtain ⟨hhas, htop⟩ := w.root_fits r hr
      exact ⟨hext.hasClass hhas, by rw [hext.superclass? hhas, htop]⟩
  · rw [rootAfter]
    split
    · simp
    · rename_i hnone
      intro hroot
      cases hp : superclass with
      | none => exact hnone (by rw [hp]; rfl)
      | some p => exact w.rooted p (hacc.hasClass_superclass w hd hp) hroot

/-- The defaults of the added class are the ones that were selected. -/
theorem inheritsDefaults_define (w : s.WellFormed root) (hd : d.Admissible s)
    (hacc : d.Accepted s root superclass) (h : s.DefinedBy d superclass ms k) :
    ((s.addMethods ms).addClass k).InheritsDefaults s.nextClass := by
  have hext := h.grows.extends
  have hself := DefinedBy.getClass_self s ms k
  refine ⟨?_, fun m hm => ?_, fun hint => ?_⟩
  · rw [hself, h.defaults]
    split
    · exact List.nodup_nil
    · exact nodup_defaultsOf (s.addMethods ms) _ _ _
  · rw [hself] at hm
    obtain ⟨⟨i, hi, hmi⟩, hbound, habstract, -⟩ := h.mem_defaults hm
    have hic : s.HasClass i := Accepted_allInterfaces w hd hacc (h.allInterfaces ▸ hi)
    obtain ⟨hhas, -⟩ := (w.fits i hic).methods m hmi
    have hholder := w.holder?_of_mem_methods hic hmi
    have hint : (s.getClass i).isInterface = true := by
      have hspec := (wellFormed_define w hd hacc h).allInterfaces_spec s.nextClass
        ((DefinedBy.hasClass_iff s ms k).mpr (Or.inr rfl)) i (by rwa [hself])
      rw [DefinedBy.getClass_of_has s ms k hic] at hspec
      exact hspec.2
    have hstatic : ((s.addMethods ms).getMethod m).modifiers.isStatic = false := by
      simp only [Method.isBoundStatically, Bool.or_eq_false_iff] at hbound
      exact hbound.1.1
    refine ⟨?_, hbound⟩
    rw [hext.isDefault w hhas, Store.isDefault, hholder, Option.any_some, hint, Bool.and_true]
    rw [getMethod_addMethods_of_has _ _ _ hhas] at habstract hstatic
    rw [habstract, hstatic]
    rfl
  · rw [hself, Class.isInterface, h.flags] at hint
    rw [hself, h.defaults, if_pos hint]

theorem selected_define (w : s.WellFormed root) (hd : d.Admissible s)
    (hacc : d.Accepted s root superclass) (h : s.DefinedBy d superclass ms k) :
    ((s.addMethods ms).addClass k).Selected s.nextClass where
  declared := fun m hm => by
    rw [DefinedBy.getClass_self s ms k] at hm ⊢
    obtain ⟨⟨i, hi, hmi⟩, -⟩ := h.mem_defaults hm
    have hic := Accepted_allInterfaces w hd hacc (h.allInterfaces ▸ hi)
    exact ⟨i, hi, by rwa [DefinedBy.getClass_of_has s ms k hic]⟩
  undecided := fun m hm => by
    rw [DefinedBy.getClass_self s ms k] at hm ⊢
    obtain ⟨-, -, -, hdecided⟩ := h.mem_defaults hm
    rw [h.superclass_eq, ← hdecided]
    unfold Store.isDecidedByClasses
    congr 1
    cases hp : superclass with
    | none => rfl
    | some p =>
      have hpc := hacc.hasClass_superclass w hd hp
      rw [Option.any_some, Option.any_some, h.grows.extends.lineage hpc]
      have hlineage : (s.addMethods ms).lineage p = s.lineage p := rfl
      rw [hlineage, Bool.eq_iff_iff, List.any_eq_true, List.any_eq_true]
      refine exists_congr fun a => and_congr_right fun ha => ?_
      have hac := w.hasClass_of_mem_lineage hpc ha
      rw [Store.declaresInstance, Store.declaresInstance, Store.declared?, Store.declared?,
        DefinedBy.getClass_of_has s ms k hac]
      rfl

end Store

/-! ## Defining -/

namespace Linker

/-- A class was added by a definition, which leads from `l` to `t`. -/
structure Defines (l t : Linker) (c : ClassId) : Prop where
  config : t.config = l.config
  isNew : c = l.store.nextClass
  grows : l.store.Grows t.store
  others : ∀ e, l.store.HasClass e → t.store.getClass e = l.store.getClass e
  hasClass_iff : ∀ e, t.store.HasClass e ↔ l.store.HasClass e ∨ e = c
  wellFormed : t.store.WellFormed t.registry.root
  methods : ∀ m ∈ (t.store.getClass c).methods, ¬ l.store.HasMethod m
  tables : (t.store.getClass c).tables = none
  inheritsDefaults : t.store.InheritsDefaults c
  selected : t.store.Selected c
  classes : t.registry.classes =
    Registry.insertByToken l.registry.classToken c l.registry.classes
  nextClassRow : t.registry.nextClassRow = l.registry.nextClassRow + 1
  statistics : t.statistics = l.statistics

/-- A definition was refused, which leads from `l` to `t`. -/
structure Keeps (l t : Linker) : Prop where
  config : t.config = l.config
  store : t.store = l.store
  classes : t.registry.classes = l.registry.classes
  root : t.registry.root = l.registry.root
  nextClassRow_le : l.registry.nextClassRow ≤ t.registry.nextClassRow
  statistics : t.statistics = l.statistics

variable {l : Linker} {d : ClassDefinition}

theorem length_declaredMethods (r : Registry) (c : ClassId) (ds : List Declaration) :
    (declaredMethods r c ds).length = ds.length := by
  simp [declaredMethods]

theorem held_declaredMethods (r : Registry) (c : ClassId) (ds : List Declaration) :
    ∀ x ∈ declaredMethods r c ds, x.holder = some c ∧ x.revision = .current := by
  intro x hx
  rw [declaredMethods, List.mem_mapIdx] at hx
  obtain ⟨i, hi, rfl⟩ := hx
  exact ⟨rfl, rfl⟩

theorem insert_ok {r r' : Registry} {s : Store} {k : Class} {c : ClassId}
    (h : r.insert s k c = .ok r') :
    r' = { r with
      classes := Registry.insertByToken k.token c r.classes
      names := r.names ++ [(k.name, k.token)]
      root := if k.superclass?.isNone then some c else r.root } := by
  unfold Registry.insert at h
  split at h
  · cases h
  · split at h
    · cases h
    · cases h
      rfl

/-- The class that a definition adds. -/
def newClass (l : Linker) (d : ClassDefinition) (superclass : Option ClassId) : Class :=
  let own := l.store.nextMethods d.methods.length
  let allInterfaces := ClassDefinition.collectInterfaces l.store superclass d.interfaces
  { token := l.registry.classToken
    name := d.name
    loader := d.loader
    flags := d.flags
    ancestors := superclass.elim [] l.store.lineage
    localInterfaces := d.interfaces
    allInterfaces
    methods := own
    defaults :=
      if d.flags.isInterface then []
      else (l.store.addMethods (declaredMethods l.registry l.store.nextClass d.methods)).defaultsOf
        own superclass allInterfaces
    tables := none
    isLoaded := true }

/-- Defining is registering the new class and adding it. -/
theorem define_eq {superclass : Option ClassId}
    (hcheck : d.check l.store l.registry.root = .ok superclass) :
    define d l =
      match ((l.registry.takeMethodTokens d.methods.length).takeClassToken).insert l.store
        (newClass l d superclass) l.store.nextClass with
      | .error fault => .error (.classInsert fault)
          { l with registry := (l.registry.takeMethodTokens d.methods.length).takeClassToken }
      | .ok r => .ok l.store.nextClass ((l.withRegistered l.registry.classToken r).mapStore fun _ =>
          (l.store.addMethods (declaredMethods l.registry l.store.nextClass d.methods)).addClass
            (newClass l d superclass)) := by
  unfold define
  rw [hcheck]
  rfl

/-- **A definition adds a class that fits, or changes nothing but the next tokens.** -/
theorem define_outcome (w : l.store.WellFormed l.registry.root) (hd : d.Admissible l.store) :
    Outcome (define d) l (fun c t => l.Defines t c) (fun _ t => l.Keeps t) := by
  cases hcheck : d.check l.store l.registry.root with
  | error fault =>
    unfold Outcome define
    rw [hcheck]
    exact ⟨rfl, rfl, rfl, rfl, Nat.le_refl _, rfl⟩
  | ok superclass =>
    have hacc := ClassDefinition.check_ok hcheck
    have hdefined : l.store.DefinedBy d superclass
        (declaredMethods l.registry l.store.nextClass d.methods) (newClass l d superclass) :=
      ⟨rfl, rfl, rfl, rfl, rfl, by rw [length_declaredMethods]; rfl, rfl, rfl,
        held_declaredMethods _ _ _⟩
    have hself := Store.DefinedBy.getClass_self l.store
      (declaredMethods l.registry l.store.nextClass d.methods) (newClass l d superclass)
    rw [Outcome, define_eq hcheck]
    cases hinsert : ((l.registry.takeMethodTokens d.methods.length).takeClassToken).insert l.store
        (newClass l d superclass) l.store.nextClass with
    | error fault => exact ⟨rfl, rfl, rfl, rfl, Nat.le_succ _, rfl⟩
    | ok r =>
      have hroot : r.root = l.store.rootAfter l.registry.root superclass := by
        rw [insert_ok hinsert, hdefined.superclass_eq]
        rfl
      exact
        { config := rfl
          isNew := rfl
          grows := hdefined.grows
          others := fun e he => Store.DefinedBy.getClass_of_has l.store _ _ he
          hasClass_iff := fun e => Store.DefinedBy.hasClass_iff l.store _ _
          wellFormed := hroot ▸ Store.wellFormed_define w hd hacc hdefined
          methods := fun m hm => (hdefined.mem_methods (hself ▸ hm)).1
          tables := (congrArg Class.tables hself).trans hdefined.tables
          inheritsDefaults := Store.inheritsDefaults_define w hd hacc hdefined
          selected := Store.selected_define w hd hacc hdefined
          classes := by
            show r.classes = _
            rw [insert_ok hinsert]
            rfl
          nextClassRow := by
            show r.nextClassRow = _
            rw [insert_ok hinsert]
            rfl
          statistics := rfl }

end Linker
end ClassLinking
