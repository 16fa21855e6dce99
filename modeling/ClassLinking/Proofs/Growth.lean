import ClassLinking.Miranda
import ClassLinking.Override
import ClassLinking.Proofs.Hierarchy
import Mathlib.Data.List.Find

/-!
# How stores grow

Nothing is ever taken out of a store, and most of what stands in it never changes.  Two preorders
say how much:

* `Extends s t` --- every class of `s` is in `t` with the same name, loader, flags and hierarchy,
  and every method with the same selector, access level, modifiers, code and holder.  This holds
  across every operation, redefinition included.
* `Grows s t` --- besides, no class has other methods or other defaults in `t`, tables once
  installed are the same and so are the dispatch indices that came with them, what no class declares
  stays as it is, and no method has another revision.  This holds across defining and linking.

The questions that the linking rules ask of a store speak of what stays the same, so their answers
stay the same too.  The second half of the file says so, one question after the other.
-/

namespace ClassLinking
namespace Store

/-- `t` is `s` with some classes redefined, linked or added. -/
structure Extends (s t : Store) : Prop where
  classes_le : s.classes.size ≤ t.classes.size
  methods_le : s.methods.size ≤ t.methods.size
  class_eq : ∀ c, s.HasClass c → t.getClass c =
    { s.getClass c with
      methods := (t.getClass c).methods
      defaults := (t.getClass c).defaults
      tables := (t.getClass c).tables }
  method_eq : ∀ m, s.HasMethod m → t.getMethod m =
    { s.getMethod m with
      dispatch := (t.getMethod m).dispatch
      revision := (t.getMethod m).revision }

/-- `t` is `s` with some classes linked or added. -/
structure Grows (s t : Store) : Prop where
  classes_le : s.classes.size ≤ t.classes.size
  methods_le : s.methods.size ≤ t.methods.size
  class_eq : ∀ c, s.HasClass c → t.getClass c =
    { s.getClass c with tables := (t.getClass c).tables }
  tables_eq : ∀ c ts, (s.getClass c).tables = some ts → (t.getClass c).tables = some ts
  method_eq : ∀ m, s.HasMethod m → t.getMethod m =
    { s.getMethod m with dispatch := (t.getMethod m).dispatch }
  dispatch_eq : ∀ c ts, (s.getClass c).tables = some ts → ∀ m ∈ (s.getClass c).methods,
    s.HasMethod m → (t.getMethod m).dispatch = (s.getMethod m).dispatch
  new_current : ∀ m, ¬ s.HasMethod m → (t.getMethod m).revision = .current
  undeclared : ∀ m, s.HasMethod m → (∀ c, m ∉ (s.getClass c).methods) →
    (∀ c, m ∉ (t.getClass c).methods) ∧ (t.getMethod m).dispatch = (s.getMethod m).dispatch

variable {s t u : Store} {root : Option ClassId} {c : ClassId} {m : MethodId}

/-! ## The two preorders -/

theorem Extends.refl (s : Store) : s.Extends s where
  classes_le := Nat.le_refl _
  methods_le := Nat.le_refl _
  class_eq := fun _ _ => rfl
  method_eq := fun _ _ => rfl

theorem Extends.hasClass (h : s.Extends t) (hc : s.HasClass c) : t.HasClass c :=
  Nat.lt_of_lt_of_le hc h.classes_le

theorem Extends.hasMethod (h : s.Extends t) (hm : s.HasMethod m) : t.HasMethod m :=
  Nat.lt_of_lt_of_le hm h.methods_le

theorem Extends.trans (h : s.Extends t) (h' : t.Extends u) : s.Extends u where
  classes_le := Nat.le_trans h.classes_le h'.classes_le
  methods_le := Nat.le_trans h.methods_le h'.methods_le
  class_eq := fun c hc => by rw [h'.class_eq c (h.hasClass hc), h.class_eq c hc]
  method_eq := fun m hm => by rw [h'.method_eq m (h.hasMethod hm), h.method_eq m hm]

theorem extends_addMethods (s : Store) (ms : List Method) : s.Extends (s.addMethods ms) where
  classes_le := Nat.le_refl _
  methods_le := by
    rw [size_addMethods]
    exact Nat.le_add_right ..
  class_eq := fun _ _ => rfl
  method_eq := fun m hm => by rw [getMethod_addMethods_of_has _ _ _ hm]

theorem Grows.refl (s : Store) : s.Grows s where
  classes_le := Nat.le_refl _
  methods_le := Nat.le_refl _
  class_eq := fun _ _ => rfl
  tables_eq := fun _ _ h => h
  method_eq := fun _ _ => rfl
  dispatch_eq := fun _ _ _ _ _ _ => rfl
  new_current := fun m hm => by rw [getMethod_of_not hm]; rfl
  undeclared := fun _ _ h => ⟨h, rfl⟩

theorem Grows.hasClass (h : s.Grows t) (hc : s.HasClass c) : t.HasClass c :=
  Nat.lt_of_lt_of_le hc h.classes_le

theorem Grows.hasMethod (h : s.Grows t) (hm : s.HasMethod m) : t.HasMethod m :=
  Nat.lt_of_lt_of_le hm h.methods_le

theorem Grows.revision (h : s.Grows t) (hm : s.HasMethod m) :
    (t.getMethod m).revision = (s.getMethod m).revision := by
  rw [h.method_eq m hm]

theorem Grows.trans (h : s.Grows t) (h' : t.Grows u) : s.Grows u where
  classes_le := Nat.le_trans h.classes_le h'.classes_le
  methods_le := Nat.le_trans h.methods_le h'.methods_le
  class_eq := fun c hc => by rw [h'.class_eq c (h.hasClass hc), h.class_eq c hc]
  tables_eq := fun c ts hts => h'.tables_eq c ts (h.tables_eq c ts hts)
  method_eq := fun m hm => by rw [h'.method_eq m (h.hasMethod hm), h.method_eq m hm]
  dispatch_eq := fun c ts hts m hmc hm => by
    have hmethods : (t.getClass c).methods = (s.getClass c).methods := by
      rw [h.class_eq c (hasClass_of_tables hts)]
    rw [h'.dispatch_eq c ts (h.tables_eq c ts hts) m (hmethods ▸ hmc) (h.hasMethod hm),
      h.dispatch_eq c ts hts m hmc hm]
  new_current := fun m hm => by
    by_cases hmt : t.HasMethod m
    · rw [h'.revision hmt, h.new_current m hm]
    · exact h'.new_current m hmt
  undeclared := fun m hm hnot => by
    obtain ⟨hnot', hdispatch⟩ := h.undeclared m hm hnot
    obtain ⟨hnot'', hdispatch'⟩ := h'.undeclared m (h.hasMethod hm) hnot'
    exact ⟨hnot'', hdispatch'.trans hdispatch⟩

theorem Grows.extends (h : s.Grows t) : s.Extends t where
  classes_le := h.classes_le
  methods_le := h.methods_le
  class_eq := fun c hc => by rw [h.class_eq c hc]
  method_eq := fun m hm => by rw [h.method_eq m hm]

/-- Replaced bodies are replaced bodies, before and after. -/
theorem Grows.isOld (h : s.Grows t) (m : MethodId) :
    (t.getMethod m).revision.isOld = (s.getMethod m).revision.isOld := by
  by_cases hm : s.HasMethod m
  · rw [h.revision hm]
  · rw [h.new_current m hm, getMethod_of_not hm]
    rfl

/-! ## Well-formedness across an extension -/

theorem Extends.lineage (h : s.Extends t) (hc : s.HasClass c) : t.lineage c = s.lineage c := by
  rw [Store.lineage, Store.lineage, h.class_eq c hc]

theorem Extends.superclass? (h : s.Extends t) (hc : s.HasClass c) :
    (t.getClass c).superclass? = (s.getClass c).superclass? := by
  rw [h.class_eq c hc]
  rfl

theorem Extends.isInterface (h : s.Extends t) (hc : s.HasClass c) :
    (t.getClass c).isInterface = (s.getClass c).isInterface := by
  rw [h.class_eq c hc]
  rfl

theorem Extends.flags (h : s.Extends t) (hc : s.HasClass c) :
    (t.getClass c).flags = (s.getClass c).flags := by
  rw [h.class_eq c hc]

theorem Extends.localInterfaces (h : s.Extends t) (hc : s.HasClass c) :
    (t.getClass c).localInterfaces = (s.getClass c).localInterfaces := by
  rw [h.class_eq c hc]

theorem Extends.allInterfaces (h : s.Extends t) (hc : s.HasClass c) :
    (t.getClass c).allInterfaces = (s.getClass c).allInterfaces := by
  rw [h.class_eq c hc]

theorem Extends.holder (h : s.Extends t) (hm : s.HasMethod m) :
    (t.getMethod m).holder = (s.getMethod m).holder := by
  rw [h.method_eq m hm]

theorem Extends.isBoundStatically (h : s.Extends t) (hm : s.HasMethod m) :
    (t.getMethod m).isBoundStatically = (s.getMethod m).isBoundStatically := by
  rw [h.method_eq m hm]
  rfl

/-- The interfaces that a class would collect do not depend on what was added. -/
theorem Extends.collectInterfaces (h : s.Extends t) {superclass : Option ClassId}
    {locals : List ClassId} (hp : ∀ p, superclass = some p → s.HasClass p)
    (hl : ∀ i ∈ locals, s.HasClass i) :
    ClassDefinition.collectInterfaces t superclass locals =
      ClassDefinition.collectInterfaces s superclass locals := by
  have hsuper : (superclass.elim [] fun p => (t.getClass p).allInterfaces) =
      superclass.elim [] fun p => (s.getClass p).allInterfaces := by
    cases superclass with
    | none => rfl
    | some p => exact h.allInterfaces (hp p rfl)
  have hlocals : (locals.flatMap fun i => i :: (t.getClass i).allInterfaces) =
      locals.flatMap fun i => i :: (s.getClass i).allInterfaces := by
    refine List.flatMap_congr fun i hi => ?_
    rw [h.allInterfaces (hl i hi)]
  unfold ClassDefinition.collectInterfaces
  rw [hsuper, hlocals]

/-- A class still fits after an extension if its methods and defaults do. -/
theorem WellFormed.fits_extends (w : s.WellFormed root) (h : s.Extends t) (hc : s.HasClass c)
    (hmethods : ∀ m ∈ (t.getClass c).methods,
      t.HasMethod m ∧ (t.getMethod m).holder = some c)
    (hdefaults : ∀ m ∈ (t.getClass c).defaults, t.HasMethod m ∧
      ∃ i ∈ (s.getClass c).allInterfaces, (t.getMethod m).holder = some i) : t.Fits root c := by
  have f := w.fits c hc
  have hsuper : ∀ p, (s.getClass c).superclass? = some p → s.HasClass p :=
    fun p => w.hasClass_superclass hc
  have hlocal : ∀ i ∈ (s.getClass c).localInterfaces, s.HasClass i :=
    fun i => w.hasClass_localInterface hc
  refine ⟨?_, ?_, ?_, ?_, ?_, ?_, ?_, hmethods, ?_⟩
  · rw [h.class_eq c hc]
    exact f.isLoaded
  · have hanc : (t.getClass c).ancestors = (s.getClass c).ancestors := by rw [h.class_eq c hc]
    rw [hanc, h.superclass? hc, f.ancestors_eq]
    cases hp : (s.getClass c).superclass? with
    | none => rfl
    | some p => exact (h.lineage (hsuper p hp)).symm
  · intro p hp
    rw [h.superclass? hc] at hp
    rw [h.isInterface (hsuper p hp), h.flags (hsuper p hp)]
    exact f.superclass p hp
  · intro hp
    rw [h.superclass? hc] at hp
    rw [h.isInterface hc, h.localInterfaces hc]
    exact f.top hp
  · intro hint
    rw [h.isInterface hc] at hint
    rw [h.superclass? hc]
    exact f.interface hint
  · intro i hi
    rw [h.localInterfaces hc] at hi
    rw [h.isInterface (hlocal i hi)]
    exact f.localInterfaces i hi
  · rw [h.allInterfaces hc, h.superclass? hc, h.localInterfaces hc,
      h.collectInterfaces hsuper hlocal]
    exact f.allInterfaces_eq
  · rw [h.allInterfaces hc]
    exact hdefaults

/-- A store stays well-formed if its classes keep their methods and defaults and no class is added,
as long as the methods that are added have holders. -/
theorem WellFormed.of_extends (w : s.WellFormed root) (h : s.Extends t)
    (hmethods : ∀ c, s.HasClass c → (t.getClass c).methods = (s.getClass c).methods)
    (hdefaults : ∀ c, s.HasClass c → (t.getClass c).defaults = (s.getClass c).defaults)
    (hsize : t.classes.size = s.classes.size)
    (hnew : ∀ m, ¬ s.HasMethod m → t.HasMethod m →
      ∃ c, (t.getMethod m).holder = some c ∧ s.HasClass c) : t.WellFormed root := by
  have hclass : ∀ c, t.HasClass c → s.HasClass c := fun c hc => by
    rw [HasClass, hsize] at hc
    exact hc
  refine ⟨fun c hc => ?_, fun m hm => ?_, fun r hr => ?_, fun c hc => w.rooted c (hclass c hc)⟩
  · have hcs := hclass c hc
    have f := w.fits c hcs
    refine w.fits_extends h hcs (fun m hm => ?_) (fun m hm => ?_)
    · rw [hmethods c hcs] at hm
      obtain ⟨hhas, hholder⟩ := f.methods m hm
      exact ⟨h.hasMethod hhas, by rw [h.holder hhas, hholder]⟩
    · rw [hdefaults c hcs] at hm
      obtain ⟨hhas, i, hi, hholder⟩ := f.defaults m hm
      exact ⟨h.hasMethod hhas, i, hi, by rw [h.holder hhas, hholder]⟩
  · by_cases hms : s.HasMethod m
    · obtain ⟨c, hholder, hc⟩ := w.held m hms
      exact ⟨c, by rw [h.holder hms, hholder], h.hasClass hc⟩
    · obtain ⟨c, hholder, hc⟩ := hnew m hms hm
      exact ⟨c, hholder, h.hasClass hc⟩
  · obtain ⟨hhas, htop⟩ := w.root_fits r hr
    exact ⟨h.hasClass hhas, by rw [h.superclass? hhas, htop]⟩

/-! ## Questions about one method -/

theorem Extends.selector (h : s.Extends t) (hm : s.HasMethod m) : t.selector m = s.selector m := by
  rw [Store.selector, Store.selector, h.method_eq m hm]

theorem Extends.access (h : s.Extends t) (hm : s.HasMethod m) :
    (t.getMethod m).access = (s.getMethod m).access := by
  rw [h.method_eq m hm]

theorem Extends.modifiers (h : s.Extends t) (hm : s.HasMethod m) :
    (t.getMethod m).modifiers = (s.getMethod m).modifiers := by
  rw [h.method_eq m hm]

theorem Extends.isInstance (h : s.Extends t) (hm : s.HasMethod m) :
    (t.getMethod m).isInstance = (s.getMethod m).isInstance := by
  rw [h.method_eq m hm]
  rfl

theorem Extends.accepts (h : s.Extends t) (hm : s.HasMethod m) (f : LookupFilter) :
    f.accepts (t.getMethod m) = f.accepts (s.getMethod m) := by
  rw [h.method_eq m hm]
  rfl

theorem Extends.isLoaded (h : s.Extends t) (hc : s.HasClass c) :
    (t.getClass c).isLoaded = (s.getClass c).isLoaded := by
  rw [h.class_eq c hc]

theorem Extends.loader (h : s.Extends t) (hc : s.HasClass c) :
    (t.getClass c).loader = (s.getClass c).loader := by
  rw [h.class_eq c hc]

theorem Extends.name (h : s.Extends t) (hc : s.HasClass c) :
    (t.getClass c).name = (s.getClass c).name := by
  rw [h.class_eq c hc]

theorem Extends.holder? (h : s.Extends t) (w : s.WellFormed root) (hm : s.HasMethod m) :
    t.holder? m = s.holder? m := by
  obtain ⟨c, hholder, hc⟩ := w.held m hm
  rw [Store.holder?, Store.holder?, h.holder hm, hholder, Option.filter_some, Option.filter_some,
    h.isLoaded hc]

theorem Extends.isOverridable (h : s.Extends t) (w : s.WellFormed root) (hm : s.HasMethod m)
    (loader : LoaderId) (className : String) :
    t.isOverridable m loader className = s.isOverridable m loader className := by
  obtain ⟨c, hholder, hc⟩ := w.held m hm
  have hh : s.holder? m = some c := by rw [w.holder?_eq hm, hholder]
  rw [Store.isOverridable, Store.isOverridable, h.access hm, h.holder? w hm, hh, Option.any_some,
    Option.any_some, h.class_eq c hc]
  rfl

theorem Extends.isDefault (h : s.Extends t) (w : s.WellFormed root) (hm : s.HasMethod m) :
    t.isDefault m = s.isDefault m := by
  obtain ⟨c, hholder, hc⟩ := w.held m hm
  have hh : s.holder? m = some c := by rw [w.holder?_eq hm, hholder]
  rw [Store.isDefault, Store.isDefault, h.modifiers hm, h.holder? w hm, hh, Option.any_some,
    Option.any_some, h.isInterface hc]

theorem Extends.displayName (h : s.Extends t) (w : s.WellFormed root) (hm : s.HasMethod m) :
    t.displayName m = s.displayName m := by
  obtain ⟨c, hholder, hc⟩ := w.held m hm
  rw [Store.displayName, Store.displayName, h.holder? w hm, h.selector hm, w.holder?_eq hm,
    hholder]
  dsimp only
  rw [h.name hc]

theorem Extends.isFinalMethod (h : s.Extends t) (w : s.WellFormed root) (hm : s.HasMethod m)
    (flags : ClassFlags) : t.isFinalMethod m flags = s.isFinalMethod m flags := by
  rw [Store.isFinalMethod, Store.isFinalMethod, h.modifiers hm, h.isDefault w hm]

theorem Extends.findAmong? (h : s.Extends t) {ms : List MethodId} (hms : ∀ m ∈ ms, s.HasMethod m)
    (sel : Selector) (f : LookupFilter) : t.findAmong? ms sel f = s.findAmong? ms sel f := by
  unfold Store.findAmong?
  refine List.find?_congr fun m hm => ?_
  rw [h.selector (hms m hm), h.accepts (hms m hm)]

/-! ## Questions about a class -/

theorem Grows.methods (h : s.Grows t) (hc : s.HasClass c) :
    (t.getClass c).methods = (s.getClass c).methods := by
  rw [h.class_eq c hc]

theorem Grows.defaults (h : s.Grows t) (hc : s.HasClass c) :
    (t.getClass c).defaults = (s.getClass c).defaults := by
  rw [h.class_eq c hc]

theorem Grows.declared? (h : s.Grows t) (w : s.WellFormed root) (hc : s.HasClass c)
    (sel : Selector) (f : LookupFilter) : t.declared? c sel f = s.declared? c sel f := by
  rw [Store.declared?, Store.declared?, h.methods hc]
  exact h.extends.findAmong? (fun m hm => ((w.fits c hc).methods m hm).1) sel f

theorem Grows.declaresInstance (h : s.Grows t) (w : s.WellFormed root) (hc : s.HasClass c)
    (sel : Selector) : t.declaresInstance sel c = s.declaresInstance sel c := by
  rw [Store.declaresInstance, Store.declaresInstance, h.declared? w hc]

theorem Grows.any_declaresInstance (h : s.Grows t) (w : s.WellFormed root) (hc : s.HasClass c)
    (sel : Selector) :
    (t.lineage c).any (t.declaresInstance sel) = (s.lineage c).any (s.declaresInstance sel) := by
  rw [h.extends.lineage hc, Bool.eq_iff_iff, List.any_eq_true, List.any_eq_true]
  refine exists_congr fun a => and_congr_right fun ha => ?_
  rw [h.declaresInstance w (w.hasClass_of_mem_lineage hc ha)]

theorem Grows.inheritedDefault? (h : s.Grows t) (w : s.WellFormed root) (hc : s.HasClass c)
    (sel : Selector) : t.inheritedDefault? c sel = s.inheritedDefault? c sel := by
  rw [Store.inheritedDefault?, Store.inheritedDefault?, h.defaults hc]
  exact h.extends.findAmong? (fun m hm => ((w.fits c hc).defaults m hm).1) sel .all

theorem Grows.implementation? (h : s.Grows t) (w : s.WellFormed root) (hc : s.HasClass c)
    (sel : Selector) : t.implementation? c sel = s.implementation? c sel := by
  have hstatic : ∀ found : Option MethodId, (∀ m, found = some m → s.HasMethod m) →
      found.filter (fun m => !(t.getMethod m).modifiers.isStatic) =
        found.filter fun m => !(s.getMethod m).modifiers.isStatic := fun found hfound => by
    cases found with
    | none => rfl
    | some m => rw [Option.filter_some, Option.filter_some, h.extends.modifiers (hfound m rfl)]
  have hchain : (t.lineage c).findSome? (fun k => (t.declared? k sel .all).filter
        fun m => !(t.getMethod m).modifiers.isStatic) =
      (s.lineage c).findSome? fun k => (s.declared? k sel .all).filter
        fun m => !(s.getMethod m).modifiers.isStatic := by
    rw [h.extends.lineage hc, ← List.head?_filterMap, ← List.head?_filterMap]
    congr 1
    refine List.filterMap_congr fun k hk => ?_
    have hkc := w.hasClass_of_mem_lineage hc hk
    rw [h.declared? w hkc]
    exact hstatic _ fun m hm => ((w.fits k hkc).methods m (findAmong?_some hm).1).1
  unfold Store.implementation?
  dsimp only
  rw [hchain, h.inheritedDefault? w hc,
    hstatic (s.inheritedDefault? c sel)
      fun m hm => ((w.fits c hc).defaults m (findAmong?_some hm).1).1]

theorem Grows.lookupInInterfaces? (h : s.Grows t) (w : s.WellFormed root) (hc : s.HasClass c)
    (sel : Selector) (skipDefaults : Bool) :
    t.lookupInInterfaces? c sel skipDefaults = s.lookupInInterfaces? c sel skipDefaults := by
  rw [Store.lookupInInterfaces?, Store.lookupInInterfaces?, h.extends.allInterfaces hc,
    ← List.head?_filterMap, ← List.head?_filterMap]
  congr 1
  refine List.filterMap_congr fun i hi => ?_
  have hic := w.hasClass_of_mem_allInterfaces hc hi
  rw [h.declared? w hic]
  cases hm : s.declared? i sel .nonStatic with
  | none => rfl
  | some m =>
    have hhas := ((w.fits i hic).methods m (findAmong?_some hm).1).1
    rw [Option.filter_some, Option.filter_some, h.extends.access hhas, h.extends.isDefault w hhas]

/-- What the closest visible declaration says does not change. -/
theorem Grows.slotFromChain (h : s.Grows t) (w : s.WellFormed root) (transitive : Bool)
    (sel : Selector) (loader : LoaderId) (className : String) (outOfReach : Bool)
    {ks : List ClassId} (hks : ∀ k ∈ ks, s.HasClass k) :
    t.slotFromChain transitive sel loader className outOfReach ks =
      s.slotFromChain transitive sel loader className outOfReach ks := by
  induction ks generalizing outOfReach with
  | nil => rfl
  | cons k above ih =>
    obtain ⟨hk, habove⟩ := List.forall_mem_cons.mp hks
    unfold Store.slotFromChain
    rw [h.declared? w hk]
    cases hm : s.declared? k sel .all with
    | none => exact ih outOfReach habove
    | some m =>
      have hhas := ((w.fits k hk).methods m (findAmong?_some hm).1).1
      dsimp only
      rw [h.extends.isInstance hhas, h.extends.isOverridable w hhas, ih outOfReach habove,
        ih true habove]

theorem Grows.metMethods (h : s.Grows t) (w : s.WellFormed root) {locals : List ClassId}
    (hlocals : ∀ i ∈ locals, s.HasClass i) : t.metMethods locals = s.metMethods locals := by
  unfold Store.metMethods
  refine List.flatMap_congr fun i hi => ?_
  have hic := hlocals i hi
  rw [h.extends.allInterfaces hic]
  refine List.flatMap_congr fun j hj => h.methods ?_
  rcases List.mem_cons.mp hj with rfl | hj
  · exact hic
  · exact w.hasClass_of_mem_allInterfaces hic hj

theorem Grows.isMiranda (h : s.Grows t) (w : s.WellFormed root) (hm : s.HasMethod m)
    {own : List MethodId} {defaults : Option (List MethodId)} {superclass : Option ClassId}
    (hown : ∀ x ∈ own, s.HasMethod x) (hdefaults : ∀ ds ∈ defaults, ∀ x ∈ ds, s.HasMethod x)
    (hsuper : ∀ p, superclass = some p → s.HasClass p) :
    t.isMiranda m own defaults superclass = s.isMiranda m own defaults superclass := by
  have hsel : (t.getMethod m).selector = (s.getMethod m).selector := h.extends.selector hm
  have hnone : (defaults.all fun ds =>
        (t.findAmong? ds (s.getMethod m).selector .all).isNone) =
      defaults.all fun ds => (s.findAmong? ds (s.getMethod m).selector .all).isNone := by
    cases defaults with
    | none => rfl
    | some ds => rw [Option.all_some, Option.all_some, h.extends.findAmong? (hdefaults ds rfl)]
  have hchain : (superclass.all fun p =>
        !(t.lineage p).any (t.declaresInstance (s.getMethod m).selector)) =
      superclass.all fun p => !(s.lineage p).any (s.declaresInstance (s.getMethod m).selector) := by
    cases superclass with
    | none => rfl
    | some p =>
      have hp := hsuper p rfl
      rw [Option.all_some, Option.all_some, h.any_declaresInstance w hp]
  unfold Store.isMiranda
  simp only [hsel, h.extends.isInstance hm, h.extends.modifiers hm, h.extends.findAmong? hown,
    hnone, hchain]

end Store
end ClassLinking
