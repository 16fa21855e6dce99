import ClassLinking.Linking
import ClassLinking.Proofs.ITable
import ClassLinking.Proofs.Tally
import ClassLinking.Proofs.VTable

/-!
# What linking does

Linking a class links its supertypes and then builds and installs its tables.  Whatever is asked
of a linker in whatever order, all that ever happens is that the tables of one class are installed
while those of its supertypes are there already.

`Linker.Installs` says what one such installation does, and `LinkFailure` why there is none.  A
property of stores that building the tables of one class keeps is then kept by linking a class and
its supertypes (`linkWithin_outcome`) and by linking a batch (`linkAll_outcome_of`), whether they
answer or fail.  A property that one installation keeps, for whatever reason, is a `LinkRule`
(`link_outcome`, `linkAll_outcome`).
-/

namespace ClassLinking

namespace Store

/-- Whether a class has its tables. -/
def Linked (s : Store) (c : ClassId) : Prop := (s.getClass c).isLinked = true

instance (s : Store) (c : ClassId) : Decidable (s.Linked c) :=
  inferInstanceAs (Decidable (_ = true))

/-- The classes and interfaces that a class is defined from. -/
def definedFrom (s : Store) (c : ClassId) : List ClassId :=
  (s.getClass c).superclass?.toList ++ (s.getClass c).localInterfaces

/-- What a linked class is defined from is linked. -/
def LinkedUp (s : Store) : Prop := ∀ c, s.Linked c → ∀ p ∈ s.definedFrom c, s.Linked p

variable {s t : Store} {root : Option ClassId} {c p i : ClassId}

theorem linked_iff : s.Linked c ↔ ∃ ts, (s.getClass c).tables = some ts := by
  rw [Linked, Class.isLinked, Option.isSome_iff_exists]

theorem tables_of_not_linked (h : ¬ s.Linked c) : (s.getClass c).tables = none := by
  rw [Linked, Class.isLinked, Bool.not_eq_true, Option.isSome_eq_false_iff,
    Option.isNone_iff_eq_none] at h
  exact h

theorem Linked.hasClass (h : s.Linked c) : s.HasClass c := by
  obtain ⟨ts, hts⟩ := linked_iff.mp h
  exact hasClass_of_tables hts

theorem Linked.grows (h : s.Linked c) (hg : s.Grows t) : t.Linked c := by
  obtain ⟨ts, hts⟩ := linked_iff.mp h
  exact linked_iff.mpr ⟨ts, hg.tables_eq c ts hts⟩

/-- The methods of a linked class keep their dispatch indices. -/
theorem Linked.dispatch_grows (h : s.Linked c) (hg : s.Grows t) (w : s.WellFormed root)
    {m : MethodId} (hm : m ∈ (s.getClass c).methods) :
    (t.getMethod m).dispatch = (s.getMethod m).dispatch := by
  obtain ⟨ts, hts⟩ := linked_iff.mp h
  exact hg.dispatch_eq c ts hts m hm ((w.fits c h.hasClass).methods m hm).1

theorem mem_definedFrom_superclass (hp : (s.getClass c).superclass? = some p) :
    p ∈ s.definedFrom c := by
  simp [definedFrom, hp]

theorem mem_definedFrom_localInterface (hi : i ∈ (s.getClass c).localInterfaces) :
    i ∈ s.definedFrom c :=
  List.mem_append_right _ hi

theorem hasClass_of_mem_definedFrom (w : s.WellFormed root) (hc : s.HasClass c)
    (hp : p ∈ s.definedFrom c) : s.HasClass p := by
  rw [definedFrom, List.mem_append, Option.mem_toList] at hp
  rcases hp with hp | hp
  · exact w.hasClass_superclass hc hp
  · exact w.hasClass_localInterface hc hp

theorem Extends.definedFrom (h : s.Extends t) (hc : s.HasClass c) :
    t.definedFrom c = s.definedFrom c := by
  rw [Store.definedFrom, Store.definedFrom, h.superclass? hc, h.localInterfaces hc]

/-- With the superclass of a class, all of its ancestors are linked. -/
theorem LinkedUp.lineage (hup : s.LinkedUp) (w : s.WellFormed root) :
    ∀ c, s.HasClass c → s.Linked c → ∀ a ∈ s.lineage c, s.Linked a := by
  refine w.superclass_induction fun c hc ih hlinked a ha => ?_
  cases hp : (s.getClass c).superclass? with
  | none =>
    rw [Store.lineage, WellFormed.ancestors_of_top hp, List.mem_singleton] at ha
    exact ha ▸ hlinked
  | some p =>
    rw [w.lineage_of_superclass hc hp, List.mem_cons] at ha
    rcases ha with rfl | ha
    · exact hlinked
    · exact ih p hp (hup c hlinked p (mem_definedFrom_superclass hp)) a ha

/-- If what a class is defined from is linked, everything above it is. -/
theorem LinkedUp.ancestors (hup : s.LinkedUp) (w : s.WellFormed root) (hc : s.HasClass c)
    (hlinked : ∀ p ∈ s.definedFrom c, s.Linked p) {a : ClassId}
    (ha : a ∈ (s.getClass c).ancestors) : s.Linked a := by
  cases hp : (s.getClass c).superclass? with
  | none =>
    rw [WellFormed.ancestors_of_top hp] at ha
    exact absurd ha List.not_mem_nil
  | some p =>
    rw [w.ancestors_of_superclass hc hp] at ha
    exact hup.lineage w p (w.hasClass_superclass hc hp) (hlinked p (mem_definedFrom_superclass hp))
      a ha

/-- If what a class is defined from is linked, all of its interfaces are. -/
theorem LinkedUp.allInterfaces (hup : s.LinkedUp) (w : s.WellFormed root) :
    ∀ c, s.HasClass c → (∀ p ∈ s.definedFrom c, s.Linked p) →
      ∀ i ∈ (s.getClass c).allInterfaces, s.Linked i := by
  refine w.reference_induction fun c hc ih hrefs i hi => ?_
  rcases (w.mem_allInterfaces_iff hc).mp hi with ⟨p, hp, hip⟩ | ⟨j, hj, rfl | hij⟩
  · have hmem := mem_definedFrom_superclass hp
    exact ih p hmem (hup p (hrefs p hmem)) i hip
  · exact hrefs i (mem_definedFrom_localInterface hj)
  · have hmem := mem_definedFrom_localInterface hj
    exact ih j hmem (hup j (hrefs j hmem)) i hij

/-- Nothing is linked before tables are installed. -/
theorem Prepares.linked_iff {d : ClassId} (h : s.Prepares d t) : t.Linked c ↔ s.Linked c := by
  rw [Linked, Linked, h.getClass]

theorem LinkedUp.prepares (hup : s.LinkedUp) {d : ClassId} (h : s.Prepares d t) : t.LinkedUp := by
  intro c hc p hp
  rw [definedFrom, h.getClass] at hp
  rw [h.linked_iff] at hc ⊢
  exact hup c hc p hp

/-! ## What linked classes say about interface calls -/

/-- What an interface call runs is a method. -/
theorem hasMethod_of_implementation? (w : s.WellFormed root) (hc : s.HasClass c) {sel : Selector}
    {m : MethodId} (h : s.implementation? c sel = some m) : s.HasMethod m := by
  rcases mem_of_implementation? h with ⟨k, hk, hm⟩ | hm
  · exact ((w.fits k (w.hasClass_of_mem_lineage hc hk)).methods m hm).1
  · exact ((w.fits c hc).defaults m hm).1

theorem Grows.entryFor (h : s.Grows t) (w : s.WellFormed root) (hc : s.HasClass c) {m : MethodId}
    (hm : s.HasMethod m) : t.entryFor c m = s.entryFor c m := by
  rw [Store.entryFor, Store.entryFor, h.extends.selector hm, h.implementation? w hc]
  cases hfound : s.implementation? c (s.selector m) with
  | none => rfl
  | some x =>
    have hx := hasMethod_of_implementation? w hc hfound
    simp only [entryOf, h.extends.access hx, h.extends.modifiers hx, h.extends.displayName w hx]

/-- The table of a class stays the same, if its interfaces are linked. -/
theorem Grows.interfaceTable (h : s.Grows t) (w : s.WellFormed root) (hc : s.HasClass c)
    (hlinked : ∀ i ∈ (s.getClass c).allInterfaces, s.Linked i) :
    t.interfaceTable c = s.interfaceTable c := by
  refine interfaceTable_congr (h.extends.allInterfaces hc) (fun i hi => ?_) fun i hi m hm => ?_
  · have hic := (hlinked i hi).hasClass
    exact ⟨h.methods hic, h.extends.allInterfaces hic⟩
  · refine ⟨?_, h.entryFor w hc ((w.fits i (hlinked i hi).hasClass).methods m hm).1⟩
    rw [interfaceIndex?, interfaceIndex?, (hlinked i hi).dispatch_grows h w hm]

/-- The methods of a linked interface keep their numbers. -/
theorem Grows.numbered (h : s.Grows t) {ts : Tables} (hts : (s.getClass i).tables = some ts)
    (hhas : ∀ m ∈ (s.getClass i).methods, s.HasMethod m) (hn : Numbered s i) : Numbered t i := by
  have hmethods := h.methods (hasClass_of_tables hts)
  have hindex : ∀ m ∈ (s.getClass i).methods, t.interfaceIndex? m = s.interfaceIndex? m :=
    fun m hm => by rw [interfaceIndex?, interfaceIndex?, h.dispatch_eq i ts hts m hm (hhas m hm)]
  refine ⟨fun m hm index hm' => ?_, fun m hm x hx index hm' hx' => ?_⟩
  · rw [hmethods] at hm
    rw [hindex m hm] at hm'
    rw [h.extends.isBoundStatically (hhas m hm)]
    exact hn.bound m hm index hm'
  · rw [hmethods] at hm hx
    rw [hindex m hm] at hm'
    rw [hindex x hx] at hx'
    exact hn.unique m hm x hx index hm' hx'

end Store

namespace Linker

/-! ## One class -/

/-- The tables that `c` has in `s` are what building them in `l` has yielded. -/
structure LaysOut (l : Linker) (s : Store) (c : ClassId) (size : VTableSize)
    (layout : VTableLayout) (itable : ITable) (f : Fill) : Prop where
  sized : l.store.vtableSize l.config c = .ok size
  built : layout.Built l.fillEnv c size s f
  tables : (s.getClass c).tables =
    some ⟨layout.table, layout.defaultSlots, layout.mirandas, itable⟩
  indexes : (l.store.getClass c).isInterface = false →
    Indexes f (l.store.getClass c).methods s
  numbered : (l.store.getClass c).isInterface = true → itable = .empty ∧ Numbered s c
  bound : (l.store.getClass c).isInterface = false → itable = l.store.interfaceTable c
  mirandas : ∀ j m, layout.mirandas[j]? = some m →
    (∀ d, m ∉ (s.getClass d).methods) ∧ (s.getMethod m).dispatch = .virtual (f.used + j)
  renumbered : (l.store.getClass c).isInterface = true → ∃ u, l.store.Prepares c u ∧
    Indexes f (l.store.getClass c).methods u ∧ ∀ m ∈ (l.store.getClass c).methods,
      (s.getMethod m).dispatch = u.numberedDispatch c m

/-- The tables of `c` were built in `l` and installed, which leads to `t`. -/
structure Installs (l t : Linker) (c : ClassId) : Prop where
  continues : l.Continues t
  grows : l.store.Grows t.store
  others : ∀ d, d ≠ c → t.store.getClass d = l.store.getClass d
  size_eq : t.store.classes.size = l.store.classes.size
  tables : ∃ size layout itable f, l.LaysOut t.store c size layout itable f
  /-- The class was counted, with the sizes of its tables. -/
  statistics : t.statistics = l.statistics.recordClass (t.store.getClass c).vtableLength
    (t.store.getClass c).mirandas.length (t.store.getClass c).itableWords

/-- Why the tables of `c` are not built in `l`. -/
inductive LinkFailure (l : Linker) (c : ClassId) : LinkError → Prop where
  | root (name : String) (expected actual : Nat) :
    LinkFailure l c (.invalidRoot name expected actual)
  | vtable (size : VTableSize) (e : LinkError) : l.store.vtableSize l.config c = .ok size →
    VTableFailure l.fillEnv c size e → LinkFailure l c e
  | conflict (e : LinkError) : e.IsConflict → LinkFailure l c e

variable {l : Linker} {root : Option ClassId} {c : ClassId}

/-- The class is not linked, and what it is defined from is. -/
structure Ready (s : Store) (c : ClassId) : Prop where
  hasClass : s.HasClass c
  unlinked : ¬ s.Linked c
  definedFrom : ∀ p ∈ s.definedFrom c, s.Linked p

/-- Sizing the table of a class whose superclass is linked fails only for a root of another size. -/
theorem Ready.vtableSize_error {s : Store} {config : Config} {e : LinkError} (h : Ready s c)
    (he : s.vtableSize config c = .error e) :
    ∃ name expected actual, e = .invalidRoot name expected actual := by
  refine (Store.vtableSize_error he).resolve_left fun hlen => ?_
  unfold Store.inheritedLength at hlen
  split at hlen
  · cases hlen
  · rename_i p hp
    obtain ⟨ts, hts⟩ :=
      Store.linked_iff.mp (h.definedFrom p (Store.mem_definedFrom_superclass hp))
    rw [hts] at hlen
    cases hlen

/-- Putting tables in is the last step of linking a class. -/
theorem install_outcome {u : Linker} (hprep : l.Prepares c u) (h : Ready l.store c) (ts : Tables) :
    Outcome (install c ts) u
      (fun _ t => l.Continues t ∧ t.statistics = l.statistics.recordClass ts.vtable.length
        ts.mirandas.length ts.itable.words ∧
        t.store = u.store.modifyClass c fun k => { k with tables := some ts })
      (fun _ _ => False) := by
  unfold install
  have hunlinked : (u.store.getClass c).isLinked = false := by
    rw [hprep.store.getClass]
    exact Bool.not_eq_true _ ▸ h.unlinked
  simp only [outcome_bind, outcome_get, outcome_ite, outcome_modify, outcome_trace, hunlinked,
    Bool.false_eq_true, false_implies, not_false_eq_true, true_implies, true_and]
  have hcontinues := hprep.continues
  rw [← hprep.statistics]
  split
  · exact ⟨{ hcontinues with }, rfl, rfl⟩
  · exact ⟨{ hcontinues with }, rfl, rfl⟩

/-- Tables go into a store that grows by nothing else. -/
theorem grows_of_install {s u : Store} (hprep : s.Prepares c u) (w : s.WellFormed root)
    (h : Ready s c) (ts : Tables) :
    s.Grows (u.modifyClass c fun k => { k with tables := some ts }) :=
  { hprep.grows w (Store.tables_of_not_linked h.unlinked) with
    classes_le := by rw [Store.size_modifyClass, hprep.classes_eq]
    class_eq := fun d _ => by
      rw [Store.getClass_modifyClass, hprep.getClass]
      split
      · rfl
      · rfl
    tables_eq := fun d ts' hts' => by
      have hne : c ≠ d := fun hcd => h.unlinked (Store.linked_iff.mpr ⟨ts', hcd ▸ hts'⟩)
      rw [Store.getClass_modifyClass_of_ne _ _ _ _ hne, hprep.getClass, hts']
    undeclared := fun m hm hnot => by
      refine ⟨fun d => ?_, hprep.dispatch_eq m hm (hnot c)⟩
      rw [Store.getClass_modifyClass, hprep.getClass]
      split
      · exact hnot d
      · exact hnot d }

/-- A class that is ready is ready as long as no tables are installed. -/
theorem Ready.prepares {s u : Store} (h : Ready s c) (hprep : s.Prepares c u) : Ready u c where
  hasClass := hprep.hasClass.mpr h.hasClass
  unlinked := mt hprep.linked_iff.mp h.unlinked
  definedFrom := fun p hp => by
    rw [Store.definedFrom, hprep.getClass] at hp
    exact hprep.linked_iff.mpr (h.definedFrom p hp)

/-- A bound entry holds a method of the superclass chain or a default of the class. -/
theorem LaysOut.mem_of_bound {s : Store} {size : VTableSize} {layout : VTableLayout}
    {itable : ITable} {f : Fill} (h : l.LaysOut s c size layout itable f) {m : MethodId}
    (hm : .bound m ∈ itable.entries) :
    (∃ k ∈ l.store.lineage c, m ∈ (l.store.getClass k).methods) ∨
      m ∈ (l.store.getClass c).defaults := by
  cases hint : (l.store.getClass c).isInterface with
  | true =>
    rw [(h.numbered hint).1] at hm
    exact absurd hm List.not_mem_nil
  | false =>
    rw [h.bound hint] at hm
    obtain ⟨x, hx⟩ := Store.entryFor_of_bound hm
    exact Store.mem_of_implementation? (Store.entryOf_eq_bound hx).1

/-- What building yields stands in the tables once they are installed. -/
theorem laysOut_install (w : l.store.WellFormed root) (hup : l.store.LinkedUp)
    (h : Ready l.store c) {size : VTableSize} {layout : VTableLayout} {itable : ITable} {f : Fill}
    {u v : Linker} {ts : Tables}
    (hts : ts = ⟨layout.table, layout.defaultSlots, layout.mirandas, itable⟩)
    (hsize : l.store.vtableSize l.config c = .ok size) (hprep : l.Prepares c u)
    (hbuilt : layout.Built l.fillEnv c size u.store f)
    (hindexes : Indexes f (l.store.getClass c).methods u.store)
    (hmirandas : ∀ j m, layout.mirandas[j]? = some m →
      (u.store.getMethod m).dispatch = .virtual (f.used + j)) (hprep' : u.Prepares c v)
    (hitable : if (u.store.getClass c).isInterface then itable = .empty ∧ Numbered v.store c ∧
        ∀ m ∈ (u.store.getClass c).methods,
          (v.store.getMethod m).dispatch = u.store.numberedDispatch c m
      else v.store = u.store ∧ itable = u.store.interfaceTable c) :
    l.LaysOut (v.store.modifyClass c fun k => { k with tables := some ts }) c size layout itable
      f := by
  have hready := h.prepares hprep.store
  have hgrows := grows_of_install hprep'.store (hprep.store.wellFormed w) hready ts
  have hclass : v.store.HasClass c := hprep'.store.hasClass.mpr hready.hasClass
  rw [hprep.store.getClass] at hitable
  have hplaceholder : ∀ j m, layout.mirandas[j]? = some m →
      u.store.HasMethod m ∧ ∀ d, m ∉ (u.store.getClass d).methods := fun j m hm => by
    obtain ⟨x, -, hx⟩ := hbuilt.placeholder_at hm
    refine ⟨hx.hasMethod, fun d hmd => hx.isNew ?_⟩
    rw [hprep.store.getClass] at hmd
    exact ((w.fits d (Store.hasClass_of_mem_methods hmd)).methods m hmd).1
  refine ⟨hsize, hbuilt.extends hgrows.extends, ?_, fun hint => ?_, fun hint => ?_, fun hint => ?_,
    fun j m hm => ?_, fun hint => ?_⟩
  · rw [Store.getClass_modifyClass_self _ _ _ hclass, hts]
  · rw [if_neg (by simp [hint])] at hitable
    exact hitable.1 ▸ hindexes
  · rw [if_pos hint] at hitable
    refine ⟨hitable.1, ?_⟩
    have hnumbered := hitable.2.1
    have hmethods : ((v.store.modifyClass c fun k => { k with tables := some ts }).getClass
        c).methods = (v.store.getClass c).methods := by
      rw [Store.getClass_modifyClass_self _ _ _ hclass]
    exact ⟨hmethods ▸ hnumbered.bound, hmethods ▸ hnumbered.unique⟩
  · rw [if_neg (by simp [hint])] at hitable
    rw [hitable.2]
    exact (hprep.store.grows w (Store.tables_of_not_linked h.unlinked)).interfaceTable w h.hasClass
      (hup.allInterfaces w c h.hasClass h.definedFrom)
  · obtain ⟨hhas, hnot⟩ := hplaceholder j m hm
    obtain ⟨hnot', hdispatch⟩ := hgrows.undeclared m hhas hnot
    exact ⟨hnot', hdispatch.trans (hmirandas j m hm)⟩
  · rw [if_pos hint] at hitable
    exact ⟨u.store, hprep.store, hindexes, hitable.2.2⟩

/-- Filling a virtual table gives no declared method a number. -/
theorem interfaceIndex?_of_built {s s' : Store} {size : VTableSize} {layout : VTableLayout}
    {f : Fill} (hbuilt : layout.Built l.fillEnv c size s f)
    (hindexes : Indexes f (l.store.getClass c).methods s') {m : MethodId}
    (hm : m ∈ (l.store.getClass c).methods) : s'.interfaceIndex? m = none := by
  obtain ⟨index, hindex, hnone⟩ := hbuilt.placed.exists_lastIndex
    (p := l.fillEnv.placement c m false) (List.mem_append_left _ (List.mem_map_of_mem hm)) rfl
  change f.lastIndex? m = some index at hindex
  rw [hindexes m hm, Option.some.injEq] at hindex
  rw [Store.interfaceIndex?, hindex, hnone]

/-- With its virtual table built, a class meets what building the interface table relies on. -/
theorem Ready.built {u : Linker} (h : Ready l.store c) (hprep : l.Prepares c u)
    (w : l.store.WellFormed root) (hup : l.store.LinkedUp) {size : VTableSize}
    {layout : VTableLayout} {f : Fill} (hbuilt : layout.Built l.fillEnv c size u.store f)
    (hindexes : Indexes f (l.store.getClass c).methods u.store) :
    (∀ i ∈ (u.store.getClass c).allInterfaces, (u.store.getClass i).isLinked = true) ∧
      ∀ m ∈ (u.store.getClass c).methods, u.store.interfaceIndex? m = none := by
  refine ⟨fun i hi => ?_, fun m hm =>
    interfaceIndex?_of_built hbuilt hindexes (hprep.store.getClass c ▸ hm)⟩
  rw [hprep.store.getClass] at hi ⊢
  exact hup.allInterfaces w c h.hasClass h.definedFrom i hi

/-- A class whose supertypes are linked gets its tables or is left as it was. -/
theorem buildTables_outcome (w : l.store.WellFormed root) (hup : l.store.LinkedUp)
    (h : Ready l.store c) :
    Outcome (buildTables c) l (fun _ t => l.Installs t c ∧ t.store.WellFormed root)
      (fun e t => l.Prepares c t ∧ l.LinkFailure c e) := by
  unfold buildTables
  simp only [outcome_bind, outcome_get, outcome_ofExcept]
  refine ⟨fun size hsize => ?_, fun e he => ⟨.refl l c, ?_⟩⟩
  · obtain ⟨hinherited, hlength⟩ := Store.vtableSize_ok hsize
    refine (buildVTable_outcome w h.hasClass hinherited (by omega)).imp (fun layout u hu => ?_)
      (fun e t he => ⟨he.1, .vtable size e hsize he.2⟩)
    obtain ⟨hprep, f, hbuilt, hindexes, hmirandas⟩ := hu
    obtain ⟨hlinked, hfresh⟩ := h.built hprep w hup hbuilt hindexes
    refine (buildITable_outcome (hprep.store.wellFormed w) hlinked hfresh).imp
      (fun itable v hv => ?_) (fun e t he => ⟨hprep.trans he.1, .conflict e he.2⟩)
    obtain ⟨hprep', hitable⟩ := hv
    have hprep_v := hprep.trans hprep'
    refine (install_outcome hprep_v h _).imp (fun _ t ht => ?_) (fun _ _ he => he.elim)
    obtain ⟨hcont, hstatistics, hstore⟩ := ht
    have hgrows := grows_of_install hprep_v.store w h
      ⟨layout.table, layout.defaultSlots, layout.mirandas, itable⟩
    have hsame : ∀ f, (v.store.modifyClass c f).classes.size = l.store.classes.size := fun f => by
      rw [Store.size_modifyClass, hprep_v.store.classes_eq]
    constructor
    · have hlaid : l.LaysOut t.store c size layout itable f :=
        hstore ▸ laysOut_install w hup h rfl hsize hprep hbuilt hindexes hmirandas hprep' hitable
      refine ⟨hcont, hstore ▸ hgrows, fun d hd => ?_, hstore ▸ hsame _,
        ⟨size, layout, itable, f, hlaid⟩, ?_⟩
      · rw [hstore, Store.getClass_modifyClass_of_ne _ _ _ _ (Ne.symm hd), hprep_v.store.getClass]
      · rw [hstatistics, Class.vtableLength, Class.mirandas, Class.itableWords, hlaid.tables]
        rfl
    · rw [hstore]
      exact w.of_extends hgrows.extends (fun d hd => hgrows.methods hd)
        (fun d hd => hgrows.defaults hd) (hsame _) hprep_v.store.new_held
  · obtain ⟨name, expected, actual, rfl⟩ := h.vtableSize_error he
    exact .root name expected actual

/-! ## A class and its supertypes -/

/-- What holds of a store throughout linking with the given settings: `I` is kept by one
installation, and every failure is an `E`. -/
structure LinkRule (root : Option ClassId) (config : Config) (I : Store → Prop)
    (E : LinkError → Prop) : Prop where
  prepares : ∀ s t c, s.WellFormed root → I s → Ready s c → s.Prepares c t → I t
  installs : ∀ (l t : Linker) (c : ClassId), l.config = config → l.store.WellFormed root →
    l.store.LinkedUp → I l.store → Ready l.store c → l.Installs t c → t.store.WellFormed root →
      I t.store
  fails : ∀ (l : Linker) (c : ClassId) (e : LinkError), l.config = config →
    l.store.WellFormed root → l.store.LinkedUp → I l.store → Ready l.store c →
      l.LinkFailure c e → E e
  tooDeep : ∀ max, E (.hierarchyTooDeep max)

/-- Linking has led from `l` to `t`, and `I` holds there. -/
structure Reaches (root : Option ClassId) (I : Store → Prop) (l t : Linker) : Prop where
  continues : l.Continues t
  grows : l.store.Grows t.store
  size_eq : t.store.classes.size = l.store.classes.size
  wellFormed : t.store.WellFormed root
  linkedUp : t.store.LinkedUp
  holds : I t.store
  /-- Counters that are right stay right. -/
  counted : ∀ n, Counted n l → Counted n t

variable {config : Config} {I : Store → Prop} {E : LinkError → Prop}
  {F : LinkError → Linker → Prop}

theorem Reaches.refl (w : l.store.WellFormed root) (hup : l.store.LinkedUp) (hI : I l.store) :
    Reaches root I l l :=
  ⟨.refl l, .refl _, rfl, w, hup, hI, fun _ => id⟩

theorem Reaches.trans {t u : Linker} (h : Reaches root I l t) (h' : Reaches root I t u) :
    Reaches root I l u :=
  { h' with
    continues := h.continues.trans h'.continues
    grows := h.grows.trans h'.grows
    size_eq := h'.size_eq.trans h.size_eq
    counted := fun n hn => h'.counted n (h.counted n hn) }

/-- Linking leaves the lists of methods alone. -/
theorem Reaches.methods {t : Linker} (h : Reaches root I l t) (c : ClassId) :
    (t.store.getClass c).methods = (l.store.getClass c).methods := by
  by_cases hc : l.store.HasClass c
  · exact h.grows.methods hc
  · rw [Store.getClass_of_not hc, Store.getClass_of_not (by rwa [Store.HasClass, h.size_eq])]

/-- A class is ready as soon as what it is defined from is linked. -/
theorem Reaches.ready {t : Linker} (h : Reaches root I l t) (hc : l.store.HasClass c)
    (hlinked : ∀ p ∈ l.store.definedFrom c, t.store.Linked p) (hunlinked : ¬ t.store.Linked c) :
    Ready t.store c where
  hasClass := h.grows.hasClass hc
  unlinked := hunlinked
  definedFrom := fun p hp => hlinked p (by rwa [h.grows.extends.definedFrom hc] at hp)

theorem Installs.linked {t : Linker} (h : l.Installs t c) : t.store.Linked c := by
  obtain ⟨_, _, _, _, hlaid⟩ := h.tables
  exact Store.linked_iff.mpr ⟨_, hlaid.tables⟩

/-- What the class is defined from was linked before, so this stays so. -/
theorem Installs.linkedUp {t : Linker} (h : l.Installs t c) (hup : l.store.LinkedUp)
    (hready : Ready l.store c) : t.store.LinkedUp := fun d hd p hp => by
  by_cases hdc : d = c
  · subst hdc
    rw [h.grows.extends.definedFrom hready.hasClass] at hp
    exact (hready.definedFrom p hp).grows h.grows
  · rw [Store.definedFrom, h.others d hdc] at hp
    rw [Store.Linked, h.others d hdc] at hd
    exact (hup d hd p hp).grows h.grows

/-- Interfaces own no interface table, and every other class owns one. -/
theorem Installs.itableWords_eq_zero_iff {t : Linker} (h : l.Installs t c)
    (hready : Ready l.store c) :
    (t.store.getClass c).itableWords = 0 ↔ (t.store.getClass c).isInterface = true := by
  obtain ⟨size, layout, itable, f, hlaid⟩ := h.tables
  rw [h.grows.extends.isInterface hready.hasClass, Class.itableWords, hlaid.tables]
  show itable.words = 0 ↔ _
  cases hint : (l.store.getClass c).isInterface with
  | true =>
    rw [(hlaid.numbered hint).1]
    exact iff_of_true rfl rfl
  | false =>
    rw [hlaid.bound hint]
    exact iff_of_false (l.store.words_interfaceTable_ne c) Bool.false_ne_true

/-- A class that is linked is counted, once. -/
theorem Installs.counted {t : Linker} (h : l.Installs t c) (hready : Ready l.store c) {n : Nat}
    (hn : Counted n l) : Counted n t :=
  hn.installs h.others ((Bool.not_eq_true _).mp hready.unlinked) h.linked
    (h.itableWords_eq_zero_iff hready) h.statistics

theorem Installs.reaches {t : Linker} (h : l.Installs t c) (w : t.store.WellFormed root)
    (hup : l.store.LinkedUp) (hready : Ready l.store c) (hI : I t.store) : Reaches root I l t :=
  ⟨h.continues, h.grows, h.size_eq, w, h.linkedUp hup hready, hI, fun _ => h.counted hready⟩

/-- A failed installation leaves the tables as they were. -/
theorem Prepares.reaches {t : Linker} (h : l.Prepares c t) (w : l.store.WellFormed root)
    (hup : l.store.LinkedUp) (hready : Ready l.store c) (hI : I t.store) : Reaches root I l t :=
  ⟨h.continues, h.store.grows w (Store.tables_of_not_linked hready.unlinked),
    by rw [h.store.classes_eq], h.store.wellFormed w, hup.prepares h.store, hI, fun _ hn =>
      hn.of_sameSizes (fun d => h.store.getClass d ▸ .refl _) h.statistics⟩

/-- Building keeps what a rule says that it keeps. -/
theorem LinkRule.builds (rule : LinkRule root config I E) {t : Linker} (hconfig : t.config = config)
    (w : t.store.WellFormed root) (hup : t.store.LinkedUp) (hI : I t.store)
    (hready : Ready t.store c) :
    Outcome (buildTables c) t (fun _ u => I u.store) (fun e u => E e ∧ I u.store) :=
  (buildTables_outcome w hup hready).imp
    (fun _ u hu => rule.installs t u c hconfig w hup hI hready hu.1 hu.2)
    (fun e _ hu => ⟨rule.fails t c e hconfig w hup hI hready hu.2,
      rule.prepares _ _ c w hI hready hu.1.store⟩)

/-- Linking a class links what it is defined from first, one after the other. -/
theorem forM_outcome {f : ClassId → LinkM Unit} {cs : List ClassId}
    (w : l.store.WellFormed root) (hup : l.store.LinkedUp) (hI : I l.store)
    (hcs : ∀ c ∈ cs, l.store.HasClass c)
    (hf : ∀ t, Reaches root I l t → ∀ c ∈ cs, Outcome (f c) t
      (fun _ u => u.store.Linked c ∧ Reaches root I t u) (fun e u => F e u ∧ Reaches root I t u)) :
    Outcome (cs.forM f) l (fun _ t => (∀ c ∈ cs, t.store.Linked c) ∧ Reaches root I l t)
      (fun e t => F e t ∧ Reaches root I l t) := by
  induction cs generalizing l with
  | nil => exact ⟨fun c hc => absurd hc List.not_mem_nil, .refl w hup hI⟩
  | cons c cs ih =>
    change Outcome (f c >>= fun _ => cs.forM f) l _ _
    rw [outcome_bind]
    refine (hf l (.refl w hup hI) c List.mem_cons_self).imp (fun _ t ht => ?_) (fun _ _ he => he)
    obtain ⟨hlinked, hreach⟩ := ht
    refine (ih hreach.wellFormed hreach.linkedUp hreach.holds
      (fun d hd => hreach.grows.hasClass (hcs d (List.mem_cons_of_mem _ hd)))
      (fun u hu d hd => hf u (hreach.trans hu) d (List.mem_cons_of_mem _ hd))).imp
      (fun _ u hu => ⟨fun d hd => ?_, hreach.trans hu.2⟩) (fun _ u hu => ⟨hu.1, hreach.trans hu.2⟩)
    rcases List.mem_cons.mp hd with rfl | hd
    · exact hlinked.grows hu.2.grows
    · exact hu.1 d hd

section Budget

variable {t : Linker} {Q : ClassId → Prop} (w : l.store.WellFormed root)
  (hQ : ∀ c, l.store.HasClass c → Q c → ∀ p ∈ l.store.definedFrom c, Q p)
  (hdeep : ∀ t max, Reaches root I l t → F (.hierarchyTooDeep max) t)
  (hbuild : ∀ t c, Reaches root I l t → Q c → Ready t.store c →
    Outcome (buildTables c) t (fun _ u => I u.store) (fun e u => F e u ∧ I u.store))
include w hQ hdeep hbuild

/-- **Linking keeps what building keeps.**  It started in `l` and has come to `t`, and it gets to
classes of `Q` only.  The induction is on the budget, which bounds the supertypes that are linked
one inside the other. -/
theorem linkWithin_outcome (budget : Nat) (h : Reaches root I l t) (hc : l.store.HasClass c)
    (hq : Q c) :
    Outcome (linkWithin budget c) t (fun _ u => u.store.Linked c ∧ Reaches root I t u)
      (fun e u => F e u ∧ Reaches root I t u) := by
  induction budget generalizing t c with
  | zero => exact ⟨hdeep t _ h, .refl h.wellFormed h.linkedUp h.holds⟩
  | succ budget ih =>
    have hrefl : Reaches root I t t := .refl h.wellFormed h.linkedUp h.holds
    unfold linkWithin
    simp only [outcome_bind, outcome_get, outcome_ite, outcome_pure]
    refine ⟨fun hlinked => ⟨hlinked, hrefl⟩, fun _ => ?_⟩
    have hdefined := h.grows.extends.definedFrom hc
    have hrefs : ∀ p ∈ t.store.definedFrom c, l.store.HasClass p ∧ Q p := fun p hp => by
      rw [hdefined] at hp
      exact ⟨Store.hasClass_of_mem_definedFrom w hc hp, hQ c hc hq p hp⟩
    refine (forM_outcome h.wellFormed h.linkedUp h.holds
      (fun p hp => h.grows.hasClass (hrefs p hp).1) fun u hu p hp =>
        ih (h.trans hu) (hrefs p hp).1 (hrefs p hp).2).imp
      (fun _ u hu => ⟨fun hlinked => ⟨hlinked, hu.2⟩, fun hunlinked => ?_⟩) (fun _ _ he => he)
    obtain ⟨hlinked, hreach⟩ := hu
    have hready := hreach.ready (h.grows.hasClass hc) hlinked hunlinked
    exact ((buildTables_outcome hreach.wellFormed hreach.linkedUp hready).and
      (hbuild u c (h.trans hreach) hq hready)).imp
      (fun _ v hv => ⟨hv.1.1.linked,
        hreach.trans (hv.1.1.reaches hv.1.2 hreach.linkedUp hready hv.2)⟩)
      (fun e v hv => ⟨hv.2.1,
        hreach.trans (hv.1.1.reaches hreach.wellFormed hreach.linkedUp hready hv.2.2)⟩)

theorem ensureLinked_outcome_of (h : Reaches root I l t) (hc : l.store.HasClass c) (hq : Q c) :
    Outcome (ensureLinked c) t (fun _ u => u.store.Linked c ∧ Reaches root I t u)
      (fun e u => F e u ∧ Reaches root I t u) := by
  unfold ensureLinked
  simp only [outcome_bind, outcome_get]
  exact linkWithin_outcome w hQ hdeep hbuild _ h hc hq

end Budget

/-- Linking under a rule. -/
theorem ensureLinked_outcome (rule : LinkRule root config I E) (hconfig : l.config = config)
    (w : l.store.WellFormed root) (hup : l.store.LinkedUp) (hI : I l.store)
    (hc : l.store.HasClass c) :
    Outcome (ensureLinked c) l (fun _ t => t.store.Linked c ∧ Reaches root I l t)
      (fun e t => E e ∧ Reaches root I l t) :=
  ensureLinked_outcome_of (F := fun e _ => E e) (Q := fun _ => True) w
    (fun _ _ _ _ _ => trivial) (fun _ max _ => rule.tooDeep max)
    (fun _ _ ht _ hready => rule.builds (ht.continues.config.trans hconfig) ht.wellFormed
      ht.linkedUp ht.holds hready)
    (.refl w hup hI) hc trivial

/-- Recording something changes neither the store nor the settings nor the counters. -/
theorem Reaches.of_same {t u : Linker} (h : Reaches root I l t) (hstore : u.store = t.store)
    (hcontinues : t.Continues u) (hstatistics : u.statistics = t.statistics) :
    Reaches root I l u where
  continues := h.continues.trans hcontinues
  grows := hstore ▸ h.grows
  size_eq := hstore ▸ h.size_eq
  wellFormed := hstore ▸ h.wellFormed
  linkedUp := hstore ▸ h.linkedUp
  holds := hstore ▸ h.holds
  counted := fun n hn =>
    (h.counted n hn).of_sameSizes (fun _ => hstore ▸ .refl _) hstatistics

/-- Linking a class that must not be linked yet. -/
theorem link_outcome (rule : LinkRule root config I E) (hconfig : l.config = config)
    (w : l.store.WellFormed root) (hup : l.store.LinkedUp) (hI : I l.store)
    (hc : l.store.HasClass c) :
    Outcome (link c) l (fun _ t => t.store.Linked c ∧ Reaches root I l t)
      (fun e t => (E e ∨ ∃ name, e = .alreadyLinked name) ∧ Reaches root I l t) := by
  unfold link
  simp only [outcome_bind, outcome_get, outcome_ite, outcome_throw, outcome_attempt]
  refine ⟨fun _ => ⟨Or.inr ⟨_, rfl⟩, .refl w hup hI⟩, fun _ => ?_⟩
  refine (ensureLinked_outcome rule hconfig w hup hI hc).imp (fun _ t ht => ?_) (fun e t he => ?_)
  · exact ht
  · exact ⟨Or.inl he.1, he.2.of_same rfl ⟨rfl, rfl, rfl, rfl⟩ rfl⟩

/-! ## Batches -/

/-- A list of computations fails only as one of them does. -/
theorem mapM_outcome {ε σ α β : Type} {f : α → EStateM ε σ β} {xs : List α} {F : ε → Prop}
    (h : ∀ x ∈ xs, ∀ s, Outcome (f x) s (fun _ _ => True) (fun e _ => F e)) (s : σ) :
    Outcome (xs.mapM f) s (fun _ _ => True) (fun e _ => F e) := by
  induction xs generalizing s with
  | nil => exact trivial
  | cons x xs ih =>
    rw [List.mapM_cons]
    simp only [outcome_bind, outcome_pure]
    exact (h x List.mem_cons_self s).imp
      (fun _ t _ => ih (fun y hy => h y (List.mem_cons_of_mem _ hy)) t) (fun _ _ he => he)

theorem heightWithin_outcome (s : Store) (max budget : Nat) (c : ClassId) (heights : Heights) :
    Outcome (heightWithin s max budget c) heights (fun _ _ => True)
      (fun e _ => e = .hierarchyTooDeep max) := by
  induction budget generalizing c heights with
  | zero => exact rfl
  | succ budget ih =>
    unfold heightWithin
    simp only [outcome_bind, outcome_get]
    cases heights.lookup (s.getClass c).token with
    | some height => exact trivial
    | none =>
      simp only [outcome_bind, outcome_modify, outcome_pure]
      exact mapM_outcome (fun p _ heights => ih p heights) heights

/-- A batch is scheduled without anything that is not in it. -/
theorem scheduleFrom_outcome (s : Store) (max : Nat) (scheduled : List Token)
    (batch : List ClassId) (heights : Heights) :
    Outcome (scheduleFrom s max scheduled batch) heights
      (fun schedule _ => ∀ entry ∈ schedule, entry.1 ∈ batch)
      (fun e _ => e = .hierarchyTooDeep max) := by
  induction batch generalizing scheduled heights with
  | nil => exact fun entry hentry => absurd hentry List.not_mem_nil
  | cons c rest ih =>
    unfold scheduleFrom
    simp only [outcome_ite, outcome_bind, outcome_pure]
    refine ⟨fun _ => (ih scheduled heights).imp (fun schedule _ h entry hentry =>
      List.mem_cons_of_mem _ (h entry hentry)) (fun _ _ he => he), fun _ => ?_⟩
    refine (heightWithin_outcome s max (max + 1) c heights).imp (fun height heights' _ => ?_)
      (fun _ _ he => he)
    refine (ih _ heights').imp (fun schedule _ h entry hentry => ?_) (fun _ _ he => he)
    rcases List.mem_cons.mp hentry with rfl | hentry
    · exact List.mem_cons_self
    · exact List.mem_cons_of_mem _ (h entry hentry)

theorem mem_of_mem_levels {schedule : List (ClassId × Nat)} {level : List ClassId}
    (h : level ∈ levels schedule) (hc : c ∈ level) : ∃ entry ∈ schedule, entry.1 = c := by
  unfold levels at h
  obtain ⟨n, -, rfl⟩ := List.mem_map.mp h
  obtain ⟨entry, hentry, rfl⟩ := List.mem_map.mp hc
  exact ⟨entry, (List.mem_filter.mp hentry).1, rfl⟩

/-- The classes of a level are linked one after the other, also after one of them has failed. -/
theorem linkLevel_outcome {level : List ClassId}
    (hkeep : ∀ e t u, F e t → Reaches root I t u → F e u) (w : l.store.WellFormed root)
    (hup : l.store.LinkedUp) (hI : I l.store)
    (hlink : ∀ t, Reaches root I l t → ∀ c ∈ level, Outcome (ensureLinked c) t
      (fun _ u => Reaches root I t u) (fun e u => F e u ∧ Reaches root I t u)) :
    Outcome (linkLevel level) l (fun failure t => (∀ e, failure = some e → F e t) ∧
      Reaches root I l t) (fun _ _ => False) := by
  induction level generalizing l with
  | nil => exact ⟨fun e he => absurd he (by simp), .refl w hup hI⟩
  | cons c rest ih =>
    unfold linkLevel
    simp only [outcome_bind, outcome_attempt]
    have hrest : ∀ t, Reaches root I l t → Outcome (linkLevel rest) t
        (fun later u => (∀ e, later = some e → F e u) ∧ Reaches root I t u)
        (fun _ _ => False) := fun t ht =>
      ih ht.wellFormed ht.linkedUp ht.holds
        fun u hu d hd => hlink u (ht.trans hu) d (List.mem_cons_of_mem _ hd)
    refine (hlink l (.refl w hup hI) c List.mem_cons_self).imp (fun _ t ht => ?_)
      (fun e t ht => ?_)
    · exact (hrest t ht).imp (fun _ _ hu => ⟨hu.1, ht.trans hu.2⟩) (fun _ _ h => h)
    · refine (hrest t ht.2).imp (fun later u hu => ⟨fun e' he' => ?_, ht.2.trans hu.2⟩)
        (fun _ _ h => h)
      cases he'
      exact hkeep e t u ht.1 hu.2

theorem linkLevels_outcome {levels : List (List ClassId)}
    (hkeep : ∀ e t u, F e t → Reaches root I t u → F e u) (w : l.store.WellFormed root)
    (hup : l.store.LinkedUp) (hI : I l.store)
    (hlink : ∀ t, Reaches root I l t → ∀ level ∈ levels, ∀ c ∈ level, Outcome (ensureLinked c) t
      (fun _ u => Reaches root I t u) (fun e u => F e u ∧ Reaches root I t u)) :
    Outcome (linkLevels levels) l (fun _ t => Reaches root I l t)
      (fun e t => F e t ∧ Reaches root I l t) := by
  induction levels generalizing l with
  | nil => exact .refl w hup hI
  | cons level rest ih =>
    unfold linkLevels
    simp only [outcome_bind]
    refine (linkLevel_outcome hkeep w hup hI fun t ht => hlink t ht level List.mem_cons_self).imp
      (fun failure t ht => ?_) (fun _ _ h => h.elim)
    cases failure with
    | some e => exact ⟨ht.1 e rfl, ht.2⟩
    | none =>
      have hreach := ht.2
      simp only [outcome_bind, outcome_pure]
      exact (ih hreach.wellFormed hreach.linkedUp hreach.holds fun u hu level hlevel =>
        hlink u (hreach.trans hu) level (List.mem_cons_of_mem _ hlevel)).imp
        (fun _ u hu => hreach.trans hu) (fun _ u hu => ⟨hu.1, hreach.trans hu.2⟩)

/-- Linking a batch keeps what linking one of its classes keeps. -/
theorem linkAll_outcome_of {batch : List ClassId} (hdeep : ∀ max, F (.hierarchyTooDeep max) l)
    (hkeep : ∀ e t u, F e t → Reaches root I t u → F e u)
    (w : l.store.WellFormed root) (hup : l.store.LinkedUp) (hI : I l.store)
    (hlink : ∀ t, Reaches root I l t → ∀ c ∈ batch, Outcome (ensureLinked c) t
      (fun _ u => Reaches root I t u) (fun e u => F e u ∧ Reaches root I t u)) :
    Outcome (linkAll batch) l (fun _ t => Reaches root I l t)
      (fun e t => F e t ∧ Reaches root I l t) := by
  have hschedule := scheduleFrom_outcome l.store l.config.maxHierarchyDepth [] batch []
  unfold linkAll
  simp only [outcome_bind, outcome_get]
  unfold Outcome at hschedule
  rw [EStateM.run]
  split at hschedule
  · rename_i schedule heights hrun
    rw [hrun]
    refine linkLevels_outcome hkeep w hup hI fun t ht level hlevel c hc => ?_
    obtain ⟨entry, hentry, rfl⟩ := mem_of_mem_levels hlevel hc
    exact hlink t ht _ (hschedule entry hentry)
  · rename_i e heights hrun
    rw [hrun, hschedule]
    exact ⟨hdeep _, .refl w hup hI⟩

/-- Linking a batch. -/
theorem linkAll_outcome (rule : LinkRule root config I E) {batch : List ClassId}
    (hconfig : l.config = config) (w : l.store.WellFormed root) (hup : l.store.LinkedUp)
    (hI : I l.store) (hbatch : ∀ c ∈ batch, l.store.HasClass c) :
    Outcome (linkAll batch) l (fun _ t => Reaches root I l t)
      (fun e t => E e ∧ Reaches root I l t) :=
  linkAll_outcome_of (F := fun e _ => E e) rule.tooDeep (fun _ _ _ he _ => he) w hup hI
    fun _ ht c hc =>
    (ensureLinked_outcome rule (ht.continues.config.trans hconfig) ht.wellFormed ht.linkedUp
      ht.holds (ht.grows.hasClass (hbatch c hc))).imp (fun _ _ hu => hu.2) (fun _ _ hu => hu)

end Linker
end ClassLinking
