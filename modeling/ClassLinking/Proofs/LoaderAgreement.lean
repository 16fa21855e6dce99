import ClassLinking.Proofs.AddedOverrides
import ClassLinking.Proofs.Confinement
import ClassLinking.Proofs.LoaderConflicts

/-!
# Loaders agree in linked tables

Methods cross from one loader to another in tables: a class overrides a method of a superclass that
another loader has defined, or implements an interface of another loader.  The two loaders must mean
the same classes by the names in the method's descriptor.  This file says what linking guarantees
while it checks recorded conflicts.

* In the tables of a linked class the loaders agree (`Store.LoadersAgree`).  In a slot that means
  the loader of the class that has the method and the loader of the class that has the superclass's
  method of the slot; in an entry, the former and the loader of the interface.
* A failure that names two loaders means what it says (`Store.ConflictReported`): a conflict between
  the two is recorded for the class that it names, and for none that the descriptor of the method
  names before.

Both hold of one class (`buildTables_agrees`), of a class with its supertypes
(`ensureLinked_agrees`), and of every call that links in a state that defining, linking, redefining
and replacing lead to (`linking_checks_loaders`).
-/

namespace ClassLinking

namespace Store

variable {s t : Store} {root : Option ClassId} {K : ConflictTable} {c d : ClassId} {m : MethodId}

/-- Where `c` has `m` in the slot of the superclass's method `o`, as a default or because `m`
overrides `o`, the loader of the class that has `m` agrees with the loader of the class that has `o`
about the descriptor. -/
def AgreesInSlot (s : Store) (K : ConflictTable) (c : ClassId) (m o : MethodId) : Prop :=
  ∃ h h', s.holder? m = some h ∧ s.holder? o = some h' ∧
    (m ∈ (s.getClass c).defaults ∨
        s.isOverridable o (s.getClass h).loader (s.getClass h).name = true →
      K.Agrees (s.selector m).descriptor (s.getClass h).loader (s.getClass h').loader)

/-- The loader of the class that has `m` agrees with the loader of the interface `i` about the
descriptor. -/
def AgreesInEntry (s : Store) (K : ConflictTable) (i : ClassId) (m : MethodId) : Prop :=
  ∃ h, s.holder? m = some h ∧
    K.Agrees (s.selector m).descriptor (s.getClass h).loader (s.getClass i).loader

/-- The tables of `c` let no method cross from one loader to another that disagrees about a class of
its descriptor. -/
structure LoadersAgree (s : Store) (K : ConflictTable) (c : ClassId) : Prop where
  slots : ∀ p ∈ (s.getClass c).superclass?, ∀ i o m, s.slot p i = some o → s.slot c i = some m →
    s.AgreesInSlot K c m o
  entries : ∀ ts ∈ (s.getClass c).tables, ∀ i index m,
    ts.itable.entry? i index = some (.bound m) → s.AgreesInEntry K i m

/-- The tables of `c`, which stands on linked classes, are not there because a method of `c`, of a
class above it or among its defaults belongs to the loader `a`, which is in conflict with the loader
`b`.  It is about `typeName`, and about no class that the descriptor names before. -/
structure ConflictReported (s : Store) (K : ConflictTable) (c : ClassId) (className : String)
    (sel : Selector) (typeName : String) (a b : LoaderId) : Prop where
  ready : Linker.Ready s c
  className_eq : className = (s.getClass c).name
  conflict : K.FirstConflict sel.descriptor a b typeName
  method : ∃ m h, s.selector m = sel ∧ s.holder? m = some h ∧ (s.getClass h).loader = a ∧
    ((∃ k ∈ s.lineage c, m ∈ (s.getClass k).methods) ∨ m ∈ (s.getClass c).defaults)

/-- A failure that reports a conflict of loaders is about `c`. -/
def ReportsConflict (s : Store) (K : ConflictTable) (c : ClassId) (e : LinkError) : Prop :=
  ∀ className sel typeName a b, e = .loaderConstraint className sel typeName a b →
    s.ConflictReported K c className sel typeName a b

/-- What was reported stays true as long as no tables are installed. -/
theorem ReportsConflict.prepares {e : LinkError} (h : s.ReportsConflict K c e)
    (w : s.WellFormed root) (hp : s.Prepares c t) : t.ReportsConflict K c e := by
  intro className sel typeName a b he
  obtain ⟨hready, hname, hconflict, m, k, hsel, hk, hloader, hmem⟩ := h _ _ _ _ _ he
  have hext := hp.extends
  have hmhas := hasMethod_of_holder? hk
  refine ⟨hready.prepares hp, by rw [hp.getClass, hname], hconflict, m, k, ?_, ?_, ?_, ?_⟩
  · rw [hext.selector hmhas, hsel]
  · rw [hext.holder? w hmhas, hk]
  · rw [hp.getClass, hloader]
  · rw [hext.lineage hready.hasClass, hp.getClass]
    exact hmem.imp_left fun ⟨k, hk, hmk⟩ => ⟨k, hk, by rwa [hp.getClass]⟩

theorem AgreesInSlot.extends {o : MethodId} (h : s.AgreesInSlot K c m o) (w : s.WellFormed root)
    (hext : s.Extends t) (hdefaults : (t.getClass c).defaults = (s.getClass c).defaults) :
    t.AgreesInSlot K c m o := by
  obtain ⟨d, d', hd, hd', hagree⟩ := h
  have hmhas := hasMethod_of_holder? hd
  have hohas := hasMethod_of_holder? hd'
  have hdc := w.hasClass_of_holder? hd
  refine ⟨d, d', by rw [hext.holder? w hmhas, hd], by rw [hext.holder? w hohas, hd'], ?_⟩
  rw [hext.loader hdc, hext.name hdc, hext.loader (w.hasClass_of_holder? hd'),
    hext.isOverridable w hohas, hext.selector hmhas, hdefaults]
  exact hagree

theorem AgreesInEntry.extends {i : ClassId} (h : s.AgreesInEntry K i m) (w : s.WellFormed root)
    (hext : s.Extends t) (hsize : t.classes.size = s.classes.size) : t.AgreesInEntry K i m := by
  obtain ⟨d, hd, hagree⟩ := h
  have hmhas := hasMethod_of_holder? hd
  have hloader : (t.getClass i).loader = (s.getClass i).loader := by
    by_cases hi : s.HasClass i
    · exact hext.loader hi
    · rw [getClass_of_not hi, getClass_of_not (by rwa [HasClass, hsize])]
  refine ⟨d, by rw [hext.holder? w hmhas, hd], ?_⟩
  rw [hext.loader (w.hasClass_of_holder? hd), hext.selector hmhas, hloader]
  exact hagree

/-- Loaders of tables that are there keep agreeing. -/
theorem LoadersAgree.grows (h : s.LoadersAgree K c) (w : s.WellFormed root) (hup : s.LinkedUp)
    (hg : s.Grows t) (hsize : t.classes.size = s.classes.size) (hc : s.Linked c) :
    t.LoadersAgree K c := by
  have hcc := hc.hasClass
  refine ⟨fun p hp i o m ho hm => ?_, fun ts hts i index m hm => ?_⟩
  · rw [hg.extends.superclass? hcc] at hp
    rw [(hup c hc p (mem_definedFrom_superclass hp)).slot_grows hg] at ho
    rw [hc.slot_grows hg] at hm
    exact (h.slots p hp i o m ho hm).extends w hg.extends (hg.defaults hcc)
  · obtain ⟨ts', hts'⟩ := linked_iff.mp hc
    cases (hg.tables_eq c ts' hts').symm.trans hts
    exact (h.entries ts hts' i index m hm).extends w hg.extends hsize

end Store

namespace Linker

open Store

variable {l t u : Linker} {s : Store} {root : Option ClassId} {K : ConflictTable} {c d p : ClassId}
  {e : LinkError} {size : VTableSize} {m : MethodId} {cs : List ClassId}

/-! ## One class -/

/-- With both switches on, the recorded conflicts decide. -/
theorem conflict?_eq (hcheck : l.config.checkLoaderConstraints = true)
    (hconsults : l.consultsConflicts = true) : l.conflict? = l.conflicts.check := by
  funext descriptor a b
  rw [conflict?, hcheck, hconsults]
  rfl

/-- A class declares none of its defaults. -/
theorem not_mem_methods_of_default (w : l.store.WellFormed root) (hc : l.store.HasClass c)
    (hm : m ∈ (l.store.getClass c).defaults) : m ∉ (l.store.getClass c).methods := by
  intro hdeclared
  obtain ⟨-, i, hi, hheld⟩ := (w.fits c hc).defaults m hm
  rw [((w.fits c hc).methods m hdeclared).2, Option.some.injEq] at hheld
  have hlt := (w.allInterfaces_spec c hc i hi).1
  exact absurd (hheld ▸ hlt) (Nat.lt_irrefl _)

/-- The methods of a class that can meet in a slot are placed in the same way: those that it
declares belong to the class, and its defaults meet nothing. -/
theorem placesAlike (w : l.store.WellFormed root) (hc : l.store.HasClass c)
    (hd : l.store.InheritsDefaults c) (hapart : l.store.DefaultsApart c) :
    l.fillEnv.PlacesAlike c := by
  have happart : ∀ x ∈ (l.store.getClass c).methods, ∀ y ∈ (l.store.getClass c).defaults,
      l.store.selector x = l.store.selector y → (l.store.getMethod x).isBoundStatically = true :=
    fun x hx y hy hsel => by
      by_contra hbound
      exact hapart y hy x hx (Bool.not_eq_true _ ▸ hbound) hsel
  intro p hp q hq
  rcases FillEnv.mem_placements.mp hp with ⟨x, hx, rfl⟩ | ⟨x, hx, rfl⟩ <;>
    rcases FillEnv.mem_placements.mp hq with ⟨y, hy, rfl⟩ | ⟨y, hy, rfl⟩
  · rw [placement_eq w hc hx, placement_eq w hc hy]
    exact Or.inr ⟨rfl, rfl, rfl⟩
  · by_cases hsel : l.store.selector x = l.store.selector y
    · exact Or.inl (Or.inl (happart x hx y hy hsel))
    · exact Or.inl (Or.inr (Or.inr hsel))
  · by_cases hsel : l.store.selector y = l.store.selector x
    · exact Or.inl (Or.inr (Or.inl (happart y hy x hx hsel)))
    · exact Or.inl (Or.inr (Or.inr (Ne.symm hsel)))
  · by_cases hsel : l.store.selector x = l.store.selector y
    · cases List.inj_on_of_nodup_map hd.nodup hx hy hsel
      exact Or.inr ⟨rfl, rfl, rfl⟩
    · exact Or.inl (Or.inr (Or.inr hsel))

/-- A method is placed for the class that has it. -/
theorem placement_of_holder {q : Placement} {h : ClassId} (hq : q ∈ l.fillEnv.placements c)
    (hheld : l.store.holder? q.method = some h) :
    q.loader = (l.store.getClass h).loader ∧ q.className = (l.store.getClass h).name := by
  have hplacement : ∀ {m : MethodId} (isDefault : Bool), l.store.holder? m = some h →
      (l.fillEnv.placement c m isDefault).loader = (l.store.getClass h).loader ∧
        (l.fillEnv.placement c m isDefault).className = (l.store.getClass h).name :=
    fun isDefault hm => by
      rw [FillEnv.placement, show l.fillEnv.store = l.store from rfl, hm]
      exact ⟨rfl, rfl⟩
  rcases FillEnv.mem_placements.mp hq with ⟨x, -, rfl⟩ | ⟨x, -, rfl⟩
  · exact hplacement false hheld
  · exact hplacement true hheld

/-- What has cleared the methods that were there agrees with them. -/
theorem agreesInSlot_of_cleared {inherited i : Nat} {start f : Fill} {o : MethodId}
    (w : l.store.WellFormed root) (hc : l.store.HasClass c) (hK : l.conflict? = K.check)
    (h : l.fillEnv.Cleared c inherited start f) (hi : i < inherited)
    (ho : start.occupant i = some o) (hohas : l.store.HasMethod o) (hm : f.occupant i = some m) :
    l.store.AgreesInSlot K c m o := by
  obtain ⟨d', hd', -⟩ := w.held o hohas
  rw [← w.holder?_eq hohas] at hd'
  rcases h.slot i hi o ho with hkept | ⟨q, hq, -, hocc, -, hclears⟩
  · cases hkept.symm.trans hm
    exact ⟨d', d', hd', hd', fun _ => Or.inl rfl⟩
  · cases hocc.symm.trans hm
    have hqhas := hasMethod_of_mem_placements w hc hq
    obtain ⟨d, hd, -⟩ := w.held q.method hqhas
    rw [← w.holder?_eq hqhas] at hd
    obtain ⟨hloader, hname⟩ := placement_of_holder hq hd
    refine ⟨d, d', hd, hd', fun hover => ?_⟩
    rw [← hloader, ← ConflictTable.check_eq_none_iff, ← hK]
    refine hclears ?_ d' hd'
    rw [hloader, hname]
    refine hover.imp_left fun hdefault => ?_
    rcases FillEnv.mem_placements.mp hq with ⟨x, hx, rfl⟩ | ⟨x, -, rfl⟩
    · exact absurd hx (not_mem_methods_of_default w hc hdefault)
    · rfl

/-- The methods in the inherited slots of a finished table agree with the superclass's. -/
theorem agreesInSlot_of_built {layout : VTableLayout} {f : Fill} {i : Nat} {o : MethodId}
    (w : l.store.WellFormed root) (hhoused : l.store.Housed) (hready : Ready l.store c)
    (hK : l.conflict? = K.check) (hsize : l.store.vtableSize l.config c = .ok size)
    (hbuilt : layout.Built l.fillEnv c size s f)
    (hcleared : l.fillEnv.Cleared c size.inherited (l.fillEnv.start c size) f)
    (hp : (l.store.getClass c).superclass? = some p) (ho : l.store.slot p i = some o)
    (hm : layout.table.methodAt i = some m) : l.store.AgreesInSlot K c m o := by
  have hplinked := hready.definedFrom p (mem_definedFrom_superclass hp)
  have hi := lt_of_slot ho
  rw [← inherited_eq_vtableLength hsize hp] at hi
  have hused := hcleared.used
  rw [hbuilt.methodAt, if_neg (by omega)] at hm
  have hstart : (l.fillEnv.start c size).occupant i = some o :=
    (FillEnv.occupant_start i).trans ((inheritedAt_eq_slot hp hplinked).trans ho)
  exact agreesInSlot_of_cleared w hready.hasClass hK hcleared hi hstart (hhoused p i o ho) hm

/-- A conflict that is reported while a table is filled is about a method of the class. -/
theorem reportsConflict_of_placement {q : Placement}
    (w : l.store.WellFormed root) (hready : Ready l.store c) (hK : l.conflict? = K.check)
    (hq : q ∈ l.fillEnv.placements c) (h : l.fillEnv.Reports c q e) :
    l.store.ReportsConflict K c e := by
  intro className sel typeName a b he
  obtain ⟨hname, hsel, hloader, hconflict⟩ := h className sel typeName a b he
  have hc := hready.hasClass
  have hqhas := hasMethod_of_mem_placements w hc hq
  obtain ⟨d, hd, -⟩ := w.held q.method hqhas
  rw [← w.holder?_eq hqhas] at hd
  refine ⟨hready, hname, ConflictTable.check_eq_some_iff.mp (hK ▸ hconflict), q.method, d,
    hsel.symm, hd, ?_, ?_⟩
  · rw [hloader, (placement_of_holder hq hd).1]
  · rcases FillEnv.mem_placements.mp hq with ⟨x, hx, rfl⟩ | ⟨x, hx, rfl⟩
    · exact Or.inl ⟨c, WellFormed.mem_lineage_self _ _, hx⟩
    · exact Or.inr hx

/-- A conflict that is reported while a table is bound is about an implementation. -/
theorem reportsConflict_of_entry (hready : Ready l.store c)
    (hK : l.conflict? = K.check) (h : l.store.ReportsEntry l.conflict? c e) :
    l.store.ReportsConflict K c e := by
  intro className sel typeName a b he
  obtain ⟨hname, hconflict, m, d, himpl, hd, hloader⟩ := h className sel typeName a b he
  exact ⟨hready, hname, ConflictTable.check_eq_some_iff.mp (hK ▸ hconflict), m, d,
    (implementation?_some himpl).1, hd, hloader, mem_of_implementation? himpl⟩

/-- Every entry that a new interface table binds has been asked about. -/
theorem buildITable_clears :
    Outcome (buildITable c) l
      (fun _ _ => (l.store.getClass c).isInterface = false →
        ∀ e ∈ l.store.visitedInterfaces (l.store.getClass c).allInterfaces,
          l.store.ClearsBlock l.conflict? c e.1 (l.store.getClass e.1).methods)
      (fun e _ => l.store.ReportsEntry l.conflict? c e) := by
  unfold buildITable
  cases hint : (l.store.getClass c).isInterface with
  | true =>
    simp only [hint, outcome_bind, outcome_get, outcome_pure, if_true]
    exact (outcome_of_ok (x := numberInterfaceMethods c) rfl).mpr
      fun h => absurd h Bool.false_ne_true.symm
  | false =>
    simp only [hint, outcome_bind, outcome_get, Bool.false_eq_true, if_false]
    split
    · rintro _ _ _ _ _ ⟨⟩
    · simp only [outcome_bind, outcome_runBinding, outcome_ofExcept, outcome_pure]
      refine bindBlocks_clears.imp (fun _ b hclears => ⟨fun _ _ _ => hclears, fun e he => ?_⟩)
        (fun _ _ he => he)
      unfold ITable.verifyTerminator at he
      split at he
      · cases he
      · cases he
        rintro _ _ _ _ _ ⟨⟩

/-- The entries of a new interface table agree with their interfaces, or a conflict is reported. -/
theorem buildITable_agrees (w : l.store.WellFormed root)
    (hready : Ready l.store c) (hK : l.conflict? = K.check)
    (hlinked : ∀ i ∈ (l.store.getClass c).allInterfaces, (l.store.getClass i).isLinked = true)
    (hfresh : ∀ m ∈ (l.store.getClass c).methods, l.store.interfaceIndex? m = none) :
    Outcome (buildITable c) l
      (fun table _ => ∀ i index m, table.entry? i index = some (.bound m) →
        l.store.AgreesInEntry K i m)
      (fun e _ => l.store.ReportsConflict K c e) := by
  refine ((buildITable_outcome w hlinked hfresh).and buildITable_clears).imp
    (fun table t h i index m hm => ?_) (fun _ _ he => reportsConflict_of_entry hready hK he.2)
  obtain ⟨⟨-, htable⟩, hclears⟩ := h
  have hc := hready.hasClass
  cases hint : (l.store.getClass c).isInterface with
  | true =>
    rw [if_pos hint] at htable
    rw [htable.1] at hm
    cases hm
  | false =>
    rw [if_neg (by simp [hint])] at htable
    rw [htable.2] at hm
    have hi := mem_allInterfaces_of_entry? hm
    obtain ⟨y, hy, hindex, hentry⟩ :=
      (Binds.of_interfaceTable (w.nodup_allInterfaces hc)).index_of_bound i hi index m hm
    have hlt := lt_blockLength hy hindex
    have hblock := visitedInterfaces_mem hi (Nat.ne_of_gt (Nat.zero_lt_of_lt hlt))
    have hmhas := hasMethod_of_implementation? w hc (entryOf_eq_bound hentry).1
    obtain ⟨d, hd, -⟩ := w.held m hmhas
    rw [← w.holder?_eq hmhas] at hd
    refine ⟨d, hd, ?_⟩
    rw [← ConflictTable.check_eq_none_iff, ← hK]
    exact hclears hint _ hblock y hy (by rw [hindex]; rfl) m hentry d hd

/-- Loaders that agree in the tables that were built agree in those that are installed. -/
theorem loadersAgree_of_install {v : Linker} {layout : VTableLayout} {f : Fill} {itable : ITable}
    (w : l.store.WellFormed root) (hhoused : l.store.Housed) (hready : Ready l.store c)
    (hK : l.conflict? = K.check) (hsize : l.store.vtableSize l.config c = .ok size)
    (hbuilt : layout.Built l.fillEnv c size u.store f)
    (hcleared : l.fillEnv.Cleared c size.inherited (l.fillEnv.start c size) f)
    (hentries : ∀ i index m, itable.entry? i index = some (.bound m) → u.store.AgreesInEntry K i m)
    (hu : l.store.Prepares c u.store) (hv : u.store.Prepares c v.store)
    (ht : t.store = v.store.modifyClass c fun k =>
      { k with tables := some ⟨layout.table, layout.defaultSlots, layout.mirandas, itable⟩ }) :
    t.store.LoadersAgree K c := by
  have hc := hready.hasClass
  have wu := hu.wellFormed w
  have htables : (t.store.getClass c).tables =
      some ⟨layout.table, layout.defaultSlots, layout.mirandas, itable⟩ := by
    rw [ht, getClass_modifyClass_self _ _ _ ((hu.trans hv).hasClass.mpr hc)]
  have hsame : t.store.classes.size = u.store.classes.size := by
    rw [ht, size_modifyClass, hv.classes_eq]
  have hg : l.store.Grows t.store := ht ▸ grows_of_install (hu.trans hv) w hready _
  have hg_u : u.store.Grows t.store := ht ▸ grows_of_install hv wu (hready.prepares hu) _
  refine ⟨fun p hp i o m ho hm => ?_, fun ts hts i index m hm => ?_⟩
  · rw [hg.extends.superclass? hc] at hp
    rw [(hready.definedFrom p (mem_definedFrom_superclass hp)).slot_grows hg] at ho
    rw [slot_of_tables htables] at hm
    exact (agreesInSlot_of_built w hhoused hready hK hsize hbuilt hcleared hp ho hm).extends w
      hg.extends (hg.defaults hc)
  · cases htables.symm.trans hts
    exact (hentries i index m hm).extends wu hg_u.extends hsame

/-- **Building the tables of a class** makes loaders agree, or reports a conflict about the
class. -/
theorem buildTables_agrees (w : l.store.WellFormed root)
    (hup : l.store.LinkedUp) (hhoused : l.store.Housed) (hready : Ready l.store c)
    (hd : l.store.InheritsDefaults c) (hapart : l.store.DefaultsApart c)
    (hK : l.conflict? = K.check) :
    Outcome (buildTables c) l (fun _ t => t.store.LoadersAgree K c)
      (fun e t => t.store.ReportsConflict K c e) := by
  have hc := hready.hasClass
  unfold buildTables
  simp only [outcome_bind, outcome_get, outcome_ofExcept]
  refine ⟨fun size hsize => ?_, fun e he => ?_⟩
  · obtain ⟨hinherited, hlength⟩ := vtableSize_ok hsize
    have hfill := FillEnv.placeAll_cleared (placesAlike w hc hd hapart)
      (FillEnv.Cleared.refl (f := l.fillEnv.start c size) (Nat.le_refl size.inherited))
    refine (buildVTable_outcome_of w hc hinherited (by omega) hfill).imp (fun layout u hu => ?_)
      (fun e t he => ?_)
    · obtain ⟨hprep, f, hbuilt, hindexes, -, hcleared⟩ := hu
      have wu := hprep.store.wellFormed w
      obtain ⟨hlinked, hfresh⟩ := hready.built hprep w hup hbuilt hindexes
      refine ((buildITable_outcome wu hlinked hfresh).and (buildITable_agrees wu
        (hready.prepares hprep.store) (hprep.continues.conflict?_eq.trans hK) hlinked hfresh)).imp
        (fun itable v hv => ?_) (fun e t he => he.2.prepares wu he.1.1.store)
      obtain ⟨⟨hprep', -⟩, hentries⟩ := hv
      exact (install_outcome (hprep.trans hprep') hready _).imp
        (fun _ t ht => loadersAgree_of_install w hhoused hready hK hsize hbuilt hcleared hentries
          hprep.store hprep'.store ht.2.2)
        (fun _ _ he => he.elim)
    · obtain ⟨hprep, -, ⟨q, hq, hreports⟩ | ⟨f, name, n, -, -, rfl⟩ | hverify⟩ := he
      · exact (reportsConflict_of_placement w hready hK hq hreports).prepares w hprep.store
      · rintro _ _ _ _ _ ⟨⟩
      · obtain ⟨layout, u, f, -, -, he⟩ := hverify
        obtain ⟨fault, rfl⟩ | ⟨name, fault, rfl⟩ := verifyVTable_error he
        · rintro _ _ _ _ _ ⟨⟩
        · rintro _ _ _ _ _ ⟨⟩
  · obtain ⟨name, expected, actual, rfl⟩ := hready.vtableSize_error he
    rintro _ _ _ _ _ ⟨⟩

/-! ## Linking -/

/-- What is known of a store in which classes are to be linked: the tables are coherent, and classes
that are not linked yet have inherited their defaults, apart from what they declare. -/
structure AwaitsLinking (s : Store) : Prop where
  coherent : s.Coherent
  inheritsDefaults : ∀ c, s.HasClass c → ¬ s.Linked c → s.InheritsDefaults c
  apart : s.UnlinkedApart

theorem Maintained.awaitsLinking (h : Maintained l) : AwaitsLinking l.store :=
  ⟨h.coherent, h.sound.inheritsDefaults, h.unlinkedApart⟩

theorem AwaitsLinking.reaches (h : AwaitsLinking l.store) (w : l.store.WellFormed root)
    (hr : Reaches root Coherent l t) : AwaitsLinking t.store where
  coherent := hr.holds
  inheritsDefaults := fun c hc hunlinked => by
    rw [HasClass, hr.size_eq] at hc
    exact (h.inheritsDefaults c hc fun hlinked => hunlinked (hlinked.grows hr.grows)).of_eq w hc
      hr.grows.extends (hr.grows.defaults hc)
  apart := h.apart.grows w hr.grows hr.size_eq

/-- Linking from `l` has come to `s`, and loaders agree in the tables that are new. -/
structure AgreesSince (K : ConflictTable) (l : Linker) (s : Store) : Prop where
  awaits : AwaitsLinking s
  agree : ∀ d, s.Linked d → l.store.Linked d ∨ s.LoadersAgree K d

/-- A failure that reports a conflict of loaders is about the tables of a class above one of the
classes `cs`. -/
def ReportsAbove (K : ConflictTable) (l : Linker) (cs : List ClassId) (s : Store)
    (e : LinkError) : Prop :=
  ∀ className sel typeName a b, e = .loaderConstraint className sel typeName a b →
    ∃ c ∈ cs, ∃ d, l.store.Above c d ∧ s.ConflictReported K d className sel typeName a b

/-- Building the tables of one more class keeps that loaders agree in what is new. -/
theorem AgreesSince.builds (h : AgreesSince K l t.store) (w : t.store.WellFormed root)
    (hup : t.store.LinkedUp) (hK : t.conflict? = K.check) (hready : Ready t.store d)
    (hd : ∃ c ∈ cs, l.store.Above c d) :
    Outcome (buildTables d) t (fun _ u => AgreesSince K l u.store)
      (fun e u => ReportsAbove K l cs u.store e ∧ AgreesSince K l u.store) := by
  have hawaits := h.awaits
  have hcoherent := (linkRule_coherent root t.config).builds rfl w hup hawaits.coherent hready
  have hagrees := buildTables_agrees w hup hawaits.coherent.housed hready
    (hawaits.inheritsDefaults d hready.hasClass hready.unlinked)
    (hawaits.apart d hready.hasClass hready.unlinked) hK
  refine (((buildTables_outcome w hup hready).and hcoherent).and hagrees).imp
    (fun _ u hu => ?_) (fun e u hu => ?_)
  · obtain ⟨⟨⟨hi, wu⟩, hcoherent'⟩, hagree⟩ := hu
    refine ⟨hawaits.reaches w (hi.reaches wu hup hready hcoherent'), fun k hk => ?_⟩
    by_cases hkd : k = d
    · exact Or.inr (hkd ▸ hagree)
    · rw [Linked, hi.others k hkd] at hk
      exact (h.agree k hk).imp_right fun hold => hold.grows w hup hi.grows hi.size_eq hk
  · obtain ⟨⟨⟨hprep, -⟩, -, hcoherent'⟩, hreports⟩ := hu
    have hreach := hprep.reaches w hup hready hcoherent'
    refine ⟨fun _ _ _ _ _ he => ?_, hawaits.reaches w hreach, fun k hk => ?_⟩
    · obtain ⟨c, hc, habove⟩ := hd
      exact ⟨c, hc, d, habove, hreports _ _ _ _ _ he⟩
    · rw [hprep.store.linked_iff] at hk
      exact (h.agree k hk).imp_right fun hold =>
        hold.grows w hup hreach.grows hreach.size_eq hk

/-- **Linking a class** makes loaders agree in all tables that it installs, and a conflict that it
reports is about a class above one of those that linking was asked for. -/
theorem ensureLinked_agrees (w : l.store.WellFormed root) (hK : l.conflict? = K.check)
    (h : Reaches root (AgreesSince K l) l t) (hcs : ∀ c ∈ cs, l.store.HasClass c) (hc : c ∈ cs) :
    Outcome (ensureLinked c) t
      (fun _ u => u.store.Linked c ∧ Reaches root (AgreesSince K l) t u)
      (fun e u => ReportsAbove K l cs u.store e ∧ Reaches root (AgreesSince K l) t u) :=
  ensureLinked_outcome_of (F := fun e u => ReportsAbove K l cs u.store e)
    (Q := fun d => ∃ c ∈ cs, l.store.Above c d) w
    (fun _ hk ⟨c, hc, habove⟩ _ hp => ⟨c, hc,
      habove.trans w (hcs c hc) (above_of_mem_definedFrom w hk hp)⟩)
    (fun _ _ _ => by rintro _ _ _ _ _ ⟨⟩)
    (fun _ _ hu hq hready => hu.holds.builds hu.wellFormed hu.linkedUp
      (hu.continues.conflict?_eq.trans hK) hready hq)
    h (hcs c hc) ⟨c, hc, above_self _ c⟩

/-- Linking a class that must not be linked yet. -/
theorem link_agrees (w : l.store.WellFormed root) (hup : l.store.LinkedUp)
    (hI : AwaitsLinking l.store) (hK : l.conflict? = K.check) (hc : l.store.HasClass c) :
    Outcome (link c) l (fun _ t => AgreesSince K l t.store)
      (fun e t => ReportsAbove K l [c] t.store e ∧ AgreesSince K l t.store) := by
  have hrefl : AgreesSince K l l.store := ⟨hI, fun _ => Or.inl⟩
  unfold link
  simp only [outcome_bind, outcome_get, outcome_ite, outcome_throw, outcome_attempt]
  refine ⟨fun _ => ⟨by rintro _ _ _ _ _ ⟨⟩, hrefl⟩, fun _ => ?_⟩
  exact (ensureLinked_agrees w hK (.refl w hup hrefl) (List.forall_mem_singleton.mpr hc)
    (List.mem_singleton_self c)).imp (fun _ _ ht => ht.2.holds) fun _ _ ht => ⟨ht.1, ht.2.holds⟩

/-- Linking a batch.  The conflict was reported when linking had come to some store `u`; other
classes may have been linked since. -/
theorem linkAll_agrees (w : l.store.WellFormed root) (hup : l.store.LinkedUp)
    (hI : AwaitsLinking l.store) (hK : l.conflict? = K.check)
    (hcs : ∀ c ∈ cs, l.store.HasClass c) :
    Outcome (linkAll cs) l (fun _ t => AgreesSince K l t.store)
      (fun e t => (∃ u, l.store.Grows u ∧ u.Grows t.store ∧ ReportsAbove K l cs u e) ∧
        AgreesSince K l t.store) := by
  refine (linkAll_outcome_of (I := AgreesSince K l)
    (F := fun e t => ∃ u, l.store.Grows u ∧ u.Grows t.store ∧ ReportsAbove K l cs u e)
    (fun _ => ⟨l.store, .refl _, .refl _, by rintro _ _ _ _ _ ⟨⟩⟩)
    (fun _ _ _ ⟨u, hlu, hut, he⟩ hr => ⟨u, hlu, hut.trans hr.grows, he⟩) w hup
    ⟨hI, fun _ => Or.inl⟩ fun t ht c hc => ?_).imp (fun _ _ ht => ht.holds)
    (fun _ _ ht => ⟨ht.1, ht.2.holds⟩)
  exact (ensureLinked_agrees w hK ht hcs hc).imp (fun _ _ hu => hu.2)
    (fun _ u hu => ⟨⟨u.store, ht.grows.trans hu.2.grows, .refl _, hu.1⟩, hu.2⟩)

/-- **Loader checks are sound and precise.**  Let conflicts be checked in a state that defining,
linking, redefining and replacing lead to.  Whatever becomes of a call that links, loaders agree in
the tables of every class that it makes linked.  If it fails for a conflict of loaders, the failure
names a class that it was asked for or one above, which stands on linked classes and is not linked,
the method that crosses, two loaders that are recorded to be in conflict, and the first class name
of the descriptor that the conflict is about. -/
theorem linking_checks_loaders (h : Maintained l)
    (hcheck : l.config.checkLoaderConstraints = true) (hconsults : l.consultsConflicts = true) :
    (∀ c, l.store.HasClass c → Outcome (link c) l
      (fun _ t => ∀ d, ¬ l.store.Linked d → t.store.Linked d → t.store.LoadersAgree l.conflicts d)
      (fun e t =>
        (∀ d, ¬ l.store.Linked d → t.store.Linked d → t.store.LoadersAgree l.conflicts d) ∧
        ReportsAbove l.conflicts l [c] t.store e)) ∧
    ∀ batch : List ClassId, (∀ c ∈ batch, l.store.HasClass c) → Outcome (linkAll batch) l
      (fun _ t => ∀ d, ¬ l.store.Linked d → t.store.Linked d → t.store.LoadersAgree l.conflicts d)
      (fun e t =>
        (∀ d, ¬ l.store.Linked d → t.store.Linked d → t.store.LoadersAgree l.conflicts d) ∧
        ∃ u, l.store.Grows u ∧ u.Grows t.store ∧ ReportsAbove l.conflicts l batch u e) := by
  have w := h.sound.wellFormed
  have hup := h.sound.linkedUp
  have hK := conflict?_eq hcheck hconsults
  have hnew : ∀ {t : Linker}, AgreesSince l.conflicts l t.store →
      ∀ d, ¬ l.store.Linked d → t.store.Linked d → t.store.LoadersAgree l.conflicts d :=
    fun ht d hunlinked hd => (ht.agree d hd).resolve_left hunlinked
  refine ⟨fun c hc => ?_, fun batch hbatch => ?_⟩
  · exact (link_agrees w hup h.awaitsLinking hK hc).imp (fun _ _ ht => hnew ht)
      fun _ _ ht => ⟨hnew ht.2, ht.1⟩
  · exact (linkAll_agrees w hup h.awaitsLinking hK hbatch).imp (fun _ _ ht => hnew ht)
      fun _ _ ht => ⟨hnew ht.2, ht.1⟩

/-- A class of one loader overrides a method of a class of another one.  The two loaders are in
conflict about a class that the method is given. -/
def disputedRun : List Command :=
  [.define { name := "Object" },
   .define { name := "A", loader := ⟨1⟩, superclass := some ⟨0⟩,
             methods := [{ publicMethod "m" [1] with selector := ⟨"m", "(LT;)V"⟩ }] },
   .define { name := "B", loader := ⟨2⟩, superclass := some ⟨1⟩,
             methods := [{ publicMethod "m" [2] with selector := ⟨"m", "(LT;)V"⟩ }] },
   .configure { Config.minimal with checkLoaderConstraints := true }
     (ConflictTable.empty.add "T" ⟨1⟩ ⟨2⟩) true]

/-- Linking it reports the conflict, and not before the superclass was linked. -/
theorem disputedRun_reports_conflict :
    Outcome (link ⟨2⟩) (finish { config := .minimal } disputedRun) (fun _ _ => False)
      (fun _ t => t.store.LoadersAgree (ConflictTable.empty.add "T" ⟨1⟩ ⟨2⟩) ⟨1⟩ ∧
        ∃ d, (finish { config := .minimal } disputedRun).store.Above ⟨2⟩ d ∧
          t.store.ConflictReported (ConflictTable.empty.add "T" ⟨1⟩ ⟨2⟩) d "B" ⟨"m", "(LT;)V"⟩ "T"
            ⟨2⟩ ⟨1⟩) := by
  have hstart : Reachable (fun _ => True) { config := .minimal } := .start ⟨rfl, rfl⟩ trivial
  have hrun := (hstart.finish (show Admits _ _ disputedRun by decide +kernel)).maintained
  -- The state is named, so that only the kernel evaluates the run.
  generalize hl : finish { config := .minimal } disputedRun = l at hrun ⊢
  have hswitches : l.config.checkLoaderConstraints = true ∧ l.consultsConflicts = true ∧
      l.conflicts = ConflictTable.empty.add "T" ⟨1⟩ ⟨2⟩ ∧ l.store.HasClass ⟨2⟩ ∧
        ¬ l.store.Linked ⟨1⟩ := by
    rw [← hl]
    decide +kernel
  obtain ⟨hcheck, hconsults, hconflicts, hhas, hunlinked⟩ := hswitches
  have hfails : Outcome (link ⟨2⟩) l (fun _ _ => False) (fun e t => t.store.Linked ⟨1⟩ ∧
      e = .loaderConstraint "B" ⟨"m", "(LT;)V"⟩ "T" ⟨2⟩ ⟨1⟩) := by
    rw [← hl]
    decide +kernel
  refine (((linking_checks_loaders hrun hcheck hconsults).1 ⟨2⟩ hhas).and hfails).imp
    (fun _ _ ht => ht.2) fun _ t ht => ?_
  obtain ⟨⟨hagree, hreports⟩, hlinked, rfl⟩ := ht
  obtain ⟨c, hc, d, habove, hreported⟩ := hreports _ _ _ _ _ rfl
  cases List.mem_singleton.mp hc
  exact ⟨hconflicts ▸ hagree ⟨1⟩ hunlinked hlinked, d, habove, hconflicts ▸ hreported⟩

end Linker
end ClassLinking
