import ClassLinking.Proofs.Definition
import ClassLinking.Proofs.Indices
import ClassLinking.VTable.Build
import Mathlib.Data.List.Forall2

/-!
# Selecting mirandas and placing their placeholders

The first half reads off what `Store.newMirandas` selects: interface methods that the class meets
and nothing implements, one of each selector, and none that the superclass meets already.

The second half is about `Linker.placeMirandas`.  Linking adds nothing to a store but placeholders,
and it changes nothing of a method but its dispatch index, as long as no tables are installed.
`Store.Prepares` says that, and that the indices are those of methods of the class that is being
linked; it is the part of `Store.Grows` that happens before the tables are there.
-/

namespace ClassLinking

/-! ## The mirandas that a class is the first to meet -/

namespace Store

section Selection

variable {s : Store} {superclass : Option ClassId} {own : List MethodId}
  {defaults : Option (List MethodId)} {locals : List ClassId} {m : MethodId}

/-- Whether `m` is a miranda that no interface of the superclass declares. -/
def isNewMiranda (s : Store) (superclass : Option ClassId) (own : List MethodId)
    (defaults : Option (List MethodId)) (m : MethodId) : Bool :=
  s.isMiranda m own defaults superclass &&
    (superclass.all fun p => (s.lookupInInterfaces? p (s.selector m) false).isNone)

theorem newMirandas_eq : s.newMirandas superclass own defaults locals =
    ((s.metMethods locals).filter (s.isNewMiranda superclass own defaults)).eraseDupsBy
      fun a b => s.selector a == s.selector b := rfl

theorem mem_newMirandas (h : m ∈ s.newMirandas superclass own defaults locals) :
    m ∈ s.metMethods locals ∧ s.isNewMiranda superclass own defaults m = true := by
  rw [newMirandas_eq] at h
  exact List.mem_filter.mp (mem_of_mem_eraseDupsBy _ h)

/-- Every new miranda is selected, up to its selector. -/
theorem exists_newMiranda (hmet : m ∈ s.metMethods locals)
    (hnew : s.isNewMiranda superclass own defaults m = true) :
    ∃ m' ∈ s.newMirandas superclass own defaults locals, s.selector m' = s.selector m := by
  rw [newMirandas_eq]
  exact exists_mem_eraseDupsBy s.selector (List.mem_filter.mpr ⟨hmet, hnew⟩)

theorem nodup_newMirandas : ((s.newMirandas superclass own defaults locals).map s.selector).Nodup :=
  nodup_map_eraseDupsBy s.selector

/-- A class meets the methods of the interfaces that it names and of those above them. -/
theorem mem_metMethods : m ∈ s.metMethods locals ↔
    ∃ i ∈ locals, ∃ j, (j = i ∨ j ∈ (s.getClass i).allInterfaces) ∧ m ∈ (s.getClass j).methods := by
  simp only [metMethods, List.mem_flatMap, List.mem_cons]

/-- Which mirandas are new does not change. -/
theorem Grows.newMirandas {t : Store} {root : Option ClassId} (h : s.Grows t)
    (w : s.WellFormed root) (hlocals : ∀ i ∈ locals, s.HasClass i) (hown : ∀ x ∈ own, s.HasMethod x)
    (hdefaults : ∀ ds ∈ defaults, ∀ x ∈ ds, s.HasMethod x)
    (hsuper : ∀ p, superclass = some p → s.HasClass p) :
    t.newMirandas superclass own defaults locals =
      s.newMirandas superclass own defaults locals := by
  have hhas : ∀ m ∈ s.metMethods locals, s.HasMethod m := fun m hm => by
    obtain ⟨i, hi, j, hj, hmj⟩ := mem_metMethods.mp hm
    have hjc : s.HasClass j := by
      rcases hj with rfl | hj
      · exact hlocals j hi
      · exact w.hasClass_of_mem_allInterfaces (hlocals i hi) hj
    exact ((w.fits j hjc).methods m hmj).1
  have hnew : ∀ m ∈ s.metMethods locals, t.isNewMiranda superclass own defaults m =
      s.isNewMiranda superclass own defaults m := fun m hm => by
    rw [isNewMiranda, isNewMiranda, h.isMiranda w (hhas m hm) hown hdefaults hsuper,
      h.extends.selector (hhas m hm)]
    cases superclass with
    | none => rfl
    | some p => rw [Option.all_some, Option.all_some, h.lookupInInterfaces? w (hsuper p rfl)]
  rw [newMirandas_eq, newMirandas_eq, h.metMethods w hlocals, List.filter_congr hnew]
  refine eraseDupsBy_congr fun a ha b hb => ?_
  rw [h.extends.selector (hhas a (List.mem_filter.mp ha).1),
    h.extends.selector (hhas b (List.mem_filter.mp hb).1)]

end Selection

/-! ## What happens before tables are installed -/

/-- `t` is `s` with other dispatch indices for the methods of `c`, and more placeholders. -/
structure Prepares (s : Store) (c : ClassId) (t : Store) : Prop where
  classes_eq : t.classes = s.classes
  methods_le : s.methods.size ≤ t.methods.size
  method_eq : ∀ m, s.HasMethod m → t.getMethod m =
    { s.getMethod m with dispatch := (t.getMethod m).dispatch }
  dispatch_eq : ∀ m, s.HasMethod m → m ∉ (s.getClass c).methods →
    (t.getMethod m).dispatch = (s.getMethod m).dispatch
  new_current : ∀ m, ¬ s.HasMethod m → (t.getMethod m).revision = .current
  new_held : ∀ m, ¬ s.HasMethod m → t.HasMethod m →
    ∃ c, (t.getMethod m).holder = some c ∧ s.HasClass c

variable {s t u : Store} {root : Option ClassId} {c d : ClassId} {m : MethodId}

theorem Prepares.refl (s : Store) (c : ClassId) : s.Prepares c s where
  classes_eq := rfl
  methods_le := Nat.le_refl _
  method_eq := fun _ _ => rfl
  dispatch_eq := fun _ _ _ => rfl
  new_current := fun m hm => by rw [getMethod_of_not hm]; rfl
  new_held := fun _ hm hm' => absurd hm' hm

theorem Prepares.getClass (h : s.Prepares c t) (d : ClassId) : t.getClass d = s.getClass d := by
  rw [Store.getClass, Store.getClass, h.classes_eq]

theorem Prepares.extends (h : s.Prepares c t) : s.Extends t where
  classes_le := by rw [h.classes_eq]
  methods_le := h.methods_le
  class_eq := fun d _ => by rw [h.getClass d]
  method_eq := fun m hm => by rw [h.method_eq m hm]

theorem Prepares.hasClass (h : s.Prepares c t) : t.HasClass d ↔ s.HasClass d := by
  rw [HasClass, HasClass, h.classes_eq]

/-- What linked classes have does not change before the tables of another class are installed. -/
theorem Prepares.grows (h : s.Prepares c t) (w : s.WellFormed root)
    (hnone : (s.getClass c).tables = none) : s.Grows t where
  classes_le := by rw [h.classes_eq]
  methods_le := h.methods_le
  class_eq := fun d _ => by rw [h.getClass d]
  tables_eq := fun d ts hts => by rw [h.getClass d, hts]
  method_eq := h.method_eq
  dispatch_eq := fun d ts hts m hmd hm => h.dispatch_eq m hm fun hmc => by
    have hdc := w.eq_of_mem_methods (hasClass_of_tables hts) (hasClass_of_mem_methods hmc) hmd hmc
    rw [hdc, hnone] at hts
    cases hts
  new_current := h.new_current
  undeclared := fun m hm hnot =>
    ⟨fun d => by rw [h.getClass d]; exact hnot d, h.dispatch_eq m hm (hnot c)⟩

theorem Prepares.trans (h : s.Prepares c t) (h' : t.Prepares c u) : s.Prepares c u where
  classes_eq := h'.classes_eq.trans h.classes_eq
  methods_le := Nat.le_trans h.methods_le h'.methods_le
  method_eq := fun m hm => by
    rw [h'.method_eq m (h.extends.hasMethod hm), h.method_eq m hm]
  dispatch_eq := fun m hm hmc => by
    rw [h'.dispatch_eq m (h.extends.hasMethod hm) (by rwa [h.getClass]), h.dispatch_eq m hm hmc]
  new_current := fun m hm => by
    by_cases hmt : t.HasMethod m
    · rw [h'.method_eq m hmt, h.new_current m hm]
    · exact h'.new_current m hmt
  new_held := fun m hm hmu => by
    by_cases hmt : t.HasMethod m
    · obtain ⟨d, hholder, hd⟩ := h.new_held m hm hmt
      exact ⟨d, by rw [h'.extends.holder hmt, hholder], hd⟩
    · obtain ⟨d, hholder, hd⟩ := h'.new_held m hmt hmu
      exact ⟨d, hholder, h.hasClass.mp hd⟩

theorem Prepares.wellFormed (h : s.Prepares c t) (w : s.WellFormed root) : t.WellFormed root :=
  w.of_extends h.extends (fun d _ => by rw [h.getClass]) (fun d _ => by rw [h.getClass])
    (by rw [h.classes_eq]) h.new_held

/-- Giving dispatch indices to methods of `c` prepares. -/
theorem Prepares.of_setDispatches {indices : List (MethodId × DispatchIndex)}
    (h : ∀ m, m ∉ (s.getClass c).methods → indices.reverse.lookup m = none) :
    s.Prepares c (indices.foldl (fun s e => s.setDispatch e.1 e.2) s) where
  classes_eq := classes_setDispatches s indices
  methods_le := by rw [size_setDispatches]
  method_eq := fun m _ => getMethod_setDispatches s indices m
  dispatch_eq := fun m hm hmc => by
    rw [dispatch_setDispatches s indices hm, h m hmc, Option.getD_none]
  new_current := fun m hm => by
    rw [getMethod_setDispatches, getMethod_of_not hm]
    rfl
  new_held := fun m hm hmt => by
    rw [HasMethod, size_setDispatches] at hmt
    exact absurd hmt hm

/-- Adding a placeholder prepares. -/
theorem Prepares.of_addPlaceholder (w : s.WellFormed root) (hm : s.HasMethod m) (c : ClassId)
    (token : Token) (slot : Nat) :
    s.Prepares c (s.addMethods [.placeholder token (s.getMethod m) slot]) where
  classes_eq := rfl
  methods_le := by simp
  method_eq := fun m' hm' => by rw [getMethod_addMethods_of_has _ _ _ hm']
  dispatch_eq := fun m' hm' _ => by rw [getMethod_addMethods_of_has _ _ _ hm']
  new_current := fun m' hm' => by
    rw [getMethod_addMethods_of_not _ _ _ hm']
    cases m'.index - s.methods.size <;> rfl
  new_held := fun m' hm' hmt => by
    rw [hasMethod_addMethods] at hmt
    rw [HasMethod] at hm'
    obtain ⟨d, hholder, hd⟩ := w.held m hm
    refine ⟨d, ?_, hd⟩
    have hzero : m'.index - s.methods.size = 0 := by
      rw [List.length_singleton] at hmt
      omega
    rw [getMethod_addMethods_of_not _ _ _ (by rwa [HasMethod]), hzero, ← hholder]
    rfl

end Store

/-! ## Placing placeholders -/

namespace Linker

/-- `t` works with the settings of `l` and on its classes; only placeholders are numbered on. -/
structure Continues (l t : Linker) : Prop where
  config : t.config = l.config
  conflicts : t.conflicts = l.conflicts
  consults : t.consultsConflicts = l.consultsConflicts
  registry : t.registry = { l.registry with nextMirandaRow := t.registry.nextMirandaRow }

theorem Continues.refl (l : Linker) : l.Continues l := ⟨rfl, rfl, rfl, rfl⟩

theorem Continues.trans {l t u : Linker} (h : l.Continues t) (h' : t.Continues u) :
    l.Continues u where
  config := h'.config.trans h.config
  conflicts := h'.conflicts.trans h.conflicts
  consults := h'.consults.trans h.consults
  registry := by rw [h'.registry, h.registry]

/-- Both switches and the recorded conflicts are kept. -/
theorem Continues.conflict?_eq {l t : Linker} (h : l.Continues t) : t.conflict? = l.conflict? := by
  funext descriptor a b
  rw [conflict?, conflict?, h.config, h.consults, h.conflicts]

/-- Some part of linking `c` has run before the tables are installed, and nothing else has. -/
structure Prepares (l : Linker) (c : ClassId) (t : Linker) : Prop where
  store : l.store.Prepares c t.store
  continues : l.Continues t
  statistics : t.statistics = l.statistics

variable {l : Linker} {root : Option ClassId} {c : ClassId} {m : MethodId}

theorem Prepares.refl (l : Linker) (c : ClassId) : l.Prepares c l := ⟨.refl _ c, .refl _, rfl⟩

theorem Prepares.trans {l t u : Linker} (h : l.Prepares c t) (h' : t.Prepares c u) :
    l.Prepares c u :=
  ⟨h.store.trans h'.store, h.continues.trans h'.continues, h'.statistics.trans h.statistics⟩

theorem Prepares.of_record (l : Linker) (c : ClassId) (ds : List Diagnostic) :
    l.Prepares c (l.record ds) :=
  ⟨.refl _ c, ⟨rfl, rfl, rfl, rfl⟩, rfl⟩

theorem Prepares.of_commit {f : Fill}
    (h : ∀ m, m ∉ (l.store.getClass c).methods → f.lastIndex? m = none) :
    l.Prepares c (l.commit c f) :=
  ⟨.of_setDispatches h, ⟨rfl, rfl, rfl, rfl⟩, rfl⟩

/-- A placeholder in `t` of the interface method `m`, which is not in `s` yet. -/
structure IsPlaceholder (s t : Store) (m placeholder : MethodId) : Prop where
  isNew : ¬ s.HasMethod placeholder
  source : t.HasMethod m
  hasMethod : t.HasMethod placeholder
  selector : t.selector placeholder = t.selector m
  access : (t.getMethod placeholder).access = .onlyPublic
  modifiers : (t.getMethod placeholder).modifiers = .miranda
  holder : (t.getMethod placeholder).holder = (t.getMethod m).holder

theorem IsPlaceholder.of_extends {s s' t : Store} {m placeholder : MethodId} (h : s.Extends s')
    (hp : IsPlaceholder s' t m placeholder) : IsPlaceholder s t m placeholder :=
  { hp with isNew := fun hs => hp.isNew (h.hasMethod hs) }

theorem IsPlaceholder.extends {s t u : Store} {m placeholder : MethodId}
    (hp : IsPlaceholder s t m placeholder) (h : t.Extends u) : IsPlaceholder s u m placeholder where
  isNew := hp.isNew
  source := h.hasMethod hp.source
  hasMethod := h.hasMethod hp.hasMethod
  selector := by rw [h.selector hp.hasMethod, h.selector hp.source, hp.selector]
  access := by rw [h.access hp.hasMethod, hp.access]
  modifiers := by rw [h.modifiers hp.hasMethod, hp.modifiers]
  holder := by rw [h.holder hp.hasMethod, h.holder hp.source, hp.holder]

/-- Creating a placeholder. -/
theorem newPlaceholder_outcome (w : l.store.WellFormed root) (hm : l.store.HasMethod m)
    (c : ClassId) (slot : Nat) :
    Outcome (newPlaceholder m slot) l
      (fun placeholder t => l.Prepares c t ∧
        (∀ x, l.store.HasMethod x → t.store.getMethod x = l.store.getMethod x) ∧
        IsPlaceholder l.store t.store m placeholder ∧
        (t.store.getMethod placeholder).dispatch = .virtual slot)
      (fun _ _ => False) := by
  have hprep := Store.Prepares.of_addPlaceholder w hm c l.registry.mirandaToken slot
  have hext := hprep.extends
  have hget : (l.store.addMethods [.placeholder l.registry.mirandaToken (l.store.getMethod m)
      slot]).getMethod ⟨l.store.methods.size⟩ =
      .placeholder l.registry.mirandaToken (l.store.getMethod m) slot :=
    l.store.getMethod_addMethods_next _ (i := 0) rfl
  refine (outcome_of_ok (x := newPlaceholder m slot) rfl).mpr ⟨⟨hprep, ⟨rfl, rfl, rfl, rfl⟩, rfl⟩,
    fun x hx => Store.getMethod_addMethods_of_has _ _ _ hx, ?_, congrArg Method.dispatch hget⟩
  refine ⟨fun hs => Nat.lt_irrefl _ hs, hext.hasMethod hm, ?_, ?_, ?_, ?_, ?_⟩
  · exact (Store.hasMethod_addMethods ..).mpr (Nat.lt_succ_self _)
  · rw [hext.selector hm, Store.selector, hget]
    rfl
  · rw [hget]
    rfl
  · rw [hget]
    rfl
  · rw [hext.holder hm, hget]
    rfl

/-- Placing placeholders fills the slots behind the used ones, one for each interface method, and
fails only if there are not enough of them. -/
theorem placeMirandas_outcome (w : l.store.WellFormed root) {used : Nat}
    {slots : Array (Option MethodId)} {ms : List MethodId} (hms : ∀ m ∈ ms, l.store.HasMethod m) :
    Outcome (placeMirandas c used slots ms) l
      (fun r t => l.Prepares c t ∧ r.1.size = slots.size ∧
        (∀ x, l.store.HasMethod x → t.store.getMethod x = l.store.getMethod x) ∧
        List.Forall₂ (IsPlaceholder l.store t.store) ms r.2 ∧
        (∀ j x, r.2[j]? = some x → (t.store.getMethod x).dispatch = .virtual (used + j)) ∧
        ∀ i, r.1[i]?.join = if used ≤ i ∧ i < used + ms.length then r.2[i - used]?
          else slots[i]?.join)
      (fun e t => l.Prepares c t ∧ slots.size < used + ms.length ∧
        ∃ name, e = .inconsistent (.vtableOverflow name slots.size)) := by
  induction ms generalizing l used slots with
  | nil =>
    refine (outcome_of_ok (x := placeMirandas c used slots []) rfl).mpr
      ⟨.refl l c, rfl, fun _ _ => rfl, .nil, nofun, fun i => ?_⟩
    rw [if_neg (by simp)]
  | cons m ms ih =>
    simp only [placeMirandas, outcome_bind, outcome_get, outcome_ite, outcome_throw, outcome_trace,
      outcome_pure]
    refine (newPlaceholder_outcome w (hms m List.mem_cons_self) c used).imp
      (fun placeholder l₁ h₁ => ?_) (fun _ _ h => h.elim)
    obtain ⟨hprep, hsame, hplaceholder, hdispatch⟩ := h₁
    refine ⟨fun hfull => ⟨hprep, ?_, _, rfl⟩, fun hroom => ?_⟩
    · rw [List.length_cons]
      omega
    · have hprep₂ : l.Prepares c (if l₁.config.traceVTables = true then l₁.record
          [VTableEvent.diagnostic l₁.store (l₁.store.getClass c).name (.miranda m used)]
          else l₁) := by
        split
        · exact hprep.trans (.of_record l₁ c _)
        · exact hprep
      refine (ih (hprep₂.store.wellFormed w) fun m' hm' => hprep₂.store.extends.hasMethod
        (hms m' (List.mem_cons_of_mem _ hm'))).imp (fun r t h => ?_) (fun e t h => ?_)
      · obtain ⟨hprep₃, hsize, hsame₃, hall, hindices, hslots⟩ := h
        refine ⟨hprep₂.trans hprep₃, by rw [hsize]; simp, fun x hx => ?_, .cons ?_ ?_,
          fun j x hx => ?_, fun i => ?_⟩
        · rw [hsame₃ x (hprep₂.store.extends.hasMethod hx), ← hsame x hx]
          split <;> rfl
        · refine hplaceholder.extends ?_
          have hext := hprep₃.store.extends
          split at hext
          · exact hext
          · exact hext
        · exact hall.imp fun _ _ => IsPlaceholder.of_extends hprep₂.store.extends
        · cases j with
          | zero =>
            cases hx
            rw [hsame₃ placeholder (by split <;> exact hplaceholder.hasMethod), Nat.add_zero,
              ← hdispatch]
            split <;> rfl
          | succ j =>
            rw [hindices j x hx, Nat.add_assoc, Nat.add_comm 1 j]
        · rw [hslots, List.length_cons]
          by_cases hi : i = used
          · subst hi
            rw [if_neg (by omega), if_pos (by omega)]
            simp [Nat.lt_of_not_le hroom]
          · by_cases hlt : used < i ∧ i < used + 1 + ms.length
            · rw [if_pos (by omega), if_pos (by omega),
                show i - used = i - (used + 1) + 1 by omega, List.getElem?_cons_succ]
            · rw [if_neg (by omega), if_neg (by omega)]
              simp [Ne.symm hi]
      · obtain ⟨hprep₃, hsize, name, he⟩ := h
        rw [Array.size_setIfInBounds] at hsize he
        exact ⟨hprep₂.trans hprep₃, by rw [List.length_cons]; omega, name, he⟩

end Linker
end ClassLinking
