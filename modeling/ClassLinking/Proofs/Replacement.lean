import ClassLinking.Proofs.Runs

/-!
# Replacing a single method

A method may be replaced in the tables of one class without its holder being redefined.  The new
body is any method of the store with the same holder and the same selector; it may have been added
to the store for this purpose, and it need not be declared by anybody.

Replacing comes to exchanging one method for the other everywhere in the two tables of the class and
at its slot in the list of defaults (`Replaced`, `replaceMethod_outcome`).  The check at the end may
fail; the tables are adjusted by then.

`Maintained l` says that commands, new bodies and replacements lead to `l`.  Its states are as sound
as those of runs of commands alone (`Maintained.sound`).
-/

namespace ClassLinking
namespace Linker

/-! ## The places of a method -/

section Places

variable (old new : MethodId)

/-- `new` for `old`, and every other method for itself. -/
def exchanged (m : MethodId) : MethodId := if m = old then new else m

theorem map_slotsHolding (i : Nat) (row : List (Option MethodId)) :
    (slotsHolding old i row).map (fun i => (i, some new)) =
      updates (fun x => if x = some old then some (some new) else none) i row := by
  induction row generalizing i with
  | nil => rfl
  | cons x rest ih =>
    rw [slotsHolding, updates]
    split <;> simp [ih]

theorem map_entriesBoundTo (i : Nat) (row : List ITableEntry) :
    (entriesBoundTo old i row).map (fun i => (i, ITableEntry.bound new)) =
      updates (fun x => if x = .bound old then some (.bound new) else none) i row := by
  induction row generalizing i with
  | nil => rfl
  | cons x rest ih =>
    rw [entriesBoundTo, updates]
    split <;> simp [ih]

theorem lt_of_mem_slotsHolding {i : Nat} {row : List (Option MethodId)}
    (h : i ∈ slotsHolding old 0 row) : i < row.length := by
  have hmem := List.mem_map_of_mem (f := fun i => (i, some old)) h
  rw [map_slotsHolding] at hmem
  simpa using lt_of_mem_updates hmem

theorem lt_of_mem_entriesBoundTo {i : Nat} {row : List ITableEntry}
    (h : i ∈ entriesBoundTo old 0 row) : i < row.length := by
  have hmem := List.mem_map_of_mem (f := fun i => (i, ITableEntry.bound old)) h
  rw [map_entriesBoundTo] at hmem
  simpa using lt_of_mem_updates hmem

/-- Writing `new` to the slots that hold `old` exchanges the two in the row. -/
theorem write_slotsHolding (row : List (Option MethodId)) :
    write row ((slotsHolding old 0 row).map fun i => (i, some new)) =
      row.map (Option.map (exchanged old new)) := by
  rw [map_slotsHolding, write_updates_self]
  refine List.map_congr_left fun x _ => ?_
  cases x with
  | none => rfl
  | some m =>
    simp only [Option.some.injEq, Option.map_some, exchanged]
    split <;> rfl

/-- Writing `new` to the entries that are bound to `old` exchanges the two in the row. -/
theorem write_entriesBoundTo (row : List ITableEntry) :
    write row ((entriesBoundTo old 0 row).map fun i => (i, .bound new)) =
      row.map (ITableEntry.exchange (exchanged old new)) := by
  rw [map_entriesBoundTo, write_updates_self]
  refine List.map_congr_left fun x _ => ?_
  cases x with
  | empty => rfl
  | inaccessible method => rfl
  | bound m =>
    simp only [ITableEntry.bound.injEq, ITableEntry.exchange, exchanged]
    split <;> rfl

end Places

/-! ## Replacing -/

variable {l t : Linker} {c : ClassId} {old new : MethodId} {ts : Tables} {P : MethodId → Prop}

theorem replaceSlots_outcome {slots : List Nat} (hts : (l.store.getClass c).tables = some ts)
    (hslots : ∀ i ∈ slots, i < ts.vtable.slots.length) (hP : P old → P new) :
    Outcome (replaceSlots c old new slots) l
      (fun _ t => Adjusts c P l t ∧ (t.store.getClass c).tables = some { ts with
        vtable := ⟨write ts.vtable.slots (slots.map fun i => (i, some new))⟩ })
      (fun _ _ => False) := by
  induction slots generalizing l ts with
  | nil => exact ⟨.refl c P l, hts⟩
  | cons i rest ih =>
    unfold replaceSlots
    simp only [outcome_bind]
    refine (writeSlot_outcome (P := P) hts (hslots i List.mem_cons_self) new).imp (fun _ t ht => ?_)
      (fun _ _ h => h)
    refine (replaceDefault_outcome ht.2 i hP).imp (fun _ u hu => ?_) (fun _ _ h => h)
    refine (traceAdjustment_outcome (.refl c P u) hu.2 c new .vtable i).imp (fun _ v hv => ?_)
      (fun _ _ h => h)
    refine (ih hv.2 fun j hj => ?_).imp
      (fun _ w hw => ⟨ht.1.trans (hu.1.trans (hv.1.trans hw.1)), hw.2⟩) (fun _ _ h => h)
    rw [List.length_set]
    exact hslots j (List.mem_cons_of_mem _ hj)

/-- In the tables and the defaults of `c`, the method `new` took the place of `old`, which has the
same holder and the same selector. -/
structure Replaced (c : ClassId) (old new : MethodId) (l t : Linker) : Prop where
  holder : ∃ h, l.store.holder? old = some h ∧ l.store.holder? new = some h
  selector : l.store.selector old = l.store.selector new
  methods_size : t.store.methods.size = l.store.methods.size
  method_eq : ∀ m, t.store.getMethod m =
    { l.store.getMethod m with dispatch := (t.store.getMethod m).dispatch }
  classes_size : t.store.classes.size = l.store.classes.size
  class_eq : ∀ d, t.store.getClass d = { l.store.getClass d with
    defaults := (t.store.getClass d).defaults
    tables := (t.store.getClass d).tables }
  defaults : ∀ d, ∀ m ∈ (t.store.getClass d).defaults, m ∈ (l.store.getClass d).defaults ∨
    m = new ∧ old ∈ (l.store.getClass d).defaults
  tables : ∀ d, (t.store.getClass d).tables =
    if d = c then (l.store.getClass d).tables.map (Tables.exchange (exchanged old new))
    else (l.store.getClass d).tables
  unlinked : ∀ d, ¬ l.store.Linked d → t.store.getClass d = l.store.getClass d
  config : t.config = l.config
  registry : t.registry = l.registry

/-- The new method may be given the dispatch index of the old one before the tables are touched. -/
structure TakesIndex (l t : Linker) : Prop where
  methods_size : t.store.methods.size = l.store.methods.size
  method_eq : ∀ m, t.store.getMethod m =
    { l.store.getMethod m with dispatch := (t.store.getMethod m).dispatch }
  classes : t.store.classes = l.store.classes
  config : t.config = l.config
  registry : t.registry = l.registry

theorem TakesIndex.getClass (h : TakesIndex l t) (d : ClassId) :
    t.store.getClass d = l.store.getClass d := by
  rw [Store.getClass, Store.getClass, h.classes]

theorem takesIndex_setDispatch (l : Linker) (m : MethodId) (index : DispatchIndex) :
    TakesIndex l (l.mapStore fun s => s.setDispatch m index) where
  methods_size := Store.size_modifyMethod ..
  method_eq := fun n => by
    show (l.store.setDispatch m index).getMethod n = _
    rw [mapStore, Store.setDispatch, Store.getMethod_modifyMethod]
    split <;> rfl
  classes := rfl
  config := rfl
  registry := rfl

theorem replaced_of_adjusts {u : Linker}
    (hholder : ∃ h, l.store.holder? old = some h ∧ l.store.holder? new = some h)
    (hselector : l.store.selector old = l.store.selector new) (hu : TakesIndex l u)
    (hts : (l.store.getClass c).tables = some ts)
    (h : Adjusts c (fun m => m ∈ (l.store.getClass c).defaults ∨
      m = new ∧ old ∈ (l.store.getClass c).defaults) u t)
    (htables : (t.store.getClass c).tables = some (ts.exchange (exchanged old new))) :
    Replaced c old new l t where
  holder := hholder
  selector := hselector
  methods_size := by rw [h.methods, hu.methods_size]
  method_eq := fun m => by
    have hsame : t.store.getMethod m = u.store.getMethod m := by
      rw [Store.getMethod, Store.getMethod, h.methods]
    rw [hsame]
    exact hu.method_eq m
  classes_size := by rw [h.size_eq, hu.classes]
  class_eq := fun d => by
    by_cases hd : d = c
    · rw [hd, ← hu.getClass]
      exact h.class_eq
    · rw [h.others d hd, hu.getClass]
  defaults := fun d => by
    by_cases hd : d = c
    · rw [hd]
      refine h.defaults fun m hm => Or.inl ?_
      rwa [hu.getClass] at hm
    · rw [h.others d hd, hu.getClass]
      exact fun m hm => Or.inl hm
  tables := fun d => by
    by_cases hd : d = c
    · rw [hd, if_pos rfl, htables, hts]
      rfl
    · rw [if_neg hd, h.others d hd, hu.getClass]
  unlinked := fun d hd => by
    have hne : d ≠ c := fun heq => hd (heq ▸ Store.linked_iff.mpr ⟨ts, hts⟩)
    rw [h.others d hne, hu.getClass]
  config := h.config.trans hu.config
  registry := h.registry.trans hu.registry

/-- A class without tables has nothing to replace. -/
theorem replaced_of_unlinked
    (hholder : ∃ h, l.store.holder? old = some h ∧ l.store.holder? new = some h)
    (hselector : l.store.selector old = l.store.selector new) (hu : TakesIndex l t)
    (hnone : (l.store.getClass c).tables = none) : Replaced c old new l t where
  holder := hholder
  selector := hselector
  methods_size := hu.methods_size
  method_eq := hu.method_eq
  classes_size := by rw [hu.classes]
  class_eq := fun d => by rw [hu.getClass]
  defaults := fun d m hm => Or.inl (by rwa [hu.getClass] at hm)
  tables := fun d => by
    rw [hu.getClass]
    split
    · rename_i hd
      rw [hd, hnone]
      rfl
    · rfl
  unlinked := fun d _ => hu.getClass d
  config := hu.config
  registry := hu.registry

/-- **Replacing a method exchanges it for the new one**, or changes nothing.  It may fail after the
exchange, if the tables of the class refer to a replaced body then. -/
theorem replaceMethod_outcome (c : ClassId) (old new : MethodId) :
    Outcome (replaceMethod c old new) l
      (fun _ t => Replaced c old new l t)
      (fun _ t => t = l ∨ Replaced c old new l t) := by
  unfold replaceMethod
  simp only [outcome_bind, outcome_get, outcome_ite, outcome_throw]
  refine ⟨fun _ => Or.inl trivial, fun hcan => ?_⟩
  simp only [Bool.not_eq_true, Bool.or_eq_false_iff, Bool.not_eq_false', Bool.and_eq_true,
    beq_iff_eq, decide_eq_false_iff_not, not_not] at hcan
  obtain ⟨hsame, hselector⟩ := hcan
  have hholder : ∃ h, l.store.holder? old = some h ∧ l.store.holder? new = some h := by
    obtain ⟨h, hh⟩ := Option.isSome_iff_exists.mp hsame.1
    exact ⟨h, hh, hsame.2 ▸ hh⟩
  have hindexed : TakesIndex l l := ⟨rfl, fun _ => rfl, rfl, rfl, rfl⟩
  -- What is left to do, once the new method has its index, depends on the tables.
  cases hts : (l.store.getClass c).tables with
  | none =>
    have hrest : ∀ u, TakesIndex l u → Outcome (do checkNoOldEntries c; return 0 : LinkM Nat) u
        (fun _ t => Replaced c old new l t) (fun _ t => t = l ∨ Replaced c old new l t) := by
      intro u hu
      have hreplaced := replaced_of_unlinked hholder hselector hu hts
      simp only [checkNoOldEntries, outcome_bind, outcome_get, outcome_ofExcept, outcome_pure]
      exact ⟨fun _ _ => hreplaced, fun _ _ => Or.inr hreplaced⟩
    exact ⟨fun _ => hrest _ (takesIndex_setDispatch l new _), fun _ => hrest l hindexed⟩
  | some ts =>
    have hslots : ∀ i ∈ slotsHolding old 0 ts.vtable.slots, i < ts.vtable.slots.length :=
      fun i hi => lt_of_mem_slotsHolding old hi
    have hentries : ∀ e ∈ (entriesBoundTo old 0 ts.itable.entries).map fun i => (i, new),
        e.1 < ts.itable.entries.length := fun e he => by
      obtain ⟨i, hi, rfl⟩ := List.mem_map.mp he
      exact lt_of_mem_entriesBoundTo old hi
    have hrest : ∀ u, TakesIndex l u → Outcome (do
        replaceSlots c old new (slotsHolding old 0 ts.vtable.slots)
        applyEntries c ((entriesBoundTo old 0 ts.itable.entries).map fun i => (i, new))
        checkNoOldEntries c
        return (slotsHolding old 0 ts.vtable.slots).length +
          (entriesBoundTo old 0 ts.itable.entries).length : LinkM Nat) u
        (fun _ t => Replaced c old new l t) (fun _ t => t = l ∨ Replaced c old new l t) := by
      intro u hu
      simp only [checkNoOldEntries, outcome_bind, outcome_get, outcome_ofExcept, outcome_pure]
      refine (replaceSlots_outcome (P := fun m => m ∈ (l.store.getClass c).defaults ∨
        m = new ∧ old ∈ (l.store.getClass c).defaults) (by rw [hu.getClass, hts]) hslots
        fun hP => Or.inr ⟨rfl, hP.elim id And.right⟩).imp (fun _ v hv => ?_) (fun _ _ h => h.elim)
      refine (applyEntries_outcome (P := fun m => m ∈ (l.store.getClass c).defaults ∨
        m = new ∧ old ∈ (l.store.getClass c).defaults) hv.2 hentries).imp (fun _ w hw => ?_)
        (fun _ _ h => h.elim)
      have hreplaced : Replaced c old new l w := by
        have hentries' := write_entriesBoundTo old new ts.itable.entries
        refine replaced_of_adjusts hholder hselector hu hts (hv.1.trans hw.1) (hw.2.trans ?_)
        rw [write_slotsHolding, List.map_map]
        simp only [Function.comp_def, hentries']
        rfl
      exact ⟨fun _ _ => hreplaced, fun _ _ => Or.inr hreplaced⟩
    exact ⟨fun _ => hrest _ (takesIndex_setDispatch l new _), fun _ => hrest l hindexed⟩

theorem Replaced.extends (h : Replaced c old new l t) : l.store.Extends t.store where
  classes_le := h.classes_size.ge
  methods_le := h.methods_size.ge
  class_eq := fun d _ => by rw [h.class_eq d]
  method_eq := fun m _ => by rw [h.method_eq m]

/-! ## Runs with replacements -/

theorem Replaced.linked_iff (h : Replaced c old new l t) {d : ClassId} :
    t.store.Linked d ↔ l.store.Linked d := by
  rw [Store.Linked, Store.Linked, Class.isLinked, Class.isLinked, h.tables]
  split
  · rw [Option.isSome_map]
  · rfl

/-- Replacing a method keeps a linker sound: the new method has the holder of the old one. -/
theorem Sound.replaced (h : l.Sound) (hr : Replaced c old new l t) : t.Sound where
  wellFormed := by
    have w := h.wellFormed
    have hclass : ∀ d, t.store.HasClass d → l.store.HasClass d := fun d hd => by
      rwa [Store.HasClass, hr.classes_size] at hd
    have hheld : ∀ m, l.store.HasMethod m →
        t.store.HasMethod m ∧ (t.store.getMethod m).holder = (l.store.getMethod m).holder :=
      fun m hm => ⟨hr.extends.hasMethod hm, hr.extends.holder hm⟩
    obtain ⟨e, hold, hnew⟩ := hr.holder
    have hhas : ∀ {m}, l.store.holder? m = some e → l.store.HasMethod m :=
      Store.hasMethod_of_holder?
    rw [hr.registry]
    refine ⟨fun d hd => ?_, fun m hm => ?_, fun top htop => ?_,
      fun d hd => w.rooted d (hclass d hd)⟩
    · have hdl := hclass d hd
      have f := w.fits d hdl
      refine w.fits_extends hr.extends hdl (fun m hm => ?_) (fun m hm => ?_)
      · rw [hr.class_eq] at hm
        obtain ⟨hmhas, hmheld⟩ := f.methods m hm
        exact ⟨(hheld m hmhas).1, (hheld m hmhas).2.trans hmheld⟩
      · rcases hr.defaults d m hm with hm | ⟨rfl, hm⟩
        · obtain ⟨hmhas, i, hi, hmheld⟩ := f.defaults m hm
          exact ⟨(hheld m hmhas).1, i, hi, (hheld m hmhas).2.trans hmheld⟩
        · obtain ⟨-, i, hi, hmheld⟩ := f.defaults old hm
          have hmnew := hheld m (hhas hnew)
          refine ⟨hmnew.1, i, hi, ?_⟩
          rw [hmnew.2, ← w.holder?_eq (hhas hnew), hnew, ← hold, w.holder?_eq (hhas hold), hmheld]
    · rw [Store.HasMethod, hr.methods_size] at hm
      obtain ⟨d, hd, hdl⟩ := w.held m hm
      exact ⟨d, (hheld m hm).2.trans hd, hr.extends.hasClass hdl⟩
    · obtain ⟨htopl, htop'⟩ := w.root_fits top htop
      exact ⟨hr.extends.hasClass htopl, by rw [hr.extends.superclass? htopl, htop']⟩
  linkedUp := fun d hd p hp => by
    have hdl := hr.linked_iff.mp hd
    rw [hr.extends.definedFrom hdl.hasClass] at hp
    exact hr.linked_iff.mpr (h.linkedUp d hdl p hp)
  current := fun d m hm => by
    rw [hr.class_eq] at hm
    rw [Store.isOld, hr.method_eq]
    exact h.current d m hm
  inheritsDefaults := fun d hd hunlinked => by
    rw [Store.HasClass, hr.classes_size] at hd
    rw [hr.linked_iff] at hunlinked
    exact (h.inheritsDefaults d hd hunlinked).of_eq h.wellFormed hd hr.extends
      (by rw [hr.unlinked d hunlinked])
  nodup := by
    rw [hr.registry]
    exact h.nodup
  registered := fun d hd => by
    rw [hr.registry] at hd
    exact hr.extends.hasClass (h.registered d hd)

/-- A body that a class of the store holds, without being one of its declared methods. -/
theorem Sound.addsBody (h : l.Sound) {x : Method} (hx : x.holder = some c)
    (hc : l.store.HasClass c) : (l.mapStore fun s => s.addMethods [x]).Sound := by
  have w := h.wellFormed
  have hget : ∀ m, l.store.HasMethod m →
      (l.store.addMethods [x]).getMethod m = l.store.getMethod m :=
    fun m hm => Store.getMethod_addMethods_of_has _ _ _ hm
  have hext : l.store.Extends (l.store.addMethods [x]) := Store.extends_addMethods _ _
  refine
    { wellFormed := ⟨fun d hd => ?_, fun m hm => ?_, w.root_fits, w.rooted⟩
      linkedUp := h.linkedUp
      current := fun d m hm => ?_
      inheritsDefaults := fun d hd hunlinked =>
        (h.inheritsDefaults d hd hunlinked).of_eq w hd hext rfl
      nodup := h.nodup
      registered := h.registered }
  · have f := w.fits d hd
    refine w.fits_extends hext hd (fun m hm => ?_) (fun m hm => ?_)
    · obtain ⟨hmhas, hmheld⟩ := f.methods m hm
      exact ⟨hext.hasMethod hmhas, (hext.holder hmhas).trans hmheld⟩
    · obtain ⟨hmhas, i, hi, hmheld⟩ := f.defaults m hm
      exact ⟨hext.hasMethod hmhas, i, hi, (hext.holder hmhas).trans hmheld⟩
  · by_cases hml : l.store.HasMethod m
    · obtain ⟨d, hd, hdl⟩ := w.held m hml
      exact ⟨d, (hext.holder hml).trans hd, hdl⟩
    · refine ⟨c, ?_, hc⟩
      have hzero : m.index - l.store.methods.size = 0 := by
        change (l.store.addMethods [x]).HasMethod m at hm
        rw [Store.hasMethod_addMethods, List.length_singleton] at hm
        rw [Store.HasMethod] at hml
        omega
      show ((l.store.addMethods [x]).getMethod m).holder = some c
      rw [Store.getMethod_addMethods_of_not _ _ _ hml, hzero]
      exact hx
  · have hd : l.store.HasClass d := by
      by_contra hno
      rw [mapStore, Store.getClass_addMethods, Store.getClass_of_not hno] at hm
      exact absurd hm List.not_mem_nil
    have hmhas := ((w.fits d hd).methods m hm).1
    show ((l.store.addMethods [x]).getMethod m).revision.isOld = false
    rw [hget m hmhas]
    exact h.current d m hm

/-- The states that commands, new bodies and replacements of single methods lead to. -/
inductive Maintained : Linker → Prop where
  | start {l : Linker} : l.IsEmpty → Maintained l
  | command {l : Linker} {x : Command} : Maintained l → x.Admissible l.store →
    Maintained (x.after l)
  /-- A body is created that some class of the store holds. -/
  | body {l : Linker} {x : Method} {holder : ClassId} : Maintained l → x.holder = some holder →
    l.store.HasClass holder → Maintained (l.mapStore fun s => s.addMethods [x])
  | replace {l : Linker} (c : ClassId) (old new : MethodId) : Maintained l →
    Maintained ((replaceMethod c old new).final l)

theorem Reachable.maintained {allowed : Command → Prop} (h : Reachable allowed l) :
    Maintained l := by
  induction h with
  | start hempty _ => exact .start hempty
  | step _ _ hx ih => exact .command ih hx

/-- **Every step keeps a linker sound**, replacements of single methods included. -/
theorem Maintained.sound (h : Maintained l) : l.Sound := by
  induction h with
  | start hempty => exact hempty.sound
  | command _ hx ih => exact ih.after hx
  | body _ hx hc ih => exact ih.addsBody hx hc
  | replace c old new _ ih =>
    exact ((replaceMethod_outcome c old new).imp (fun _ _ ht => ih.replaced ht)
      (fun _ t ht => ht.elim (fun heq => heq ▸ ih) fun ht => ih.replaced ht)).final

end Linker
end ClassLinking
