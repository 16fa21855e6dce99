import ClassLinking.Proofs.Mirandas
import ClassLinking.Proofs.Occupants

/-!
# What building a virtual table yields

A virtual table is built from the superclass's, so everything said here starts from
`Store.inheritedAt`, what the superclass has in a slot.  `VTableLayout.Built` describes the table
that comes out: the declared methods and the defaults of the class were placed over the inherited
slots, and the placeholders of the pending mirandas stand behind the slots in use.

`Linker.buildVTable_outcome` says that building yields such a table or fails for one of the reasons
that `VTableFailure` lists.
-/

namespace ClassLinking

/-- Only the slots of a table are filled. -/
theorem VTable.lt_of_methodAt {t : VTable} {slot : Nat} {m : MethodId}
    (h : t.methodAt slot = some m) : slot < t.length := by
  by_contra hle
  rw [VTable.methodAt, List.getElem?_eq_none (Nat.le_of_not_lt hle)] at h
  cases h

namespace Store

variable (s : Store) (c : ClassId)

/-- What the superclass's table has in a slot. -/
def inheritedAt (slot : Nat) : Option MethodId := (s.superSlots c)[slot]?.join

/-- The mirandas that get placeholders in the table of `c`. -/
def pendingMirandas : List MethodId :=
  let k := s.getClass c
  if k.isInterface then []
  else s.newMirandas k.superclass? k.methods (some k.defaults) k.localInterfaces

variable {s c}

theorem isNewMiranda_of_pending {m : MethodId} (hm : m ∈ s.pendingMirandas c) :
    m ∈ s.metMethods (s.getClass c).localInterfaces ∧
      s.isNewMiranda (s.getClass c).superclass? (s.getClass c).methods
        (some (s.getClass c).defaults) m = true := by
  unfold pendingMirandas at hm
  dsimp only at hm
  split at hm
  · exact absurd hm List.not_mem_nil
  · exact mem_newMirandas hm

/-- Pending mirandas have different selectors. -/
theorem nodup_pendingMirandas (s : Store) (c : ClassId) :
    ((s.pendingMirandas c).map s.selector).Nodup := by
  unfold pendingMirandas
  dsimp only
  split
  · exact List.nodup_nil
  · exact nodup_newMirandas

/-- No default of the class has the selector of a pending miranda. -/
theorem selector_default_ne_of_pending {m : MethodId} (hm : m ∈ s.pendingMirandas c) :
    ∀ d ∈ (s.getClass c).defaults, s.selector d ≠ s.selector m := fun d hd hsel => by
  have hnew := (isNewMiranda_of_pending hm).2
  simp only [isNewMiranda, isMiranda, Bool.and_eq_true, Option.all_some] at hnew
  have hnone := findAmong?_isNone_iff.mp hnew.1.1.2 d hd hsel
  rw [LookupFilter.accepts_all] at hnone
  cases hnone

/-- The superclass does not meet a pending miranda. -/
theorem lookupInInterfaces?_of_pending {m : MethodId} (hm : m ∈ s.pendingMirandas c) {p : ClassId}
    (hp : (s.getClass c).superclass? = some p) :
    s.lookupInInterfaces? p (s.selector m) false = none := by
  have hnew := (isNewMiranda_of_pending hm).2
  rw [isNewMiranda, hp, Option.all_some, Bool.and_eq_true] at hnew
  exact Option.isNone_iff_eq_none.mp hnew.2

/-- What is pending does not change. -/
theorem Grows.pendingMirandas {t : Store} {root : Option ClassId} (h : s.Grows t)
    (w : s.WellFormed root) (hc : s.HasClass c) : t.pendingMirandas c = s.pendingMirandas c := by
  have f := w.fits c hc
  unfold Store.pendingMirandas
  dsimp only
  rw [h.extends.isInterface hc, h.extends.superclass? hc, h.extends.localInterfaces hc,
    h.methods hc, h.defaults hc,
    h.newMirandas w (fun i => w.hasClass_localInterface hc) (fun x hx => (f.methods x hx).1)
      (fun ds hds x hx => ?_) fun p => w.hasClass_superclass hc]
  obtain rfl := Option.some.inj hds
  exact (f.defaults x hx).1

/-- What is reserved does not change. -/
theorem Grows.reservedMirandas {t : Store} {root : Option ClassId} (h : s.Grows t)
    (w : s.WellFormed root) (hc : s.HasClass c) : t.reservedMirandas c = s.reservedMirandas c := by
  unfold Store.reservedMirandas
  dsimp only
  rw [h.extends.superclass? hc, h.extends.localInterfaces hc, h.methods hc,
    h.newMirandas w (fun i => w.hasClass_localInterface hc)
      (fun x hx => ((w.fits c hc).methods x hx).1) (fun ds hds => by cases hds)
      fun p => w.hasClass_superclass hc]

theorem inheritedAt_of_superclass {p : ClassId} {ts : Tables}
    (hp : (s.getClass c).superclass? = some p) (hts : (s.getClass p).tables = some ts)
    (slot : Nat) :
    s.inheritedAt c slot = ts.vtable.methodAt slot := by
  rw [inheritedAt, superSlots, hp]
  simp only [hts]
  rfl

theorem inheritedAt_top (hp : (s.getClass c).superclass? = none) (slot : Nat) :
    s.inheritedAt c slot = none := by
  rw [inheritedAt, superSlots, hp]
  rfl

/-- The inherited length is that of the superclass's table, which is there. -/
theorem length_superSlots {n : Nat}
    (h : s.inheritedLength (s.getClass c).superclass? = .ok n) : (s.superSlots c).length = n := by
  unfold superSlots
  unfold inheritedLength at h
  cases hp : (s.getClass c).superclass? with
  | none =>
    simp only [hp, Except.ok.injEq] at h
    simp only [List.length_nil, h]
  | some p =>
    simp only [hp] at h
    cases hts : (s.getClass p).tables with
    | none => simp [hts] at h
    | some ts =>
      simp only [hts, Except.ok.injEq] at h ⊢
      exact h

/-- Nothing is inherited past the inherited length. -/
theorem inheritedAt_eq_none {n slot : Nat}
    (h : s.inheritedLength (s.getClass c).superclass? = .ok n) (hle : n ≤ slot) :
    s.inheritedAt c slot = none := by
  rw [inheritedAt, List.getElem?_eq_none (by rw [length_superSlots h]; exact hle)]
  rfl

/-- What sizing answers. -/
theorem vtableSize_ok {config : Config} {size : VTableSize} (h : s.vtableSize config c = .ok size) :
    s.inheritedLength (s.getClass c).superclass? = .ok size.inherited ∧
      size.length = size.inherited + (s.declaredNewSlots config.transitiveOverrides c).length +
        (if (s.getClass c).isInterface then 0 else (s.reservedMirandas c).length) := by
  unfold vtableSize at h
  cases hn : s.inheritedLength (s.getClass c).superclass? with
  | error e =>
    simp only [hn] at h
    cases h
  | ok n =>
    simp only [hn] at h
    generalize hlen : n + (s.declaredNewSlots config.transitiveOverrides c).length +
      (if (s.getClass c).isInterface then 0 else (s.reservedMirandas c).length) = len at h
    split at h
    · split at h
      · cases h
        exact ⟨rfl, hlen.symm⟩
      · cases h
    · cases h
      exact ⟨rfl, hlen.symm⟩

/-- Sizing fails for a superclass without a table, or for a root class of the wrong length. -/
theorem vtableSize_error {config : Config} {e : LinkError} (h : s.vtableSize config c = .error e) :
    s.inheritedLength (s.getClass c).superclass? = .error e ∨
      ∃ name expected actual, e = .invalidRoot name expected actual := by
  unfold vtableSize at h
  cases hn : s.inheritedLength (s.getClass c).superclass? with
  | error e' =>
    simp only [hn] at h
    cases h
    exact Or.inl rfl
  | ok n =>
    simp only [hn] at h
    generalize n + (s.declaredNewSlots config.transitiveOverrides c).length +
      (if (s.getClass c).isInterface then 0 else (s.reservedMirandas c).length) = len at h
    split at h
    · split at h
      · cases h
      · cases h
        exact Or.inr ⟨_, _, _, rfl⟩
    · cases h

end Store

namespace FillEnv

variable (env : FillEnv) (c : ClassId) (size : VTableSize)

/-- The table of `c` before anything is placed. -/
def start : Fill where
  slots := (env.store.superSlots c ++
    List.replicate (size.length - size.inherited) none).toArray
  used := size.inherited

variable {env c size}

theorem size_start (h : env.store.inheritedLength (env.store.getClass c).superclass? =
    .ok size.inherited) (hle : size.inherited ≤ size.length) :
    (env.start c size).slots.size = size.length := by
  have hlen := Store.length_superSlots h
  simp only [start, List.size_toArray, List.length_append, List.length_replicate]
  omega

/-- A table starts with what the superclass's has. -/
theorem occupant_start (i : Nat) : (env.start c size).occupant i = env.store.inheritedAt c i := by
  simp only [start, Fill.occupant, List.getElem?_toArray, Store.inheritedAt]
  by_cases hi : i < (env.store.superSlots c).length
  · rw [List.getElem?_append_left hi]
  · rw [List.getElem?_append_right (by omega), List.getElem?_eq_none (by omega : _ ≤ i),
      List.getElem?_replicate]
    split <;> rfl

end FillEnv

/-! ## Building -/

/-- The table was built by placing and by appending placeholders; `t` is the store by then. -/
structure VTableLayout.Built (env : FillEnv) (c : ClassId) (size : VTableSize)
    (layout : VTableLayout) (t : Store) (f : Fill) : Prop where
  filled : ∃ f₁, env.PlacesAll c size.inherited
      ((env.store.getClass c).methods.map (env.placement c · false)) (env.start c size) f₁ ∧
    env.ListsSlots c size.inherited ((env.store.getClass c).defaults.map (env.placement c · true))
      layout.defaultSlots f₁ f
  length_eq : layout.table.length = size.length
  placeholders : List.Forall₂ (Linker.IsPlaceholder env.store t) (env.store.pendingMirandas c)
    layout.mirandas
  methodAt : ∀ i, layout.table.methodAt i =
    if f.used ≤ i ∧ i < f.used + (env.store.pendingMirandas c).length
    then layout.mirandas[i - f.used]? else f.occupant i

theorem VTableLayout.Built.placed {env : FillEnv} {c : ClassId} {size : VTableSize}
    {layout : VTableLayout} {t : Store} {f : Fill} (h : layout.Built env c size t f) :
    env.PlacesAll c size.inherited (env.placements c) (env.start c size) f := by
  obtain ⟨f₁, hdeclared, hdefaults⟩ := h.filled
  exact hdeclared.append hdefaults.placesAll

theorem VTableLayout.Built.extends {env : FillEnv} {c : ClassId} {size : VTableSize}
    {layout : VTableLayout} {t u : Store} {f : Fill} (h : layout.Built env c size t f)
    (hext : t.Extends u) : layout.Built env c size u f :=
  { h with placeholders := h.placeholders.imp fun _ _ hp => hp.extends hext }

/-- Each placeholder stands for the pending miranda at its place. -/
theorem VTableLayout.Built.placeholder_at {env : FillEnv} {c : ClassId} {size : VTableSize}
    {layout : VTableLayout} {t : Store} {f : Fill} (h : layout.Built env c size t f) {j : Nat}
    {m : MethodId} (hm : layout.mirandas[j]? = some m) :
    ∃ x, (env.store.pendingMirandas c)[j]? = some x ∧ Linker.IsPlaceholder env.store t x m := by
  obtain ⟨hj, rfl⟩ := List.getElem?_eq_some_iff.mp hm
  have hj' : j < (env.store.pendingMirandas c).length := by rwa [h.placeholders.length_eq]
  exact ⟨_, List.getElem?_eq_getElem hj', h.placeholders.get hj' hj⟩

/-- Why a virtual table is not built. -/
inductive VTableFailure (env : FillEnv) (c : ClassId) (size : VTableSize) : LinkError → Prop where
  | rejected (e : LinkError) :
    env.RejectsOneOf c size.inherited (env.placements c) (env.start c size) e →
    VTableFailure env c size e
  | overflow (f : Fill) (name : String) (n : Nat) :
    env.PlacesAll c size.inherited (env.placements c) (env.start c size) f →
    size.length < f.used + (env.store.pendingMirandas c).length →
    VTableFailure env c size (.inconsistent (.vtableOverflow name n))
  | unverified (layout : VTableLayout) (t : Store) (f : Fill) (e : LinkError) :
    env.store.Prepares c t → layout.Built env c size t f →
    t.verifyVTable c layout.table = .error e → VTableFailure env c size e

namespace Linker

variable {l : Linker} {root : Option ClassId} {c : ClassId}

@[simp] theorem outcome_runFill {α : Type} (pass : FillM α) (f : Fill)
    {Q : α × Fill → Linker → Prop} {E : LinkError → Linker → Prop} :
    Outcome (runFill c pass f) l Q E ↔
      Outcome pass f (fun a f' => Q (a, f') (l.commit c f')) (fun e f' => E e (l.commit c f')) := by
  unfold Outcome runFill
  cases pass f <;> rfl

theorem initialSlots_eq {s : Store} {size : VTableSize}
    (h : s.inheritedLength (s.getClass c).superclass? = .ok size.inherited)
    (hle : size.inherited ≤ size.length) :
    initialSlots s c size.length =
      .ok (s.superSlots c ++ List.replicate (size.length - size.inherited) none).toArray := by
  unfold initialSlots
  simp only [h, if_neg (Nat.not_lt.mpr hle)]

/-- The mirandas that get placeholders are methods of interfaces that the class implements. -/
theorem hasMethod_of_mem_pendingMirandas {s : Store} (w : s.WellFormed root) (hc : s.HasClass c)
    {m : MethodId} (hm : m ∈ s.pendingMirandas c) :
    ∃ i ∈ (s.getClass c).allInterfaces, m ∈ (s.getClass i).methods := by
  obtain ⟨i, hi, j, hj, hmj⟩ := Store.mem_metMethods.mp (Store.isNewMiranda_of_pending hm).1
  exact ⟨j, (w.mem_allInterfaces_iff hc).mpr (Or.inr ⟨i, hi, hj⟩), hmj⟩

/-- The methods that the class declares have the dispatch indices that the pass gave them. -/
def Indexes (f : Fill) (ms : List MethodId) (t : Store) : Prop :=
  ∀ m ∈ ms, f.lastIndex? m = some (t.getMethod m).dispatch

/-- Taking a pass over gives the methods of the class the indices of the pass. -/
theorem indexes_commit (w : l.store.WellFormed root) (hc : l.store.HasClass c) {f₁ f : Fill}
    {inherited : Nat}
    (h : l.fillEnv.PlacesAll c inherited (l.fillEnv.placements c) f₁ f) :
    Indexes f (l.store.getClass c).methods (l.commit c f).store := fun m hm => by
  have hmem : l.fillEnv.placement c m false ∈ l.fillEnv.placements c :=
    List.mem_append_left _ (List.mem_map_of_mem hm)
  obtain ⟨index, hindex, -⟩ := h.exists_lastIndex hmem rfl
  have hset := Store.dispatch_setDispatches l.store f.indices.toList ((w.fits c hc).methods m hm).1
  change f.lastIndex? m = some index at hindex
  change ((l.commit c f).store.getMethod m).dispatch = (f.lastIndex? m).getD _ at hset
  rw [hset, hindex, Option.getD_some]

/-- Verification fails for an inconsistency or for a linking rule that is violated. -/
theorem verifyVTable_error {s : Store} {table : VTable} {e : LinkError}
    (h : s.verifyVTable c table = .error e) :
    (∃ fault, e = .inconsistent fault) ∨ ∃ name fault, e = .linkage name fault := by
  unfold Store.verifyVTable at h
  dsimp only at h
  split at h
  · cases h
    exact Or.inl ⟨_, rfl⟩
  · split at h
    · cases h
      exact Or.inl ⟨_, rfl⟩
    · split at h
      · cases h
        exact Or.inr ⟨_, _, rfl⟩
      · cases h

/-- Building yields a table as described, or it fails for one of the listed reasons.  What is known
of the filling pass besides holds of it here, too, and a failure after the pass is one of those that
come after it. -/
theorem buildVTable_outcome_of {P : Fill → Prop} {Q : LinkError → Prop}
    (w : l.store.WellFormed root) (hc : l.store.HasClass c) {size : VTableSize}
    (hinherited : l.store.inheritedLength (l.store.getClass c).superclass? = .ok size.inherited)
    (hle : size.inherited ≤ size.length)
    (hfill : Outcome (l.fillEnv.placeAll c size.inherited) (l.fillEnv.start c size)
      (fun _ => P) (fun e _ => Q e)) :
    Outcome (buildVTable c size) l
      (fun layout t => l.Prepares c t ∧ ∃ f, layout.Built l.fillEnv c size t.store f ∧
        Indexes f (l.store.getClass c).methods t.store ∧
        (∀ j m, layout.mirandas[j]? = some m →
          (t.store.getMethod m).dispatch = .virtual (f.used + j)) ∧ P f)
      (fun e t => l.Prepares c t ∧ VTableFailure l.fillEnv c size e ∧
        (Q e ∨
          (∃ f name n, P f ∧ size.length < f.used + (l.store.pendingMirandas c).length ∧
            e = .inconsistent (.vtableOverflow name n)) ∨
          ∃ (layout : VTableLayout) (u : Store) (f : Fill), l.store.Prepares c u ∧
            layout.Built l.fillEnv c size u f ∧
              u.verifyVTable c layout.table = .error e)) := by
  unfold buildVTable
  simp only [outcome_bind, outcome_get, outcome_ofExcept, outcome_runFill]
  have hslots := initialSlots_eq hinherited hle
  refine ⟨fun slots hok => ?_, fun e herror => ?_⟩
  · have hok' : initialSlots l.store c size.length = .ok slots := hok
    rw [hslots, Except.ok.injEq] at hok'
    subst hok'
    have hcommits : ∀ f, (∀ x, x ∉ (l.store.getClass c).methods → f.lastIndex? x =
        (l.fillEnv.start c size).lastIndex? x) → l.Prepares c (l.commit c f) := fun f h =>
      .of_commit h
    refine ((FillEnv.placeAll_slots_outcome.and FillEnv.placeAll_indices).and hfill).imp
      (fun defaultSlots f h => ?_)
      (fun e f h => ⟨hcommits f h.1.2, .rejected e h.1.1, Or.inl h.2⟩)
    obtain ⟨⟨hfilled, hindices⟩, hP⟩ := h
    obtain ⟨f₁, hdeclared, hdefaults⟩ := hfilled
    have hplaced := hdeclared.append hdefaults.placesAll
    have hcommit := hcommits f hindices
    have hpending : ∀ m ∈ l.store.pendingMirandas c, l.store.HasMethod m := fun m hm => by
      obtain ⟨i, hi, hmi⟩ := hasMethod_of_mem_pendingMirandas w hc hm
      exact ((w.fits i (w.hasClass_of_mem_allInterfaces hc hi)).methods m hmi).1
    have hstart : (l.fillEnv.start c size).slots.size = size.length :=
      FillEnv.size_start hinherited hle
    have hsize := hplaced.size.trans hstart
    refine (placeMirandas_outcome (hcommit.store.wellFormed w) fun m hm =>
      hcommit.store.extends.hasMethod (hpending m hm)).imp (fun r t h => ?_) (fun e t h => ?_)
    · obtain ⟨hprep, hlen, hsame, hall, hmirandas, hmethodAt⟩ := h
      have hbuilt :
          VTableLayout.Built l.fillEnv c size ⟨⟨r.1.toList⟩, defaultSlots, r.2⟩ t.store f :=
        { filled := ⟨f₁, hdeclared, hdefaults⟩
          length_eq := (Array.length_toList ..).trans (hlen.trans hsize)
          placeholders := hall.imp fun _ _ => IsPlaceholder.of_extends hcommit.store.extends
          methodAt := fun i => by
            rw [VTable.methodAt, Array.getElem?_toList]
            exact hmethodAt i }
      have hindexes : Indexes f (l.store.getClass c).methods t.store := fun m hm => by
        rw [hsame m (hcommit.store.extends.hasMethod ((w.fits c hc).methods m hm).1)]
        exact indexes_commit w hc hplaced m hm
      simp only [outcome_ite, outcome_bind, outcome_ofExcept, outcome_pure]
      refine ⟨fun _ => ⟨fun _ _ => ⟨hcommit.trans hprep, f, hbuilt, hindexes, hmirandas, hP⟩,
        fun e he => ?_⟩, fun _ => ⟨hcommit.trans hprep, f, hbuilt, hindexes, hmirandas, hP⟩⟩
      have hprep_t := hcommit.trans hprep
      exact ⟨hprep_t, .unverified _ t.store f e hprep_t.store hbuilt he,
        Or.inr (Or.inr ⟨_, t.store, f, hprep_t.store, hbuilt, he⟩)⟩
    · obtain ⟨hprep, hfull, name, rfl⟩ := h
      rw [hsize] at hfull
      exact ⟨hcommit.trans hprep, .overflow f name _ hplaced hfull,
        Or.inr (Or.inl ⟨f, name, _, hP, hfull, rfl⟩)⟩
  · have herror' : initialSlots l.store c size.length = .error e := herror
    rw [hslots] at herror'
    cases herror'

theorem buildVTable_outcome (w : l.store.WellFormed root) (hc : l.store.HasClass c)
    {size : VTableSize}
    (hinherited : l.store.inheritedLength (l.store.getClass c).superclass? = .ok size.inherited)
    (hle : size.inherited ≤ size.length) :
    Outcome (buildVTable c size) l
      (fun layout t => l.Prepares c t ∧ ∃ f, layout.Built l.fillEnv c size t.store f ∧
        Indexes f (l.store.getClass c).methods t.store ∧
        ∀ j m, layout.mirandas[j]? = some m →
          (t.store.getMethod m).dispatch = .virtual (f.used + j))
      (fun e t => l.Prepares c t ∧ VTableFailure l.fillEnv c size e) :=
  (buildVTable_outcome_of (P := fun _ => True) (Q := fun _ => True) w hc hinherited hle
    (FillEnv.placeAll_outcome.imp (fun _ _ _ => trivial) fun _ _ _ => trivial)).imp
    (fun _ _ ⟨hprep, f, hbuilt, hindexes, hmirandas, _⟩ =>
      ⟨hprep, f, hbuilt, hindexes, hmirandas⟩)
    fun _ _ he => ⟨he.1, he.2.1⟩

end Linker
end ClassLinking
