import ClassLinking.Proofs.Steps
import ClassLinking.Proofs.Verification

/-!
# Defaults and their slots

A class keeps two lists about its inherited defaults: the methods themselves, and the slot that each
of them has in the virtual table.  Linking makes the two agree (`Store.DefaultsInSlots`), and a
redefinition is meant to keep them so: wherever it exchanges a default in a slot, it exchanges the
default of that slot in the list.

It does so only for a method that is a default method by then (`AdjustsDefaults.defaults_eq`).  An
interface may give a method without a body for one that had a body, and the class lists the method
all the same.  The next redefinition of the interface exchanges this method in its slot only, and
from then on slot and list disagree.  That is the only way to it: in all states of a run the lists
of all linked classes agree exactly if no redefinition goes through for an interface with an
abstract method that some registered class lists (`defaults_in_slots_iff`).
-/

namespace ClassLinking

/-! ## Exchanging defaults -/

section Exchange

variable {isDefault : MethodId → Bool} {places : List Nat} {ds : List MethodId}
  {e : Nat × MethodId × MethodId} {slots : List (Nat × MethodId × MethodId)} {m : MethodId}
  {i p : Nat}

/-- The list of defaults with one of them exchanged at its slot, given the slots of all. -/
def exchangeDefault (places : List Nat) (ds : List MethodId) (e : Nat × MethodId × MethodId) :
    List MethodId :=
  match places.findIdx? (· = e.1) with
  | none => ds
  | some p => if ds[p]? = some e.2.1 then ds.set p e.2.2 else ds

/-- What a planned slot makes of a default in the slot `i`. -/
def exchangeAt (isDefault : MethodId → Bool) (i : Nat) (m : MethodId)
    (e : Nat × MethodId × MethodId) : MethodId :=
  if isDefault e.2.1 = true ∧ e.1 = i ∧ e.2.1 = m then e.2.2 else m

/-- The list of defaults after the slots of a plan. -/
def exchangeDefaults (isDefault : MethodId → Bool) (places : List Nat) (ds : List MethodId)
    (slots : List (Nat × MethodId × MethodId)) : List MethodId :=
  slots.foldl (fun ds e => if isDefault e.2.1 then exchangeDefault places ds e else ds) ds

/-- A default is exchanged if it is in the slot. -/
theorem getElem?_exchangeDefault (h : places.Nodup) (hp : places[p]? = some i) :
    (exchangeDefault places ds e)[p]? =
      ds[p]?.map fun m => if e.1 = i ∧ e.2.1 = m then e.2.2 else m := by
  obtain ⟨hlt, hget⟩ := List.getElem?_eq_some_iff.mp hp
  unfold exchangeDefault
  cases hfind : places.findIdx? (· = e.1) with
  | none =>
    have hne : e.1 ≠ i := fun heq => by
      have := List.findIdx?_eq_none_iff.mp hfind places[p] (List.getElem_mem hlt)
      simp [hget, heq] at this
    simp [hne]
  | some q =>
    obtain ⟨hq, heq, -⟩ := List.findIdx?_eq_some_iff_getElem.mp hfind
    have hplace : places[q] = e.1 := of_decide_eq_true heq
    by_cases hpq : p = q
    · subst hpq
      have hi : e.1 = i := hplace.symm.trans hget
      dsimp only
      by_cases hold : ds[p]? = some e.2.1
      · rw [if_pos hold, hold, List.getElem?_set_self (List.getElem?_eq_some_iff.mp hold).1]
        simp [hi]
      · rw [if_neg hold]
        cases hds : ds[p]? with
        | none => rfl
        | some m =>
          have hne : e.2.1 ≠ m := fun heq => hold (heq ▸ hds)
          simp [hne]
    · have hne : e.1 ≠ i := fun heq =>
        hpq (h.getElem_inj_iff.mp (hget.trans (heq.symm.trans hplace.symm)))
      dsimp only
      split
      · rw [List.getElem?_set_ne (Ne.symm hpq)]
        simp [hne]
      · simp [hne]

/-- Every default goes its own way through the slots of a plan. -/
theorem getElem?_exchangeDefaults (h : places.Nodup) (hp : places[p]? = some i) :
    (exchangeDefaults isDefault places ds slots)[p]? =
      ds[p]?.map fun m => slots.foldl (exchangeAt isDefault i) m := by
  unfold exchangeDefaults
  induction slots generalizing ds with
  | nil => simp
  | cons e slots ih =>
    rw [List.foldl_cons, ih]
    cases hdefault : isDefault e.2.1 with
    | false => simp [exchangeAt, hdefault]
    | true =>
      rw [if_pos rfl, getElem?_exchangeDefault h hp, Option.map_map]
      refine congrArg (ds[p]?.map ·) (funext fun m => ?_)
      simp [exchangeAt, hdefault]

theorem length_exchangeDefaults :
    (exchangeDefaults isDefault places ds slots).length = ds.length := by
  unfold exchangeDefaults
  induction slots generalizing ds with
  | nil => rfl
  | cons e slots ih =>
    rw [List.foldl_cons, ih]
    split
    · unfold exchangeDefault
      split
      · rfl
      · split
        · rw [List.length_set]
        · rfl
    · rfl

/-- A default stays if nothing is planned for it in its slot. -/
theorem foldl_exchangeAt_of_not (h : ∀ n, (i, m, n) ∈ slots → isDefault m = false) :
    slots.foldl (exchangeAt isDefault i) m = m := by
  induction slots with
  | nil => rfl
  | cons e slots ih =>
    have hstay : exchangeAt isDefault i m e = m := by
      obtain ⟨j, old, new⟩ := e
      refine if_neg fun ⟨hdefault, hi, hm⟩ => ?_
      dsimp only at hdefault hi hm
      subst hi hm
      rw [h new List.mem_cons_self] at hdefault
      cases hdefault
    rw [List.foldl_cons, hstay]
    exact ih fun n hn => h n (List.mem_cons_of_mem _ hn)

/-- A default gives way to what is planned for it in its slot. -/
theorem foldl_exchangeAt_of_mem (hnodup : (slots.map (·.1)).Nodup) {n : MethodId}
    (h : (i, m, n) ∈ slots) (hdefault : isDefault m = true) :
    slots.foldl (exchangeAt isDefault i) m = n := by
  obtain ⟨before, after, rfl⟩ := List.append_of_mem h
  rw [List.map_append, List.map_cons, List.nodup_append, List.nodup_cons] at hnodup
  obtain ⟨-, ⟨hafter, -⟩, hbefore⟩ := hnodup
  have hfirst : ∀ e : Nat × MethodId × MethodId, e ∈ before → e.1 ≠ i := fun e he =>
    hbefore _ (List.mem_map_of_mem (f := (·.1)) he) _ List.mem_cons_self
  rw [List.foldl_append, List.foldl_cons,
    foldl_exchangeAt_of_not fun n hn => absurd rfl (hfirst _ hn)]
  have hnew : exchangeAt isDefault i m (i, m, n) = n := if_pos ⟨hdefault, rfl, rfl⟩
  rw [hnew, foldl_exchangeAt_of_not fun n' hn' => ?_]
  exact absurd (List.mem_map_of_mem (f := fun e : Nat × MethodId × MethodId => e.1) hn') hafter

end Exchange

/-! ## What is planned -/

/-- A place in a row, counted from `k`, is the first one or a place in the rest. -/
theorem exists_place_cons {α : Type} {x y : α} {row : List α} {i k : Nat} {q : Prop} :
    (∃ j, i = k + j ∧ (x :: row)[j]? = some y ∧ q) ↔
      (i = k ∧ x = y ∧ q) ∨ ∃ j, i = k + 1 + j ∧ row[j]? = some y ∧ q := by
  rw [← Nat.or_exists_add_one]
  refine or_congr (by simp) (exists_congr fun j => ?_)
  rw [List.getElem?_cons_succ, Nat.add_assoc, Nat.add_comm 1 j]

namespace Store

variable {s : Store} {isReplaced : MethodId → Bool} {counterpart? : MethodId → Option MethodId}
  {className : String}

/-- A plan for a row of slots lists each replaced method of the row with its counterpart, in
order. -/
theorem mem_planSlots {slot : Nat} {row : List (Option MethodId)}
    {plan : List (Nat × MethodId × MethodId)}
    (h : s.planSlots className isReplaced counterpart? slot row = .ok plan) :
    (∀ i old new, (i, old, new) ∈ plan ↔ ∃ j, i = slot + j ∧ row[j]? = some (some old) ∧
      isReplaced old = true ∧ counterpart? old = some new) ∧
      (plan.map (·.1)).Pairwise (· < ·) := by
  induction row generalizing slot plan with
  | nil =>
    cases h
    simp
  | cons x row ih =>
    cases x with
    | none =>
      refine ⟨fun i old new => ?_, (ih h).2⟩
      rw [exists_place_cons, or_iff_right (by simp), (ih h).1]
    | some b =>
      cases hb : isReplaced b with
      | false =>
        rw [planSlots, hb] at h
        refine ⟨fun i old new => ?_, (ih h).2⟩
        rw [exists_place_cons, or_iff_right, (ih h).1]
        rintro ⟨-, hold, hreplaced, -⟩
        rw [← Option.some.inj hold, hb] at hreplaced
        cases hreplaced
      | true =>
        obtain ⟨n, later, hn, hlater, rfl⟩ := planSlots_replaced hb h
        obtain ⟨hmem, hlt⟩ := ih hlater
        refine ⟨fun i old new => ?_, ?_⟩
        · rw [exists_place_cons, List.mem_cons, hmem, Prod.mk.injEq, Prod.mk.injEq]
          refine or_congr_left (and_congr_right fun _ => ?_)
          constructor
          · rintro ⟨rfl, rfl⟩
            exact ⟨rfl, hb, hn⟩
          · rintro ⟨hold, -, hnew⟩
            cases hold
            exact ⟨rfl, Option.some.inj (hnew.symm.trans hn)⟩
        · rw [List.map_cons, List.pairwise_cons]
          refine ⟨fun i hi => ?_, hlt⟩
          obtain ⟨⟨i, old, new⟩, he, rfl⟩ := List.mem_map.mp hi
          obtain ⟨j, rfl, -⟩ := (hmem i old new).mp he
          show slot < slot + 1 + j
          omega

variable {c holder : ClassId} {ts : Tables} {a : TableAdjustments}

/-- The slots of a plan are those with a replaced method, each once. -/
theorem planAdjustments_slots (hts : (s.getClass c).tables = some ts)
    (h : s.planAdjustments c holder isReplaced counterpart? = .ok a) :
    (∀ i old new, (i, old, new) ∈ a.slots ↔ ts.vtable.slots[i]? = some (some old) ∧
      s.isReplacedHere holder isReplaced old = true ∧ counterpart? old = some new) ∧
      (a.slots.map (·.1)).Nodup := by
  obtain ⟨hmem, hlt⟩ := mem_planSlots (planAdjustments_rows hts h).1
  refine ⟨fun i old new => ?_, hlt.imp fun h => Nat.ne_of_lt h⟩
  rw [hmem]
  simp

/-- Defaults that stand in their slots are exchanged for the counterparts of those that are default
methods. -/
theorem exchangeDefaults_eq (hts : (s.getClass c).tables = some ts)
    (h : s.planAdjustments c holder isReplaced counterpart? = .ok a)
    {isDefault : MethodId → Bool} {ds : List MethodId} (hplaces : ts.defaultSlots.Nodup)
    (hds : List.Forall₂ (fun m i => ts.vtable.methodAt i = some m) ds ts.defaultSlots) :
    exchangeDefaults isDefault ts.defaultSlots ds a.slots =
      ds.map fun m => if isDefault m then s.current holder isReplaced counterpart? m else m := by
  obtain ⟨hmem, hnodup⟩ := planAdjustments_slots hts h
  refine List.ext_getElem? fun p => ?_
  by_cases hp : p < ds.length
  · have hp' : p < ts.defaultSlots.length := hds.length_eq ▸ hp
    have hslot : ts.vtable.slots[ts.defaultSlots[p]]? = some (some ds[p]) :=
      Option.join_eq_some_iff.mp (hds.get hp hp')
    rw [getElem?_exchangeDefaults hplaces (List.getElem?_eq_getElem hp'), List.getElem?_map,
      List.getElem?_eq_getElem hp]
    refine congrArg some ?_
    dsimp only
    cases hdefault : isDefault ds[p] with
    | false => exact foldl_exchangeAt_of_not fun _ _ => hdefault
    | true =>
      rw [if_pos rfl, current, replacement?]
      cases hreplaced : s.isReplacedHere holder isReplaced ds[p] with
      | false =>
        refine foldl_exchangeAt_of_not fun n hn => ?_
        rw [((hmem _ _ _).mp hn).2.1] at hreplaced
        cases hreplaced
      | true =>
        have hrefers : ts.Refers ds[p] := Or.inl (List.mem_of_getElem? hslot)
        obtain ⟨n, hn⟩ := Option.isSome_iff_exists.mp
          ((planAdjustments_ok hts h).complete _ hrefers hreplaced)
        rw [if_pos rfl, hn, Option.getD_some]
        exact foldl_exchangeAt_of_mem hnodup ((hmem _ _ _).mpr ⟨hslot, hreplaced, hn⟩) hdefault
  · rw [List.getElem?_eq_none (by rw [length_exchangeDefaults]; exact Nat.not_lt.mp hp),
      List.getElem?_eq_none (by simpa using hp)]

end Store

/-! ## What applying a plan makes of the defaults -/

namespace Linker

variable {c : ClassId} {l t u : Linker} {ts : Tables} {P : MethodId → Prop}
  {slots : List (Nat × MethodId × MethodId)} {a : TableAdjustments}

theorem Adjusts.isDefault (h : Adjusts c P l t) : t.store.isDefault = l.store.isDefault := by
  have hclass : ∀ d, (t.store.getClass d).isLoaded = (l.store.getClass d).isLoaded ∧
      (t.store.getClass d).isInterface = (l.store.getClass d).isInterface := fun d => by
    by_cases hd : d = c
    · rw [hd, h.class_eq]
      exact ⟨rfl, rfl⟩
    · rw [h.others d hd]
      exact ⟨rfl, rfl⟩
  funext m
  unfold Store.isDefault Store.holder? Store.getMethod
  simp only [h.methods, (hclass _).1, (hclass _).2]

/-- The defaults of all classes stay as they are. -/
def KeepsDefaults (l t : Linker) : Prop :=
  ∀ d, (t.store.getClass d).defaults = (l.store.getClass d).defaults

theorem traceAdjustment_keepsDefaults (d : ClassId) (new : MethodId) (table : TableKind)
    (index : Nat) :
    Outcome (traceAdjustment d new table index) l (fun _ t => l.KeepsDefaults t)
      (fun _ _ => False) := by
  unfold traceAdjustment
  simp only [outcome_bind, outcome_get, outcome_trace]
  split
  · exact fun _ => rfl
  · exact fun _ => rfl

theorem modifyTables_keepsDefaults (f : Tables → Tables) :
    Outcome (LinkM.modifyTables c f) l (fun _ t => l.KeepsDefaults t) (fun _ _ => False) := by
  intro d
  show ((l.store.modifyClass c _).getClass d).defaults = _
  rw [Store.getClass_modifyClass]
  split <;> rfl

theorem writeSlot_keepsDefaults (slot : Nat) (m : MethodId) :
    Outcome (writeSlot c slot m) l (fun _ t => l.KeepsDefaults t) (fun _ _ => True) := by
  unfold writeSlot
  simp only [outcome_bind, outcome_get]
  cases (l.store.getClass c).tables with
  | none => exact fun _ => rfl
  | some ts =>
    simp only [outcome_bind, outcome_ofExcept]
    exact ⟨fun vtable _ => (modifyTables_keepsDefaults _).imp (fun _ _ h => h) fun _ _ h => h.elim,
      fun _ _ => trivial⟩

theorem writeEntry_keepsDefaults (index : Nat) (m : MethodId) :
    Outcome (writeEntry c index m) l (fun _ t => l.KeepsDefaults t) (fun _ _ => True) := by
  unfold writeEntry
  simp only [outcome_bind, outcome_get]
  cases (l.store.getClass c).tables with
  | none => exact fun _ => rfl
  | some ts =>
    simp only [outcome_bind, outcome_ofExcept]
    exact ⟨fun itable _ => (modifyTables_keepsDefaults _).imp (fun _ _ h => h) fun _ _ h => h.elim,
      fun _ _ => trivial⟩

theorem applyEntries_keepsDefaults (entries : List (Nat × MethodId)) :
    Outcome (applyEntries c entries) l (fun _ t => l.KeepsDefaults t) (fun _ _ => True) := by
  induction entries generalizing l with
  | nil => exact fun _ => rfl
  | cons e rest ih =>
    unfold applyEntries
    simp only [outcome_bind]
    refine (writeEntry_keepsDefaults _ _).imp (fun _ t ht => ?_) (fun _ _ h => h)
    refine (traceAdjustment_keepsDefaults _ _ _ _).imp (fun _ u hu => ?_) (fun _ _ h => h.elim)
    exact ih.imp (fun _ v hv d => (hv d).trans ((hu d).trans (ht d))) (fun _ _ h => h)

theorem defaults_replaceDefault (k : Class) (slot : Nat) (old new : MethodId) :
    (k.replaceDefault slot old new).defaults =
      exchangeDefault k.defaultSlots k.defaults (slot, old, new) := by
  unfold Class.replaceDefault exchangeDefault
  cases k.defaultSlots.findIdx? (· = slot) with
  | none => rfl
  | some p =>
    dsimp only
    split <;> rfl

/-- Replacing a default exchanges what is recorded for its slot. -/
theorem replaceDefault_defaults (hts : (l.store.getClass c).tables = some ts) (slot : Nat)
    (old new : MethodId) :
    Outcome (replaceDefault c slot old new) l
      (fun _ t => (t.store.getClass c).defaults =
        exchangeDefault ts.defaultSlots (l.store.getClass c).defaults (slot, old, new))
      (fun _ _ => False) := by
  change ((l.store.modifyClass c _).getClass c).defaults = _
  rw [Store.getClass_modifyClass_self _ _ _ (Store.hasClass_of_tables hts),
    defaults_replaceDefault, Class.defaultSlots, hts]

/-- Applying planned slots exchanges the defaults of these slots. -/
theorem applySlots_defaults (hts : (l.store.getClass c).tables = some ts)
    (hslots : ∀ e ∈ slots, e.1 < ts.vtable.slots.length) :
    Outcome (applySlots c slots) l
      (fun _ t => (t.store.getClass c).defaults =
        exchangeDefaults l.store.isDefault ts.defaultSlots (l.store.getClass c).defaults slots)
      (fun _ _ => True) := by
  induction slots generalizing l ts with
  | nil => rfl
  | cons e rest ih =>
    obtain ⟨slot, old, new⟩ := e
    -- The rest is applied once the slot is written and its default is exchanged.
    have hrest : ∀ t, Adjusts c (fun _ => True) l t →
        (t.store.getClass c).tables =
          some { ts with vtable := ⟨ts.vtable.slots.set slot (some new)⟩ } →
        (t.store.getClass c).defaults =
          exchangeDefaults l.store.isDefault ts.defaultSlots (l.store.getClass c).defaults
            [(slot, old, new)] →
        Outcome (traceAdjustment c new .vtable slot >>= fun _ => applySlots c rest) t
          (fun _ u => (u.store.getClass c).defaults =
            exchangeDefaults l.store.isDefault ts.defaultSlots (l.store.getClass c).defaults
              ((slot, old, new) :: rest))
          (fun _ _ => True) := fun t ht htst hdefaults => by
      rw [outcome_bind]
      refine ((traceAdjustment_keepsDefaults c new .vtable slot).and
        (traceAdjustment_outcome (.refl c (fun _ => True) t) htst c new .vtable slot)).imp
        (fun _ u hu => ?_) (fun _ _ h => h.1.elim)
      refine (ih hu.2.2 fun e he => ?_).imp (fun _ v hv => ?_) (fun _ _ h => h)
      · rw [List.length_set]
        exact hslots e (List.mem_cons_of_mem _ he)
      · rw [hv, hu.1 c, hdefaults, (ht.trans hu.2.1).isDefault]
        rfl
    unfold applySlots
    simp only [outcome_bind, outcome_get, outcome_ite]
    refine ((writeSlot_keepsDefaults slot new).and (writeSlot_outcome (P := fun _ => True) hts
      (hslots _ List.mem_cons_self) new)).imp (fun _ t ht => ?_) (fun _ _ _ => trivial)
    obtain ⟨hkeeps, hadjusts, htables⟩ := ht
    rw [hadjusts.isDefault]
    refine ⟨fun hdefault => ?_, fun hdefault => ?_⟩
    · refine ((replaceDefault_defaults htables slot old new).and
        (replaceDefault_outcome (P := fun _ => True) htables slot id)).imp
        (fun _ u hu => ?_) (fun _ _ h => h.1.elim)
      obtain ⟨hexchange, hadjusts', htables'⟩ := hu
      rw [← outcome_bind]
      refine hrest u (hadjusts.trans hadjusts') htables' ?_
      rw [hexchange, hkeeps c]
      simp [exchangeDefaults, hdefault]
    · rw [← outcome_bind]
      refine hrest t hadjusts htables ?_
      rw [hkeeps c]
      simp [exchangeDefaults, hdefault]

/-- Applying a plan exchanges the defaults of its slots. -/
theorem applyAdjustments_defaults {s : Store} {holder : ClassId} {isReplaced : MethodId → Bool}
    {counterpart? : MethodId → Option MethodId}
    (hplan : s.Plans holder isReplaced counterpart? ts a)
    (hts : (l.store.getClass c).tables = some ts) (hempty : a.isEmpty = false) :
    Outcome (applyAdjustments c a) l
      (fun _ t => (t.store.getClass c).defaults =
        exchangeDefaults l.store.isDefault ts.defaultSlots (l.store.getClass c).defaults a.slots)
      (fun _ _ => True) := by
  have hslots : ∀ e ∈ a.slots, e.1 < ts.vtable.slots.length := fun e he => by
    have hmem := List.mem_map_of_mem
      (f := fun e : Nat × MethodId × MethodId => (e.1, some e.2.2)) he
    rw [hplan.slots] at hmem
    have := lt_of_mem_updates hmem
    omega
  have hlinked : (l.store.getClass c).isLinked = true := by rw [Class.isLinked, hts]; rfl
  unfold applyAdjustments
  simp only [outcome_bind, outcome_get, outcome_ite, hempty, hlinked, Bool.not_true,
    Bool.false_eq_true, false_implies, not_false_eq_true, true_implies, true_and, outcome_pure]
  refine (applySlots_defaults hts hslots).imp (fun _ t ht => ?_) (fun _ _ h => h)
  exact (applyEntries_keepsDefaults a.entries).imp (fun _ u hu => (hu c).trans ht) (fun _ _ h => h)

/-- Writing the plans exchanges the defaults of the planned classes, and no others. -/
theorem applyPlans_defaults {s : Store} {holder : ClassId} {isReplaced : MethodId → Bool}
    {counterpart? : MethodId → Option MethodId} {plans : List (ClassId × TableAdjustments)}
    (hnodup : (plans.map (·.1)).Nodup)
    (hplans : ∀ e ∈ plans, e.2.isEmpty = false ∧ ∃ ts, (l.store.getClass e.1).tables = some ts ∧
      s.Plans holder isReplaced counterpart? ts e.2) :
    Outcome (applyPlans plans) l
      (fun _ t => (∀ e ∈ plans, ∀ ts, (l.store.getClass e.1).tables = some ts →
          (t.store.getClass e.1).defaults = exchangeDefaults l.store.isDefault ts.defaultSlots
            (l.store.getClass e.1).defaults e.2.slots) ∧
        ∀ d, d ∉ plans.map (·.1) → (t.store.getClass d).defaults = (l.store.getClass d).defaults)
      (fun _ _ => False) := by
  induction plans generalizing l with
  | nil => exact ⟨fun e he => absurd he List.not_mem_nil, fun _ _ => rfl⟩
  | cons e rest ih =>
    obtain ⟨c, a⟩ := e
    obtain ⟨hc, hrest⟩ := List.nodup_cons.mp hnodup
    obtain ⟨hempty, ts, hts, hplan⟩ := hplans _ List.mem_cons_self
    -- The other plans are written in the same way whether or not the check of `c` passes.
    have hlater : ∀ u, Adjusts c (fun _ => True) l u →
        (u.store.getClass c).defaults =
          exchangeDefaults l.store.isDefault ts.defaultSlots (l.store.getClass c).defaults a.slots →
        Outcome (applyPlans rest) u (fun _ t =>
          (∀ e ∈ (c, a) :: rest, ∀ ts, (l.store.getClass e.1).tables = some ts →
            (t.store.getClass e.1).defaults = exchangeDefaults l.store.isDefault ts.defaultSlots
              (l.store.getClass e.1).defaults e.2.slots) ∧
          ∀ d, d ∉ ((c, a) :: rest).map (·.1) →
            (t.store.getClass d).defaults = (l.store.getClass d).defaults)
          (fun _ _ => False) := fun u hu hdefaults => by
      have hothers : ∀ e ∈ rest, u.store.getClass e.1 = l.store.getClass e.1 := fun e he =>
        hu.others _ fun heq => hc (heq ▸ List.mem_map_of_mem (f := (·.1)) he)
      refine (ih hrest fun e he => ?_).imp (fun _ t ht => ⟨?_, fun d hd => ?_⟩) (fun _ _ h => h)
      · rw [hothers e he]
        exact hplans e (List.mem_cons_of_mem _ he)
      · refine List.forall_mem_cons.mpr ⟨fun ts' hts' => ?_, fun e he ts' hts' => ?_⟩
        · cases hts.symm.trans hts'
          rw [ht.2 c hc, hdefaults]
        · rw [ht.1 e he ts' (by rw [hothers e he]; exact hts'), hothers e he, hu.isDefault]
      · rw [List.map_cons, List.mem_cons, not_or] at hd
        rw [ht.2 d hd.2, hu.others d hd.1]
    unfold applyPlans
    simp only [outcome_bind, outcome_attempt, checkNoOldEntries, outcome_get, outcome_ofExcept,
      outcome_pure]
    refine ((applyAdjustments_defaults hplan hts hempty).and (applyAdjustments_outcome
      (P := fun _ => True) hplan hts hempty fun _ _ => id)).imp
      (fun _ u hu => ?_) (fun _ _ h => h.2.elim)
    obtain ⟨hdefaults, -, hadjusts, -⟩ := hu
    have hrest := hlater u hadjusts hdefaults
    exact ⟨fun _ _ => hrest.imp (fun _ _ h => h) (fun _ _ h => h),
      fun _ _ => hrest.imp (fun _ _ h => h) (fun _ _ h => h)⟩

/-! ## What a redefinition makes of the defaults -/

variable {holder : ClassId} {ds : List Declaration} {r : RevisedClass}

/-- Defaults in their slots were exchanged for their successors, as far as they were default
methods. -/
structure AdjustsDefaults (l t : Linker) (r : RevisedClass) : Prop where
  registered : ∀ c ∈ l.registry.all, ∀ ts, (l.store.getClass c).tables = some ts →
    ts.defaultSlots.Nodup → List.Forall₂ (fun m i => ts.vtable.methodAt i = some m)
      (l.store.getClass c).defaults ts.defaultSlots →
    (t.store.getClass c).defaults = (l.store.getClass c).defaults.map
      fun m => if l.store.isDefault m then l.successor r m else m
  others : ∀ c, c ∉ l.registry.all → (t.store.getClass c).defaults = (l.store.getClass c).defaults

/-- Writing the plans of a redefinition adjusts the defaults. -/
theorem applyPlans_adjustsDefaults (hl : l.Sound) (hholder : l.store.HasClass r.holder)
    (hnumbers : l.Numbers u) {plans : List (ClassId × TableAdjustments)}
    (hplan : r.plan l.store l.registry.all = .ok plans) :
    Outcome (applyPlans plans) (u.mapStore r.install) (fun _ t => l.AdjustsDefaults t r)
      (fun _ _ => False) := by
  have w := hl.wellFormed
  obtain ⟨hsub, hplans, -⟩ := RevisedClass.plan_ok hplan
  have hstore : (u.mapStore r.install).store = r.install l.store := by
    rw [← hnumbers.store]
    rfl
  have hready : ∀ e ∈ plans, e.2.isEmpty = false ∧ ∃ ts,
      ((u.mapStore r.install).store.getClass e.1).tables = some ts ∧
      l.store.Plans r.holder (r.replaces l.store) (r.counterpart? l.store) ts e.2 := fun e he => by
    obtain ⟨hempty, ts, hts, hplan'⟩ := tables_of_mem_plans w hholder hplan he
    exact ⟨hempty, ts, by rw [hstore, RevisedClass.tables_install, hts], hplan'⟩
  refine (applyPlans_defaults (hsub.nodup hl.nodup) hready).imp (fun _ t ht => ?_) (fun _ _ h => h)
  rw [hstore] at ht
  obtain ⟨hplanned, hothers⟩ := ht
  have hkept : ∀ c, c ∉ plans.map (·.1) →
      (t.store.getClass c).defaults = (l.store.getClass c).defaults := fun c hc => by
    rw [hothers c hc, RevisedClass.defaults_install]
  refine ⟨fun c hc ts hts hplaces hslots => ?_, fun c hc => hkept c fun hmem =>
    hc (hsub.subset hmem)⟩
  by_cases hmem : c ∈ plans.map (·.1)
  · obtain ⟨e, he, rfl⟩ := List.mem_map.mp hmem
    rw [hplanned e he ts (by rw [RevisedClass.tables_install, hts]),
      RevisedClass.defaults_install, Store.exchangeDefaults_eq hts (hplans e he).1 hplaces hslots]
    refine List.map_congr_left fun m hm => ?_
    rw [(RevisedClass.extends_install l.store r).isDefault w
      ((w.fits e.1 (hl.registered e.1 hc)).defaults m hm).1]
    rfl
  · rw [hkept c hmem]
    refine (List.map_id _).symm.trans (List.map_congr_left fun m hm => ?_)
    have hsucc : l.successor r m = m := by
      refine successor_of_not_mem w hholder fun hmem' => hmem ?_
      obtain ⟨j, hj, rfl⟩ := List.getElem_of_mem hm
      have hslot := hslots.get hj (hslots.length_eq ▸ hj)
      exact (mem_plans_iff w hholder hplan hc).mpr ⟨_, hmem', ts, hts,
        Or.inl (List.mem_of_getElem? (Option.join_eq_some_iff.mp hslot))⟩
    rw [hsucc, ite_self]
    rfl

/-- **A redefinition adjusts the defaults**, whether or not the check at its end passes. -/
theorem redefine_defaults (hl : l.Sound) (hp : l.Prepared holder ds r)
    (hholder : l.store.HasClass holder) :
    Outcome (redefine holder ds) l (fun _ t => l.AdjustsDefaults t r)
      (fun _ t => l.AdjustsDefaults t r) := by
  have hlinked : (l.store.getClass holder).isLinked = true := hp.linked
  obtain ⟨u, hrun⟩ := hp.revised
  obtain ⟨plans, hplan⟩ := hp.planned
  obtain ⟨hnumbers, -⟩ := (revise_outcome ds).of_ok hrun
  have hplan' : r.plan u.store u.registry.all = .ok plans := by
    rw [hnumbers.store, all_eq_of_classes hnumbers.classes, hplan]
  unfold redefine
  simp only [outcome_bind, outcome_get, outcome_ite, outcome_throw, outcome_ofExcept,
    outcome_modify, hlinked, Bool.not_true, Bool.false_eq_true, false_implies, not_false_eq_true,
    true_implies, true_and, outcome_of_ok hrun, hplan']
  refine ⟨fun plans' heq => ?_, fun e heq => by cases heq⟩
  cases heq
  refine (applyPlans_adjustsDefaults hl (hp.holder_eq ▸ hholder) hnumbers hplan).imp
    (fun outcome t ht => ?_) (fun _ _ h => h.elim)
  obtain ⟨count, failure⟩ := outcome
  cases failure with
  | none =>
    simp only [outcome_bind, outcome_modify, outcome_trace, outcome_pure]
    split
    · exact ⟨ht.registered, ht.others⟩
    · exact ⟨ht.registered, ht.others⟩
  | some e => exact ht

end Linker

/-! ## Defaults in their slots -/

theorem forall₂_iff_forall {α β : Type} {R S : α → β → Prop} {P : α → Prop} {as : List α}
    {bs : List β} (h : List.Forall₂ R as bs) (hiff : ∀ a b, a ∈ as → R a b → (S a b ↔ P a)) :
    List.Forall₂ S as bs ↔ ∀ a ∈ as, P a := by
  induction h with
  | nil => simp
  | @cons a b as bs hab _ ih =>
    rw [List.forall₂_cons, List.forall_mem_cons, hiff a b List.mem_cons_self hab,
      ih fun a' b' ha' => hiff a' b' (List.mem_cons_of_mem _ ha')]

namespace Store

variable {s t : Store} {c : ClassId}

/-- The defaults of `c` stand in the slots that are listed for them, in order. -/
def DefaultsInSlots (s : Store) (c : ClassId) : Prop :=
  List.Forall₂ (fun m i => s.slot c i = some m) (s.getClass c).defaults (s.getClass c).defaultSlots

instance (s : Store) (c : ClassId) : Decidable (s.DefaultsInSlots c) :=
  inferInstanceAs (Decidable (List.Forall₂ _ _ _))

theorem defaultSlots_of_tables {ts : Tables} (hts : (s.getClass c).tables = some ts) :
    (s.getClass c).defaultSlots = ts.defaultSlots := by
  rw [Class.defaultSlots, hts]

theorem DefaultsInSlots.congr (h : s.DefaultsInSlots c)
    (htables : (t.getClass c).tables = (s.getClass c).tables)
    (hdefaults : (t.getClass c).defaults = (s.getClass c).defaults) : t.DefaultsInSlots c := by
  rw [DefaultsInSlots, Class.defaultSlots, htables, hdefaults]
  exact List.Forall₂.imp (fun m i hi => (slot_congr htables).trans hi) h

/-- The defaults of `c` differ in their selectors, and none of them is static. -/
structure DefaultsDiffer (s : Store) (c : ClassId) : Prop where
  nodup : ((s.getClass c).defaults.map s.selector).Nodup
  isStatic : ∀ m ∈ (s.getClass c).defaults, (s.getMethod m).modifiers.isStatic = false

/-- A list of defaults that stays the same stays as it is. -/
theorem DefaultsDiffer.of_extends {root : Option ClassId} (h : s.DefaultsDiffer c)
    (w : s.WellFormed root) (hc : s.HasClass c) (hext : s.Extends t)
    (hdefaults : (t.getClass c).defaults = (s.getClass c).defaults) : t.DefaultsDiffer c := by
  have hhas : ∀ m ∈ (s.getClass c).defaults, s.HasMethod m := fun m hm =>
    ((w.fits c hc).defaults m hm).1
  refine ⟨?_, fun m hm => ?_⟩
  · rw [hdefaults, List.map_congr_left fun m hm => hext.selector (hhas m hm)]
    exact h.nodup
  · rw [hdefaults] at hm
    rw [hext.modifiers (hhas m hm)]
    exact h.isStatic m hm

/-- The defaults that are selected for a class differ. -/
theorem InheritsDefaults.defaultsDiffer (h : s.InheritsDefaults c) : s.DefaultsDiffer c where
  nodup := h.nodup
  isStatic := fun m hm => by
    have hdefault := (h.isDefault m hm).1
    simp only [Store.isDefault, Bool.and_eq_true, Bool.not_eq_true'] at hdefault
    exact hdefault.1.2

/-- Different defaults stand in different slots. -/
theorem DefaultsInSlots.nodup (h : s.DefaultsInSlots c) (hdiffer : s.DefaultsDiffer c) :
    (s.getClass c).defaultSlots.Nodup := by
  have hds : (s.getClass c).defaults.Nodup := hdiffer.nodup.of_map _
  refine List.pairwise_iff_getElem.mpr fun i j hi hj hlt heq => ?_
  have hi' : i < (s.getClass c).defaults.length := List.Forall₂.length_eq h ▸ hi
  have hj' : j < (s.getClass c).defaults.length := List.Forall₂.length_eq h ▸ hj
  have hsi := List.Forall₂.get h hi' hi
  have hsj := List.Forall₂.get h hj' hj
  rw [List.get_eq_getElem, List.get_eq_getElem] at hsi hsj
  rw [heq, hsj, Option.some.injEq] at hsi
  exact Nat.ne_of_gt hlt (hds.getElem_inj_iff.mp hsi)

/-- What linking keeps: lists that were not used yet are as they were selected, and those of linked
classes agree with the slots. -/
structure ListsDefaults (s : Store) : Prop where
  unlinked : ∀ c, s.HasClass c → ¬ s.Linked c → s.InheritsDefaults c
  linked : ∀ c, s.Linked c → s.DefaultsInSlots c

end Store

namespace Linker

variable {l t : Linker} {c holder : ClassId} {ds : List Declaration} {r : RevisedClass}
  {m : MethodId} {x : Command} {xs : List Command}

/-- Building the tables of a class finds the slots of its defaults. -/
theorem Installs.defaultsInSlots (h : l.Installs t c) (hready : Ready l.store c)
    (hd : l.store.InheritsDefaults c) : t.store.DefaultsInSlots c := by
  obtain ⟨size, layout, itable, f, hlaid⟩ := h.tables
  have hslots := hlaid.built.methodAt_defaultSlots hd
  rw [Store.DefaultsInSlots, Class.defaultSlots, hlaid.tables, h.grows.defaults hready.hasClass]
  exact List.Forall₂.imp (fun m i hi => (Store.slot_of_tables hlaid.tables).trans hi) hslots

theorem linkRule_listsDefaults (root : Option ClassId) (config : Config) :
    LinkRule root config Store.ListsDefaults (fun _ => True) where
  prepares := fun s t c w h _ hp => by
    refine ⟨fun d hd hunlinked => ?_, fun d hd => ?_⟩
    · rw [Store.HasClass, hp.classes_eq] at hd
      rw [hp.linked_iff] at hunlinked
      exact (h.unlinked d hd hunlinked).of_eq w hd hp.extends (by rw [hp.getClass])
    · rw [hp.linked_iff] at hd
      exact (h.linked d hd).congr (by rw [hp.getClass]) (by rw [hp.getClass])
  installs := fun l t c _ w _ h hready hi _ => by
    refine ⟨fun d hd hunlinked => ?_, fun d hd => ?_⟩
    · rw [Store.HasClass, hi.size_eq] at hd
      exact (h.unlinked d hd fun hlinked => hunlinked (hlinked.grows hi.grows)).of_eq w hd
        hi.grows.extends (hi.grows.defaults hd)
    · by_cases hdc : d = c
      · rw [hdc]
        exact hi.defaultsInSlots hready (h.unlinked c hready.hasClass hready.unlinked)
      · rw [Store.Linked, hi.others d hdc] at hd
        exact (h.linked d hd).congr (by rw [hi.others d hdc]) (by rw [hi.others d hdc])
  fails := fun _ _ _ _ _ _ _ _ _ => trivial
  tooDeep := fun _ => trivial

/-- What is known of the lists of defaults in every state of a run, as long as they agree with the
slots. -/
structure Inherits (l : Linker) : Prop where
  sound : l.Sound
  ordinals : l.store.DistinctOrdinals
  differ : ∀ c, l.store.HasClass c → l.store.DefaultsDiffer c

/-- A listed method is a default method as long as it has a body. -/
theorem Inherits.isDefault_iff (h : Inherits l) (hc : l.store.HasClass c)
    (hm : m ∈ (l.store.getClass c).defaults) :
    l.store.isDefault m = false ↔ (l.store.getMethod m).modifiers.isAbstract = true := by
  have w := h.sound.wellFormed
  obtain ⟨hhas, i, hi, hheld⟩ := (w.fits c hc).defaults m hm
  have hint := (w.allInterfaces_spec c hc i hi).2
  simp [Store.isDefault, (h.differ c hc).isStatic m hm, w.holder?_eq hhas, hheld, hint]

/-! ## Redefining -/

section Redefined

variable (h : Redefined l t r) (hadjusts : l.AdjustsDefaults t r) (hI : Inherits l)
  (hp : l.Prepared holder ds r) (hholder : l.store.HasClass r.holder)
include hadjusts hI

/-- Which defaults a registered class lists after a redefinition. -/
theorem AdjustsDefaults.defaults_eq (hc : c ∈ l.registry.all) (hlinked : l.store.Linked c)
    (hslots : l.store.DefaultsInSlots c) : (t.store.getClass c).defaults =
      (l.store.getClass c).defaults.map
        fun m => if l.store.isDefault m then l.successor r m else m := by
  obtain ⟨ts, hts⟩ := Store.linked_iff.mp hlinked
  have hnodup := hslots.nodup (hI.differ c hlinked.hasClass)
  rw [Store.DefaultsInSlots] at hslots
  rw [Store.defaultSlots_of_tables hts] at hnodup hslots
  exact hadjusts.registered c hc ts hts hnodup
    (hslots.imp fun m i hi => (Store.slot_of_tables hts).symm.trans hi)

include h hp hholder

/-- A redefinition keeps the defaults of a class in their slots exactly if it replaces none of them
that has no body any more. -/
theorem Redefined.defaultsInSlots_iff (hlinked : l.store.Linked c)
    (hslots : l.store.DefaultsInSlots c) :
    t.store.DefaultsInSlots c ↔ c ∈ l.registry.all → ∀ m ∈ (l.store.getClass c).defaults,
      m ∈ (l.store.getClass r.holder).methods →
      (l.store.getMethod m).modifiers.isAbstract = false := by
  have w := hI.sound.wellFormed
  by_cases hc : c ∈ l.registry.all
  · rw [forall_prop_of_true hc]
    have hdefaults := hadjusts.defaults_eq hI hc hlinked hslots
    have hplaces : (t.store.getClass c).defaultSlots = (l.store.getClass c).defaultSlots := by
      obtain ⟨ts, hts⟩ := Store.linked_iff.mp hlinked
      rw [Class.defaultSlots, h.tables c hc, Store.defaultSlots_of_tables hts, hts]
      rfl
    rw [Store.DefaultsInSlots, hplaces, hdefaults, List.forall₂_map_left_iff]
    refine forall₂_iff_forall hslots fun m i hm hslot => ?_
    rw [Store.slot_exchange (h.tables c hc), hslot, Option.map_some, Option.some.injEq]
    cases hdefault : l.store.isDefault m with
    | true =>
      rw [if_pos rfl]
      refine iff_of_true rfl fun _ => (Bool.not_eq_true _).mp fun habstract => ?_
      rw [(hI.isDefault_iff hlinked.hasClass hm).mpr habstract] at hdefault
      cases hdefault
    | false =>
      rw [(hI.isDefault_iff hlinked.hasClass hm).mp hdefault]
      simp only [Bool.false_eq_true, if_false, Bool.true_eq_false, imp_false]
      refine ⟨fun hsame hmem => ?_, fun hmem => successor_of_not_mem w hholder hmem⟩
      have hsucceeds := h.succeeds_successor hp w hholder hI.ordinals hc hmem
        (Store.refersTo_of_slot hslot)
      rw [hsame] at hsucceeds
      exact hsucceeds.isNew ((w.fits _ hholder).methods m hmem).1
  · rw [forall_prop_of_false hc, iff_true]
    exact hslots.congr (h.others c hc) (hadjusts.others c hc)

/-- A redefinition keeps the defaults of a class different. -/
theorem Redefined.defaultsDiffer (hslots : ∀ c, l.store.Linked c → l.store.DefaultsInSlots c)
    (hc : l.store.HasClass c) : t.store.DefaultsDiffer c := by
  have w := hI.sound.wellFormed
  by_cases hunlinked : ¬ l.store.Linked c
  · exact (hI.differ c hc).of_extends w hc h.extends_ (h.defaults c hunlinked)
  by_cases hreg : c ∉ l.registry.all
  · exact (hI.differ c hc).of_extends w hc h.extends_ (hadjusts.others c hreg)
  rw [not_not] at hunlinked hreg
  have hin := hslots c hunlinked
  have hdefaults := hadjusts.defaults_eq hI hreg hunlinked hin
  -- What is exchanged for a default has its selector and is as little static.
  have hsame : ∀ m ∈ (l.store.getClass c).defaults,
      let m' := if l.store.isDefault m then l.successor r m else m
      t.store.selector m' = l.store.selector m ∧
        (t.store.getMethod m').modifiers.isStatic =
          (l.store.getMethod m).modifiers.isStatic := fun m hm => by
    have hhas := ((w.fits c hc).defaults m hm).1
    obtain ⟨j, hj, rfl⟩ := List.getElem_of_mem hm
    dsimp only
    split
    · have hstands := h.standsFor hp w hholder hI.ordinals hhas
        (Store.refersTo_of_slot (hin.get hj (hin.length_eq ▸ hj)))
      rw [successorIn, if_pos hreg] at hstands
      exact ⟨hstands.selector, hstands.isStatic⟩
    · rw [h.extends_.selector hhas, h.extends_.modifiers hhas]
      exact ⟨rfl, rfl⟩
  refine ⟨?_, fun m' hm' => ?_⟩
  · have hselectors := List.map_congr_left fun m hm => (hsame m hm).1
    rw [hdefaults, List.map_map]
    exact hselectors ▸ (hI.differ c hc).nodup
  · rw [hdefaults] at hm'
    obtain ⟨m, hm, rfl⟩ := List.mem_map.mp hm'
    rw [(hsame m hm).2]
    exact (hI.differ c hc).isStatic m hm

end Redefined

/-- A redefinition that goes through replaces a method without a body that a registered class lists
among its defaults. -/
def ReplacesBodiless (l : Linker) (holder : ClassId) (_ : List Declaration) : Prop :=
  ∃ c ∈ l.registry.all, l.store.Linked c ∧ ∃ m ∈ (l.store.getClass c).defaults,
    m ∈ (l.store.getClass holder).methods ∧ (l.store.getMethod m).modifiers.isAbstract = true

instance (l : Linker) (holder : ClassId) (ds : List Declaration) :
    Decidable (l.ReplacesBodiless holder ds) :=
  inferInstanceAs (Decidable (∃ c ∈ l.registry.all, l.store.Linked c ∧ ∃ m ∈ _, _ ∧ _))

/-- **Redefining a class** keeps the defaults of linked classes in their slots exactly if it
replaces none without a body. -/
theorem Redefined.allInSlots_iff (h : Redefined l t r) (hadjusts : l.AdjustsDefaults t r)
    (hI : Inherits l) (hp : l.Prepared holder ds r) (hholder : l.store.HasClass r.holder)
    (hslots : ∀ c, l.store.Linked c → l.store.DefaultsInSlots c) :
    (∀ c, t.store.Linked c → t.store.DefaultsInSlots c) ↔
      ¬ l.ReplacesBodiless r.holder ds := by
  have hiff := fun c (hc : l.store.Linked c) =>
    h.defaultsInSlots_iff hadjusts hI hp hholder hc (hslots c hc)
  simp only [h.linked_iff]
  constructor
  · rintro hafter ⟨c, hc, hlinked, m, hm, hmem, habstract⟩
    rw [(hiff c hlinked).mp (hafter c hlinked) hc m hm hmem] at habstract
    cases habstract
  · intro hnone c hlinked
    refine (hiff c hlinked).mpr fun hc m hm hmem => (Bool.not_eq_true _).mp fun habstract => ?_
    exact hnone ⟨c, hc, hlinked, m, hm, hmem, habstract⟩

/-! ## Runs -/

/-- **One step.**  A command keeps the defaults of linked classes in their slots exactly if it does
not replace one of them that has no body any more. -/
theorem Inherits.step (hI : Inherits l) (hslots : ∀ c, l.store.Linked c → l.store.DefaultsInSlots c)
    (hx : x.Admissible l.store) :
    Inherits (x.after l) ∧
      ((∀ c, (x.after l).store.Linked c → (x.after l).store.DefaultsInSlots c) ↔
        ¬ l.Commits ReplacesBodiless x) := by
  have w := hI.sound.wellFormed
  have hsound := hI.sound.after hx
  have hordinals := hI.sound.distinctOrdinals_after hI.ordinals hx
  have hsteps := hI.sound.steps hx (linkRule_listsDefaults _ _)
    ⟨hI.sound.inheritsDefaults, hslots⟩
  generalize ht : x.after l = t at hsound hordinals hsteps ⊢
  cases hsteps with
  | @defines d _ e hd _ =>
    refine ⟨⟨hsound, hordinals, fun c hc => ?_⟩, iff_of_true (fun c hc => ?_) id⟩
    · rcases (hd.hasClass_iff c).mp hc with hc | rfl
      · exact (hI.differ c hc).of_extends w hc hd.grows.extends
          (congrArg Class.defaults (hd.others c hc))
      · exact hd.inheritsDefaults.defaultsDiffer
    · obtain ⟨-, hlinked, heq⟩ := hd.of_linked hc
      exact (hslots c hlinked).congr (congrArg Class.tables heq) (congrArg Class.defaults heq)
  | links hne hr =>
    refine ⟨⟨hsound, hordinals, fun c hc => ?_⟩, iff_of_true hr.holds.linked ?_⟩
    · rw [Store.HasClass, hr.size_eq] at hc
      exact (hI.differ c hc).of_extends w hc hr.grows.extends (hr.grows.defaults hc)
    · exact not_commits fun holder ds heq => absurd heq (hne holder ds)
  | @redefines holder ds _ r hp hholder hr =>
    have hadjusts : l.AdjustsDefaults t r :=
      ht ▸ (redefine_defaults hI.sound hp (hp.holder_eq ▸ hholder)).final
    refine ⟨⟨hsound, hordinals, fun c hc => ?_⟩, ?_⟩
    · rw [Store.HasClass, hr.size_eq] at hc
      exact hr.defaultsDiffer hadjusts hI hp hholder hslots hc
    · rw [commits_redefine hp, ← hp.holder_eq]
      exact hr.allInSlots_iff hadjusts hI hp hholder hslots
  | keeps hno hstore _ =>
    rw [hstore]
    exact ⟨⟨hsound, hordinals, hstore ▸ hI.differ⟩, iff_of_true hslots (not_commits hno)⟩

theorem IsEmpty.inherits (h : l.IsEmpty) : Inherits l where
  sound := h.sound
  ordinals := h.distinctOrdinals
  differ := fun c hc => by
    rw [h.store] at hc
    exact absurd hc (Nat.not_lt_zero _)

/-- **When defaults leave their slots.**  In all states of a run the defaults of every linked class
stand in the slots that are listed for them exactly if no redefinition of the run replaces a method
without a body that a registered class lists among its defaults. -/
theorem defaults_in_slots_iff (h : l.IsEmpty) (hxs : Admits (fun _ => True) l xs) :
    (∀ t ∈ l.states xs, ∀ c, t.store.Linked c → t.store.DefaultsInSlots c) ↔
      Avoids ReplacesBodiless l xs :=
  forall_states_iff_avoids (I := Inherits) (fun _ _ hI hslots _ hx => hI.step hslots hx)
    h.inherits (fun c hc => absurd hc (h.not_linked c)) hxs

/-- The default of an interface loses its body and gets another one. -/
def bodilessRun : List Command :=
  [.define { name := "Object" },
   .define { name := "I", flags := .makeInterface {}, methods := [publicMethod "m" [1]] },
   .define { name := "C", superclass := some ⟨0⟩, interfaces := [⟨1⟩] },
   .link ⟨2⟩,
   .redefine ⟨1⟩ [(publicMethod "m" []).makeAbstract],
   .redefine ⟨1⟩ [publicMethod "m" [2]]]

/-- The last step of the run leaves the class with a default that is not in its slot. -/
theorem bodilessRun_not_in_slots :
    ¬ ∀ t ∈ states { config := .minimal } bodilessRun, ∀ c, t.store.Linked c →
      t.store.DefaultsInSlots c := fun h =>
  absurd ((defaults_in_slots_iff ⟨rfl, rfl⟩ (by decide +kernel)).mp h) (by decide +kernel)

end Linker
end ClassLinking
