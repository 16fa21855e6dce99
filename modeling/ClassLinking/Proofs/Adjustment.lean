import ClassLinking.Adjustment
import ClassLinking.Proofs.Linking

/-!
# Planning and applying adjustments

What the tables of a class refer to is `Store.RefersTo`; a table is free of replaced bodies when
none of those it refers to is old (`checkNoOldEntries_iff`).

A plan lists the entries that refer to a replaced method, each with its counterpart.  Applying it
comes to exchanging each of these methods everywhere in the two tables, `Tables.exchange`
(`applyAdjustments_outcome`).  It cannot fail, since a plan only lists entries that are there, and
it changes nothing but the tables and the defaults of the one class (`Linker.Adjusts`).
-/

namespace ClassLinking

/-- Whether one of the tables refers to a method. -/
def Tables.Refers (ts : Tables) (m : MethodId) : Prop :=
  some m ∈ ts.vtable.slots ∨ .bound m ∈ ts.itable.entries

namespace Store

variable {s t : Store} {c : ClassId} {m : MethodId}

/-- Whether the tables of `c` refer to a method. -/
def RefersTo (s : Store) (c : ClassId) (m : MethodId) : Prop :=
  ∃ ts, (s.getClass c).tables = some ts ∧ ts.Refers m

instance (ts : Tables) (m : MethodId) : Decidable (ts.Refers m) :=
  inferInstanceAs (Decidable (_ ∨ _))

instance (s : Store) (c : ClassId) (m : MethodId) : Decidable (s.RefersTo c m) :=
  decidable_of_iff ((s.getClass c).tables.any fun ts => decide (ts.Refers m))
    (by simp [RefersTo, Option.any_eq_true])

/-! ## Looking for replaced bodies -/

theorem firstOldSlot?_eq_none (slot : Nat) (row : List (Option MethodId)) :
    s.firstOldSlot? slot row = none ↔ ∀ m, some m ∈ row → s.isOld m = false := by
  induction row generalizing slot with
  | nil => simp [firstOldSlot?]
  | cons x row ih =>
    cases x with
    | none => simp [firstOldSlot?, ih]
    | some m =>
      rw [firstOldSlot?]
      cases hold : s.isOld m with
      | true => simp [hold]
      | false => simp [hold, ih]

theorem firstOldEntry?_eq_none (index : Nat) (row : List ITableEntry) :
    s.firstOldEntry? index row = none ↔ ∀ m, .bound m ∈ row → s.isOld m = false := by
  induction row generalizing index with
  | nil => simp [ firstOldEntry?]
  | cons x row ih =>
    cases x with
    | empty => simp [ firstOldEntry?, ih]
    | inaccessible => simp [ firstOldEntry?, ih]
    | bound m =>
      rw [ firstOldEntry?]
      change (if s.isOld m = true then _ else _) = none ↔ _
      cases hold : s.isOld m with
      | true => simp [hold]
      | false => simp [hold, ih]

/-- The check passes if no entry refers to a replaced body. -/
theorem checkNoOldEntries_iff :
    s.checkNoOldEntries c = .ok () ↔ ∀ m, s.RefersTo c m → s.isOld m = false := by
  have hiff : s.checkNoOldEntries c = .ok () ↔ s.oldEntryOf? c = none := by
    unfold checkNoOldEntries
    cases s.oldEntryOf? c <;> simp
  rw [hiff, oldEntryOf?]
  cases hts : (s.getClass c).tables with
  | none => simp [RefersTo, hts]
  | some ts =>
    have hrefers : ∀ m, s.RefersTo c m ↔ ts.Refers m := fun m => by simp [RefersTo, hts]
    simp only [hrefers, Tables.Refers, Option.bind_some, or_imp, forall_and]
    rw [← firstOldSlot?_eq_none 0, ← firstOldEntry?_eq_none 0]
    change _ ↔ s.oldSlot? ts.vtable = none ∧ s.oldEntry? ts.itable = none
    cases s.oldSlot? ts.vtable <;> simp

end Store

/-! ## Updating a row -/

section Updates

variable {α : Type} (f : α → Option α)

/-- The places of a row, counted from `i`, that `f` has something new for. -/
def updates : (i : Nat) → List α → List (Nat × α)
  | _, [] => []
  | i, x :: rest =>
    match f x with
    | some y => (i, y) :: updates (i + 1) rest
    | none => updates (i + 1) rest

variable {f} {i : Nat} {row : List α}

theorem lt_of_mem_updates {e : Nat × α} (h : e ∈ updates f i row) : e.1 < i + row.length := by
  induction row generalizing i with
  | nil => exact absurd h List.not_mem_nil
  | cons x rest ih =>
    rw [List.length_cons]
    rw [updates] at h
    cases hx : f x with
    | none =>
      rw [hx] at h
      have := ih h
      omega
    | some y =>
      rw [hx] at h
      rcases List.mem_cons.mp h with rfl | h
      · dsimp only
        omega
      · have := ih h
        omega

theorem updates_eq_nil : updates f i row = [] ↔ ∀ x ∈ row, f x = none := by
  induction row generalizing i with
  | nil => simp [updates]
  | cons x rest ih =>
    rw [updates]
    cases hx : f x <;> simp [hx, ih]

/-- Writing all updates of a row updates every one of its places. -/
theorem write_updates (before : List α) (h : before.length = i) :
    write (before ++ row) (updates f i row) = before ++ row.map fun x => (f x).getD x := by
  induction row generalizing i before with
  | nil => rfl
  | cons x rest ih =>
    rw [updates]
    cases hx : f x with
    | none =>
      have hrest := ih (i := i + 1) (before ++ [x]) (by simp [h])
      rw [List.append_assoc, List.append_assoc] at hrest
      rw [List.map_cons, hx]
      exact hrest
    | some y =>
      have hrest := ih (i := i + 1) (before ++ [y]) (by simp [h])
      rw [List.append_assoc, List.append_assoc] at hrest
      rw [List.map_cons, hx, write, List.foldl_cons, List.set_append_right _ _ (by omega), h,
        Nat.sub_self, List.set_cons_zero]
      exact hrest

theorem write_updates_self (f : α → Option α) (row : List α) :
    write row (updates f 0 row) = row.map fun x => (f x).getD x :=
  write_updates (i := 0) [] rfl

end Updates

/-! ## Planning -/

namespace Store

variable {s : Store} {isReplaced : MethodId → Bool} {counterpart? : MethodId → Option MethodId}
  {className : String}

/-- What a method is replaced by, if it is. -/
def replacement? (isReplaced : MethodId → Bool) (counterpart? : MethodId → Option MethodId)
    (m : MethodId) : Option MethodId :=
  if isReplaced m then counterpart? m else none

/-- The new content of a slot, if its method is replaced. -/
def slotUpdate? (isReplaced : MethodId → Bool) (counterpart? : MethodId → Option MethodId) :
    Option MethodId → Option (Option MethodId)
  | some m => (replacement? isReplaced counterpart? m).map some
  | none => none

/-- The new content of an entry, if its method is replaced. -/
def boundUpdate? (isReplaced : MethodId → Bool) (counterpart? : MethodId → Option MethodId) :
    ITableEntry → Option ITableEntry
  | .bound m => (replacement? isReplaced counterpart? m).map .bound
  | _ => none

/-- A row that starts with a replaced method is planned only if the method has a counterpart; the
plan then starts with the two. -/
theorem planSlots_replaced {slot : Nat} {old : MethodId} {row : List (Option MethodId)}
    {plan : List (Nat × MethodId × MethodId)} (hold : isReplaced old = true)
    (h : s.planSlots className isReplaced counterpart? slot (some old :: row) = .ok plan) :
    ∃ new later, counterpart? old = some new ∧
      s.planSlots className isReplaced counterpart? (slot + 1) row = .ok later ∧
      plan = (slot, old, new) :: later := by
  rw [planSlots, hold, if_pos rfl] at h
  cases hnew : counterpart? old with
  | none => simp [hnew] at h
  | some new =>
    cases hlater : s.planSlots className isReplaced counterpart? (slot + 1) row with
    | error e => simp [hnew, hlater, bind, Except.bind] at h
    | ok later =>
      simp only [hnew, hlater, bind, Except.bind, pure, Except.pure, Except.ok.injEq] at h
      exact ⟨new, later, rfl, rfl, h.symm⟩

/-- A plan for a row of slots lists its updates; each replaced method has a counterpart. -/
theorem planSlots_ok {slot : Nat} {row : List (Option MethodId)}
    {plan : List (Nat × MethodId × MethodId)}
    (h : s.planSlots className isReplaced counterpart? slot row = .ok plan) :
    plan.map (fun e => (e.1, some e.2.2)) =
        updates (slotUpdate? isReplaced counterpart?) slot row ∧
      (∀ e ∈ plan, isReplaced e.2.1 = true ∧ counterpart? e.2.1 = some e.2.2) ∧
      ∀ m, some m ∈ row → isReplaced m = true → (counterpart? m).isSome = true := by
  induction row generalizing slot plan with
  | nil =>
    cases h
    simp [updates]
  | cons x row ih =>
    rw [updates]
    cases x with
    | none => simpa [slotUpdate?] using ih h
    | some old =>
      cases hold : isReplaced old with
      | false =>
        rw [planSlots, hold] at h
        simpa [slotUpdate?, replacement?, hold] using ih h
      | true =>
        obtain ⟨new, later, hnew, hlater, rfl⟩ := planSlots_replaced hold h
        simpa [slotUpdate?, replacement?, hold, hnew] using ih hlater

/-- A plan for a row of entries lists its updates; each replaced method has a counterpart. -/
theorem planEntries_ok {index : Nat} {row : List ITableEntry} {plan : List (Nat × MethodId)}
    (h : s.planEntries className isReplaced counterpart? index row = .ok plan) :
    plan.map (fun e => (e.1, .bound e.2)) =
        updates (boundUpdate? isReplaced counterpart?) index row ∧
      ∀ m, .bound m ∈ row → isReplaced m = true → (counterpart? m).isSome = true := by
  induction row generalizing index plan with
  | nil =>
    cases h
    simp [updates]
  | cons x row ih =>
    rw [updates]
    cases x with
    | empty => simpa [boundUpdate?] using ih h
    | inaccessible method => simpa [boundUpdate?] using ih h
    | bound old =>
      rw [planEntries] at h
      cases hold : isReplaced old with
      | false =>
        rw [hold] at h
        simpa [boundUpdate?, replacement?, hold] using ih h
      | true =>
        rw [hold, if_pos rfl] at h
        cases hnew : counterpart? old with
        | none => simp [hnew] at h
        | some new =>
          cases hlater : s.planEntries className isReplaced counterpart? (index + 1) row with
          | error e => simp [hnew, hlater, bind, Except.bind] at h
          | ok later =>
            simp only [hnew, hlater, bind, Except.bind, pure, Except.pure, Except.ok.injEq] at h
            subst h
            simpa [boundUpdate?, replacement?, hold, hnew] using ih hlater

end Store

/-- The entry with the method that it is bound to exchanged. -/
def ITableEntry.exchange (f : MethodId → MethodId) : ITableEntry → ITableEntry
  | .bound m => .bound (f m)
  | e => e

/-- The tables with every method that they refer to exchanged. -/
def Tables.exchange (f : MethodId → MethodId) (ts : Tables) : Tables :=
  { ts with
    vtable := ⟨ts.vtable.slots.map (Option.map f)⟩
    itable := { ts.itable with
      entries := ts.itable.entries.map (ITableEntry.exchange f) } }

theorem Tables.refers_exchange {f : MethodId → MethodId} {ts : Tables} {m : MethodId} :
    (ts.exchange f).Refers m ↔ ∃ old, ts.Refers old ∧ f old = m := by
  have hslots : some m ∈ ts.vtable.slots.map (Option.map f) ↔
      ∃ old, some old ∈ ts.vtable.slots ∧ f old = m := by
    rw [List.mem_map]
    constructor
    · rintro ⟨x, hx, heq⟩
      obtain ⟨old, rfl, hold⟩ := Option.map_eq_some_iff.mp heq
      exact ⟨old, hx, hold⟩
    · rintro ⟨old, hold, rfl⟩
      exact ⟨some old, hold, rfl⟩
  have hentries : .bound m ∈ (ts.exchange f).itable.entries ↔
      ∃ old, .bound old ∈ ts.itable.entries ∧ f old = m := by
    rw [Tables.exchange, List.mem_map]
    constructor
    · rintro ⟨x, hx, heq⟩
      cases x with
      | bound old => exact ⟨old, hx, ITableEntry.bound.inj heq⟩
      | empty => cases heq
      | inaccessible method => cases heq
    · rintro ⟨old, hold, rfl⟩
      exact ⟨.bound old, hold, rfl⟩
  unfold Refers
  rw [hentries]
  change some m ∈ ts.vtable.slots.map (Option.map f) ∨ _ ↔ _
  rw [hslots, ← exists_or]
  simp only [or_and_right]

namespace Store

variable {s : Store} {c holder : ClassId} {isReplaced : MethodId → Bool}
  {counterpart? : MethodId → Option MethodId}

/-- Whether `m` is a replaced method of `holder`. -/
def isReplacedHere (s : Store) (holder : ClassId) (isReplaced : MethodId → Bool) (m : MethodId) :
    Bool :=
  s.isHeldBy m holder && isReplaced m

/-- What stands for `m` once the replaced methods of `holder` gave way to their counterparts. -/
def current (s : Store) (holder : ClassId) (isReplaced : MethodId → Bool)
    (counterpart? : MethodId → Option MethodId) (m : MethodId) : MethodId :=
  (replacement? (s.isReplacedHere holder isReplaced) counterpart? m).getD m

/-- What a plan for the tables `ts` of a class says. -/
structure Plans (s : Store) (holder : ClassId) (isReplaced : MethodId → Bool)
    (counterpart? : MethodId → Option MethodId) (ts : Tables) (a : TableAdjustments) : Prop where
  slots : a.slots.map (fun e => (e.1, some e.2.2)) =
    updates (slotUpdate? (s.isReplacedHere holder isReplaced) counterpart?) 0 ts.vtable.slots
  entries : a.entries.map (fun e => (e.1, .bound e.2)) =
    updates (boundUpdate? (s.isReplacedHere holder isReplaced) counterpart?) 0 ts.itable.entries
  pairs : ∀ e ∈ a.slots, s.isReplacedHere holder isReplaced e.2.1 = true ∧
    counterpart? e.2.1 = some e.2.2
  complete : ∀ m, ts.Refers m → s.isReplacedHere holder isReplaced m = true →
    (counterpart? m).isSome = true

/-- A class without tables has nothing to plan. -/
theorem planAdjustments_of_unlinked (hts : (s.getClass c).tables = none) :
    s.planAdjustments c holder isReplaced counterpart? = .ok .none := by
  simp only [planAdjustments, hts]

theorem planAdjustments_of_tables {ts : Tables} (hts : (s.getClass c).tables = some ts) :
    s.planAdjustments c holder isReplaced counterpart? = (do
      let slots ← s.planSlots (s.getClass c).name (s.isReplacedHere holder isReplaced) counterpart?
        0 ts.vtable.slots
      let entries ← s.planEntries (s.getClass c).name (s.isReplacedHere holder isReplaced)
        counterpart? 0 ts.itable.entries
      return ⟨slots, entries⟩) := by
  simp only [planAdjustments, hts]
  rfl

/-- The plan for the tables `ts` of a class is a plan for its slots and one for its entries. -/
theorem planAdjustments_rows {ts : Tables} {a : TableAdjustments}
    (hts : (s.getClass c).tables = some ts)
    (h : s.planAdjustments c holder isReplaced counterpart? = .ok a) :
    s.planSlots (s.getClass c).name (s.isReplacedHere holder isReplaced) counterpart? 0
        ts.vtable.slots = .ok a.slots ∧
      s.planEntries (s.getClass c).name (s.isReplacedHere holder isReplaced) counterpart? 0
        ts.itable.entries = .ok a.entries := by
  rw [planAdjustments_of_tables hts] at h
  cases hslots : s.planSlots (s.getClass c).name (s.isReplacedHere holder isReplaced) counterpart? 0
      ts.vtable.slots with
  | error e => simp [hslots, bind, Except.bind] at h
  | ok slots =>
    cases hentries : s.planEntries (s.getClass c).name (s.isReplacedHere holder isReplaced)
        counterpart? 0 ts.itable.entries with
    | error e => simp [hslots, hentries, bind, Except.bind] at h
    | ok entries =>
      simp only [hslots, hentries, bind, Except.bind, pure, Except.pure, Except.ok.injEq] at h
      subst h
      exact ⟨rfl, rfl⟩

theorem planAdjustments_ok {ts : Tables} {a : TableAdjustments}
    (hts : (s.getClass c).tables = some ts)
    (h : s.planAdjustments c holder isReplaced counterpart? = .ok a) :
    s.Plans holder isReplaced counterpart? ts a := by
  obtain ⟨hslots, hentries⟩ := planAdjustments_rows hts h
  obtain ⟨hupd, hpairs, hcomplete⟩ := planSlots_ok hslots
  obtain ⟨hupd', hcomplete'⟩ := planEntries_ok hentries
  exact ⟨hupd, hupd', hpairs, fun m hm hrep =>
    hm.elim (hcomplete m · hrep) (hcomplete' m · hrep)⟩

namespace Plans

variable {ts : Tables} {a : TableAdjustments}

/-- A plan is empty if the tables refer to nothing that is replaced. -/
theorem isEmpty_iff (h : s.Plans holder isReplaced counterpart? ts a) :
    a.isEmpty = true ↔ ∀ m, ts.Refers m → s.isReplacedHere holder isReplaced m = false := by
  have hnone : ∀ m, ts.Refers m →
      (replacement? (s.isReplacedHere holder isReplaced) counterpart? m = none ↔
        s.isReplacedHere holder isReplaced m = false) := fun m hm => by
    unfold replacement?
    cases hrep : s.isReplacedHere holder isReplaced m with
    | false => simp
    | true =>
      obtain ⟨new, hnew⟩ := Option.isSome_iff_exists.mp (h.complete m hm hrep)
      simp [hnew]
  have hslots : a.slots = [] ↔ ∀ m, some m ∈ ts.vtable.slots →
      s.isReplacedHere holder isReplaced m = false := by
    rw [← List.map_eq_nil_iff (f := fun e : Nat × MethodId × MethodId => (e.1, some e.2.2)),
      h.slots, updates_eq_nil]
    constructor
    · intro hall m hm
      exact (hnone m (Or.inl hm)).mp (by simpa [slotUpdate?] using hall (some m) hm)
    · intro hall x hx
      cases x with
      | none => rfl
      | some m => simp [slotUpdate?, (hnone m (Or.inl hx)).mpr (hall m hx)]
  have hentries : a.entries = [] ↔ ∀ m, .bound m ∈ ts.itable.entries →
      s.isReplacedHere holder isReplaced m = false := by
    rw [← List.map_eq_nil_iff (f := fun e : Nat × MethodId => (e.1, ITableEntry.bound e.2)),
      h.entries, updates_eq_nil]
    constructor
    · intro hall m hm
      exact (hnone m (Or.inr hm)).mp (by simpa [boundUpdate?] using hall (.bound m) hm)
    · intro hall x hx
      cases x with
      | empty => rfl
      | inaccessible method => rfl
      | bound m => simp [boundUpdate?, (hnone m (Or.inr hx)).mpr (hall m hx)]
  rw [TableAdjustments.isEmpty, Bool.and_eq_true, List.isEmpty_iff, List.isEmpty_iff, hslots,
    hentries]
  simp only [Tables.Refers, or_imp, forall_and]

/-- Writing a plan exchanges every replaced method for its counterpart. -/
theorem write_eq (h : s.Plans holder isReplaced counterpart? ts a) :
    ts.exchange (s.current holder isReplaced counterpart?) =
      { ts with
        vtable := ⟨write ts.vtable.slots (a.slots.map fun e => (e.1, some e.2.2))⟩
        itable := { ts.itable with
          entries := write ts.itable.entries (a.entries.map fun e => (e.1, .bound e.2)) } } := by
  rw [h.slots, h.entries, write_updates_self, write_updates_self]
  have hslot : ∀ x : Option MethodId,
      (slotUpdate? (s.isReplacedHere holder isReplaced) counterpart? x).getD x =
        x.map (s.current holder isReplaced counterpart?) := fun x => by
    cases x with
    | none => rfl
    | some m =>
      simp only [slotUpdate?, Option.map_some, current]
      cases replacement? (s.isReplacedHere holder isReplaced) counterpart? m <;> rfl
  have hentry : ∀ x : ITableEntry,
      (boundUpdate? (s.isReplacedHere holder isReplaced) counterpart? x).getD x =
        x.exchange (s.current holder isReplaced counterpart?) := fun x => by
    cases x with
    | empty => rfl
    | inaccessible method => rfl
    | bound m =>
      simp only [boundUpdate?, ITableEntry.exchange, current]
      cases replacement? (s.isReplacedHere holder isReplaced) counterpart? m <;> rfl
  rw [List.map_congr_left fun x _ => hslot x, List.map_congr_left fun x _ => hentry x]
  rfl

end Plans
end Store

/-! ## Applying -/

namespace Linker

/-- Only the tables and the defaults of `c` were adjusted between `l` and `t`, and the defaults are
still all `P` if they were. -/
structure Adjusts (c : ClassId) (P : MethodId → Prop) (l t : Linker) : Prop where
  methods : t.store.methods = l.store.methods
  size_eq : t.store.classes.size = l.store.classes.size
  others : ∀ d, d ≠ c → t.store.getClass d = l.store.getClass d
  class_eq : t.store.getClass c = { l.store.getClass c with
    defaults := (t.store.getClass c).defaults
    tables := (t.store.getClass c).tables }
  defaults : (∀ m ∈ (l.store.getClass c).defaults, P m) → ∀ m ∈ (t.store.getClass c).defaults, P m
  config : t.config = l.config
  registry : t.registry = l.registry
  statistics : t.statistics = l.statistics

variable {c : ClassId} {P : MethodId → Prop} {l t u : Linker} {ts : Tables}

theorem Adjusts.refl (c : ClassId) (P : MethodId → Prop) (l : Linker) : Adjusts c P l l :=
  ⟨rfl, rfl, fun _ _ => rfl, rfl, id, rfl, rfl, rfl⟩

theorem Adjusts.trans (h : Adjusts c P l t) (h' : Adjusts c P t u) : Adjusts c P l u where
  methods := h'.methods.trans h.methods
  size_eq := h'.size_eq.trans h.size_eq
  others := fun d hd => (h'.others d hd).trans (h.others d hd)
  class_eq := by rw [h'.class_eq, h.class_eq]
  defaults := fun hP => h'.defaults (h.defaults hP)
  config := h'.config.trans h.config
  registry := h'.registry.trans h.registry
  statistics := h'.statistics.trans h.statistics

theorem Adjusts.of_modifyClass {f : Class → Class} (hstore : t.store = l.store.modifyClass c f)
    (hf : ∀ k, f k = { k with defaults := (f k).defaults, tables := (f k).tables })
    (hP : ∀ k, (∀ m ∈ k.defaults, P m) → ∀ m ∈ (f k).defaults, P m)
    (hconfig : t.config = l.config) (hregistry : t.registry = l.registry)
    (hstatistics : t.statistics = l.statistics) : Adjusts c P l t where
  methods := by rw [hstore, Store.methods_modifyClass]
  size_eq := by rw [hstore, Store.size_modifyClass]
  others := fun d hd => by rw [hstore, Store.getClass_modifyClass_of_ne _ _ _ _ (Ne.symm hd)]
  class_eq := by
    rw [hstore, Store.getClass_modifyClass]
    split
    · exact hf _
    · rfl
  defaults := fun hdefaults => by
    rw [hstore, Store.getClass_modifyClass]
    split
    · exact hP _ hdefaults
    · exact hdefaults
  config := hconfig
  registry := hregistry
  statistics := hstatistics

theorem Adjusts.record (h : Adjusts c P l t) (ds : List Diagnostic) : Adjusts c P l (t.record ds) :=
  { h with }

theorem traceAdjustment_outcome (h : Adjusts c P l t)
    (hts : (t.store.getClass c).tables = some ts) (d : ClassId) (new : MethodId) (table : TableKind)
    (index : Nat) :
    Outcome (traceAdjustment d new table index) t
      (fun _ u => Adjusts c P l u ∧ (u.store.getClass c).tables = some ts) (fun _ _ => False) := by
  unfold traceAdjustment
  simp only [outcome_bind, outcome_get, outcome_trace]
  split
  · exact ⟨h.record _, hts⟩
  · exact ⟨h, hts⟩

/-- Writing tables changes nothing else. -/
theorem modifyTables_outcome (hts : (l.store.getClass c).tables = some ts) (f : Tables → Tables) :
    Outcome (LinkM.modifyTables c f) l
      (fun _ t => Adjusts c P l t ∧ (t.store.getClass c).tables = some (f ts))
      (fun _ _ => False) := by
  have hc := Store.hasClass_of_tables hts
  refine ⟨.of_modifyClass rfl (fun _ => rfl) (fun _ h => h) rfl rfl rfl, ?_⟩
  change ((l.store.modifyClass c _).getClass c).tables = _
  rw [Store.getClass_modifyClass_self _ _ _ hc, hts]
  rfl

theorem writeSlot_outcome (hts : (l.store.getClass c).tables = some ts) {slot : Nat}
    (hslot : slot < ts.vtable.slots.length) (m : MethodId) :
    Outcome (writeSlot c slot m) l
      (fun _ t => Adjusts c P l t ∧ (t.store.getClass c).tables =
        some { ts with vtable := ⟨ts.vtable.slots.set slot (some m)⟩ })
      (fun _ _ => False) := by
  unfold writeSlot
  simp only [outcome_bind, outcome_get, hts]
  rw [outcome_ofExcept, VTable.put_of_lt hslot]
  refine ⟨fun vtable h => ?_, fun e h => by cases h⟩
  cases h
  exact modifyTables_outcome hts _

theorem writeEntry_outcome (hts : (l.store.getClass c).tables = some ts) {index : Nat}
    (hindex : index < ts.itable.entries.length) (m : MethodId) :
    Outcome (writeEntry c index m) l
      (fun _ t => Adjusts c P l t ∧ (t.store.getClass c).tables = some { ts with
        itable := { ts.itable with entries := ts.itable.entries.set index (.bound m) } })
      (fun _ _ => False) := by
  unfold writeEntry
  simp only [outcome_bind, outcome_get, hts]
  rw [outcome_ofExcept, ITable.put_of_lt hindex]
  refine ⟨fun itable h => ?_, fun e h => by cases h⟩
  cases h
  exact modifyTables_outcome hts _

/-- A default gives way to its new body at its slot, or the defaults stay as they are. -/
theorem mem_replaceDefault {k : Class} {slot : Nat} {old new m : MethodId}
    (h : m ∈ (k.replaceDefault slot old new).defaults) :
    m ∈ k.defaults ∨ (m = new ∧ old ∈ k.defaults) := by
  unfold Class.replaceDefault at h
  split at h
  · exact Or.inl h
  · split at h
    · rename_i hold
      rcases List.mem_or_eq_of_mem_set h with h | h
      · exact Or.inl h
      · exact Or.inr ⟨h, List.mem_of_getElem? hold⟩
    · exact Or.inl h

theorem tables_replaceDefault (k : Class) (slot : Nat) (old new : MethodId) :
    k.replaceDefault slot old new =
      { k with defaults := (k.replaceDefault slot old new).defaults } := by
  unfold Class.replaceDefault
  split
  · rfl
  · split <;> rfl

theorem replaceDefault_outcome (hts : (l.store.getClass c).tables = some ts) (slot : Nat)
    {old new : MethodId} (hP : P old → P new) :
    Outcome (replaceDefault c slot old new) l
      (fun _ t => Adjusts c P l t ∧ (t.store.getClass c).tables = some ts) (fun _ _ => False) := by
  have hc := Store.hasClass_of_tables hts
  refine ⟨.of_modifyClass rfl (fun k => ?_) (fun k hk m hm => ?_) rfl rfl rfl, ?_⟩
  · rw [tables_replaceDefault]
  · rcases mem_replaceDefault hm with hm | ⟨rfl, hold⟩
    · exact hk m hm
    · exact hP (hk old hold)
  · change ((l.store.modifyClass c _).getClass c).tables = _
    rw [Store.getClass_modifyClass_self _ _ _ hc, tables_replaceDefault]
    exact hts

/-- Applying planned slots writes them. -/
theorem applySlots_outcome {slots : List (Nat × MethodId × MethodId)}
    (hts : (l.store.getClass c).tables = some ts)
    (hslots : ∀ e ∈ slots, e.1 < ts.vtable.slots.length) (hP : ∀ e ∈ slots, P e.2.1 → P e.2.2) :
    Outcome (applySlots c slots) l
      (fun _ t => Adjusts c P l t ∧ (t.store.getClass c).tables = some { ts with
        vtable := ⟨write ts.vtable.slots (slots.map fun e => (e.1, some e.2.2))⟩ })
      (fun _ _ => False) := by
  induction slots generalizing l ts with
  | nil => exact ⟨.refl c P l, hts⟩
  | cons e rest ih =>
    obtain ⟨slot, old, new⟩ := e
    have hrest : ∀ t, Adjusts c P l t → (t.store.getClass c).tables =
        some { ts with vtable := ⟨ts.vtable.slots.set slot (some new)⟩ } →
        Outcome (traceAdjustment c new .vtable slot >>= fun _ => applySlots c rest) t
          (fun _ u => Adjusts c P l u ∧ (u.store.getClass c).tables = some { ts with
            vtable := ⟨write ts.vtable.slots
              (((slot, old, new) :: rest).map fun e => (e.1, some e.2.2))⟩ })
          (fun _ _ => False) := fun t ht htst => by
      rw [outcome_bind]
      refine (traceAdjustment_outcome (.refl c P t) htst c new .vtable slot).imp
        (fun _ u hu => ?_) (fun _ _ h => h)
      refine (ih hu.2 (fun e he => ?_) fun e he => hP e (List.mem_cons_of_mem _ he)).imp
        (fun _ v hv => ⟨ht.trans (hu.1.trans hv.1), hv.2⟩) (fun _ _ h => h)
      rw [List.length_set]
      exact hslots e (List.mem_cons_of_mem _ he)
    unfold applySlots
    simp only [outcome_bind, outcome_get, outcome_ite]
    refine (writeSlot_outcome (P := P) hts (hslots _ List.mem_cons_self) new).imp (fun _ t ht => ?_)
      (fun _ _ h => h)
    refine ⟨fun _ => ?_, fun _ => by simpa only [outcome_bind] using hrest t ht.1 ht.2⟩
    refine (replaceDefault_outcome ht.2 slot (hP _ List.mem_cons_self)).imp (fun _ u hu => ?_)
      (fun _ _ h => h)
    simpa only [outcome_bind] using hrest u (ht.1.trans hu.1) hu.2

/-- Applying planned entries writes them. -/
theorem applyEntries_outcome {entries : List (Nat × MethodId)}
    (hts : (l.store.getClass c).tables = some ts)
    (hentries : ∀ e ∈ entries, e.1 < ts.itable.entries.length) :
    Outcome (applyEntries c entries) l
      (fun _ t => Adjusts c P l t ∧ (t.store.getClass c).tables = some { ts with
        itable := { ts.itable with
          entries := write ts.itable.entries (entries.map fun e => (e.1, .bound e.2)) } })
      (fun _ _ => False) := by
  induction entries generalizing l ts with
  | nil => exact ⟨.refl c P l, hts⟩
  | cons e rest ih =>
    obtain ⟨index, new⟩ := e
    unfold applyEntries
    simp only [outcome_bind]
    refine (writeEntry_outcome (P := P) hts (hentries _ List.mem_cons_self) new).imp
      (fun _ t ht => ?_)
      (fun _ _ h => h)
    refine (traceAdjustment_outcome ht.1 ht.2 c new .itable index).imp (fun _ u hu => ?_)
      (fun _ _ h => h)
    refine (ih hu.2 fun e he => ?_).imp (fun _ v hv => ⟨hu.1.trans hv.1, hv.2⟩) (fun _ _ h => h)
    rw [List.length_set]
    exact hentries e (List.mem_cons_of_mem _ he)

/-- **Applying a plan exchanges every replaced method in the tables of the class.** -/
theorem applyAdjustments_outcome {s : Store} {holder : ClassId} {isReplaced : MethodId → Bool}
    {counterpart? : MethodId → Option MethodId} {a : TableAdjustments}
    (hplan : s.Plans holder isReplaced counterpart? ts a)
    (hts : (l.store.getClass c).tables = some ts) (hempty : a.isEmpty = false)
    (hP : ∀ e ∈ a.slots, P e.2.1 → P e.2.2) :
    Outcome (applyAdjustments c a) l
      (fun n t => n = a.size ∧ Adjusts c P l t ∧ (t.store.getClass c).tables =
        some (ts.exchange (s.current holder isReplaced counterpart?)))
      (fun _ _ => False) := by
  have hslots : ∀ e ∈ a.slots, e.1 < ts.vtable.slots.length := fun e he => by
    have hmem := List.mem_map_of_mem
      (f := fun e : Nat × MethodId × MethodId => (e.1, some e.2.2)) he
    rw [hplan.slots] at hmem
    have := lt_of_mem_updates hmem
    omega
  have hentries : ∀ e ∈ a.entries, e.1 < ts.itable.entries.length := fun e he => by
    have hmem := List.mem_map_of_mem
      (f := fun e : Nat × MethodId => (e.1, ITableEntry.bound e.2)) he
    rw [hplan.entries] at hmem
    have := lt_of_mem_updates hmem
    omega
  have hlinked : (l.store.getClass c).isLinked = true := by rw [Class.isLinked, hts]; rfl
  unfold applyAdjustments
  simp only [outcome_bind, outcome_get, outcome_ite, hempty, hlinked, Bool.not_true,
    Bool.false_eq_true, false_implies, not_false_eq_true, true_implies, true_and, outcome_pure]
  refine (applySlots_outcome hts hslots hP).imp (fun _ t ht => ?_) (fun _ _ h => h)
  refine (applyEntries_outcome (P := P) ht.2 hentries).imp (fun _ u hu => ?_) (fun _ _ h => h)
  exact ⟨ht.1.trans hu.1, hu.2.trans (congrArg some hplan.write_eq.symm)⟩

end Linker
end ClassLinking
