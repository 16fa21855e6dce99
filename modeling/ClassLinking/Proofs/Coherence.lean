import ClassLinking.Proofs.Slots

/-!
# Tables that continue the superclass's

A virtual table continues the superclass's table: it is at least as long, a slot that the superclass
has is filled in both tables or in neither, with methods of one selector, and every method in it is
held by the class or by one of its supertypes.  A store whose tables are like that is `Coherent`.

This is what verification looks for in a finished table.  A table that is built in a coherent store
has it for that reason alone, however the store came about: building takes over what the superclass
has, overrides by selector, and adds methods of the class and of its interfaces
(`Built.selector_methodAt`, `Built.exists_holder_of_methodAt`).  So verification passes
(`Built.verifyVTable_ok`), and the store in which the table is installed is coherent again
(`Coherent.installs`).
-/

namespace ClassLinking

namespace Store

variable {s : Store} {root : Option ClassId} {c p : ClassId} {i : Nat} {m o : MethodId}

/-- The class `h` is `c` itself, one of its superclasses or one of its interfaces. -/
def Above (s : Store) (c h : ClassId) : Prop := h ∈ s.lineage c ∨ h ∈ (s.getClass c).allInterfaces

/-- Every table continues the superclass's and holds methods of supertypes only. -/
structure Coherent (s : Store) : Prop where
  housed : s.Housed
  superLength_le : ∀ c, s.Linked c → s.superLength c ≤ (s.getClass c).vtableLength
  selector_slot : ∀ c p, s.Linked c → (s.getClass c).superclass? = some p →
    ∀ i < (s.getClass p).vtableLength, (s.slot c i).map s.selector = (s.slot p i).map s.selector
  holder_slot : ∀ c i m, s.slot c i = some m →
    ∃ h, (s.getMethod m).holder = some h ∧ s.Above c h

theorem above_of_superclass {h : ClassId} (w : s.WellFormed root) (hc : s.HasClass c)
    (hp : (s.getClass c).superclass? = some p) (hh : s.Above p h) : s.Above c h := by
  refine hh.imp (fun hh => ?_) (fun hh => w.allInterfaces_of_superclass hc hp hh)
  rw [w.lineage_of_superclass hc hp]
  exact List.mem_cons_of_mem _ hh

theorem Extends.above_iff {t : Store} {h : ClassId} (hext : s.Extends t) (hc : s.HasClass c) :
    t.Above c h ↔ s.Above c h := by
  rw [Above, Above, hext.lineage hc, hext.allInterfaces hc]

/-! ## Verification -/

/-- Tables that agree on the selectors of the slots that both fill have no mismatch. -/
theorem firstMismatch?_eq_none {ours theirs : List (Option MethodId)} {n : Nat}
    (h : ∀ (i : Nat) (m m' : MethodId), ours[i]? = some (some m) → theirs[i]? = some (some m') →
      s.selector m = s.selector m') : s.firstMismatch? n ours theirs = none := by
  induction ours generalizing theirs n with
  | nil => simp [firstMismatch?]
  | cons x xs ih =>
    cases theirs with
    | nil => simp [firstMismatch?]
    | cons y ys =>
      have hrest : ∀ i m m', xs[i]? = some (some m) → ys[i]? = some (some m') →
          s.selector m = s.selector m' := fun i m m' hm hm' => h (i + 1) m m' hm hm'
      cases x with
      | none => simpa [firstMismatch?] using ih hrest
      | some a =>
        cases y with
        | none => simpa [firstMismatch?] using ih hrest
        | some b => simpa [firstMismatch?, h 0 a b rfl rfl] using ih hrest

/-- A table that holds methods of supertypes only has no unrelated method. -/
theorem firstUnrelated?_eq_none {slots : List (Option MethodId)} {n : Nat}
    (h : ∀ m, some m ∈ slots → (s.holder? m).any (s.isSubtype c) = true) :
    s.firstUnrelated? c n slots = none := by
  induction slots generalizing n with
  | nil => rfl
  | cons x xs ih =>
    have hrest := fun m hm => h m (List.mem_cons_of_mem _ hm)
    cases x with
    | none => simpa [firstUnrelated?] using ih hrest
    | some a => simpa [firstUnrelated?, h a List.mem_cons_self] using ih hrest

/-- What verification asks of a table of `c`. -/
structure Continues (s : Store) (c : ClassId) (table : VTable) : Prop where
  length_le : (s.superSlots c).length ≤ table.length
  selector : ∀ i < (s.superSlots c).length,
    (table.methodAt i).map s.selector = (s.inheritedAt c i).map s.selector
  holder : ∀ i m, table.methodAt i = some m →
    s.HasMethod m ∧ ∃ h, (s.getMethod m).holder = some h ∧ s.Above c h

/-- A holder above the class is a supertype of it. -/
theorem any_isSubtype_of_above (w : s.WellFormed root) (hc : s.HasClass c) (hm : s.HasMethod m)
    (h : ∃ d, (s.getMethod m).holder = some d ∧ s.Above c d) :
    (s.holder? m).any (s.isSubtype c) = true := by
  obtain ⟨d, hholder, hd⟩ := h
  rw [w.holder?_eq hm, hholder, Option.any_some]
  exact w.isSubtype_of_mem hc hd

/-- **A table that continues the superclass's passes verification.** -/
theorem Continues.verifyVTable_ok {table : VTable} (h : s.Continues c table)
    (w : s.WellFormed root) (hc : s.HasClass c) : s.verifyVTable c table = .ok () := by
  have hlong : ¬ table.length < (s.superSlots c).length := Nat.not_lt.mpr h.length_le
  have hmismatch : s.firstMismatch? 0 table.slots (s.superSlots c) = none := by
    refine firstMismatch?_eq_none fun i m o hm ho => ?_
    have hsel := h.selector i (List.getElem?_eq_some_iff.mp ho).1
    rw [VTable.methodAt, hm, inheritedAt, ho] at hsel
    exact Option.some.inj hsel
  have hrelated : s.firstUnrelated? c 0 table.slots = none := by
    refine firstUnrelated?_eq_none fun m hm => ?_
    obtain ⟨i, hi⟩ := List.getElem?_of_mem hm
    obtain ⟨hhas, hheld⟩ := h.holder i m (by rw [VTable.methodAt, hi, Option.join_some])
    exact any_isSubtype_of_above w hc hhas hheld
  unfold verifyVTable
  simp only [hlong, hmismatch, hrelated, if_false]

/-- What a table starts with is as long as the superclass's table. -/
theorem length_superSlots_of_superclass (hp : (s.getClass c).superclass? = some p)
    (hlinked : s.Linked p) : (s.superSlots c).length = (s.getClass p).vtableLength := by
  obtain ⟨ts, hts⟩ := linked_iff.mp hlinked
  rw [superSlots, hp, vtableLength_of_tables hts]
  simp only [hts]
  rfl

/-- The tables of a coherent store pass verification. -/
theorem Coherent.continues {ts : Tables} (h : s.Coherent) (hup : s.LinkedUp)
    (hts : (s.getClass c).tables = some ts) : s.Continues c ts.vtable := by
  have hlinked : s.Linked c := linked_iff.mpr ⟨ts, hts⟩
  have hslot : ∀ i, ts.vtable.methodAt i = s.slot c i := fun i => (slot_of_tables hts).symm
  have hholder : ∀ i m, ts.vtable.methodAt i = some m →
      s.HasMethod m ∧ ∃ h, (s.getMethod m).holder = some h ∧ s.Above c h := fun i m hm => by
    rw [hslot] at hm
    exact ⟨h.housed c i m hm, h.holder_slot c i m hm⟩
  cases hp : (s.getClass c).superclass? with
  | none =>
    have hnone : s.superSlots c = [] := by rw [superSlots, hp]
    exact ⟨by rw [hnone]; exact Nat.zero_le _, fun i hi => by simp [hnone] at hi, hholder⟩
  | some p =>
    have hplinked := hup c hlinked p (mem_definedFrom_superclass hp)
    have hsuper := length_superSlots_of_superclass hp hplinked
    have hle := h.superLength_le c hlinked
    rw [superLength_of_superclass hp, vtableLength_of_tables hts] at hle
    refine ⟨hsuper ▸ hle, fun i hi => ?_, hholder⟩
    rw [hslot, inheritedAt_eq_slot hp hplinked]
    exact h.selector_slot c p hlinked hp i (hsuper ▸ hi)

/-- A store is coherent if all of its tables pass verification. -/
theorem coherent_of_continues (hup : s.LinkedUp)
    (h : ∀ c ts, (s.getClass c).tables = some ts → s.Continues c ts.vtable) : s.Coherent := by
  have hslots : ∀ c i m, s.slot c i = some m →
      s.HasMethod m ∧ ∃ d, (s.getMethod m).holder = some d ∧ s.Above c d := fun c i m hm => by
    obtain ⟨ts, hts⟩ := linked_iff.mp (linked_of_slot hm)
    exact (h c ts hts).holder i m ((slot_of_tables hts).symm.trans hm)
  refine ⟨fun c i m hm => (hslots c i m hm).1, fun c hc => ?_, fun c p hc hp i hi => ?_,
    fun c i m hm => (hslots c i m hm).2⟩
  · obtain ⟨ts, hts⟩ := linked_iff.mp hc
    cases hp : (s.getClass c).superclass? with
    | none =>
      rw [superLength, hp]
      exact Nat.zero_le _
    | some p =>
      have hplinked := hup c hc p (mem_definedFrom_superclass hp)
      rw [superLength_of_superclass hp, vtableLength_of_tables hts,
        ← length_superSlots_of_superclass hp hplinked]
      exact (h c ts hts).length_le
  · obtain ⟨ts, hts⟩ := linked_iff.mp hc
    have hplinked := hup c hc p (mem_definedFrom_superclass hp)
    rw [slot_of_tables hts, ← inheritedAt_eq_slot hp hplinked]
    exact (h c ts hts).selector i (length_superSlots_of_superclass hp hplinked ▸ hi)

/-- A table continues the superclass's in every later store in which the superclass's is the
same. -/
theorem Continues.of_extends {t : Store} {table : VTable} (h : s.Continues c table)
    (hext : s.Extends t) (hc : s.HasClass c) (hsuper : t.superSlots c = s.superSlots c)
    (hhas : ∀ i o, s.inheritedAt c i = some o → s.HasMethod o) : t.Continues c table := by
  have hinherited : ∀ i, t.inheritedAt c i = s.inheritedAt c i := fun i => by
    rw [inheritedAt, inheritedAt, hsuper]
  have hselector : ∀ x : Option MethodId, (∀ m, x = some m → s.HasMethod m) →
      x.map t.selector = x.map s.selector := fun x hx => by
    cases x with
    | none => rfl
    | some m => exact congrArg some (hext.selector (hx m rfl))
  refine ⟨hsuper ▸ h.length_le, fun i hi => ?_, fun i m hm => ?_⟩
  · rw [hinherited, hselector _ fun m hm => (h.holder i m hm).1, hselector _ (hhas i)]
    exact h.selector i (hsuper ▸ hi)
  · obtain ⟨hm, d, hholder, habove⟩ := h.holder i m hm
    exact ⟨hext.hasMethod hm, d, by rw [hext.holder hm, hholder], (hext.above_iff hc).mpr habove⟩

end Store

namespace Linker

open Store

/-! ## What a table is built from -/

section OneClass

variable {root : Option ClassId} {l : Linker} {c p : ClassId} {q : Placement} {i : Nat}
  {o : MethodId}

/-- What is placed is held by the class or by one of its interfaces. -/
theorem exists_holder_of_placement (w : l.store.WellFormed root) (hc : l.store.HasClass c)
    (hq : q ∈ l.fillEnv.placements c) :
    ∃ h, (l.store.getMethod q.method).holder = some h ∧ l.store.Above c h := by
  have f := w.fits c hc
  rcases FillEnv.mem_placements.mp hq with ⟨m, hm, rfl⟩ | ⟨m, hm, rfl⟩
  · exact ⟨c, (f.methods m hm).2, Or.inl (WellFormed.mem_lineage_self l.store c)⟩
  · obtain ⟨-, i, hi, hholder⟩ := f.defaults m hm
    exact ⟨i, hholder, Or.inr hi⟩

/-- What a table starts with stands in the superclass's table. -/
theorem exists_slot_of_inheritedAt
    (hup : ∀ p, (l.store.getClass c).superclass? = some p → l.store.Linked p)
    (ho : l.store.inheritedAt c i = some o) :
    ∃ p, (l.store.getClass c).superclass? = some p ∧ l.store.slot p i = some o := by
  cases hp : (l.store.getClass c).superclass? with
  | none =>
    rw [inheritedAt_top hp] at ho
    cases ho
  | some p => exact ⟨p, rfl, (inheritedAt_eq_slot hp (hup p hp)).symm.trans ho⟩

/-- The superclass's table holds methods of supertypes of the class. -/
theorem exists_holder_of_slot (h : l.store.Coherent) (w : l.store.WellFormed root)
    (hc : l.store.HasClass c) (hp : (l.store.getClass c).superclass? = some p)
    (ho : l.store.slot p i = some o) :
    ∃ d, (l.store.getMethod o).holder = some d ∧ l.store.Above c d := by
  obtain ⟨d, hholder, hd⟩ := h.holder_slot p i o ho
  exact ⟨d, hholder, above_of_superclass w hc hp hd⟩

end OneClass

end Linker

/-! ## What building makes of it -/

namespace VTableLayout.Built

open Store Linker

variable {root : Option ClassId} {l : Linker} {c : ClassId} {config : Config} {size : VTableSize}
  {layout : VTableLayout} {t : Store} {f : Fill} {i : Nat} {m : MethodId}
  (hbuilt : layout.Built l.fillEnv c size t f) (h : l.store.Coherent)
  (w : l.store.WellFormed root) (hc : l.store.HasClass c)
  (hsize : l.store.vtableSize config c = .ok size) (hext : l.store.Extends t)

include hbuilt h w hc hsize hext

/-- Whatever is in a finished table is held by a supertype. -/
theorem exists_holder_of_methodAt (hm : layout.table.methodAt i = some m) :
    t.HasMethod m ∧ ∃ h, (t.getMethod m).holder = some h ∧ t.Above c h := by
  -- What was there before building is carried over to the present store.
  have hcarry : ∀ x, l.store.HasMethod x →
      (∃ h, (l.store.getMethod x).holder = some h ∧ l.store.Above c h) →
      t.HasMethod x ∧ ∃ h, (t.getMethod x).holder = some h ∧ t.Above c h := by
    rintro x hx ⟨d, hd, habove⟩
    exact ⟨hext.hasMethod hx, d, by rw [hext.holder hx, hd], (hext.above_iff hc).mpr habove⟩
  have hplaced : ∀ q ∈ l.fillEnv.placements c, l.store.HasMethod q.method := fun q hq =>
    hasMethod_of_mem_placements w hc hq
  by_cases hi : i < size.inherited
  · rcases hbuilt.methodAt_inherited hi with hsame | ⟨q, hq, heq, -⟩
    · rw [hm] at hsame
      obtain ⟨p, hp, hslot⟩ :=
        exists_slot_of_inheritedAt (fun p hp => linked_of_vtableSize hsize hp) hsame.symm
      exact hcarry m (h.housed p i m hslot) (exists_holder_of_slot h w hc hp hslot)
    · rw [hm, Option.some.injEq] at heq
      exact heq ▸ hcarry q.method (hplaced q hq) (exists_holder_of_placement w hc hq)
  · rcases hbuilt.methodAt_own (vtableSize_ok hsize).1 (by omega) hm with
      ⟨q, hq, rfl, -⟩ | ⟨x, hx, hplaceholder⟩
    · exact hcarry q.method (hplaced q hq) (exists_holder_of_placement w hc hq)
    · obtain ⟨j, hj, hxj⟩ := hasMethod_of_mem_pendingMirandas w hc hx
      have hjc := w.hasClass_of_mem_allInterfaces hc hj
      obtain ⟨hhas, hholder⟩ := (w.fits j hjc).methods x hxj
      refine ⟨hplaceholder.hasMethod, j, ?_, (hext.above_iff hc).mpr (Or.inr hj)⟩
      rw [hplaceholder.holder, hext.holder hhas, hholder]

/-- An inherited slot is filled if it is in the superclass's table, and has the selector that it has
there. -/
theorem selector_methodAt (hi : i < size.inherited) :
    (layout.table.methodAt i).map t.selector = (l.store.inheritedAt c i).map t.selector := by
  rcases hbuilt.methodAt_inherited hi with hsame | ⟨q, hq, heq, -, o, ho, hsel⟩
  · rw [hsame]
    rfl
  · have ho' : l.store.inheritedAt c i = some o := ho
    obtain ⟨p, -, hslot⟩ :=
      exists_slot_of_inheritedAt (fun p hp => linked_of_vtableSize hsize hp) ho'
    have hqhas := hasMethod_of_mem_placements w hc hq
    rw [heq, ho', Option.map_some, Option.map_some, hext.selector hqhas,
      hext.selector (h.housed p i o hslot)]
    exact congrArg some hsel.symm

/-- A finished table continues the superclass's. -/
theorem continues (hsuper : t.superSlots c = l.store.superSlots c) :
    t.Continues c layout.table := by
  obtain ⟨hinherited, hlength⟩ := vtableSize_ok hsize
  have hlen : (l.store.superSlots c).length = size.inherited := length_superSlots hinherited
  refine ⟨?_, fun i hi => ?_, fun i m hm => hbuilt.exists_holder_of_methodAt h w hc hsize hext hm⟩
  · rw [hsuper, hlen, hbuilt.length_eq]
    omega
  · rw [hsuper, hlen] at hi
    rw [hbuilt.selector_methodAt h w hc hsize hext hi, inheritedAt, inheritedAt, hsuper]

omit hext in
/-- **A finished table passes verification.** -/
theorem verifyVTable_ok (hprep : l.store.Prepares c t) :
    t.verifyVTable c layout.table = .ok () := by
  have hsuper : t.superSlots c = l.store.superSlots c := by
    simp only [superSlots, hprep.getClass]
  exact (hbuilt.continues h w hc hsize hprep.extends hsuper).verifyVTable_ok
    (hprep.wellFormed w) (hprep.hasClass.mpr hc)

end VTableLayout.Built

/-! ## Coherence across steps -/

namespace Store

variable {root : Option ClassId} {s t : Store} {l v : Linker} {c : ClassId}

/-- The tables of `t` are those of `s`, with methods exchanged for others of the same selector and
the same holder. -/
structure Carries (s t : Store) : Prop where
  extends_ : s.Extends t
  linked : ∀ c, t.Linked c → s.Linked c
  vtableLength : ∀ c, (t.getClass c).vtableLength = (s.getClass c).vtableLength
  slot_none : ∀ c i, s.slot c i = none → t.slot c i = none
  slot_some : ∀ c i m, s.slot c i = some m → ∃ m', t.slot c i = some m' ∧ t.HasMethod m' ∧
    t.selector m' = s.selector m ∧ (t.getMethod m').holder = (s.getMethod m).holder

/-- Tables are carried over if those of each class stay, or methods in them are exchanged for others
of the same selector and the same holder. -/
theorem Carries.of_exchange (hext : s.Extends t) (hhoused : s.Housed)
    (h : ∀ c, (t.getClass c).tables = (s.getClass c).tables ∨
      ∃ f : MethodId → MethodId,
        (t.getClass c).tables = (s.getClass c).tables.map (Tables.exchange f) ∧
        ∀ i m, s.slot c i = some m → f m = m ∨ t.HasMethod (f m) ∧
          t.selector (f m) = s.selector m ∧
            (t.getMethod (f m)).holder = (s.getMethod m).holder) : s.Carries t := by
  have hkept : ∀ c i m, s.slot c i = some m → t.HasMethod m ∧ t.selector m = s.selector m ∧
      (t.getMethod m).holder = (s.getMethod m).holder := fun c i m hm => by
    have hhas := hhoused c i m hm
    exact ⟨hext.hasMethod hhas, hext.selector hhas, hext.holder hhas⟩
  -- In both cases the slots of a class are mapped.
  have hslots : ∀ c, ∃ f : MethodId → MethodId, (∀ i, t.slot c i = (s.slot c i).map f) ∧
      ∀ i m, s.slot c i = some m → t.HasMethod (f m) ∧ t.selector (f m) = s.selector m ∧
        (t.getMethod (f m)).holder = (s.getMethod m).holder := fun c => by
    rcases h c with htables | ⟨f, htables, hf⟩
    · exact ⟨id, fun i => by rw [slot_congr htables, Option.map_id, id], hkept c⟩
    · refine ⟨f, fun i => slot_exchange htables, fun i m hm => ?_⟩
      rcases hf i m hm with hsame | hf
      · rw [hsame]
        exact hkept c i m hm
      · exact hf
  refine ⟨hext, fun c hc => ?_, fun c => ?_, fun c i hm => ?_, fun c i m hm => ?_⟩
  · rcases h c with htables | ⟨f, htables, -⟩
    · rwa [Linked, Class.isLinked, htables] at hc
    · rwa [Linked, Class.isLinked, htables, Option.isSome_map] at hc
  · rcases h c with htables | ⟨f, htables, -⟩
    · simp only [Class.vtableLength, htables]
    · simp only [Class.vtableLength, htables]
      cases (s.getClass c).tables with
      | none => rfl
      | some ts => exact List.length_map ..
  · obtain ⟨f, hslot, -⟩ := hslots c
    rw [hslot, hm, Option.map_none]
  · obtain ⟨f, hslot, hf⟩ := hslots c
    exact ⟨f m, by rw [hslot, hm, Option.map_some], hf i m hm⟩

/-- Tables that stay as they are are carried over. -/
theorem Carries.of_tables (hext : s.Extends t) (hhoused : s.Housed)
    (htables : ∀ c, (t.getClass c).tables = (s.getClass c).tables) : s.Carries t :=
  .of_exchange hext hhoused fun c => Or.inl (htables c)

theorem Carries.selector_slot (h : s.Carries t) (c : ClassId) (i : Nat) :
    (t.slot c i).map t.selector = (s.slot c i).map s.selector := by
  cases hm : s.slot c i with
  | none => rw [h.slot_none c i hm, Option.map_none, Option.map_none]
  | some m =>
    obtain ⟨m', hm', -, hsel, -⟩ := h.slot_some c i m hm
    rw [hm', Option.map_some, Option.map_some, hsel]

/-- Tables that are carried over stay coherent. -/
theorem Coherent.carries (h : s.Coherent) (hc : s.Carries t) : t.Coherent := by
  have hhas : ∀ c i m, t.slot c i = some m → ∃ o, s.slot c i = some o := fun c i m hm => by
    cases ho : s.slot c i with
    | none => simp [hc.slot_none c i ho] at hm
    | some o => exact ⟨o, rfl⟩
  refine ⟨fun c i m hm => ?_, fun c hlinked => ?_, fun c p hlinked hp i hi => ?_,
    fun c i m hm => ?_⟩
  · obtain ⟨o, ho⟩ := hhas c i m hm
    obtain ⟨m', hm', hhas', -⟩ := hc.slot_some c i o ho
    rw [hm, Option.some.injEq] at hm'
    exact hm' ▸ hhas'
  · have hold := hc.linked c hlinked
    rw [superLength, hc.extends_.superclass? hold.hasClass]
    simp only [hc.vtableLength]
    exact h.superLength_le c hold
  · have hold := hc.linked c hlinked
    rw [hc.extends_.superclass? hold.hasClass] at hp
    rw [hc.vtableLength] at hi
    rw [hc.selector_slot, hc.selector_slot]
    exact h.selector_slot c p hold hp i hi
  · obtain ⟨o, ho⟩ := hhas c i m hm
    obtain ⟨m', hm', -, -, hholder⟩ := hc.slot_some c i o ho
    rw [hm, Option.some.injEq] at hm'
    obtain ⟨d, hd, habove⟩ := h.holder_slot c i o ho
    exact ⟨d, by rw [hm', hholder, hd],
      (hc.extends_.above_iff (linked_of_slot ho).hasClass).mpr habove⟩

theorem Coherent.prepares (h : s.Coherent) (hp : s.Prepares c t) : t.Coherent :=
  h.carries (.of_tables hp.extends h.housed fun d => by rw [hp.getClass])

/-- **Installing a table keeps the store coherent.** -/
theorem Coherent.installs (h : l.store.Coherent) (w : l.store.WellFormed root)
    (hup : l.store.LinkedUp) (hready : Linker.Ready l.store c) (hi : l.Installs v c) :
    v.store.Coherent := by
  obtain ⟨size, layout, itable, f, hsize, hbuilt, htables⟩ := hi.tables
  have hext := hi.grows.extends
  -- What a table starts with stays, since the superclass is linked and so is not `c`.
  have hsuper : ∀ d, l.store.HasClass d →
      (∀ p, (l.store.getClass d).superclass? = some p → l.store.Linked p) →
      v.store.superSlots d = l.store.superSlots d := fun d hd hlinked => by
    rw [superSlots, superSlots, hext.superclass? hd]
    cases hp : (l.store.getClass d).superclass? with
    | none => rfl
    | some p =>
      have hpc : p ≠ c := fun hpc => hready.unlinked (hpc ▸ hlinked p hp)
      simp only [hi.others p hpc]
  refine coherent_of_continues (hi.linkedUp hup hready) fun d ts hts => ?_
  by_cases hdc : d = c
  · subst hdc
    rw [htables, Option.some.injEq] at hts
    subst hts
    exact hbuilt.continues h w hready.hasClass hsize hext
      (hsuper d hready.hasClass fun p hp => linked_of_vtableSize hsize hp)
  · rw [hi.others d hdc] at hts
    have hlinked : ∀ p, (l.store.getClass d).superclass? = some p → l.store.Linked p :=
      fun p hp => hup d (linked_iff.mpr ⟨ts, hts⟩) p (mem_definedFrom_superclass hp)
    refine (h.continues hup hts).of_extends hext (hasClass_of_tables hts)
      (hsuper d (hasClass_of_tables hts) hlinked) fun i o ho => ?_
    obtain ⟨p, -, hslot⟩ := Linker.exists_slot_of_inheritedAt hlinked ho
    exact h.housed p i o hslot

end Store

namespace Linker

open Store

/-- Where every table has its origin, tables are coherent. -/
theorem Traced.coherent {P : Config → Prop} {root : Option ClassId} {s : Store}
    (T : Traced P root s) : s.Coherent where
  housed := T.housed
  superLength_le := fun c hc => T.superLength_le hc
  selector_slot := fun c p hc hp i hi => by
    refine T.selector_slot c hc.hasClass hc p ?_ i hi
    rw [T.wellFormed.lineage_of_superclass hc.hasClass hp]
    exact List.mem_cons_of_mem _ (WellFormed.mem_lineage_self s p)
  holder_slot := fun c i m hm => T.holder_slot c (linked_of_slot hm).hasClass i m hm

end Linker
end ClassLinking
