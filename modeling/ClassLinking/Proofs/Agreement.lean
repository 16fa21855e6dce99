import ClassLinking.Proofs.InterfaceCalls

/-!
# Methods that interfaces alone decide

If no class of a superclass chain declares a selector, the interfaces of the chain decide what a
call runs.  The two tables come by the answer in different ways.  Interface calls ask for the
default that the class itself has selected (`Store.inheritedDefault?`).  The virtual table starts
from the superclass's and lets the class's defaults take slots over, so a slot holds the default of
the closest class of the chain that has one (`Store.nearestDefault?`), or a placeholder if there is
none (`Traced.slot_undeclared`).

The answers differ if a class loses a default that a superclass has, because it adds an interface
that declares the method again without a body, or one that is in conflict with it: nothing is
selected then, and nothing takes the inherited slot over.  `calls_agree_iff` says that this is the
only case.
-/

namespace ClassLinking

/-- Both calls run the same method, or both find a method without a body. -/
def SameOutcome (a b : Except LinkError MethodId) : Prop :=
  (∃ m, a = .ok m ∧ b = .ok m) ∨ ∃ name method name' method',
    a = .error (.abstractMethod name method) ∧ b = .error (.abstractMethod name' method')

namespace Store

variable {s : Store} {root : Option ClassId} {c p : ClassId} {sel : Selector} {m x : MethodId}
  {j : Nat} {t : VTable}

/-- No class of the chain declares a method of the selector, of whatever kind. -/
def Undeclared (s : Store) (c : ClassId) (sel : Selector) : Prop :=
  ∀ a ∈ s.lineage c, ∀ m ∈ (s.getClass a).methods, s.selector m ≠ sel

instance (s : Store) (c : ClassId) (sel : Selector) : Decidable (s.Undeclared c sel) :=
  inferInstanceAs (Decidable (∀ a ∈ s.lineage c, ∀ m ∈ (s.getClass a).methods, s.selector m ≠ sel))

/-- The default of the closest class of the chain that has one of the selector. -/
def nearestDefault? (s : Store) (c : ClassId) (sel : Selector) : Option MethodId :=
  (s.lineage c).findSome? fun a => s.inheritedDefault? a sel

/-- What a call of `sel` on a receiver of `c` ends with if it comes down to `found`. -/
def outcomeOf (s : Store) (c : ClassId) (sel : Selector) (found : Option MethodId) :
    Except LinkError MethodId :=
  found.elim (.error (.abstractMethod (s.getClass c).name sel.text)) .ok

theorem sameOutcome_outcomeOf_iff {found found' : Option MethodId} :
    SameOutcome (s.outcomeOf c sel found) (s.outcomeOf c sel found') ↔ found = found' := by
  cases found <;> cases found' <;> simp [SameOutcome, outcomeOf, eq_comm]

theorem Undeclared.declaresInstance (h : s.Undeclared c sel) {a : ClassId} (ha : a ∈ s.lineage c) :
    s.declaresInstance sel a = false := by
  rw [Bool.eq_false_iff, ne_eq, declaresInstance_iff]
  rintro ⟨m, hm, hsel, -⟩
  exact h a ha m hm hsel

/-- Without a declaration an interface call comes down to a default. -/
theorem Undeclared.implementation? (h : s.Undeclared c sel) : s.implementation? c sel =
    (s.inheritedDefault? c sel).filter fun m => !(s.getMethod m).modifiers.isStatic := by
  have hchain : ((s.lineage c).findSome? fun k =>
      (s.declared? k sel .all).filter fun m => !(s.getMethod m).modifiers.isStatic) = none := by
    rw [List.findSome?_eq_none_iff]
    intro a ha
    have hnot : s.declared? a sel .all = none := by
      rw [← Option.isNone_iff_eq_none, declared?, findAmong?_isNone_iff]
      exact fun m hm hsel => absurd hsel (h a ha m hm)
    rw [hnot, Option.filter_none]
  unfold Store.implementation?
  dsimp only
  rw [hchain, Option.none_or]

/-! ## Defaults of the chain -/

theorem isDefault_iff : s.isDefault m = true ↔
    (s.getMethod m).modifiers.isAbstract = false ∧ (s.getMethod m).modifiers.isStatic = false ∧
      ((s.holder? m).any fun h => (s.getClass h).isInterface) = true := by
  simp [isDefault, and_assoc]

theorem inheritedDefault?_eq_none_iff :
    s.inheritedDefault? c sel = none ↔ ∀ d ∈ (s.getClass c).defaults, s.selector d ≠ sel := by
  rw [← Option.isNone_iff_eq_none, inheritedDefault?, findAmong?_isNone_iff]
  simp

/-- A class has one default of a selector at most. -/
theorem InheritsDefaults.inheritedDefault?_eq (h : s.InheritsDefaults c)
    (hm : m ∈ (s.getClass c).defaults) : s.inheritedDefault? c (s.selector m) = some m := by
  cases hfound : s.inheritedDefault? c (s.selector m) with
  | none => exact absurd rfl (inheritedDefault?_eq_none_iff.mp hfound m hm)
  | some x =>
    obtain ⟨hx, hsel, -⟩ := findAmong?_some hfound
    rw [List.inj_on_of_nodup_map h.nodup hx hm hsel]

theorem nearestDefault?_eq_none_iff : s.nearestDefault? c sel = none ↔
    ∀ a ∈ s.lineage c, ∀ d ∈ (s.getClass a).defaults, s.selector d ≠ sel := by
  simp only [nearestDefault?, List.findSome?_eq_none_iff, inheritedDefault?_eq_none_iff]

theorem nearestDefault?_of_some (h : s.inheritedDefault? c sel = some m) :
    s.nearestDefault? c sel = some m := by
  rw [nearestDefault?, lineage, List.findSome?_cons, h]

theorem WellFormed.nearestDefault?_of_none (w : s.WellFormed root) (hc : s.HasClass c)
    (hp : (s.getClass c).superclass? = some p) (h : s.inheritedDefault? c sel = none) :
    s.nearestDefault? c sel = s.nearestDefault? p sel := by
  rw [nearestDefault?, w.lineage_of_superclass hc hp, List.findSome?_cons, h, nearestDefault?]

/-- The class has the nearest default itself if it has one at all, and there is none if no class of
the chain has one. -/
theorem nearestDefault?_eq_inheritedDefault?_iff :
    s.nearestDefault? c sel = s.inheritedDefault? c sel ↔
      (∃ d ∈ (s.getClass c).defaults, s.selector d = sel) ∨
        ∀ a ∈ s.lineage c, ∀ d ∈ (s.getClass a).defaults, s.selector d ≠ sel := by
  cases hfound : s.inheritedDefault? c sel with
  | some d =>
    obtain ⟨hd, hsel, -⟩ := findAmong?_some hfound
    exact iff_of_true (nearestDefault?_of_some hfound) (Or.inl ⟨d, hd, hsel⟩)
  | none =>
    rw [nearestDefault?_eq_none_iff, or_iff_right]
    rintro ⟨d, hd, hsel⟩
    exact inheritedDefault?_eq_none_iff.mp hfound d hd hsel

/-- The slot of an interface's method is found if there is one. -/
theorem exists_mirandaSlot? (hx : t.methodAt j = some x) (hsel : s.selector x = sel)
    (hwanted : (s.getMethod x).modifiers.isMiranda = true ∨
      ((s.holder? x).any fun h => (s.getClass h).isInterface) = true) :
    ∃ i y, s.mirandaSlot? t sel = some i ∧ t.methodAt i = some y ∧ s.selector y = sel := by
  have hmem : (some x, j) ∈ t.slots.zipIdx.reverse :=
    List.mem_reverse.mpr (List.mk_mem_zipIdx_iff_getElem?.mpr (Option.join_eq_some_iff.mp hx))
  unfold mirandaSlot?
  dsimp only
  cases hfound : t.slots.zipIdx.reverse.find? fun entry => entry.1.any fun m =>
      s.selector m = sel && ((s.getMethod m).modifiers.isMiranda ||
        (s.holder? m).any fun c => (s.getClass c).isInterface) with
  | none =>
    have hnot := List.find?_eq_none.mp hfound _ hmem
    simp [hsel, hwanted] at hnot
  | some entry =>
    obtain ⟨found, i⟩ := entry
    have hany := List.find?_some hfound
    obtain ⟨y, rfl, hy⟩ := Option.any_eq_true _ _ |>.mp hany
    have hslot := List.mk_mem_zipIdx_iff_getElem?.mp
      (List.mem_reverse.mp (List.mem_of_find?_eq_some hfound))
    rw [Bool.and_eq_true, decide_eq_true_eq] at hy
    exact ⟨i, y, rfl, Option.join_eq_some_iff.mpr hslot, hy.1⟩

end Store

namespace Linker

variable {P : Config → Prop} {l : Linker} {s : Store} {root : Option ClassId} {c i p : ClassId}
  {ts : Tables} {sel : Selector} {m x : MethodId} {j k : Nat}

/-! ## What the tables hold -/

/-- A class that is the first to meet a method comes below no default of the selector. -/
theorem Traced.nearestDefault?_of_standsIn (T : Traced P root s) (hrules : s.Regular)
    (hc : s.HasClass c) (hstands : s.StandsIn c x) :
    s.nearestDefault? c (s.selector x) = none := by
  have w := T.wellFormed
  rw [Store.nearestDefault?_eq_none_iff]
  intro a ha d hd hsel
  rw [Store.lineage, List.mem_cons] at ha
  rcases ha with rfl | ha
  · exact hstands.notDefault d hd hsel
  · cases hp : (s.getClass c).superclass? with
    | none =>
      rw [Store.WellFormed.ancestors_of_top hp] at ha
      exact List.not_mem_nil ha
    | some p =>
      have hpc := w.hasClass_superclass hc hp
      rw [w.ancestors_of_superclass hc hp] at ha
      have hac := w.hasClass_of_mem_lineage hpc ha
      obtain ⟨i, hi, hdi⟩ := (T.selected a hac).declared d hd
      have hinst := Store.isInstance_of_bound ((T.inheritsDefaults a hac).isDefault d hd).2
      have hmeets : s.Meets p (s.selector x) :=
        ⟨i, w.allInterfaces_of_mem_lineage p hpc a ha i hi, d, hdi, hsel, hinst⟩
      have hfound := (hrules.lookupInInterfaces?_isSome_iff w hpc).mpr hmeets
      rw [hstands.first p hp] at hfound
      cases hfound

/-- **A slot that interfaces alone decide** holds the nearest default, or a placeholder if no class
of the chain has one.  The induction is along the superclass chain: an inherited slot passes to the
class's own default if there is one, and a slot of the class's own is a default's or a placeholder's
that nothing above has. -/
theorem Traced.slot_undeclared (T : Traced P root s) (hrules : s.Regular) :
    ∀ c, s.HasClass c → s.Undeclared c sel → ∀ j x, s.slot c j = some x → s.selector x = sel →
      s.nearestDefault? c sel = some x ∨
        s.nearestDefault? c sel = none ∧ (s.getMethod x).modifiers = .miranda := by
  have w := T.wellFormed
  refine w.superclass_induction fun c hc ih hnone j x hx hsel => ?_
  subst hsel
  have hlinked := Store.linked_of_slot hx
  have hdispatched : s.Dispatches c x → s.nearestDefault? c (s.selector x) = some x := fun hdisp =>
    Store.nearestDefault?_of_some ((T.inheritsDefaults c hc).inheritedDefault?_eq
      (hdisp.mem.resolve_left fun hxm =>
        hnone c (Store.WellFormed.mem_lineage_self s c) x hxm rfl))
  by_cases hj : j < s.superLength c
  · cases hp : (s.getClass c).superclass? with
    | none =>
      rw [Store.superLength, hp] at hj
      exact absurd hj (Nat.not_lt_zero _)
    | some p =>
      rcases T.slot_inherited hlinked hp hj with hsame | ⟨y, hy, hdisp, -⟩
      · have hxp : s.slot p j = some x := hsame.symm.trans hx
        cases hfound : s.inheritedDefault? c (s.selector x) with
        | some d =>
          obtain ⟨hd, hdsel, -⟩ := Store.findAmong?_some hfound
          have htaken := T.slot_takeover_default hlinked hp hxp hd hdsel.symm
          rw [hx, Option.some.injEq] at htaken
          exact Or.inl (by rw [Store.nearestDefault?_of_some hfound, htaken])
        | none =>
          rw [w.nearestDefault?_of_none hc hp hfound]
          exact ih p hp (fun a ha => hnone a
            (w.lineage_of_superclass hc hp ▸ List.mem_cons_of_mem _ ha)) j x hxp rfl
      · rw [hx, Option.some.injEq] at hy
        exact Or.inl (hdispatched (hy ▸ hdisp))
  · rcases T.slot_own (Nat.le_of_not_lt hj) hx with hdisp | hstands
    · exact Or.inl (hdispatched hdisp)
    · exact Or.inr ⟨T.nearestDefault?_of_standsIn hrules hc hstands, hstands.modifiers⟩

/-- A nearest default has a body and is held by an interface. -/
theorem Traced.isDefault_of_nearestDefault? (T : Traced P root s) (hc : s.HasClass c)
    (h : s.nearestDefault? c sel = some m) : s.isDefault m = true := by
  obtain ⟨a, ha, hfound⟩ := List.exists_of_findSome?_eq_some h
  exact ((T.inheritsDefaults a (T.wellFormed.hasClass_of_mem_lineage hc ha)).isDefault m
    (Store.findAmong?_some hfound).1).1

/-- Virtual calls run the nearest default. -/
theorem Traced.selectVirtual_undeclared (T : Traced P root s) (hrules : s.Regular)
    (hts : (s.getClass c).tables = some ts) (hnone : s.Undeclared c sel)
    (hx : ts.vtable.methodAt j = some x) (hsel : s.selector x = sel) :
    s.selectVirtual c ts.vtable j = s.outcomeOf c sel (s.nearestDefault? c sel) := by
  have hc := (Store.linked_iff.mpr ⟨ts, hts⟩ : s.Linked c).hasClass
  rcases T.slot_undeclared hrules c hc hnone j x ((Store.slot_of_tables hts).trans hx) hsel with
    hfound | ⟨hfound, hmiranda⟩
  · obtain ⟨habstract, -⟩ := Store.isDefault_iff.mp (T.isDefault_of_nearestDefault? hc hfound)
    rw [hfound, selectVirtual_of_methodAt hx, habstract]
    rfl
  · rw [hfound, selectVirtual_of_methodAt hx, hmiranda, hsel]
    rfl

/-- Interface calls run the default of the class. -/
theorem Traced.selectInterface_undeclared (T : Traced P root s) (hrules : s.Regular)
    (hts : (s.getClass c).tables = some ts) (hint : (s.getClass c).isInterface = false)
    (hi : i ∈ (s.getClass c).allInterfaces) (hm : m ∈ (s.getClass i).methods)
    (hk : s.interfaceIndex? m = some k) (hnone : s.Undeclared c (s.selector m)) :
    s.selectInterface c i ts.itable k =
      s.outcomeOf c (s.selector m) (s.inheritedDefault? c (s.selector m)) := by
  have hc : s.Linked c := Store.linked_iff.mpr ⟨ts, hts⟩
  have hnumbered := T.numbered_of_mem hc hi
  obtain ⟨m', hm', hk', hentry⟩ := (T.binds hts hint).entry_of_index i hi m hm k hk
  obtain rfl := hnumbered.unique m' hm' m hm k hk' hk
  simp only [Store.selectInterface, hentry, Store.entryFor, hnone.implementation?]
  cases hfound : s.inheritedDefault? c (s.selector m') with
  | none =>
    simp only [Option.filter_none, Store.entryOf, hnumbered.interfaceMethodAt? hm hk]
    rfl
  | some d =>
    have hd := (Store.findAmong?_some hfound).1
    have hpublic := (T.isOpen_of_default hrules hc.hasClass hd).1
    obtain ⟨habstract, hstatic, -⟩ :=
      Store.isDefault_iff.mp ((T.inheritsDefaults c hc.hasClass).isDefault d hd).1
    simp only [Option.filter_some, habstract, hstatic, Store.entryOf, hpublic, Bool.not_false,
      Bool.not_true, Bool.false_eq_true, if_true, if_false]
    rfl

/-- **The two tables agree on a method that interfaces alone decide, unless a default was lost.**
In every state that defining and linking lead to, let an interface of a linked class number a method
whose selector no class of the superclass chain declares.  Then the virtual table has a slot for it,
and a virtual call through the slot and the interface call end alike exactly if the class has a
default of the selector or no class of the chain has one. -/
theorem calls_agree_iff (hr : Reachable (Builds fun _ => True) l) (hrules : l.store.Regular)
    (hts : (l.store.getClass c).tables = some ts)
    (hint : (l.store.getClass c).isInterface = false)
    (hi : i ∈ (l.store.getClass c).allInterfaces) (hm : m ∈ (l.store.getClass i).methods)
    (hk : l.store.interfaceIndex? m = some k)
    (hnone : l.store.Undeclared c (l.store.selector m)) :
    ∃ j, l.store.mirandaSlot? ts.vtable (l.store.selector m) = some j ∧
      (SameOutcome (l.store.selectVirtual c ts.vtable j)
          (l.store.selectInterface c i ts.itable k) ↔
        (∃ d ∈ (l.store.getClass c).defaults, l.store.selector d = l.store.selector m) ∨
          ∀ a ∈ l.store.lineage c, ∀ d ∈ (l.store.getClass a).defaults,
            l.store.selector d ≠ l.store.selector m) := by
  have T := hr.constructed.traced
  have hc : l.store.Linked c := Store.linked_iff.mpr ⟨ts, hts⟩
  have hinst := Store.isInstance_of_bound ((T.numbered_of_mem hc hi).bound m hm k hk)
  obtain ⟨j₀, x, hx, hxsel, -⟩ := T.exists_slot_open hrules c hc.hasClass hc hint
    (fun a ha => hnone.declaresInstance ha) ⟨i, hi, m, hm, rfl, hinst⟩
  have hwanted : (l.store.getMethod x).modifiers.isMiranda = true ∨
      ((l.store.holder? x).any fun h => (l.store.getClass h).isInterface) = true := by
    rcases T.slot_undeclared hrules c hc.hasClass hnone j₀ x hx hxsel with hfound | ⟨-, hmiranda⟩
    · exact Or.inr (Store.isDefault_iff.mp (T.isDefault_of_nearestDefault? hc.hasClass hfound)).2.2
    · exact Or.inl (by rw [hmiranda]; rfl)
  rw [Store.slot_of_tables hts] at hx
  obtain ⟨j, y, hj, hy, hysel⟩ := Store.exists_mirandaSlot? hx hxsel hwanted
  refine ⟨j, hj, ?_⟩
  rw [T.selectVirtual_undeclared hrules hts hnone hy hysel,
    T.selectInterface_undeclared hrules hts hint hi hm hk hnone,
    Store.sameOutcome_outcomeOf_iff, Store.nearestDefault?_eq_inheritedDefault?_iff]

/-- A class inherits a default, and a subclass adds an interface that declares the method again
without a body. -/
def reabstractedRun : List Command :=
  let method (word : UInt32) : Declaration := { selector := ⟨"m", "()V"⟩, word, code := [1] }
  [.define { name := "Object" },
   .define { name := "I", flags := { isInterface := true }, methods := [method 0x1] },
   .define { name := "A", superclass := some ⟨0⟩, interfaces := [⟨1⟩] },
   .define { name := "J", flags := { isInterface := true }, interfaces := [⟨1⟩],
             methods := [method 0x401] },
   .define { name := "B", superclass := some ⟨2⟩, interfaces := [⟨3⟩] },
   .link ⟨4⟩]

/-- A virtual call on the subclass does not end as the interface call does. -/
theorem reabstractedRun_disagrees :
    let s := (finish { config := .minimal } reabstractedRun).store
    ∃ ts j, (s.getClass ⟨4⟩).tables = some ts ∧
      s.mirandaSlot? ts.vtable ⟨"m", "()V"⟩ = some j ∧
        ¬ SameOutcome (s.selectVirtual ⟨4⟩ ts.vtable j)
          (s.selectInterface ⟨4⟩ ⟨1⟩ ts.itable 0) := by
  intro s
  have hstart : Reachable (Builds fun _ => True) { config := .minimal } := .start ⟨rfl, rfl⟩ trivial
  have hr : Reachable (Builds fun _ => True) (finish { config := .minimal } reabstractedRun) :=
    hstart.finish (by decide +kernel)
  let ts := (s.getClass ⟨4⟩).tables.get (by decide +kernel)
  have hts : (s.getClass ⟨4⟩).tables = some ts := (Option.some_get _).symm
  have hsel : s.selector ⟨0⟩ = ⟨"m", "()V"⟩ := by decide +kernel
  obtain ⟨j, hj, hagree⟩ := calls_agree_iff (i := ⟨1⟩) (m := ⟨0⟩) (k := 0) hr
    (by decide +kernel) hts (by decide +kernel) (by decide +kernel) (by decide +kernel)
    (by decide +kernel) (by decide +kernel)
  exact ⟨ts, j, hts, hsel ▸ hj, fun hsame => absurd (hagree.mp hsame) (by decide +kernel)⟩

end Linker
end ClassLinking
