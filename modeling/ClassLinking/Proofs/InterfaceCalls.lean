import ClassLinking.Proofs.Sizing

/-!
# What interface calls run

An entry of an interface table is found by searching declarations: the superclass chain first,
whatever is static passed by, and then the defaults of the class.  The virtual table knows nothing
of this search.  It was filled slot by slot, one class of the chain after the other.

`bound_entry_selected` says that the two meet.  What an entry is bound to stands in the virtual
table of the same class, in the slot that its dispatch index names or in the one that is listed for
it as a default, unless it is final and has no index.  The search passes static methods by because
they take no slot over, and a default never stands below a declaration of its selector, so no class
between the method and the receiver can have moved the slot (`Traced.slot_of_passed`).
-/

namespace ClassLinking

/-- No declared method has two access levels at once. -/
def Store.SingleAccess (s : Store) : Prop :=
  ∀ c, ∀ m ∈ (s.getClass c).methods, (s.getMethod m).access.isSingle = true

instance (s : Store) : Decidable s.SingleAccess :=
  decidable_of_iff _ (s.forall_getClass_iff
    (Q := fun k => ∀ m ∈ k.methods, (s.getMethod m).access.isSingle = true)
    (List.forall_mem_nil _)).symm

namespace Linker

variable {P : Config → Prop} {l : Linker} {s : Store} {root : Option ClassId} {c d i : ClassId}
  {ts : Tables} {m x : MethodId} {j k : Nat} {before after : List ClassId}

/-- What a virtual call through a filled slot ends with. -/
theorem selectVirtual_of_methodAt {t : VTable} (hm : t.methodAt j = some m) :
    s.selectVirtual c t j = if (s.getMethod m).modifiers.isAbstract then
      .error (.abstractMethod (s.getClass c).name (s.selector m).text) else .ok m := by
  have hj := VTable.lt_of_methodAt hm
  simp only [Store.selectVirtual, if_neg (Nat.not_le.mpr hj), hm]

/-- A slot keeps its method as far down as static methods only redeclare it. -/
theorem Traced.slot_of_passed (T : Traced P root s) (hc : s.Linked c)
    (hsplit : s.lineage c = before ++ d :: after) (hm : m ∈ (s.getClass d).methods)
    (hinst : (s.getMethod m).isInstance = true) (hslot : s.slot d j = some m)
    (hpassed : ∀ b ∈ before, ∀ x ∈ (s.getClass b).methods, s.selector x = s.selector m →
      (s.getMethod x).modifiers.isStatic = true) : s.slot c j = some m := by
  have w := T.wellFormed
  obtain ⟨x, hx, hsel, rfl | ⟨b, hb, hd, hdisp⟩⟩ :=
    T.slot_below hslot c hc.hasClass hc before after hsplit
  · exact hx
  · have hbc := w.hasClass_of_mem_lineage hc.hasClass (hsplit ▸ List.mem_append_left _ hb)
    rcases hdisp.mem with hxb | hxb
    · have hstatic := hpassed b hb x hxb hsel
      have hxinst := Store.isInstance_of_bound hdisp.bound
      rw [(Method.isInstance_iff.mp hxinst).1] at hstatic
      cases hstatic
    · exact absurd hsel.symm (T.selector_default_ne hbc hxb
        (Store.WellFormed.mem_lineage_of_mem_ancestors hd) hm hinst)

/-- What an entry is bound to is public, has a body and is what an interface call for an interface
method runs that is not bound statically. -/
theorem Traced.implementation_of_bound (T : Traced P root s)
    (hts : (s.getClass c).tables = some ts) (hint : (s.getClass c).isInterface = false)
    (hi : i ∈ (s.getClass c).allInterfaces) (hentry : ts.itable.entry? i k = some (.bound m)) :
    ∃ x ∈ (s.getClass i).methods, (s.getMethod x).isBoundStatically = false ∧
      s.implementation? c (s.selector x) = some m ∧ (s.getMethod m).access.isPublic = true ∧
        (s.getMethod m).modifiers.isAbstract = false := by
  have hc : s.Linked c := Store.linked_iff.mpr ⟨ts, hts⟩
  obtain ⟨x, hx, hindex, hbound⟩ := (T.binds hts hint).index_of_bound i hi k m hentry
  exact ⟨x, hx, (T.numbered_of_mem hc hi).bound x hx k hindex, Store.entryOf_eq_bound hbound⟩

/-- A declared method that an interface call runs stands in the slot that its dispatch index names,
in the table of the receiver too. -/
theorem Traced.dispatch_of_passed (T : Traced P root s) (hdistinct : s.Distinct) (hc : s.Linked c)
    (hint : (s.getClass c).isInterface = false) (hsplit : s.lineage c = before ++ d :: after)
    (hm : m ∈ (s.getClass d).methods) (hbound : (s.getMethod m).isBoundStatically = false)
    (hpassed : ∀ b ∈ before, ∀ x, s.declared? b (s.selector m) .all = some x →
      (s.getMethod x).modifiers.isStatic = true) :
    (∃ j, (s.getMethod m).dispatch = .virtual j ∧ s.slot c j = some m) ∨
      (s.getMethod m).dispatch = .nonVirtual ∧ s.isFinalMethod m (s.getClass d).flags = true := by
  have w := T.wellFormed
  have hdc : d ∈ s.lineage c := hsplit ▸ List.mem_append_right _ List.mem_cons_self
  have hdlinked := T.linkedUp.lineage w c hc.hasClass hc d hdc
  have hdint := w.isInterface_of_mem_lineage hc.hasClass hint hdc
  refine (T.dispatch_declared hdistinct hdlinked hdint hm hbound).imp_left
    fun ⟨j, hj, hslot⟩ => ⟨j, hj, ?_⟩
  refine T.slot_of_passed hc hsplit hm (Store.isInstance_of_bound hbound) hslot
    fun b hb x hx hsel => hpassed b hb x ?_
  rw [← hsel]
  exact hdistinct.declared?_eq hx (LookupFilter.accepts_all _)

/-- **A bound interface entry is what virtual dispatch runs.**  In every state that defining and
linking lead to, the method that an entry in the interface table of a class is bound to is either
declared by a class of the superclass chain or a default of the class.  A declared one stands in the
slot of the class's virtual table that its dispatch index names, and a call through the slot runs
it; or it is final and has no slot.  A default stands in the slot that is listed for it. -/
theorem bound_entry_selected (hr : Reachable (Builds fun _ => True) l)
    (hdistinct : l.store.Distinct) (haccess : l.store.SingleAccess)
    (hts : (l.store.getClass c).tables = some ts)
    (hint : (l.store.getClass c).isInterface = false)
    (hi : i ∈ (l.store.getClass c).allInterfaces)
    (hentry : ts.itable.entry? i k = some (.bound m)) :
    (∃ d, (l.store.getMethod m).holder = some d ∧ (l.store.getClass d).isInterface = false ∧
      d ∈ l.store.lineage c ∧ m ∈ (l.store.getClass d).methods ∧
      ((∃ j, (l.store.getMethod m).dispatch = .virtual j ∧ ts.vtable.methodAt j = some m ∧
          l.store.selectVirtual c ts.vtable j = .ok m) ∨
        (l.store.getMethod m).dispatch = .nonVirtual ∧
          ((l.store.getMethod m).modifiers.isFinal = true ∨
            (l.store.getClass d).flags.isFinal = true))) ∨
    ∃ d, (l.store.getMethod m).holder = some d ∧ (l.store.getClass d).isInterface = true ∧
      d ∈ (l.store.getClass c).allInterfaces ∧
      ∃ p slot : Nat, (l.store.getClass c).defaults[p]? = some m ∧ ts.defaultSlots[p]? = some slot ∧
        ts.vtable.methodAt slot = some m := by
  have T := hr.constructed.traced
  have w := T.wellFormed
  have hc : l.store.Linked c := Store.linked_iff.mpr ⟨ts, hts⟩
  have f := w.fits c hc.hasClass
  obtain ⟨x, hx, hxbound, hfound, hpublic, habstract⟩ :=
    T.implementation_of_bound hts hint hi hentry
  obtain ⟨hsel, hstatic, ⟨before, d, after, hsplit, hm, hpassed⟩ | hm⟩ :=
    Store.implementation?_some hfound
  · -- Being public, the method is not private, so its kind is that of the interface method.
    have hdc : d ∈ l.store.lineage c := hsplit ▸ List.mem_append_right _ List.mem_cons_self
    have hsingle := haccess d m hm
    simp only [Access.isSingle, hpublic, Bool.true_and, Bool.not_eq_true',
      Bool.or_eq_false_iff] at hsingle
    have hinst : (l.store.getMethod m).isInstance = true :=
      Method.isInstance_iff.mpr ⟨hstatic, hsingle.1.1⟩
    have hbound := Store.bound_of_selector hxbound hsel hinst
    refine Or.inl ⟨d, ((w.fits d (w.hasClass_of_mem_lineage hc.hasClass hdc)).methods m hm).2,
      w.isInterface_of_mem_lineage hc.hasClass hint hdc, hdc, hm, ?_⟩
    refine (T.dispatch_of_passed hdistinct hc hint hsplit hm hbound (hsel ▸ hpassed)).imp
      (fun hslot => ?_) (fun hfinal => ⟨hfinal.1, ?_⟩)
    · obtain ⟨j, hj, hslot⟩ := hslot
      rw [Store.slot_of_tables hts] at hslot
      exact ⟨j, hj, hslot, by rw [selectVirtual_of_methodAt hslot, habstract]; rfl⟩
    · simp only [Store.isFinalMethod, Bool.and_eq_true, Bool.or_eq_true] at hfinal
      exact hfinal.2.2
  · obtain ⟨-, d, hd, hholder⟩ := f.defaults m hm
    obtain ⟨p, hp⟩ := List.getElem?_of_mem hm
    have hslots := T.slot_defaultSlots hts
    obtain ⟨hlt, rfl⟩ := List.getElem?_eq_some_iff.mp hp
    have hlt' : p < ts.defaultSlots.length := hslots.length_eq ▸ hlt
    refine Or.inr ⟨d, hholder, (w.allInterfaces_spec c hc.hasClass d hd).2, hd, p,
      ts.defaultSlots[p], hp, List.getElem?_eq_getElem hlt', ?_⟩
    rw [← Store.slot_of_tables hts]
    exact hslots.get hlt hlt'

/-- A class inherits the implementation of an interface method past a static method of its
selector. -/
def passedRun : List Command :=
  let method (word : UInt32) : Declaration := { selector := ⟨"m", "()V"⟩, word, code := [1] }
  [.define { name := "Object" },
   .define { name := "I", flags := { isInterface := true }, methods := [method 0x401] },
   .define { name := "A", superclass := some ⟨0⟩, methods := [method 0x1] },
   .define { name := "B", superclass := some ⟨2⟩, methods := [method 0x9] },
   .define { name := "C", superclass := some ⟨3⟩, interfaces := [⟨1⟩] },
   .link ⟨4⟩]

/-- A virtual call on the class runs what the entry of the interface method is bound to. -/
theorem passedRun_selects :
    let s := (finish { config := .minimal } passedRun).store
    ∃ ts j, (s.getClass ⟨4⟩).tables = some ts ∧ ts.itable.entry? ⟨1⟩ 0 = some (.bound ⟨1⟩) ∧
      s.selectVirtual ⟨4⟩ ts.vtable j = .ok ⟨1⟩ := by
  intro s
  have hstart : Reachable (Builds fun _ => True) { config := .minimal } := .start ⟨rfl, rfl⟩ trivial
  have hr : Reachable (Builds fun _ => True) (finish { config := .minimal } passedRun) :=
    hstart.finish (by decide +kernel)
  let ts := (s.getClass ⟨4⟩).tables.get (by decide +kernel)
  have hts : (s.getClass ⟨4⟩).tables = some ts := (Option.some_get _).symm
  have hentry : ts.itable.entry? ⟨1⟩ 0 = some (.bound ⟨1⟩) := by decide +kernel
  refine ⟨ts, ?_⟩
  rcases bound_entry_selected hr (by decide +kernel) (by decide +kernel) hts (by decide +kernel)
    (by decide +kernel) hentry with
    ⟨d, -, -, -, -, ⟨j, -, -, hj⟩ | ⟨hnone, -⟩⟩ | ⟨d, hd, hint, -⟩
  · exact ⟨j, hts, hentry, hj⟩
  · exact absurd hnone (by decide +kernel)
  · have hholder : (s.getMethod ⟨1⟩).holder = some ⟨2⟩ := by decide +kernel
    rw [hholder, Option.some.injEq] at hd
    exact absurd (hd ▸ hint) (by decide +kernel)

end Linker
end ClassLinking
