import ClassLinking.Proofs.Currency
import ClassLinking.Proofs.InterfaceCalls

/-!
# The slots of interface methods

A call of an interface method through a class finds its method in the virtual table of the class,
too: somewhere in the chain the selector has got a slot.

* If no class of the chain declares an instance method of the selector, then the first class that
  meets the interface has a default or a placeholder for it (`Traced.exists_slot_open`).
* If a class declares one, this method has a slot of its own or one that it has taken over, unless
  it is final or its class is (`Traced.exists_slot_declared`).  A final class cannot be extended, so
  whatever it declares is bound statically and takes a slot over or has none.

`interface_slots` puts the cases together.  The final modifier of a method does not decide alone: a
final class that implements an interface need not have slots for it (`finalClass_lacks_slot`).

Placeholders are made by the first class that meets the method and by no other.  So all placeholders
of a chain have different selectors (`Traced.nodup_chain_mirandas`).
-/

namespace ClassLinking

namespace Store

variable {s : Store} {root : Option ClassId} {a c : ClassId} {m : MethodId} {sel : Selector}

/-- What is met further up is met further down. -/
theorem Meets.of_mem_lineage (h : s.Meets a sel) (w : s.WellFormed root) (hc : s.HasClass c)
    (ha : a ∈ s.lineage c) : s.Meets c sel := by
  obtain ⟨i, hi, hm⟩ := h
  exact ⟨i, w.allInterfaces_of_mem_lineage c hc a ha i hi, hm⟩

/-- A class meets its pending mirandas. -/
theorem meets_of_pending (w : s.WellFormed root) (hc : s.HasClass c)
    (hm : m ∈ s.pendingMirandas c) : s.Meets c (s.selector m) := by
  obtain ⟨i, hi, hmi⟩ := Linker.hasMethod_of_mem_pendingMirandas w hc hm
  have hnew := (isNewMiranda_of_pending hm).2
  simp only [isNewMiranda, isMiranda, Bool.and_eq_true] at hnew
  exact ⟨i, hi, m, hmi, rfl, hnew.1.1.1.1.1⟩

/-- The superclass does not meet what is pending in a class. -/
theorem Regular.not_meets_of_pending (h : s.Regular) (w : s.WellFormed root) (hc : s.HasClass c)
    (hm : m ∈ s.pendingMirandas c) {p : ClassId} (hp : (s.getClass c).superclass? = some p) :
    ¬ s.Meets p (s.selector m) := by
  rw [← h.lookupInInterfaces?_isSome_iff w (w.hasClass_superclass hc hp),
    lookupInInterfaces?_of_pending hm hp]
  exact Bool.false_ne_true

/-- **A selector is pending in one class of a chain at most.**  The induction is along the chain:
what is pending in a class its superclass does not meet, and so no class above does. -/
theorem Regular.nodup_chain_pending (h : s.Regular) (w : s.WellFormed root) :
    ∀ c, s.HasClass c → (((s.lineage c).flatMap s.pendingMirandas).map s.selector).Nodup := by
  refine w.superclass_induction fun c hc ih => ?_
  cases hp : (s.getClass c).superclass? with
  | none =>
    rw [lineage, WellFormed.ancestors_of_top hp, List.flatMap_singleton]
    exact s.nodup_pendingMirandas c
  | some p =>
    have hpc := w.hasClass_superclass hc hp
    rw [w.lineage_of_superclass hc hp, List.flatMap_cons, List.map_append, List.nodup_append]
    refine ⟨s.nodup_pendingMirandas c, ih p hp, fun sel hsel sel' hsel' heq => ?_⟩
    obtain ⟨m, hm, rfl⟩ := List.mem_map.mp hsel
    obtain ⟨x, hx, rfl⟩ := List.mem_map.mp hsel'
    obtain ⟨a, ha, hxa⟩ := List.mem_flatMap.mp hx
    have hmeets := meets_of_pending w (w.hasClass_of_mem_lineage hpc ha) hxa
    rw [← heq] at hmeets
    exact h.not_meets_of_pending w hc hm hp (hmeets.of_mem_lineage w hpc ha)

end Store

namespace Linker

variable {P : Config → Prop} {l : Linker} {s : Store} {root : Option ClassId} {c : ClassId}
  {sel : Selector}

/-- The placeholders of a class stand for what is pending in it. -/
theorem Traced.mirandas_selectors (T : Traced P root s) (hc : s.Linked c) :
    (s.getClass c).mirandas.map s.selector = (s.pendingMirandas c).map s.selector := by
  obtain ⟨l, -, o⟩ := T.origins c hc
  obtain ⟨size, layout, itable, f, hlaid⟩ := o.built
  obtain ⟨root', w⟩ := o.wellFormed
  have hmirandas : (s.getClass c).mirandas = layout.mirandas := by
    simp only [Class.mirandas, hlaid.tables]
  have hall : List.Forall₂ (IsPlaceholder l.store s) (l.store.pendingMirandas c)
      layout.mirandas := hlaid.built.placeholders
  rw [hmirandas, o.grows.pendingMirandas w o.ready.hasClass]
  refine List.ext_getElem (by simp [hall.length_eq]) fun i hi hi' => ?_
  simp only [List.length_map] at hi hi'
  simpa using (hall.get hi' hi).selector

/-- **All placeholders of a chain have different selectors.** -/
theorem Traced.nodup_chain_mirandas (T : Traced P root s) (hrules : s.Regular) (hc : s.Linked c) :
    (((s.lineage c).flatMap fun a => (s.getClass a).mirandas).map s.selector).Nodup := by
  have hsame : ((s.lineage c).flatMap fun a => (s.getClass a).mirandas).map s.selector =
      ((s.lineage c).flatMap s.pendingMirandas).map s.selector := by
    rw [List.map_flatMap, List.map_flatMap]
    exact List.flatMap_congr fun a ha => T.mirandas_selectors
      (T.linkedUp.lineage T.wellFormed c hc.hasClass hc a ha)
  rw [hsame]
  exact hrules.nodup_chain_pending T.wellFormed c hc.hasClass

/-- **What a class meets has a slot**, unless a class of the chain declares it and binds it
statically because the method or the class is final. -/
theorem Traced.exists_slot_of_meets (T : Traced P root s) (hrules : s.Regular) (hc : s.Linked c)
    (hint : (s.getClass c).isInterface = false) (hinit : sel.isInitializer = false)
    (hmeets : s.Meets c sel) :
    (∃ a ∈ s.lineage c, ∃ x ∈ (s.getClass a).methods, s.selector x = sel ∧
      (s.getMethod x).isInstance = true ∧
        ((s.getMethod x).modifiers.isFinal = true ∨ (s.getClass a).flags.isFinal = true)) ∨
    ∃ j x, s.slot c j = some x ∧ s.selector x = sel := by
  have w := T.wellFormed
  by_cases hdeclared : ∃ a ∈ s.lineage c, ∃ x ∈ (s.getClass a).methods, s.selector x = sel ∧
      (s.getMethod x).isInstance = true
  · obtain ⟨a, ha, x, hx, hsel, hinst⟩ := hdeclared
    cases hfinal : s.isFinalMethod x (s.getClass a).flags with
    | true =>
      simp only [Store.isFinalMethod, Bool.and_eq_true, Bool.or_eq_true] at hfinal
      exact Or.inl ⟨a, ha, x, hx, hsel, hinst, hfinal.2⟩
    | false =>
      have hbound : (s.getMethod x).isBoundStatically = false := by
        obtain ⟨hstatic, hprivate⟩ := Method.isInstance_iff.mp hinst
        have hselector : (s.getMethod x).selector = sel := hsel
        simp [Method.isBoundStatically, hstatic, hprivate, hselector, hinit]
      have halinked := T.linkedUp.lineage w c hc.hasClass hc a ha
      obtain ⟨j, hj⟩ := T.exists_slot_declared hrules.distinct halinked
        (w.isInterface_of_mem_lineage hc.hasClass hint ha) hx hbound hfinal
      -- The selector of the slot is the same all the way down to `c`.
      have hdown := T.selector_slot c hc.hasClass hc a ha j (Store.lt_of_slot hj)
      rw [hj, Option.map_some, hsel] at hdown
      obtain ⟨y, hy, hysel⟩ := Option.map_eq_some_iff.mp hdown
      exact Or.inr ⟨j, y, hy, hysel⟩
  · have hchain : ∀ a ∈ s.lineage c, s.declaresInstance sel a = false := fun a ha => by
      rw [Bool.eq_false_iff, ne_eq, Store.declaresInstance_iff]
      exact fun h => hdeclared ⟨a, ha, h⟩
    obtain ⟨j, x, hx, hsel, -⟩ :=
      T.exists_slot_open hrules c hc.hasClass hc hint hchain hmeets
    exact Or.inr ⟨j, x, hx, hsel⟩

/-- **Interface methods have slots.**  In every state that defining and linking lead to, a linked
class has a slot for each public instance method of its interfaces, unless a class of its chain
declares an instance method of the selector that is final or whose class is final.  The placeholders
of a chain, all taken together, have each selector once. -/
theorem interface_slots (hr : Reachable (Builds fun _ => True) l) (hrules : l.store.Regular) :
    ∀ c, l.store.Linked c → (l.store.getClass c).isInterface = false →
      (∀ i ∈ (l.store.getClass c).allInterfaces, ∀ m ∈ (l.store.getClass i).methods,
        (l.store.getMethod m).access.isPublic = true →
        (l.store.getMethod m).modifiers.isStatic = false →
        (l.store.selector m).isInitializer = false →
          (∃ a ∈ l.store.lineage c, ∃ x ∈ (l.store.getClass a).methods,
            l.store.selector x = l.store.selector m ∧ (l.store.getMethod x).isInstance = true ∧
            ((l.store.getMethod x).modifiers.isFinal = true ∨
              (l.store.getClass a).flags.isFinal = true)) ∨
          ∃ j x, l.store.slot c j = some x ∧ l.store.selector x = l.store.selector m) ∧
      (((l.store.lineage c).flatMap fun a => (l.store.getClass a).mirandas).map
        l.store.selector).Nodup := by
  have T := hr.constructed.traced
  intro c hc hint
  refine ⟨fun i hi m hm hpublic hstatic hinit => ?_, T.nodup_chain_mirandas hrules hc⟩
  have hinterface := (T.wellFormed.allInterfaces_spec c hc.hasClass i hi).2
  have hprivate : (l.store.getMethod m).access.isPrivate = false := by
    simpa [hpublic] using (hrules.interface i hinterface m hm).1
  exact T.exists_slot_of_meets hrules hc hint hinit
    ⟨i, hi, m, hm, rfl, Method.isInstance_iff.mpr ⟨hstatic, hprivate⟩⟩

/-- Two interfaces declare one method; a class implements the first of them without declaring the
method, and its subclass the second. -/
def sharedMethodRun : List Command :=
  [.define { name := "Object" },
   .define { name := "I", flags := .makeInterface {},
             methods := [(publicMethod "m" []).makeAbstract] },
   .define { name := "J", flags := .makeInterface {},
             methods := [(publicMethod "m" []).makeAbstract] },
   .define { name := "A", superclass := some ⟨0⟩, interfaces := [⟨1⟩] },
   .define { name := "B", superclass := some ⟨3⟩, interfaces := [⟨2⟩] },
   .link ⟨4⟩]

/-- The second interface's method has a slot in the subclass, and there is one placeholder. -/
theorem sharedMethodRun_slot :
    (∃ j x, (finish { config := .minimal } sharedMethodRun).store.slot ⟨4⟩ j = some x ∧
      (finish { config := .minimal } sharedMethodRun).store.selector x =
        (finish { config := .minimal } sharedMethodRun).store.selector ⟨1⟩) ∧
    (((finish { config := .minimal } sharedMethodRun).store.lineage ⟨4⟩).flatMap fun a =>
      ((finish { config := .minimal } sharedMethodRun).store.getClass a).mirandas).length = 1 :=
  have hstart : Reachable (Builds fun _ => True) { config := .minimal } := .start ⟨rfl, rfl⟩ trivial
  have hrun := hstart.finish (show Admits _ _ sharedMethodRun by decide +kernel)
  have hslots := interface_slots hrun (by decide +kernel) ⟨4⟩ (by decide +kernel)
    (by decide +kernel)
  ⟨(hslots.1 ⟨2⟩ (by decide +kernel) ⟨1⟩ (by decide +kernel) (by decide +kernel)
    (by decide +kernel) (by decide +kernel)).resolve_left (by decide +kernel), by decide +kernel⟩

/-- A final class implements an interface method that nothing above it has. -/
def finalClassRun : List Command :=
  [.define { name := "Object" },
   .define { name := "I", flags := .makeInterface {},
             methods := [(publicMethod "m" []).makeAbstract] },
   .define { name := "C", flags := .makeFinal {}, superclass := some ⟨0⟩, interfaces := [⟨1⟩],
             methods := [publicMethod "m" [1]] },
   .link ⟨2⟩]

/-- The final modifier is not all that keeps a method from getting a slot: the method of the final
class has neither. -/
theorem finalClass_lacks_slot :
    ¬ ∀ l : Linker, Reachable (Builds fun _ => True) l → l.store.Regular → l.store.SingleAccess →
      ∀ c, l.store.Linked c → (l.store.getClass c).isInterface = false →
        ∀ i ∈ (l.store.getClass c).allInterfaces, ∀ m ∈ (l.store.getClass i).methods,
          (l.store.getMethod m).access.isPublic = true →
          (l.store.getMethod m).modifiers.isStatic = false →
          (l.store.selector m).isInitializer = false →
            (∃ a ∈ l.store.lineage c, ∃ x ∈ (l.store.getClass a).methods,
              l.store.selector x = l.store.selector m ∧ (l.store.getMethod x).isInstance = true ∧
              (l.store.getMethod x).modifiers.isFinal = true) ∨
            ∃ j x, l.store.slot c j = some x ∧ l.store.selector x = l.store.selector m := by
  intro hall
  have hstart : Reachable (Builds fun _ => True) { config := .minimal } := .start ⟨rfl, rfl⟩ trivial
  have hempty : ((finish { config := .minimal } finalClassRun).store.getClass
      ⟨2⟩).vtableLength = 0 := by decide +kernel
  have hrun := hstart.finish (show Admits _ _ finalClassRun by decide +kernel)
  rcases hall _ hrun (by decide +kernel) (by decide +kernel) ⟨2⟩ (by decide +kernel)
    (by decide +kernel) ⟨1⟩ (by decide +kernel) ⟨0⟩ (by decide +kernel) (by decide +kernel)
    (by decide +kernel) (by decide +kernel) with hfinal | ⟨j, x, hslot, -⟩
  · exact absurd hfinal (by decide +kernel)
  · have hlt := Store.lt_of_slot hslot
    rw [hempty] at hlt
    exact absurd hlt (Nat.not_lt_zero j)

end Linker
end ClassLinking
