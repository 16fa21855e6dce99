import ClassLinking.Proofs.Agreement
import ClassLinking.Proofs.InterfaceSelection

/-!
# Defaults that superclasses hide

A class selects its defaults when it is defined, and a private method of a superclass does not
count there: it is inherited by nobody, so it decides nothing.  The virtual table sees it the same
way and gives the default a slot.

An interface call searches the superclass chain for an implementation before it falls back to the
defaults, and the search passes static methods by, but not private ones.  It stops at a private
method that has the selector of the default by accident, finds that it is not public, and refuses
the call.  `default_selected_iff` says that this is the only way in which a default that a class
inherits is not what interface calls on it run.
-/

namespace ClassLinking

namespace Store

variable {s : Store} {c : ClassId} {sel : Selector} {d m x : MethodId}

/-- The method of a superclass that an interface call on a receiver of `c` stops at, if the class
itself declares none of the selector that it would stop at. -/
def hiddenBy? (s : Store) (c : ClassId) (sel : Selector) : Option MethodId :=
  (s.getClass c).ancestors.findSome? fun a =>
    (s.declared? a sel .all).filter fun m => !(s.getMethod m).modifiers.isStatic

theorem hiddenBy?_some (h : s.hiddenBy? c sel = some x) :
    (∃ a ∈ (s.getClass c).ancestors, x ∈ (s.getClass a).methods) ∧ s.selector x = sel ∧
      (s.getMethod x).modifiers.isStatic = false := by
  obtain ⟨a, ha, hfound⟩ := List.exists_of_findSome?_eq_some h
  obtain ⟨hdeclared, hstatic⟩ := Option.filter_eq_some_iff.mp hfound
  obtain ⟨hx, hsel, -⟩ := findAmong?_some hdeclared
  exact ⟨⟨a, ha, hx⟩, hsel, by simpa using hstatic⟩

/-- If no class declares a selector twice, the search stops nowhere exactly if all declarations of
the superclasses are static. -/
theorem hiddenBy?_eq_none_iff (h : s.Distinct) : s.hiddenBy? c sel = none ↔
    ∀ a ∈ (s.getClass c).ancestors, ∀ x ∈ (s.getClass a).methods, s.selector x = sel →
      (s.getMethod x).modifiers.isStatic = true := by
  rw [hiddenBy?, List.findSome?_eq_none_iff]
  refine forall₂_congr fun a _ => ⟨fun hnone x hx hsel => ?_, fun hall => ?_⟩
  · rw [← hsel, h.declared?_eq hx (LookupFilter.accepts_all _)] at hnone
    simpa using Option.filter_eq_none_iff.mp hnone x rfl
  · refine Option.filter_eq_none_iff.mpr fun x hx => ?_
    obtain ⟨hxa, hsel, -⟩ := findAmong?_some hx
    simp [hall x hxa hsel]

/-- A class declares nothing but static methods of a selector that a default was selected for. -/
theorem Selected.isStatic (h : s.Selected c) (hd : d ∈ (s.getClass c).defaults)
    (hm : m ∈ (s.getClass c).methods) (hsel : s.selector m = s.selector d) :
    (s.getMethod m).modifiers.isStatic = true := by
  have hundecided := h.undecided d hd
  rw [isDecidedByClasses, Bool.or_eq_false_iff, Option.isSome_eq_false_iff] at hundecided
  simpa [LookupFilter.accepts, LookupFilter.nonStatic] using
    findAmong?_isNone_iff.mp hundecided.1 m hm hsel

end Store

namespace Linker

variable {P : Config → Prop} {l : Linker} {s : Store} {root : Option ClassId} {c i : ClassId}
  {ts : Tables} {d m x : MethodId} {k : Nat}

/-- An interface call for a default comes down to the method of a superclass that hides it, or else
to the default. -/
theorem Traced.implementation?_default (T : Traced P root s) (hc : s.HasClass c)
    (hd : d ∈ (s.getClass c).defaults) :
    s.implementation? c (s.selector d) = (s.hiddenBy? c (s.selector d)).or (some d) := by
  have hown : ((s.declared? c (s.selector d) .all).filter fun m =>
      !(s.getMethod m).modifiers.isStatic) = none := by
    refine Option.filter_eq_none_iff.mpr fun x hx => ?_
    obtain ⟨hxc, hsel, -⟩ := Store.findAmong?_some hx
    simp [(T.selected c hc).isStatic hd hxc hsel]
  have hinherits := T.inheritsDefaults c hc
  obtain ⟨-, hstatic, -⟩ := Store.isDefault_iff.mp (hinherits.isDefault d hd).1
  unfold Store.implementation?
  dsimp only
  rw [Store.lineage, List.findSome?_cons, hown, hinherits.inheritedDefault?_eq hd,
    Option.filter_some, hstatic]
  rfl

/-- A method that hides a default is private. -/
theorem Traced.isPrivate_of_hiddenBy? (T : Traced P root s) (hc : s.HasClass c)
    (hd : d ∈ (s.getClass c).defaults) (hx : s.hiddenBy? c (s.selector d) = some x) :
    (s.getMethod x).access.isPrivate = true := by
  obtain ⟨⟨a, ha, hxa⟩, hsel, hstatic⟩ := Store.hiddenBy?_some hx
  by_contra hprivate
  exact T.selector_default_ne hc hd (Store.WellFormed.mem_lineage_of_mem_ancestors ha) hxa
    (Method.isInstance_iff.mpr ⟨hstatic, Bool.eq_false_iff.mpr hprivate⟩) hsel

/-- What hides a default is another method. -/
theorem Traced.ne_of_hiddenBy? (T : Traced P root s) (hc : s.HasClass c)
    (hd : d ∈ (s.getClass c).defaults) (hx : s.hiddenBy? c (s.selector d) = some x) : x ≠ d := by
  rintro rfl
  have hinst := Store.isInstance_of_bound ((T.inheritsDefaults c hc).isDefault x hd).2
  have hprivate := T.isPrivate_of_hiddenBy? hc hd hx
  rw [(Method.isInstance_iff.mp hinst).2] at hprivate
  cases hprivate

/-- The entry of an interface method that the class has a default for. -/
theorem Traced.entry?_default (T : Traced P root s) (hts : (s.getClass c).tables = some ts)
    (hint : (s.getClass c).isInterface = false) (hd : d ∈ (s.getClass c).defaults)
    (hi : i ∈ (s.getClass c).allInterfaces) (hm : m ∈ (s.getClass i).methods)
    (hk : s.interfaceIndex? m = some k) (hsel : s.selector m = s.selector d) :
    ts.itable.entry? i k =
      some (s.entryOf ((s.hiddenBy? c (s.selector d)).or (some d))) := by
  have hc : s.Linked c := Store.linked_iff.mpr ⟨ts, hts⟩
  obtain ⟨m', hm', hk', hentry⟩ := (T.binds hts hint).entry_of_index i hi m hm k hk
  obtain rfl := (T.numbered_of_mem hc hi).unique m' hm' m hm k hk' hk
  rw [hentry, Store.entryFor, hsel, T.implementation?_default hc.hasClass hd]

/-- **A default is what interface calls run, unless a private method hides it.**  In every state
that defining and linking lead to, let an interface of a linked class number a method that the class
has a public default for.  The interface call runs the default exactly if no superclass declares a
private instance method of the selector.  Otherwise the call is refused because of the closest of
these methods. -/
theorem default_selected_iff (hr : Reachable (Builds fun _ => True) l)
    (hdistinct : l.store.Distinct) (hts : (l.store.getClass c).tables = some ts)
    (hint : (l.store.getClass c).isInterface = false) (hd : d ∈ (l.store.getClass c).defaults)
    (hpublic : (l.store.getMethod d).access.isPublic = true)
    (hi : i ∈ (l.store.getClass c).allInterfaces) (hm : m ∈ (l.store.getClass i).methods)
    (hk : l.store.interfaceIndex? m = some k) (hsel : l.store.selector m = l.store.selector d) :
    (l.store.selectInterface c i ts.itable k = .ok d ↔
      ∀ a ∈ (l.store.getClass c).ancestors, ∀ x ∈ (l.store.getClass a).methods,
        l.store.selector x = l.store.selector d → (l.store.getMethod x).access.isPrivate = true →
          (l.store.getMethod x).modifiers.isStatic = true) ∧
    ∀ x, l.store.hiddenBy? c (l.store.selector d) = some x →
      (l.store.getMethod x).access.isPublic = false →
        l.store.selectInterface c i ts.itable k =
          .error (.illegalAccess (l.store.getClass c).name (l.store.displayName x)) := by
  have T := hr.constructed.traced
  have hc : l.store.HasClass c := (Store.linked_iff.mpr ⟨ts, hts⟩ : l.store.Linked c).hasClass
  have hentry := T.entry?_default hts hint hd hi hm hk hsel
  obtain ⟨habstract, -⟩ := Store.isDefault_iff.mp ((T.inheritsDefaults c hc).isDefault d hd).1
  refine ⟨?_, fun x hx hhidden => ?_⟩
  · cases hx : l.store.hiddenBy? c (l.store.selector d) with
    | none =>
      rw [hx, Option.none_or] at hentry
      refine iff_of_true ?_ fun a ha x hxa hxsel _ =>
        (Store.hiddenBy?_eq_none_iff hdistinct).mp hx a ha x hxa hxsel
      simp [Store.selectInterface, hentry, Store.entryOf, hpublic, habstract]
    | some x =>
      rw [hx, Option.some_or] at hentry
      refine iff_of_false (fun hselected => ?_) fun hall => ?_
      · -- What is selected is what the entry is bound to, and that would be `x`.
        obtain ⟨ts', hts', hbound⟩ := Store.selects_iff.mp ⟨ts, hts, hselected⟩
        rw [hts, Option.some.injEq] at hts'
        subst hts'
        rw [hentry, Option.some.injEq] at hbound
        obtain ⟨heq, -⟩ := Store.entryOf_eq_bound hbound
        exact T.ne_of_hiddenBy? hc hd hx (Option.some.inj heq)
      · obtain ⟨⟨a, ha, hxa⟩, hxsel, hstatic⟩ := Store.hiddenBy?_some hx
        have hnot := hall a ha x hxa hxsel (T.isPrivate_of_hiddenBy? hc hd hx)
        rw [hstatic] at hnot
        cases hnot
  · rw [hx, Option.some_or] at hentry
    simp [Store.selectInterface, hentry, Store.entryOf, hhidden]

/-- A class inherits a default below a superclass with a private method of the selector. -/
def hiddenRun : List Command :=
  let method (word : UInt32) : Declaration := { selector := ⟨"m", "()V"⟩, word, code := [1] }
  [.define { name := "Object" },
   .define { name := "I", flags := { isInterface := true }, methods := [method 0x1] },
   .define { name := "A", superclass := some ⟨0⟩, methods := [method 0x2] },
   .define { name := "C", superclass := some ⟨2⟩, interfaces := [⟨1⟩] },
   .link ⟨3⟩]

/-- The class has the default, and the interface call does not run it. -/
theorem hiddenRun_refuses :
    let s := (finish { config := .minimal } hiddenRun).store
    ∃ ts, (s.getClass ⟨3⟩).tables = some ts ∧ (s.getClass ⟨3⟩).defaults = [⟨0⟩] ∧
      s.selectInterface ⟨3⟩ ⟨1⟩ ts.itable 0 ≠ .ok ⟨0⟩ ∧
      s.selectInterface ⟨3⟩ ⟨1⟩ ts.itable 0 = .error (.illegalAccess "C" "A.m()V") := by
  intro s
  have hstart : Reachable (Builds fun _ => True) { config := .minimal } := .start ⟨rfl, rfl⟩ trivial
  have hr : Reachable (Builds fun _ => True) (finish { config := .minimal } hiddenRun) :=
    hstart.finish (by decide +kernel)
  let ts := (s.getClass ⟨3⟩).tables.get (by decide +kernel)
  have hts : (s.getClass ⟨3⟩).tables = some ts := (Option.some_get _).symm
  have hselects := default_selected_iff (d := ⟨0⟩) (i := ⟨1⟩) (m := ⟨0⟩) (k := 0) hr
    (by decide +kernel) hts (by decide +kernel) (by decide +kernel) (by decide +kernel)
    (by decide +kernel) (by decide +kernel) (by decide +kernel) rfl
  refine ⟨ts, hts, by decide +kernel, fun hselected => ?_, ?_⟩
  · exact absurd (hselects.1.mp hselected) (by decide +kernel)
  · have hrefused := hselects.2 ⟨1⟩ (by decide +kernel) (by decide +kernel)
    have hname : (s.getClass ⟨3⟩).name = "C" ∧ s.displayName ⟨1⟩ = "A.m()V" := by decide +kernel
    rwa [hname.1, hname.2] at hrefused

end Linker
end ClassLinking
