import ClassLinking.Linker
import Mathlib.Data.List.Basic
import Mathlib.Data.List.GetD
import Mathlib.Tactic.ByContra

/-!
# Reading the store after a change

A store is changed in few ways: a class or some methods are added, one class is changed, one method
is changed.  This file says once what reading a class or a method yields after each of them.

Identities are positions, so an identity is *good* when something stands at it: `HasClass` and
`HasMethod`.  Reading an identity that is not good yields the default entry, which has no tables, no
methods and no holder; most facts about such an identity hold because there is nothing to them.
-/

namespace ClassLinking
namespace Store

/-- Whether a class stands at an identity. -/
def HasClass (s : Store) (c : ClassId) : Prop := c.index < s.classes.size

/-- Whether a method stands at an identity. -/
def HasMethod (s : Store) (m : MethodId) : Prop := m.index < s.methods.size

instance (s : Store) (c : ClassId) : Decidable (s.HasClass c) := inferInstanceAs (Decidable (_ < _))

instance (s : Store) (m : MethodId) : Decidable (s.HasMethod m) :=
  inferInstanceAs (Decidable (_ < _))

/-- Reading a method is reading the list of methods. -/
theorem getMethod_eq_getD (s : Store) (m : MethodId) :
    s.getMethod m = s.methods.toList.getD m.index default := by
  simp [getMethod, Array.getD_eq_getD_getElem?]

theorem getClass_of_not {s : Store} {c : ClassId} (h : ¬ s.HasClass c) :
    s.getClass c = default := by
  unfold HasClass at h
  simp [getClass, Array.getD, h]

theorem getMethod_of_not {s : Store} {m : MethodId} (h : ¬ s.HasMethod m) :
    s.getMethod m = default := by
  unfold HasMethod at h
  simp [getMethod, Array.getD, h]

/-- Only a class that exists has tables. -/
theorem hasClass_of_tables {s : Store} {c : ClassId} {t : Tables}
    (h : (s.getClass c).tables = some t) : s.HasClass c := by
  by_contra hc
  rw [getClass_of_not hc] at h
  exact absurd h (by simp [default, instInhabitedClass.default])

/-- Only a class that exists declares methods. -/
theorem hasClass_of_mem_methods {s : Store} {c : ClassId} {m : MethodId}
    (h : m ∈ (s.getClass c).methods) : s.HasClass c := by
  by_contra hc
  rw [getClass_of_not hc] at h
  exact absurd h List.not_mem_nil

/-- Only a method that exists was ever replaced. -/
theorem hasMethod_of_isOld {s : Store} {m : MethodId} (h : (s.getMethod m).revision.isOld = true) :
    s.HasMethod m := by
  by_contra hm
  rw [getMethod_of_not hm] at h
  exact absurd h (by decide)

/-- Only a method that exists has a holder. -/
theorem hasMethod_of_holder? {s : Store} {c : ClassId} {m : MethodId} (h : s.holder? m = some c) :
    s.HasMethod m := by
  by_contra hm
  rw [holder?, getMethod_of_not hm] at h
  cases h

/-! ## Changing a class -/

section Classes

variable (s : Store) (c d : ClassId) (f : Class → Class) (m : MethodId)

@[simp] theorem size_modifyClass : (s.modifyClass c f).classes.size = s.classes.size := by
  simp [modifyClass]

@[simp] theorem methods_modifyClass : (s.modifyClass c f).methods = s.methods := rfl

@[simp] theorem getMethod_modifyClass : (s.modifyClass c f).getMethod m = s.getMethod m := rfl

@[simp] theorem hasClass_modifyClass : (s.modifyClass c f).HasClass d ↔ s.HasClass d := by
  simp [HasClass]

@[simp] theorem hasMethod_modifyClass : (s.modifyClass c f).HasMethod m ↔ s.HasMethod m := Iff.rfl

theorem getClass_modifyClass :
    (s.modifyClass c f).getClass d =
      if c = d ∧ s.HasClass c then f (s.getClass d) else s.getClass d := by
  unfold modifyClass getClass HasClass
  by_cases hcd : c = d
  · subst hcd
    by_cases hc : c.index < s.classes.size
    · simp [Array.getD_eq_getD_getElem?, Array.getElem_modify_self, hc]
    · simp [Array.getD_eq_getD_getElem?, hc]
  · have hne : c.index ≠ d.index := fun h => hcd (by cases c; cases d; exact congrArg _ h)
    simp [Array.getD_eq_getD_getElem?, Array.getElem?_modify, hne, hcd]

theorem getClass_modifyClass_self (h : s.HasClass c) :
    (s.modifyClass c f).getClass c = f (s.getClass c) := by
  rw [getClass_modifyClass, if_pos ⟨rfl, h⟩]

theorem getClass_modifyClass_of_ne (h : c ≠ d) :
    (s.modifyClass c f).getClass d = s.getClass d := by
  rw [getClass_modifyClass, if_neg fun hcd => h hcd.1]

end Classes

/-! ## Changing a method -/

section Methods

variable (s : Store) (m n : MethodId) (f : Method → Method) (c : ClassId)

@[simp] theorem size_modifyMethod : (s.modifyMethod m f).methods.size = s.methods.size := by
  simp [modifyMethod]

@[simp] theorem hasClass_modifyMethod : (s.modifyMethod m f).HasClass c ↔ s.HasClass c := Iff.rfl

@[simp] theorem hasMethod_modifyMethod : (s.modifyMethod m f).HasMethod n ↔ s.HasMethod n := by
  simp [HasMethod]

theorem getMethod_modifyMethod :
    (s.modifyMethod m f).getMethod n =
      if m = n ∧ s.HasMethod m then f (s.getMethod n) else s.getMethod n := by
  unfold modifyMethod getMethod HasMethod
  by_cases hmn : m = n
  · subst hmn
    by_cases hm : m.index < s.methods.size
    · simp [Array.getD_eq_getD_getElem?, Array.getElem_modify_self, hm]
    · simp [Array.getD_eq_getD_getElem?, hm]
  · have hne : m.index ≠ n.index := fun h => hmn (by cases m; cases n; exact congrArg _ h)
    simp [Array.getD_eq_getD_getElem?, Array.getElem?_modify, hne, hmn]

end Methods

/-! ## Adding -/

section Adding

variable (s : Store) (k : Class) (ms : List Method) (c : ClassId) (m : MethodId)

@[simp] theorem size_addClass : (s.addClass k).classes.size = s.classes.size + 1 := by
  simp [addClass]

@[simp] theorem methods_addClass : (s.addClass k).methods = s.methods := rfl

@[simp] theorem getMethod_addClass : (s.addClass k).getMethod m = s.getMethod m := rfl

@[simp] theorem hasMethod_addClass : (s.addClass k).HasMethod m ↔ s.HasMethod m := Iff.rfl

theorem hasClass_addClass : (s.addClass k).HasClass c ↔ s.HasClass c ∨ c = s.nextClass := by
  unfold HasClass nextClass
  rw [size_addClass, Nat.lt_succ_iff_lt_or_eq]
  refine or_congr_right ⟨fun h => ?_, fun h => ?_⟩
  · cases c
    exact congrArg _ h
  · rw [h]

@[simp] theorem getClass_addClass_self : (s.addClass k).getClass s.nextClass = k := by
  simp [addClass, getClass, nextClass, Array.getD_eq_getD_getElem?]

theorem getClass_addClass_of_has (h : s.HasClass c) :
    (s.addClass k).getClass c = s.getClass c := by
  unfold HasClass at h
  simp [addClass, getClass, Array.getD_eq_getD_getElem?, Array.getElem?_push, Nat.ne_of_lt h]

@[simp] theorem size_addMethods :
    (s.addMethods ms).methods.size = s.methods.size + ms.length := by
  rw [← Array.length_toList, addMethods, Array.toList_appendList, List.length_append,
    Array.length_toList]

@[simp] theorem classes_addMethods : (s.addMethods ms).classes = s.classes := rfl

@[simp] theorem getClass_addMethods : (s.addMethods ms).getClass c = s.getClass c := rfl

@[simp] theorem hasClass_addMethods : (s.addMethods ms).HasClass c ↔ s.HasClass c := Iff.rfl

theorem hasMethod_addMethods :
    (s.addMethods ms).HasMethod m ↔ m.index < s.methods.size + ms.length := by
  simp [HasMethod]

theorem getMethod_addMethods_of_has (h : s.HasMethod m) :
    (s.addMethods ms).getMethod m = s.getMethod m := by
  unfold HasMethod at h
  rw [getMethod_eq_getD, getMethod_eq_getD, addMethods, Array.toList_appendList,
    List.getD_append _ _ _ _ (by rwa [Array.length_toList])]

theorem getMethod_addMethods_of_not (h : ¬ s.HasMethod m) :
    (s.addMethods ms).getMethod m = ms.getD (m.index - s.methods.size) default := by
  unfold HasMethod at h
  rw [getMethod_eq_getD, addMethods, Array.toList_appendList,
    List.getD_append_right _ _ _ _ (by rw [Array.length_toList]; omega), Array.length_toList]

/-- The methods that are added are read back at the identities they were promised. -/
theorem getMethod_addMethods_next {i : Nat} {x : Method} (h : ms[i]? = some x) :
    (s.addMethods ms).getMethod ⟨s.methods.size + i⟩ = x := by
  rw [getMethod_addMethods_of_not]
  · simp [List.getD_eq_getElem?_getD, h]
  · simp [HasMethod]

theorem length_nextMethods (count : Nat) : (s.nextMethods count).length = count := by
  simp [nextMethods]

theorem mem_nextMethods {count : Nat} :
    m ∈ s.nextMethods count ↔ s.methods.size ≤ m.index ∧ m.index < s.methods.size + count := by
  simp only [nextMethods, List.mem_map, List.mem_range]
  constructor
  · rintro ⟨i, hi, rfl⟩
    simp only
    omega
  · rintro ⟨hle, hlt⟩
    refine ⟨m.index - s.methods.size, by omega, ?_⟩
    cases m
    simp only [MethodId.mk.injEq] at *
    omega

end Adding

/-! ## Dispatch indices -/

/-- Giving dispatch indices leaves the classes alone. -/
@[simp] theorem classes_setDispatches (s : Store) (l : List (MethodId × DispatchIndex)) :
    (l.foldl (fun s e => s.setDispatch e.1 e.2) s).classes = s.classes := by
  induction l generalizing s with
  | nil => rfl
  | cons e l ih =>
    rw [List.foldl_cons, ih]
    rfl

@[simp] theorem size_setDispatches (s : Store) (l : List (MethodId × DispatchIndex)) :
    (l.foldl (fun s e => s.setDispatch e.1 e.2) s).methods.size = s.methods.size := by
  induction l generalizing s with
  | nil => rfl
  | cons e l ih => rw [List.foldl_cons, ih, setDispatch, size_modifyMethod]

/-- Of several dispatch indices given to a method the last one stays. -/
theorem dispatch_setDispatches (s : Store) (l : List (MethodId × DispatchIndex)) {m : MethodId}
    (hm : s.HasMethod m) :
    ((l.foldl (fun s e => s.setDispatch e.1 e.2) s).getMethod m).dispatch =
      (l.reverse.lookup m).getD (s.getMethod m).dispatch := by
  induction l generalizing s with
  | nil => rfl
  | cons e l ih =>
    have hset : ((s.setDispatch e.1 e.2).getMethod m).dispatch =
        if m = e.1 then e.2 else (s.getMethod m).dispatch := by
      rw [setDispatch, getMethod_modifyMethod]
      by_cases hme : m = e.1
      · rw [if_pos ⟨hme.symm, hme ▸ hm⟩, if_pos hme]
      · rw [if_neg fun h => hme h.1.symm, if_neg hme]
    have hlast : [e].lookup m = if m = e.1 then some e.2 else none := by
      obtain ⟨x, index⟩ := e
      rw [List.lookup_cons]
      by_cases hx : m = x
      · simp [hx]
      · have hne : (m == x) = false := by simpa using hx
        simp [hx, hne]
    rw [List.foldl_cons, ih (s.setDispatch e.1 e.2) ((hasMethod_modifyMethod ..).mpr hm), hset,
      List.reverse_cons, List.lookup_append, hlast]
    by_cases hme : m = e.1
    · cases l.reverse.lookup m <;> simp [hme]
    · cases l.reverse.lookup m <;> simp [hme]

/-- Giving dispatch indices changes nothing else of a method. -/
theorem getMethod_setDispatches (s : Store) (l : List (MethodId × DispatchIndex)) (m : MethodId) :
    (l.foldl (fun s e => s.setDispatch e.1 e.2) s).getMethod m =
      { s.getMethod m with
        dispatch := ((l.foldl (fun s e => s.setDispatch e.1 e.2) s).getMethod m).dispatch } := by
  induction l generalizing s with
  | nil => rfl
  | cons e l ih =>
    rw [List.foldl_cons, ih]
    have h : ∀ i, { (s.setDispatch e.1 e.2).getMethod m with dispatch := i } =
        { s.getMethod m with dispatch := i } := by
      intro i
      rw [setDispatch, getMethod_modifyMethod]
      split <;> rfl
    rw [h]

end Store
end ClassLinking
