import ClassLinking.Proofs.Coherence

/-!
# Two branches of linking

Let linking lead from one store to two others (`Store.Branches`).  Classes are the same in both up
to their tables, and methods that were there at the start are the same up to their dispatch indices.
Whatever else there is are placeholders, and these are created in each branch when it comes to them,
so their identities say nothing.  A method of one branch is the `SameMethod` as one of the other if
it was there at the start, or if both are placeholders that agree in their selector, their holder
and their slot.

`Store.SameTables` compares the tables of a class in the two branches in this way.  The questions
that are asked while a table is built have the same answers in both branches, as far as they speak
of what was there at the start or of tables that are the same
(`Branches.transitivelyOverridden?_ok`).
-/

namespace ClassLinking

/-! ## Related slots and lists -/

theorem optionRel_symm {α β : Type} {R : α → β → Prop} {S : β → α → Prop}
    (hRS : ∀ a b, R a b → S b a) {x : Option α} {y : Option β} (h : Option.Rel R x y) :
    Option.Rel S y x := by
  cases h with
  | none => exact .none
  | some h => exact .some (hRS _ _ h)

theorem exists_of_optionRel {α β : Type} {R : α → β → Prop} {a : α} {y : Option β}
    (h : Option.Rel R (some a) y) : ∃ b, y = some b ∧ R a b := by
  cases h with
  | some h => exact ⟨_, rfl, h⟩

/-- Lists are related if their entries are. -/
theorem forall₂_of_getElem? {α β : Type} {R : α → β → Prop} {xs : List α} {ys : List β}
    (h : ∀ i : Nat, Option.Rel R xs[i]? ys[i]?) : List.Forall₂ R xs ys := by
  induction xs generalizing ys with
  | nil =>
    cases ys with
    | nil => exact .nil
    | cons y ys => cases h 0
  | cons x xs ih =>
    cases ys with
    | nil => cases h 0
    | cons y ys =>
      obtain ⟨_, hy, hxy⟩ := exists_of_optionRel (h 0)
      obtain rfl := Option.some.inj hy
      exact .cons hxy (ih fun i => h (i + 1))

/-! ## Tables -/

/-- Tables with related methods in them.  Only slots and the list of placeholders may have methods
that are not equal. -/
structure Tables.Alike (R : MethodId → MethodId → Prop) (ts ts' : Tables) : Prop where
  length : ts'.vtable.length = ts.vtable.length
  methodAt : ∀ i, Option.Rel R (ts.vtable.methodAt i) (ts'.vtable.methodAt i)
  defaultSlots : ts'.defaultSlots = ts.defaultSlots
  mirandas : List.Forall₂ R ts.mirandas ts'.mirandas
  itable : ts'.itable = ts.itable

theorem Tables.Alike.symm {R S : MethodId → MethodId → Prop} (hRS : ∀ a b, R a b → S b a)
    {ts ts' : Tables} (h : ts.Alike R ts') : ts'.Alike S ts where
  length := h.length.symm
  methodAt := fun i => optionRel_symm hRS (h.methodAt i)
  defaultSlots := h.defaultSlots.symm
  mirandas := (h.mirandas.imp hRS).flip
  itable := h.itable.symm

namespace Store

/-! ## Methods of two branches -/

/-- Placeholders, one in `s` and one in `t`, that were not there in `base`, with one selector, one
holder and one slot. -/
structure Twins (base s t : Store) (a b : MethodId) : Prop where
  isNew : ¬ base.HasMethod a ∧ ¬ base.HasMethod b
  hasMethod : s.HasMethod a ∧ t.HasMethod b
  undeclared : (∀ c, a ∉ (s.getClass c).methods) ∧ ∀ c, b ∉ (t.getClass c).methods
  access : (s.getMethod a).access = .onlyPublic ∧ (t.getMethod b).access = .onlyPublic
  modifiers : (s.getMethod a).modifiers = .miranda ∧ (t.getMethod b).modifiers = .miranda
  selector : t.selector b = s.selector a
  holder : (t.getMethod b).holder = (s.getMethod a).holder
  dispatch : (t.getMethod b).dispatch = (s.getMethod a).dispatch

/-- The method `a` of `s` and the method `b` of `t` are one that was there in `base`, or they are
placeholders that differ in nothing but their identities. -/
def SameMethod (base s t : Store) (a b : MethodId) : Prop :=
  base.HasMethod a ∧ a = b ∨ Twins base s t a b

/-- The tables of `c` are the same in `s` and in `t`, and so are the dispatch indices of the methods
that `c` declares. -/
structure SameTables (base s t : Store) (c : ClassId) : Prop where
  tables : ∃ ts ts', (s.getClass c).tables = some ts ∧ (t.getClass c).tables = some ts' ∧
    ts.Alike (SameMethod base s t) ts'
  dispatch : ∀ m ∈ (base.getClass c).methods, (t.getMethod m).dispatch = (s.getMethod m).dispatch

/-- Linking has led from `base` to `s`. -/
structure Branch (root : Option ClassId) (base s : Store) : Prop where
  grows : base.Grows s
  size_eq : s.classes.size = base.classes.size
  wellFormed : s.WellFormed root
  linkedUp : s.LinkedUp
  coherent : s.Coherent

/-- Linking has led from `base` to `s` and to `t`. -/
structure Branches (root : Option ClassId) (base s t : Store) : Prop where
  start : base.WellFormed root
  left : Branch root base s
  right : Branch root base t

variable {root : Option ClassId} {base s t s' t' : Store} {a b m : MethodId} {c d p : ClassId}
  {i : Nat}

/-- Placeholders keep what they are compared by. -/
theorem Twins.grows (h : Twins base s t a b) (hs : s.Grows s') (ht : t.Grows t') :
    Twins base s' t' a b := by
  obtain ⟨ha, hb⟩ := h.hasMethod
  have hsu := hs.undeclared a ha h.undeclared.1
  have htu := ht.undeclared b hb h.undeclared.2
  exact
    { isNew := h.isNew
      hasMethod := ⟨hs.hasMethod ha, ht.hasMethod hb⟩
      undeclared := ⟨hsu.1, htu.1⟩
      access := by rw [hs.extends.access ha, ht.extends.access hb]; exact h.access
      modifiers := by rw [hs.extends.modifiers ha, ht.extends.modifiers hb]; exact h.modifiers
      selector := by rw [ht.extends.selector hb, hs.extends.selector ha, h.selector]
      holder := by rw [ht.extends.holder hb, hs.extends.holder ha, h.holder]
      dispatch := by rw [htu.2, hsu.2, h.dispatch] }

theorem Twins.symm (h : Twins base s t a b) : Twins base t s b a where
  isNew := h.isNew.symm
  hasMethod := h.hasMethod.symm
  undeclared := h.undeclared.symm
  access := h.access.symm
  modifiers := h.modifiers.symm
  selector := h.selector.symm
  holder := h.holder.symm
  dispatch := h.dispatch.symm

theorem SameMethod.grows (h : SameMethod base s t a b) (hs : s.Grows s') (ht : t.Grows t') :
    SameMethod base s' t' a b :=
  h.imp_right fun htwins => htwins.grows hs ht

theorem SameMethod.symm (h : SameMethod base s t a b) : SameMethod base t s b a :=
  h.imp (fun ⟨ha, heq⟩ => ⟨heq ▸ ha, heq.symm⟩) Twins.symm

/-- No classes are added. -/
theorem Branch.hasClass_iff (h : Branch root base s) : s.HasClass c ↔ base.HasClass c := by
  rw [HasClass, HasClass, h.size_eq]

namespace Branches

variable (B : Branches root base s t)
include B

theorem symm : Branches root base t s :=
  ⟨B.start, B.right, B.left⟩

/-- The two branches have the same classes. -/
theorem class_eq (c : ClassId) :
    t.getClass c = { s.getClass c with tables := (t.getClass c).tables } := by
  by_cases hc : base.HasClass c
  · rw [B.right.grows.class_eq c hc, B.left.grows.class_eq c hc]
  · rw [getClass_of_not (mt B.left.hasClass_iff.mp hc),
      getClass_of_not (mt B.right.hasClass_iff.mp hc)]

theorem superclass?_eq (c : ClassId) :
    (t.getClass c).superclass? = (s.getClass c).superclass? := by
  rw [B.class_eq c]
  rfl

/-- A method that was there at the start is the same in both branches, up to its dispatch index. -/
theorem method_eq (hm : base.HasMethod m) :
    t.getMethod m = { s.getMethod m with dispatch := (t.getMethod m).dispatch } := by
  rw [B.right.grows.method_eq m hm, B.left.grows.method_eq m hm]

section SameMethod

variable (h : SameMethod base s t a b)
include h

theorem hasMethod : s.HasMethod a ∧ t.HasMethod b := by
  rcases h with ⟨ha, rfl⟩ | htwins
  · exact ⟨B.left.grows.hasMethod ha, B.right.grows.hasMethod ha⟩
  · exact htwins.hasMethod

theorem selector_eq : t.selector b = s.selector a := by
  rcases h with ⟨ha, rfl⟩ | htwins
  · rw [selector, B.method_eq ha]
    rfl
  · exact htwins.selector

theorem access_eq : (t.getMethod b).access = (s.getMethod a).access := by
  rcases h with ⟨ha, rfl⟩ | htwins
  · rw [B.method_eq ha]
  · rw [htwins.access.1, htwins.access.2]

theorem holder_eq : (t.getMethod b).holder = (s.getMethod a).holder := by
  rcases h with ⟨ha, rfl⟩ | htwins
  · rw [B.method_eq ha]
  · exact htwins.holder

theorem holder?_eq : t.holder? b = s.holder? a := by
  obtain ⟨ha, hb⟩ := B.hasMethod h
  rw [B.right.wellFormed.holder?_eq hb, B.left.wellFormed.holder?_eq ha, B.holder_eq h]

theorem isOverridable_eq (loader : LoaderId) (className : String) :
    t.isOverridable b loader className = s.isOverridable a loader className := by
  have hclass : ∀ d, (t.getClass d).sharesPackage loader className =
      (s.getClass d).sharesPackage loader className := fun d => by
    rw [B.class_eq d]
    rfl
  rw [isOverridable, isOverridable, B.access_eq h, B.holder?_eq h]
  simp only [hclass]

end SameMethod

/-! ## Questions about what was there at the start -/

theorem isBoundStatically_eq (hm : base.HasMethod m) :
    (t.getMethod m).isBoundStatically = (s.getMethod m).isBoundStatically := by
  rw [B.right.grows.extends.isBoundStatically hm, B.left.grows.extends.isBoundStatically hm]

theorem isFinalMethod_eq (hm : base.HasMethod m) (flags : ClassFlags) :
    t.isFinalMethod m flags = s.isFinalMethod m flags := by
  rw [B.right.grows.extends.isFinalMethod B.start hm, B.left.grows.extends.isFinalMethod B.start hm]

/-- Where transitive overriding answers in one branch, it answers in the other one and finds the
same there, if it looks through classes whose tables are the same. -/
theorem transitivelyOverridden?_ok {target : Selector} {loader : LoaderId} {className : String}
    {above : List ClassId} {x : Option MethodId} (habove : ∀ a ∈ above, SameTables base s t a)
    (hx : s.transitivelyOverridden? target i loader className above = .ok x) :
    ∃ y, t.transitivelyOverridden? target i loader className above = .ok y ∧
      Option.Rel (SameMethod base s t) x y := by
  induction above with
  | nil =>
    cases hx
    exact ⟨none, rfl, .none⟩
  | cons k rest ih =>
    obtain ⟨ts, ts', hts, hts', halike⟩ := (habove k List.mem_cons_self).tables
    have hrest := ih fun d hd => habove d (List.mem_cons_of_mem _ hd)
    have hslot := halike.methodAt i
    unfold transitivelyOverridden? at hx ⊢
    simp only [hts] at hx
    simp only [hts']
    generalize ts.vtable.methodAt i = m, ts'.vtable.methodAt i = m' at hx hslot ⊢
    cases hslot with
    | none =>
      cases hx
      exact ⟨none, rfl, .none⟩
    | some hsame =>
      simp only [B.selector_eq hsame, B.isOverridable_eq hsame]
      dsimp only at hx
      split at hx
      · cases hx
      split at hx
      · cases hx
        rename_i hsel hover
        exact ⟨_, by rw [if_neg hsel, if_pos hover], .some hsame⟩
      · rename_i hsel hover
        rw [if_neg hsel, if_neg hover]
        exact hrest hx

end Branches

namespace SameTables

variable (h : SameTables base s t c)
include h

theorem symm : SameTables base t s c := by
  obtain ⟨ts, ts', hts, hts', halike⟩ := h.tables
  exact ⟨⟨ts', ts, hts', hts, halike.symm fun _ _ => SameMethod.symm⟩,
    fun m hm => (h.dispatch m hm).symm⟩

theorem linked : s.Linked c ∧ t.Linked c := by
  obtain ⟨ts, ts', hts, hts', -⟩ := h.tables
  exact ⟨linked_iff.mpr ⟨ts, hts⟩, linked_iff.mpr ⟨ts', hts'⟩⟩

/-- What is in a slot. -/
theorem slot (i : Nat) : Option.Rel (SameMethod base s t) (s.slot c i) (t.slot c i) := by
  obtain ⟨ts, ts', hts, hts', halike⟩ := h.tables
  rw [slot_of_tables hts, slot_of_tables hts']
  exact halike.methodAt i

theorem vtableLength_eq : (t.getClass c).vtableLength = (s.getClass c).vtableLength := by
  obtain ⟨ts, ts', hts, hts', halike⟩ := h.tables
  rw [vtableLength_of_tables hts, vtableLength_of_tables hts', halike.length]

theorem isEmpty_mirandas_eq :
    (t.getClass c).mirandas.isEmpty = (s.getClass c).mirandas.isEmpty := by
  obtain ⟨ts, ts', hts, hts', halike⟩ := h.tables
  have hs : (s.getClass c).mirandas = ts.mirandas := by simp only [Class.mirandas, hts]
  have ht : (t.getClass c).mirandas = ts'.mirandas := by simp only [Class.mirandas, hts']
  rw [hs, ht, Bool.eq_iff_iff, List.isEmpty_iff_length_eq_zero, List.isEmpty_iff_length_eq_zero,
    halike.mirandas.length_eq]

end SameTables
end Store
end ClassLinking
