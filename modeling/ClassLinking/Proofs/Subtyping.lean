import ClassLinking.Proofs.Confinement
import Mathlib.Logic.Relation

/-!
# Subtyping is reachability

A class is derived from its superclass and from the interfaces that it names.  Its list of
interfaces is not found by walking along these edges: it is put together, when the class is defined,
from the lists of the classes one edge away.  Likewise a class is a supertype if it is in one of two
lists, which of them depends on whether it is an interface.

Edges lead to older classes, and so both lists are what a walk would find:

* `above_iff` --- a class is above another one if edges lead there;
* `mem_allInterfaces_iff_transGen` --- the interfaces of a class are those that one or more edges
  lead to;
* `isSubtype_iff_reflTransGen` --- the supertypes of a class are those that any number of edges lead
  to.

Reflexivity and transitivity of subtyping are then those of walks, and antisymmetry is the order of
definition.  `subtyping_is_reachability` states this for every state of a run.
-/

namespace ClassLinking

section OneOfEach

variable {α : Type} [BEq α] [LawfulBEq α] {xs : List α}

theorem eraseDups_eq_self (h : xs.Nodup) : xs.eraseDups = xs := by
  induction xs with
  | nil => rfl
  | cons x xs ih =>
    obtain ⟨hx, hxs⟩ := List.nodup_cons.mp h
    have hrest : (xs.filter fun y => !(y == x)) = xs := List.filter_eq_self.mpr fun y hy => by
      rw [Bool.not_eq_true', beq_eq_false_iff_ne]
      exact fun hyx => hx (hyx ▸ hy)
    rw [List.eraseDups_cons, hrest, ih hxs]

/-- What begins without repetitions begins the same when repetitions are dropped. -/
theorem prefix_eraseDups (h : xs.Nodup) (ys : List α) : xs <+: (xs ++ ys).eraseDups := by
  rw [List.eraseDups_append, eraseDups_eq_self h]
  exact List.prefix_append _ _

end OneOfEach

namespace Store

open ClassDefinition Relation

variable {s : Store} {root : Option ClassId} {c d e i p : ClassId}

/-- An edge leads from a class to its superclass and to each of the interfaces that it names. -/
def DerivesFrom (s : Store) (c p : ClassId) : Prop := p ∈ s.definedFrom c

/-! ## Edges -/

theorem derivesFrom_superclass (hp : (s.getClass c).superclass? = some p) : s.DerivesFrom c p :=
  List.mem_append_left _ (Option.mem_toList.mpr hp)

theorem derivesFrom_localInterface (hi : i ∈ (s.getClass c).localInterfaces) :
    s.DerivesFrom c i :=
  List.mem_append_right _ hi

/-- Edges lead to older classes. -/
theorem DerivesFrom.index_lt (h : s.DerivesFrom c p) (w : s.WellFormed root) (hc : s.HasClass c) :
    p.index < c.index := by
  rcases List.mem_append.mp h with h | h
  · exact ((w.fits c hc).superclass p (Option.mem_toList.mp h)).1
  · exact ((w.fits c hc).localInterfaces p h).1

theorem DerivesFrom.hasClass (h : s.DerivesFrom c p) (w : s.WellFormed root) (hc : s.HasClass c) :
    s.HasClass p :=
  hasClass_of_mem_definedFrom w hc h

/-- So no walk comes back to where it started. -/
theorem index_lt_of_transGen (w : s.WellFormed root) (hc : s.HasClass c)
    (h : TransGen s.DerivesFrom c d) : d.index < c.index := by
  induction h using TransGen.head_induction_on with
  | single h => exact h.index_lt w hc
  | head h _ ih => exact Nat.lt_trans (ih (h.hasClass w hc)) (h.index_lt w hc)

/-! ## Walks -/

/-- Along the superclass chain. -/
theorem reflTransGen_of_mem_lineage (w : s.WellFormed root) :
    ∀ c, s.HasClass c → ∀ d ∈ s.lineage c, ReflTransGen s.DerivesFrom c d := by
  refine w.superclass_induction fun c hc ih d hd => ?_
  rcases List.mem_cons.mp hd with rfl | hd
  · exact .refl
  · cases hp : (s.getClass c).superclass? with
    | none =>
      rw [WellFormed.ancestors_of_top hp] at hd
      exact absurd hd List.not_mem_nil
    | some p =>
      rw [w.ancestors_of_superclass hc hp] at hd
      exact (ih p hp d hd).head (derivesFrom_superclass hp)

/-- An interface that a class has from somewhere is one step further than it is from there. -/
theorem transGen_of_mem_allInterfaces (w : s.WellFormed root) :
    ∀ c, s.HasClass c → ∀ i ∈ (s.getClass c).allInterfaces, TransGen s.DerivesFrom c i := by
  refine w.reference_induction fun c hc ih i hi => ?_
  rcases (w.mem_allInterfaces_iff hc).mp hi with ⟨p, hp, hi⟩ | ⟨j, hj, rfl | hi⟩
  · have hedge := derivesFrom_superclass hp
    exact (ih p hedge i hi).head hedge
  · exact .single (derivesFrom_localInterface hj)
  · have hedge := derivesFrom_localInterface hj
    exact (ih j hedge i hi).head hedge

/-- A class is above another one if edges lead there. -/
theorem above_iff (w : s.WellFormed root) (hc : s.HasClass c) :
    s.Above c d ↔ ReflTransGen s.DerivesFrom c d := by
  constructor
  · rintro (h | h)
    · exact reflTransGen_of_mem_lineage w c hc d h
    · exact (transGen_of_mem_allInterfaces w c hc d h).to_reflTransGen
  · intro h
    induction h using ReflTransGen.head_induction_on with
    | refl => exact above_self s d
    | head h _ ih => exact (above_of_mem_definedFrom w hc h).trans w hc (ih (h.hasClass w hc))

/-- No superclass chain goes on to an interface, so an interface that edges lead to is listed. -/
theorem mem_allInterfaces_iff_transGen (w : s.WellFormed root) (hc : s.HasClass c) :
    i ∈ (s.getClass c).allInterfaces ↔
      (s.getClass i).isInterface = true ∧ TransGen s.DerivesFrom c i := by
  constructor
  · intro hi
    exact ⟨(w.allInterfaces_spec c hc i hi).2, transGen_of_mem_allInterfaces w c hc i hi⟩
  · rintro ⟨hint, hwalk⟩
    have hlt := index_lt_of_transGen w hc hwalk
    rcases (above_iff w hc).mpr hwalk.to_reflTransGen with h | h
    · rcases List.mem_cons.mp h with rfl | h
      · exact absurd hlt (Nat.lt_irrefl _)
      · rw [(w.class_of_mem_ancestors c hc i h).1] at hint
        exact absurd hint Bool.false_ne_true
    · exact h

/-- The list of the superclass stands at the head of the list of the class. -/
theorem prefix_allInterfaces (w : s.WellFormed root) (hc : s.HasClass c)
    (hp : (s.getClass c).superclass? = some p) :
    (s.getClass p).allInterfaces <+: (s.getClass c).allInterfaces := by
  rw [(w.fits c hc).allInterfaces_eq, hp]
  exact prefix_eraseDups (w.nodup_allInterfaces (w.hasClass_superclass hc hp)) _

/-! ## Supertypes -/

/-- The supertypes of a class are what is above it: an interface is looked for among the interfaces
and a class in the superclass chain, and neither is to be found in the other list. -/
theorem isSubtype_iff_above (w : s.WellFormed root) (hc : s.HasClass c) :
    s.isSubtype c d = true ↔ s.Above c d := by
  refine ⟨fun h => ?_, WellFormed.isSubtype_of_mem w hc⟩
  rw [isSubtype, Bool.or_eq_true, beq_iff_eq] at h
  rcases h with rfl | h
  · exact above_self s c
  · split at h
    · exact Or.inr (List.contains_iff_mem.mp h)
    · exact Or.inl (List.mem_cons_of_mem _ (List.contains_iff_mem.mp h))

theorem isSubtype_iff_reflTransGen (w : s.WellFormed root) (hc : s.HasClass c) :
    s.isSubtype c d = true ↔ ReflTransGen s.DerivesFrom c d :=
  (isSubtype_iff_above w hc).trans (above_iff w hc)

theorem isSubtype_trans (w : s.WellFormed root) (hc : s.HasClass c) (hd : s.HasClass d)
    (hcd : s.isSubtype c d = true) (hde : s.isSubtype d e = true) : s.isSubtype c e = true := by
  rw [isSubtype_iff_reflTransGen w hc] at hcd ⊢
  rw [isSubtype_iff_reflTransGen w hd] at hde
  exact hcd.trans hde

/-- Two classes that are subtypes of each other are as old as each other. -/
theorem isSubtype_antisymm (w : s.WellFormed root) (hc : s.HasClass c) (hd : s.HasClass d)
    (hcd : s.isSubtype c d = true) (hdc : s.isSubtype d c = true) : c = d := by
  rw [isSubtype_iff_above w hc] at hcd
  rw [isSubtype_iff_above w hd] at hdc
  have hle := hcd.index_le w hc
  have hge := hdc.index_le w hd
  cases c
  cases d
  exact congrArg ClassId.mk (Nat.le_antisymm hge hle)

end Store

namespace Linker

open Relation

variable {l : Linker} {allowed : Command → Prop}

/-- **Subtyping is reachability.**  In every state of a run, the interfaces of a class are listed
once each, those of its superclass first, and they are the interfaces that one or more edges lead
to, from classes to superclasses and interfaces that they name.  A class is a subtype of another one
if that is the class itself or edges lead there, and this is a partial order. -/
theorem subtyping_is_reachability (h : Reachable allowed l) :
    (∀ c, l.store.HasClass c →
      (l.store.getClass c).allInterfaces.Nodup ∧
      (∀ p, (l.store.getClass c).superclass? = some p →
        (l.store.getClass p).allInterfaces <+: (l.store.getClass c).allInterfaces) ∧
      ∀ i, i ∈ (l.store.getClass c).allInterfaces ↔
        (l.store.getClass i).isInterface = true ∧ TransGen l.store.DerivesFrom c i) ∧
    (∀ c d, l.store.HasClass c → l.store.HasClass d →
      (l.store.isSubtype c d = true ↔ d = c ∨ TransGen l.store.DerivesFrom c d)) ∧
    (∀ c, l.store.HasClass c → l.store.isSubtype c c = true) ∧
    (∀ c d e, l.store.HasClass c → l.store.HasClass d → l.store.HasClass e →
      l.store.isSubtype c d = true → l.store.isSubtype d e = true →
        l.store.isSubtype c e = true) ∧
    ∀ c d, l.store.HasClass c → l.store.HasClass d →
      l.store.isSubtype c d = true → l.store.isSubtype d c = true → c = d := by
  have w := h.sound.wellFormed
  refine ⟨fun c hc => ⟨w.nodup_allInterfaces hc, fun p hp => Store.prefix_allInterfaces w hc hp,
      fun i => Store.mem_allInterfaces_iff_transGen w hc⟩,
    fun c d hc _ => ?_, fun c _ => Store.WellFormed.isSubtype_self _ c,
    fun c d e hc hd _ => Store.isSubtype_trans w hc hd,
    fun c d hc hd => Store.isSubtype_antisymm w hc hd⟩
  rw [Store.isSubtype_iff_reflTransGen w hc, reflTransGen_iff_eq_or_transGen]

/-- The class `B` has the interface `I` over its superclass, over `K`, and by name; a class that
implements `A`, which is not an interface, is refused. -/
def diamondRun : List Command :=
  [.define { name := "Object" },
   .define { name := "I", flags := { isInterface := true } },
   .define { name := "J", flags := { isInterface := true }, interfaces := [⟨1⟩] },
   .define { name := "K", flags := { isInterface := true }, interfaces := [⟨1⟩] },
   .define { name := "A", superclass := some ⟨0⟩, interfaces := [⟨2⟩] },
   .define { name := "B", superclass := some ⟨4⟩, interfaces := [⟨4⟩] },
   .define { name := "B", superclass := some ⟨4⟩, interfaces := [⟨3⟩, ⟨1⟩, ⟨3⟩] }]

/-- There are edges from `B` up to `I`, and none from `K` to `J`. -/
theorem diamondRun_subtyping :
    TransGen (finish { config := .minimal } diamondRun).store.DerivesFrom ⟨5⟩ ⟨1⟩ ∧
      ¬ TransGen (finish { config := .minimal } diamondRun).store.DerivesFrom ⟨3⟩ ⟨2⟩ := by
  have hstart : Reachable (fun _ => True) { config := .minimal } := .start ⟨rfl, rfl⟩ trivial
  have hrun := hstart.finish (show Admits _ _ diamondRun by decide +kernel)
  -- The state is named, so that only the kernel evaluates the run.
  generalize hl : finish { config := .minimal } diamondRun = l at hrun ⊢
  have hanswers : l.store.HasClass ⟨5⟩ ∧ l.store.isSubtype ⟨5⟩ ⟨1⟩ = true ∧
      l.store.isSubtype ⟨3⟩ ⟨2⟩ = false := by
    rw [← hl]
    decide +kernel
  obtain ⟨hhas, habove, hbeside⟩ := hanswers
  have hlt : ∀ n ≤ 5, l.store.HasClass ⟨n⟩ := fun n hn => Nat.lt_of_le_of_lt hn hhas
  obtain ⟨-, hiff, -⟩ := subtyping_is_reachability hrun
  constructor
  · exact ((hiff ⟨5⟩ ⟨1⟩ hhas (hlt 1 (by decide))).mp habove).resolve_left (by decide)
  · intro hwalk
    rw [(hiff ⟨3⟩ ⟨2⟩ (hlt 3 (by decide)) (hlt 2 (by decide))).mpr (Or.inr hwalk)] at hbeside
    exact absurd hbeside (by decide)

end Linker
end ClassLinking
