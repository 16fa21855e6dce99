import ClassLinking.Proofs.Definition
import ClassLinking.Proofs.Linking
import ClassLinking.Proofs.Redefinition

/-!
# Runs

A linker is used through commands: classes are defined, linked and redefined, one by one or in
batches, and between two commands the settings may change.  A command that fails is a step of a run
like any other, since it keeps what it had changed before it failed.

A run starts with no class.  `Reachable allowed l` says that a run of allowed commands leads to `l`.
Every state of a run is `Sound`, which puts together what the single operations preserve:

* the hierarchy is well-formed, and linked classes have linked supertypes;
* the methods that a class declares are current;
* the defaults of a class are as they were selected until the class is linked;
* the registered classes are classes of the store, each once.
-/

namespace ClassLinking

/-- What is asked of a linker. -/
inductive Command where
  | define (d : ClassDefinition)
  | link (c : ClassId)
  | linkAll (batch : List ClassId)
  | redefine (holder : ClassId) (ds : List Declaration)
  /-- Go on with other settings. -/
  | configure (config : Config) (conflicts : ConflictTable) (consultsConflicts : Bool)

/-- The state that a step leaves behind, whether it answers or fails. -/
def LinkM.final {α : Type} (x : LinkM α) (l : Linker) : Linker :=
  match x l with
  | .ok _ t => t
  | .error _ t => t

theorem Outcome.final {α : Type} {x : LinkM α} {l : Linker} {P : Linker → Prop}
    (h : Outcome x l (fun _ => P) (fun _ => P)) : P (x.final l) := by
  unfold Outcome at h
  unfold LinkM.final
  split
  · rename_i hx
    rwa [hx] at h
  · rename_i hx
    rwa [hx] at h

/-- The answer of a step, unless it fails. -/
def LinkM.answer? {α : Type} (x : LinkM α) (l : Linker) : Option α :=
  match x l with
  | .ok a _ => some a
  | .error .. => none

theorem Outcome.answers {α : Type} {x : LinkM α} {l : Linker} {Q : α → Linker → Prop}
    {E : LinkError → Linker → Prop} (h : Outcome x l Q E) :
    (∃ a, x.answer? l = some a ∧ Q a (x.final l)) ∨
      x.answer? l = none ∧ ∃ e, E e (x.final l) := by
  unfold Outcome at h
  unfold LinkM.answer? LinkM.final
  split at h
  · rename_i a t hx
    rw [hx]
    exact Or.inl ⟨a, rfl, h⟩
  · rename_i e t hx
    rw [hx]
    exact Or.inr ⟨rfl, e, h⟩

namespace Command

/-- The state after a command. -/
def after : Command → Linker → Linker
  | .define d, l => (Linker.define d).final l
  | .link c, l => (Linker.link c).final l
  | .linkAll batch, l => (Linker.linkAll batch).final l
  | .redefine holder ds, l => (Linker.redefine holder ds).final l
  | .configure config conflicts consultsConflicts, l =>
    { l with config, conflicts, consultsConflicts }

/-- A command speaks of classes that exist. -/
def Admissible : Command → Store → Prop
  | .define d, s => d.Admissible s
  | .link c, s => s.HasClass c
  | .linkAll batch, s => ∀ c ∈ batch, s.HasClass c
  | .redefine holder _, s => s.HasClass holder
  | .configure .., _ => True

instance (d : ClassDefinition) (s : Store) : Decidable (d.Admissible s) :=
  decidable_of_iff ((∀ p ∈ d.superclass, s.HasClass p) ∧ ∀ i ∈ d.interfaces, s.HasClass i)
    ⟨fun h => ⟨fun p hp => h.1 p hp, h.2⟩, fun h => ⟨fun p hp => h.superclass p hp, h.interfaces⟩⟩

instance : (x : Command) → (s : Store) → Decidable (x.Admissible s)
  | .define d, s => inferInstanceAs (Decidable (d.Admissible s))
  | .link c, s => inferInstanceAs (Decidable (s.HasClass c))
  | .linkAll batch, s => inferInstanceAs (Decidable (∀ c ∈ batch, s.HasClass c))
  | .redefine holder _, s => inferInstanceAs (Decidable (s.HasClass holder))
  | .configure .., _ => isTrue trivial

end Command

namespace Linker

/-- The state at the end of a run. -/
def finish (l : Linker) (xs : List Command) : Linker := xs.foldl (fun l x => x.after l) l

/-- All commands of a run are allowed and speak of classes that exist by then. -/
def Admits (allowed : Command → Prop) : Linker → List Command → Prop
  | _, [] => True
  | l, x :: xs => allowed x ∧ x.Admissible l.store ∧ Admits allowed (x.after l) xs

instance decidableAdmits {allowed : Command → Prop} [DecidablePred allowed] :
    (l : Linker) → (xs : List Command) → Decidable (Admits allowed l xs)
  | _, [] => isTrue trivial
  | l, x :: xs =>
    haveI : Decidable (Admits allowed (x.after l) xs) := decidableAdmits (x.after l) xs
    inferInstanceAs (Decidable (_ ∧ _ ∧ _))

/-- Nothing is defined yet. -/
structure IsEmpty (l : Linker) : Prop where
  store : l.store = .empty
  registry : l.registry = .empty

/-- The states that runs of allowed commands lead to.  The settings at the start must be allowed
ones. -/
inductive Reachable (allowed : Command → Prop) : Linker → Prop where
  | start {l : Linker} : l.IsEmpty →
    allowed (.configure l.config l.conflicts l.consultsConflicts) → Reachable allowed l
  | step {l : Linker} {x : Command} : Reachable allowed l → allowed x → x.Admissible l.store →
    Reachable allowed (x.after l)

theorem Reachable.finish {allowed : Command → Prop} {l : Linker} (h : Reachable allowed l)
    {xs : List Command} (hxs : Admits allowed l xs) : Reachable allowed (l.finish xs) := by
  induction xs generalizing l with
  | nil => exact h
  | cons x xs ih => exact ih (h.step hxs.1 hxs.2.1) hxs.2.2

/-- What holds in every state of a run. -/
structure Sound (l : Linker) : Prop where
  wellFormed : l.store.WellFormed l.registry.root
  linkedUp : l.store.LinkedUp
  current : ∀ c, ∀ m ∈ (l.store.getClass c).methods, l.store.isOld m = false
  inheritsDefaults : ∀ c, l.store.HasClass c → ¬ l.store.Linked c → l.store.InheritsDefaults c
  nodup : l.registry.all.Nodup
  registered : ∀ c ∈ l.registry.all, l.store.HasClass c

variable {l t : Linker} {c holder : ClassId}

/-! ## One step -/

theorem IsEmpty.sound (h : l.IsEmpty) : l.Sound where
  wellFormed := by
    rw [h.store, h.registry]
    exact Store.wellFormed_empty
  linkedUp := fun c hc => by
    have hhas := hc.hasClass
    rw [h.store] at hhas
    exact absurd hhas (Nat.not_lt_zero _)
  current := fun c m hm => by
    rw [h.store, Store.getClass_of_not (Nat.not_lt_zero _)] at hm
    exact absurd hm List.not_mem_nil
  inheritsDefaults := fun c hc => by
    rw [h.store] at hc
    exact absurd hc (Nat.not_lt_zero _)
  nodup := by
    rw [h.registry]
    exact List.nodup_nil
  registered := fun c hc => by
    rw [h.registry] at hc
    exact absurd hc List.not_mem_nil

section Registered

variable {token : Token} {classes : List (Token × ClassId)}

theorem mem_insertByToken {e : Token × ClassId} (h : e ∈ Registry.insertByToken token c classes) :
    e = (token, c) ∨ e ∈ classes := by
  induction classes with
  | nil => exact Or.inl (List.mem_singleton.mp h)
  | cons e' rest ih =>
    obtain ⟨u, d⟩ := e'
    unfold Registry.insertByToken at h
    split at h
    · rcases List.mem_cons.mp h with rfl | h
      · exact Or.inl rfl
      · exact Or.inr (List.mem_cons_of_mem _ h)
    · split at h
      · rcases List.mem_cons.mp h with rfl | h
        · exact Or.inl rfl
        · exact Or.inr h
      · rcases List.mem_cons.mp h with rfl | h
        · exact Or.inr List.mem_cons_self
        · exact (ih h).imp_right (List.mem_cons_of_mem _)

/-- A class that is not registered yet is registered once. -/
theorem nodup_insertByToken (h : (classes.map (·.2)).Nodup) (hc : c ∉ classes.map (·.2)) :
    ((Registry.insertByToken token c classes).map (·.2)).Nodup := by
  induction classes with
  | nil => exact List.nodup_cons.mpr ⟨List.not_mem_nil, List.nodup_nil⟩
  | cons e rest ih =>
    obtain ⟨u, d⟩ := e
    rw [List.map_cons, List.mem_cons, not_or] at hc
    obtain ⟨hnot, hrest⟩ := List.nodup_cons.mp h
    unfold Registry.insertByToken
    split
    · exact List.nodup_cons.mpr ⟨hc.2, hrest⟩
    · split
      · exact List.nodup_cons.mpr ⟨fun hmem => (List.mem_cons.mp hmem).elim hc.1 hc.2, h⟩
      · refine List.nodup_cons.mpr ⟨fun hmem => ?_, ih hrest hc.2⟩
        obtain ⟨e', he', heq⟩ := List.mem_map.mp hmem
        rcases mem_insertByToken he' with rfl | he'
        · exact hc.1 heq
        · exact hnot (heq ▸ List.mem_map_of_mem (f := (·.2)) he')

end Registered

/-- What is linked after a definition was there and linked before. -/
theorem Defines.of_linked (hd : l.Defines t c) {e : ClassId} (he : t.store.Linked e) :
    l.store.HasClass e ∧ l.store.Linked e ∧ t.store.getClass e = l.store.getClass e := by
  have hec : e ≠ c := fun hec => by
    rw [hec, Store.Linked, Class.isLinked, hd.tables] at he
    exact absurd he (by simp)
  have hhas := ((hd.hasClass_iff e).mp he.hasClass).resolve_right hec
  have heq := hd.others e hhas
  exact ⟨hhas, by rwa [Store.Linked, ← heq], heq⟩

/-- A definition gives no class tables. -/
theorem Defines.tables_eq (hd : l.Defines t c) (e : ClassId) :
    (t.store.getClass e).tables = (l.store.getClass e).tables := by
  by_cases he : l.store.HasClass e
  · rw [hd.others e he]
  · have hnone : (l.store.getClass e).tables = none := by
      rw [Store.getClass_of_not he]
      rfl
    by_cases hec : e = c
    · rw [hec, hd.tables, ← hec, hnone]
    · rw [hnone, Store.getClass_of_not fun het => ((hd.hasClass_iff e).mp het).elim he hec]
      rfl

/-- A definition adds its class to a sound linker. -/
theorem Sound.defines (h : l.Sound) (hd : l.Defines t c) : t.Sound where
  wellFormed := hd.wellFormed
  linkedUp := fun e he p hp => by
    obtain ⟨hhas, hlinked, -⟩ := hd.of_linked he
    rw [hd.grows.extends.definedFrom hhas] at hp
    exact (h.linkedUp e hlinked p hp).grows hd.grows
  current := fun e m hm => by
    rw [Store.isOld, hd.grows.isOld]
    by_cases hhas : l.store.HasClass e
    · rw [hd.others e hhas] at hm
      exact h.current e m hm
    · by_cases hec : e = c
      · rw [hec] at hm
        rw [Store.getMethod_of_not (hd.methods m hm)]
        rfl
      · have hnot : ¬ t.store.HasClass e := fun he => ((hd.hasClass_iff e).mp he).elim hhas hec
        rw [Store.getClass_of_not hnot] at hm
        exact absurd hm List.not_mem_nil
  inheritsDefaults := fun e he hunlinked => by
    rcases (hd.hasClass_iff e).mp he with hhas | rfl
    · refine (h.inheritsDefaults e hhas fun hlinked => hunlinked (hlinked.grows hd.grows)).of_eq
        h.wellFormed hhas hd.grows.extends ?_
      rw [hd.others e hhas]
    · exact hd.inheritsDefaults
  nodup := by
    rw [Registry.all, hd.classes]
    refine nodup_insertByToken h.nodup fun hmem => ?_
    have hhas := h.registered c hmem
    rw [hd.isNew] at hhas
    exact absurd hhas (Nat.lt_irrefl _)
  registered := fun e he => by
    rw [Registry.all, hd.classes] at he
    obtain ⟨entry, hentry, rfl⟩ := List.mem_map.mp he
    rw [hd.hasClass_iff]
    rcases mem_insertByToken hentry with rfl | hentry
    · exact Or.inr rfl
    · exact Or.inl (h.registered _ (List.mem_map_of_mem (f := (·.2)) hentry))

theorem Sound.keeps (h : l.Sound) (hk : l.Keeps t) : t.Sound where
  wellFormed := by
    rw [hk.store, hk.root]
    exact h.wellFormed
  linkedUp := hk.store ▸ h.linkedUp
  current := hk.store ▸ h.current
  inheritsDefaults := hk.store ▸ h.inheritsDefaults
  nodup := by
    rw [all_eq_of_classes hk.classes]
    exact h.nodup
  registered := fun c hc => by
    rw [all_eq_of_classes hk.classes] at hc
    rw [hk.store]
    exact h.registered c hc

theorem Continues.classes (h : l.Continues t) : t.registry.classes = l.registry.classes := by
  rw [h.registry]

theorem Continues.root (h : l.Continues t) : t.registry.root = l.registry.root := by
  rw [h.registry]

/-- Linking makes classes linked and changes nothing that a definition or a redefinition would. -/
theorem Sound.reaches {I : Store → Prop} (h : l.Sound) (hr : Reaches l.registry.root I l t) :
    t.Sound where
  wellFormed := by
    rw [hr.continues.root]
    exact hr.wellFormed
  linkedUp := hr.linkedUp
  current := fun c m hm => by
    rw [Store.isOld, hr.grows.isOld]
    rw [hr.methods] at hm
    exact h.current c m hm
  inheritsDefaults := fun c hc hunlinked => by
    rw [Store.HasClass, hr.size_eq] at hc
    exact (h.inheritsDefaults c hc fun hlinked => hunlinked (hlinked.grows hr.grows)).of_eq
      h.wellFormed hc hr.grows.extends (hr.grows.defaults hc)
  nodup := by
    rw [all_eq_of_classes hr.continues.classes]
    exact h.nodup
  registered := fun c hc => by
    rw [all_eq_of_classes hr.continues.classes] at hc
    exact hr.grows.hasClass (h.registered c hc)

theorem Sound.numbers (h : l.Sound) (hn : l.Numbers t) : t.Sound := by
  obtain ⟨n, rfl⟩ := hn
  exact ⟨h.wellFormed, h.linkedUp, h.current, h.inheritsDefaults, h.nodup, h.registered⟩

/-- Redefining keeps the tables in place. -/
theorem Redefined.linked_iff {r : RevisedClass} (h : Redefined l t r) :
    t.store.Linked c ↔ l.store.Linked c := by
  rw [Store.Linked, Store.Linked, Class.isLinked, Class.isLinked]
  by_cases hc : c ∈ l.registry.all
  · rw [h.tables c hc, Option.isSome_map]
  · rw [h.others c hc]

theorem Redefined.classes {r : RevisedClass} (h : Redefined l t r) :
    t.registry.classes = l.registry.classes ∧ t.registry.root = l.registry.root := by
  obtain ⟨n, hn⟩ := h.registry
  rw [hn]
  exact ⟨rfl, rfl⟩

theorem Sound.redefined {r : RevisedClass} (h : l.Sound) (hholder : l.store.HasClass r.holder)
    (hr : Redefined l t r) : t.Sound where
  wellFormed := by
    rw [hr.classes.2]
    exact hr.wellFormed
  linkedUp := fun c hc p hp => by
    have hhas := hc.hasClass
    rw [Store.HasClass, hr.size_eq] at hhas
    rw [hr.extends_.definedFrom hhas] at hp
    exact hr.linked_iff.mpr (h.linkedUp c (hr.linked_iff.mp hc) p hp)
  current := fun c m hm => by
    rw [hr.methods] at hm
    split at hm
    · exact (hr.declared m hm).2
    · rename_i hne
      rw [hr.isOld m fun hm' => hne ?_]
      · exact h.current c m hm
      · by_cases hc : l.store.HasClass c
        · exact h.wellFormed.eq_of_mem_methods hc hholder hm hm'
        · rw [Store.getClass_of_not hc] at hm
          exact absurd hm List.not_mem_nil
  inheritsDefaults := fun c hc hunlinked => by
    rw [Store.HasClass, hr.size_eq] at hc
    rw [hr.linked_iff] at hunlinked
    exact (h.inheritsDefaults c hc hunlinked).of_eq h.wellFormed hc hr.extends_
      (hr.defaults c hunlinked)
  nodup := by
    rw [all_eq_of_classes hr.classes.1]
    exact h.nodup
  registered := fun c hc => by
    rw [all_eq_of_classes hr.classes.1] at hc
    exact hr.extends_.hasClass (h.registered c hc)

/-! ## Every step -/

/-- Linking keeps nothing in particular. -/
theorem linkRule_true (root : Option ClassId) (config : Config) :
    LinkRule root config (fun _ => True) (fun _ => True) :=
  ⟨fun _ _ _ _ _ _ _ => trivial, fun _ _ _ _ _ _ _ _ _ _ => trivial,
    fun _ _ _ _ _ _ _ _ _ => trivial, fun _ => trivial⟩

theorem Sound.redefine_outcome (h : l.Sound) (hholder : l.store.HasClass holder)
    (ds : List Declaration) :
    Outcome (redefine holder ds) l (fun _ => Sound) (fun _ => Sound) := by
  refine (Linker.redefine_outcome h.wellFormed hholder h.nodup ds).imp (fun _ t ht => ?_)
    (fun _ t ht => ?_)
  · obtain ⟨r, -, rfl, hr, -⟩ := ht
    exact h.redefined hholder hr
  · rcases ht with ⟨hn, -⟩ | ⟨r, -, rfl, hr, -⟩
    · exact h.numbers hn
    · exact h.redefined hholder hr

/-- **Every command keeps a linker sound.** -/
theorem Sound.after (h : l.Sound) {x : Command} (hx : x.Admissible l.store) :
    (x.after l).Sound := by
  cases x with
  | define d =>
    exact ((define_outcome h.wellFormed hx).imp (fun _ _ ht => h.defines ht)
      (fun _ _ ht => h.keeps ht)).final
  | link c =>
    exact ((link_outcome (linkRule_true _ _) rfl h.wellFormed h.linkedUp trivial hx).imp
      (fun _ _ ht => h.reaches ht.2) (fun _ _ ht => h.reaches ht.2)).final
  | linkAll batch =>
    exact ((linkAll_outcome (linkRule_true _ _) rfl h.wellFormed h.linkedUp trivial hx).imp
      (fun _ _ ht => h.reaches ht) (fun _ _ ht => h.reaches ht.2)).final
  | redefine holder ds => exact (h.redefine_outcome hx ds).final
  | configure config conflicts consultsConflicts =>
    exact ⟨h.wellFormed, h.linkedUp, h.current, h.inheritsDefaults, h.nodup, h.registered⟩

theorem Reachable.sound {allowed : Command → Prop} (h : Reachable allowed l) : l.Sound := by
  induction h with
  | start hempty _ => exact hempty.sound
  | step _ _ hx ih => exact ih.after hx

end Linker
end ClassLinking
