import ClassLinking.Proofs.Indices
import ClassLinking.Proofs.Store

/-!
# Where a method is placed

Filling a virtual table places one method after the other.  This file says what placing one of them
does to the slots, without the events that it notes on the way.

Whether a slot is taken over is a question about its occupant alone, `FillEnv.takes`.  A method
meets every inherited slot once, so the slots that it takes over are those whose occupants answer
the question with yes when it begins (`FillEnv.taken`), and whether it is to get a slot of its own
follows from them (`FillEnv.needsSlot`).  The slot that a method came to last, `FillEnv.lastSlot?`,
is its dispatch index if it is a declared method, and is listed if it is a default.

`FillEnv.Places` puts this together for one method and `FillEnv.PlacesAll` for a list of methods;
`FillEnv.ListsSlots` does so for the defaults, whose slots are listed.
A filling pass that answers has placed all of its methods; one that fails has placed a part of them
and was refused at the next one, for one of the reasons that `FillEnv.Refuses` lists.
-/

namespace ClassLinking

/-- The method in a slot of a table in the course of being filled. -/
def Fill.occupant (f : Fill) (slot : Nat) : Option MethodId := f.slots[slot]?.join

/-- Only a slot that exists is occupied. -/
theorem Fill.lt_of_any_occupant (f : Fill) {slot : Nat} {q : MethodId → Bool}
    (h : (f.occupant slot).any q = true) : slot < f.slots.size := by
  by_contra hlt
  rw [Fill.occupant, Array.getElem?_eq_none (by omega)] at h
  exact absurd h (by simp)

/-- The two fills have the same slots, and the same of them are in use. -/
def Fill.SameSlots (f f' : Fill) : Prop := f'.slots = f.slots ∧ f'.used = f.used

namespace FillEnv

variable (env : FillEnv) (c : ClassId) (p : Placement)

/-- What an ancestor of `holder` has in the slot that the method overrides, if transitive overriding
lets it look there. -/
def inherits (slot : Nat) (occupant : MethodId) (holder : ClassId) :
    Except LinkError (Option MethodId) :=
  if env.transitive && !(env.store.getMethod occupant).access.isPrivate then
    env.store.transitivelyOverridden? (env.store.selector p.method) slot p.loader p.className
      (env.store.getClass holder).ancestors
  else .ok none

/-- Whether the method may take a slot over from an occupant that `holder` declares. -/
def reaches (slot : Nat) (occupant : MethodId) (holder : ClassId) : Bool :=
  p.isDefault || env.store.isOverridable occupant p.loader p.className ||
    (match env.inherits p slot occupant holder with
    | .ok (some m) => (env.store.holder? m).isSome
    | _ => false)

/-- Whether the method takes a slot over from its occupant. -/
def takes (slot : Nat) (occupant : MethodId) : Bool :=
  decide (env.store.selector occupant = env.store.selector p.method) &&
    (env.store.holder? occupant).any (env.reaches p slot occupant)

/-- What it takes to take a slot over. -/
theorem takes_iff {env : FillEnv} {p : Placement} {slot : Nat} {occupant : MethodId} :
    env.takes p slot occupant = true ↔
      env.store.selector occupant = env.store.selector p.method ∧
      ∃ h, env.store.holder? occupant = some h ∧
        (p.isDefault = true ∨ env.store.isOverridable occupant p.loader p.className = true ∨
          env.transitive = true ∧ (env.store.getMethod occupant).access.isPrivate = false ∧
            ∃ x, env.store.transitivelyOverridden? (env.store.selector p.method) slot p.loader
              p.className (env.store.getClass h).ancestors = .ok (some x) ∧
                (env.store.holder? x).isSome = true) := by
  simp only [takes, Bool.and_eq_true, decide_eq_true_eq, Option.any_eq_true]
  refine and_congr_right fun _ => exists_congr fun h => and_congr_right fun _ => ?_
  simp only [reaches, inherits, Bool.or_eq_true, or_assoc]
  refine or_congr_right (or_congr_right ?_)
  by_cases hlook : (env.transitive && !(env.store.getMethod occupant).access.isPrivate) = true
  · rw [if_pos hlook]
    simp only [Bool.and_eq_true, Bool.not_eq_true'] at hlook
    simp only [hlook, true_and]
    generalize env.store.transitivelyOverridden? (env.store.selector p.method) slot p.loader
      p.className (env.store.getClass h).ancestors = found
    rcases found with e | _ | x <;> simp
  · rw [if_neg hlook]
    simp only [Bool.and_eq_true, Bool.not_eq_true', not_and] at hlook
    simp only [Bool.false_eq_true, false_iff]
    exact fun ⟨htrans, hprivate, _⟩ => hlook htrans hprivate

/-- A default takes a slot over from every occupant of its selector. -/
theorem takes_default {env : FillEnv} {c h : ClassId} {m occupant : MethodId} {slot : Nat}
    (hsel : env.store.selector occupant = env.store.selector m)
    (hh : env.store.holder? occupant = some h) :
    env.takes (env.placement c m true) slot occupant = true := by
  simp [takes, reaches, placement, hsel, hh]

/-- Why a method is refused one of the given slots: two loaders disagree about a class of its
descriptor, or looking through the tables of an occupant's ancestors fails. -/
inductive Refuses (f : Fill) (slots : List Nat) : LinkError → Prop where
  | conflict (className : String) (sel : Selector) (typeName : String) (loader other : LoaderId) :
    Refuses f slots (.loaderConstraint className sel typeName loader other)
  | ancestors (slot : Nat) (occupant : MethodId) (holder : ClassId) (e : LinkError) :
    slot ∈ slots → f.occupant slot = some occupant →
    env.store.selector occupant = env.store.selector p.method →
    env.store.holder? occupant = some holder →
    env.store.transitivelyOverridden? (env.store.selector p.method) slot p.loader p.className
      (env.store.getClass holder).ancestors = .error e → Refuses f slots e

/-! ## Meeting slots -/

section Slots

variable {env c p} {f : Fill}

theorem Refuses.mono {slots more : List Nat} {e : LinkError} (h : env.Refuses p f slots e)
    (hmore : slots ⊆ more) : env.Refuses p f more e := by
  cases h with
  | conflict => exact .conflict ..
  | ancestors slot occupant holder e hmem hocc hsel hholder he =>
    exact .ancestors slot occupant holder e (hmore hmem) hocc hsel hholder he

theorem overridden_outcome (slot : Nat) (occupant : MethodId) (holder : ClassId) :
    Outcome (env.overridden? p slot occupant holder) f
      (fun owner f' => owner.isSome = env.reaches p slot occupant holder ∧ f.SameSlots f')
      (fun e _ => env.store.transitivelyOverridden? (env.store.selector p.method) slot p.loader
        p.className (env.store.getClass holder).ancestors = .error e) := by
  unfold overridden? reaches inherits
  by_cases hdirect :
      (p.isDefault || env.store.isOverridable occupant p.loader p.className) = true
  · simp [hdirect, Fill.SameSlots]
  · rw [Bool.not_eq_true] at hdirect
    by_cases hlook : (env.transitive && !(env.store.getMethod occupant).access.isPrivate) = true
    · simp only [hdirect, hlook, Bool.false_eq_true, if_false, if_true, Bool.false_or]
      cases hfound : env.store.transitivelyOverridden? (env.store.selector p.method) slot p.loader
          p.className (env.store.getClass holder).ancestors with
      | error e => simp
      | ok found =>
        cases found with
        | none => simp [Fill.SameSlots]
        | some m => simp [FillM.note, Fill.SameSlots]
    · rw [Bool.not_eq_true] at hlook
      simp [hdirect, hlook, Fill.SameSlots]

theorem takeOver_outcome (slot : Nat) (occupant : MethodId) (owner : ClassId) :
    Outcome (env.takeOver c p slot occupant owner) f
      (fun _ f' => f'.slots = f.slots.setIfInBounds slot (some p.method) ∧ f'.used = f.used)
      (fun e _ => env.Refuses p f [slot] e) := by
  unfold takeOver
  dsimp only
  cases env.conflict? (env.store.selector p.method).descriptor p.loader
      (env.store.getClass owner).loader with
  | some typeName =>
    simp only [FillM.note, outcome_bind, outcome_modify, outcome_throw]
    exact Refuses.conflict ..
  | none =>
    by_cases hdefault : p.isDefault = true
    · simp [hdefault, FillM.setSlot, FillM.note]
    · simp [hdefault, FillM.setSlot, FillM.setIndex, FillM.note]

/-- A method takes the slot that it meets over or leaves the slots alone, as `takes` says. -/
theorem meetSlot_outcome (slot : Nat) :
    Outcome (env.meetSlot c p slot) f
      (fun took f' => took = (f.occupant slot).any (env.takes p slot) ∧ f'.used = f.used ∧
        f'.slots = if took then f.slots.setIfInBounds slot (some p.method) else f.slots)
      (fun e _ => env.Refuses p f [slot] e) := by
  unfold meetSlot
  have hoccupant : f.slots[slot]?.join = f.occupant slot := rfl
  simp only [outcome_bind, outcome_get, hoccupant]
  cases hocc : f.occupant slot with
  | none => simp
  | some occupant =>
    by_cases hsel : env.store.selector occupant = env.store.selector p.method
    · simp only [hsel, ne_eq, not_true_eq_false, if_false, Option.any_some, takes, decide_true,
        Bool.true_and]
      cases hholder : env.store.holder? occupant with
      | none => simp
      | some holder =>
        simp only [outcome_bind, Option.any_some]
        refine (overridden_outcome slot occupant holder).imp (fun owner f₁ h => ?_)
          (fun e _ he =>
            .ancestors slot occupant holder e (List.mem_singleton_self _) hocc hsel hholder he)
        obtain ⟨howner, hslots, hused⟩ := h
        cases owner with
        | none =>
          rw [← howner]
          simp [FillM.note, hslots, hused]
        | some owner =>
          rw [← howner]
          simp only [outcome_bind, outcome_pure, Option.isSome_some, if_true, true_and]
          refine (takeOver_outcome slot occupant owner).imp (fun _ f₂ h₂ => ?_) (fun e _ he => ?_)
          · rw [h₂.1, h₂.2, hslots, hused]
            exact ⟨rfl, rfl⟩
          · cases he with
            | conflict => exact .conflict ..
            | ancestors slot' occ' holder' e hmem hocc' hsel' hholder' he' =>
              refine .ancestors slot' occ' holder' e hmem ?_ hsel' hholder' he'
              rw [← hocc', Fill.occupant, Fill.occupant, hslots]
    · simp [hsel, takes]

/-- What is in the slots after a method has met one of them. -/
theorem occupant_of_met {f₁ : Fill} {slot : Nat} {took : Bool}
    (htook : took = (f.occupant slot).any (env.takes p slot))
    (hslots : f₁.slots =
      if took then f.slots.setIfInBounds slot (some p.method) else f.slots) (i : Nat) :
    f₁.occupant i = if took = true ∧ i = slot then some p.method else f.occupant i := by
  rw [Fill.occupant, hslots]
  cases took with
  | false => simp [Fill.occupant]
  | true =>
    have hlt := f.lt_of_any_occupant htook.symm
    simp only [if_true, true_and]
    by_cases hi : i = slot
    · simp [hi, hlt]
    · simp [hi, Ne.symm hi, Fill.occupant]

/-- Meeting several slots, each once: none of them is changed before the method comes to it. -/
theorem meetSlots_outcome {slots : List Nat} (hnodup : slots.Nodup) :
    Outcome (env.meetSlots c p slots) f
      (fun taken f' => taken = slots.filter (fun i => (f.occupant i).any (env.takes p i)) ∧
        f'.used = f.used ∧ f'.slots.size = f.slots.size ∧
        ∀ i, f'.occupant i = if i ∈ taken then some p.method else f.occupant i)
      (fun e _ => env.Refuses p f slots e) := by
  induction slots generalizing f with
  | nil => simp [meetSlots]
  | cons slot rest ih =>
    obtain ⟨hnot, hrest⟩ := List.nodup_cons.mp hnodup
    simp only [meetSlots, outcome_bind, outcome_pure]
    refine (meetSlot_outcome slot).imp (fun took f₁ h₁ => ?_) (fun e _ he => he.mono (by simp))
    obtain ⟨htook, hused, hslots⟩ := h₁
    have hocc := occupant_of_met htook hslots
    have hocc_rest : ∀ i ∈ rest, f₁.occupant i = f.occupant i := by
      intro i hi
      have hne : i ≠ slot := fun h => hnot (h ▸ hi)
      rw [hocc, if_neg fun h => hne h.2]
    refine (ih hrest).imp (fun taken f₂ h₂ => ?_) (fun e _ he => ?_)
    · obtain ⟨htaken, hused₂, hsize₂, hocc₂⟩ := h₂
      have hfilter : taken = rest.filter (fun i => (f.occupant i).any (env.takes p i)) := by
        rw [htaken]
        refine List.filter_congr fun i hi => ?_
        rw [hocc_rest i hi]
      refine ⟨?_, hused₂.trans hused, ?_, fun i => ?_⟩
      · rw [List.filter_cons, ← htook, hfilter]
      · rw [hsize₂, hslots]
        cases took <;> simp
      · rw [hocc₂, hocc]
        cases took <;> by_cases hi : i = slot <;> simp [hi]
    · cases he with
      | conflict => exact .conflict ..
      | ancestors slot' occ' holder' e hmem hocc' hsel hholder he' =>
        rw [hocc_rest slot' hmem] at hocc'
        exact .ancestors slot' occ' holder' e (List.mem_cons_of_mem _ hmem) hocc' hsel hholder he'

end Slots

/-! ## Placing a method -/

/-- The inherited slots that a method takes over when it is placed in the table of `c`. -/
def taken (inherited : Nat) (f : Fill) : List Nat :=
  if (env.store.getMethod p.method).isBoundStatically || (env.store.getClass c).superclass?.isNone
  then []
  else (List.range inherited).filter fun i => (f.occupant i).any (env.takes p i)

/-- Whether a method gets a slot of its own when it is placed in the table of `c`. -/
def needsSlot (inherited : Nat) (f : Fill) : Bool :=
  let x := env.store.getMethod p.method
  let k := env.store.getClass c
  !x.isBoundStatically && !env.store.isFinalMethod p.method k.flags && !k.isInterface &&
    (k.superclass?.isNone || x.access.isPackagePrivate || (env.taken c p inherited f).isEmpty)

/-- The slot that a method comes to last when it is placed in the table of `c`: the one of its own
or the last one that it takes over. -/
def lastSlot? (inherited : Nat) (f : Fill) : Option Nat :=
  if env.needsSlot c p inherited f then some f.used else (env.taken c p inherited f).getLast?

/-- The dispatch index that a method gets when it is placed in the table of `c`, unless it is a
default. -/
def indexGiven (inherited : Nat) (f : Fill) : Option DispatchIndex :=
  if p.isDefault then none
  else some (((env.lastSlot? c p inherited f).map .virtual).getD (env.initialIndex c p.method))

/-- Placing a method in the table of `c` leads from `f` to `f'`. -/
structure Places (inherited : Nat) (f f' : Fill) : Prop where
  size : f'.slots.size = f.slots.size
  used : f'.used = f.used + (env.needsSlot c p inherited f).toNat
  room : env.needsSlot c p inherited f = true → f.used < f.slots.size
  occupant : ∀ i, f'.occupant i =
    if i ∈ env.taken c p inherited f ∨ (env.needsSlot c p inherited f = true ∧ i = f.used)
    then some p.method else f.occupant i
  gives : Fill.Gives p.method (env.indexGiven c p inherited f) f f'

/-- Why a method cannot be placed in the table of `c`: it is refused a slot, or there is none left
for it. -/
inductive Rejects (inherited : Nat) (f : Fill) : LinkError → Prop where
  | refused (e : LinkError) : env.Refuses p f (List.range inherited) e → Rejects inherited f e
  | full : env.needsSlot c p inherited f = true → f.slots.size ≤ f.used →
    Rejects inherited f
      (.inconsistent (.vtableOverflow (env.store.getClass c).name f.slots.size))

section Place

variable {env c p} {inherited : Nat} {f f₁ : Fill} {m : MethodId} {isDefault : Bool}

theorem SameSlots.occupant (h : f.SameSlots f₁) (i : Nat) : f₁.occupant i = f.occupant i := by
  rw [Fill.occupant, Fill.occupant, h.1]

/-- Meeting the inherited slots after something was noted that does not concern them. -/
theorem meetInherited_outcome (h : f.SameSlots f₁) :
    Outcome (env.meetSlots c p (List.range inherited)) f₁
      (fun taken f' =>
        taken = (List.range inherited).filter (fun i => (f.occupant i).any (env.takes p i)) ∧
          f'.used = f.used ∧ f'.slots.size = f.slots.size ∧
          ∀ i, f'.occupant i = if i ∈ taken then some p.method else f.occupant i)
      (fun e _ => env.Refuses p f (List.range inherited) e) := by
  refine (meetSlots_outcome List.nodup_range).imp (fun taken f' h' => ?_) (fun e _ he => ?_)
  · simpa only [SameSlots.occupant h, h.1, h.2] using h'
  · cases he with
    | conflict => exact .conflict ..
    | ancestors slot occupant holder e hmem hocc hsel hholder he =>
      rw [SameSlots.occupant h] at hocc
      exact .ancestors slot occupant holder e hmem hocc hsel hholder he

theorem sameSlots_startPlacing : f.SameSlots (env.startPlacing c m isDefault f) := by
  unfold startPlacing
  split <;> exact ⟨rfl, rfl⟩

/-- A method that is not bound statically takes over what it can, starting from the slots of `f`. -/
theorem placeOver_outcome (h : f.SameSlots f₁)
    (hbound : (env.store.getMethod m).isBoundStatically = false) :
    Outcome (env.placeOver c inherited m isDefault) f₁
      (fun placed f' =>
        placed = ⟨env.taken c (env.placement c m isDefault) inherited f,
          env.needsSlot c (env.placement c m isDefault) inherited f⟩ ∧
        f'.used = f.used ∧ f'.slots.size = f.slots.size ∧
        ∀ i, f'.occupant i = if i ∈ placed.taken then some m else f.occupant i)
      (fun e _ => env.Refuses (env.placement c m isDefault) f (List.range inherited) e) := by
  unfold placeOver needsSlot taken
  simp only [placement, hbound, Bool.false_or, Bool.not_false, Bool.true_and]
  cases (env.store.getClass c).superclass? with
  | none => simp [h.1, h.2, SameSlots.occupant h]
  | some q =>
    simp only [outcome_bind, outcome_pure, Option.isNone_some, Bool.false_eq_true, if_false,
      Bool.false_or]
    refine (meetInherited_outcome h).imp (fun taken f' h' => ?_) (fun e _ he => he)
    obtain ⟨htaken, hused, hsize, hocc⟩ := h'
    exact ⟨by rw [htaken], hused, hsize, hocc⟩

theorem place_outcome :
    Outcome (env.place c inherited m isDefault) f
      (fun placed f' =>
        placed = ⟨env.taken c (env.placement c m isDefault) inherited f,
          env.needsSlot c (env.placement c m isDefault) inherited f⟩ ∧
        f'.used = f.used ∧ f'.slots.size = f.slots.size ∧
        ∀ i, f'.occupant i = if i ∈ placed.taken then some m else f.occupant i)
      (fun e _ => env.Refuses (env.placement c m isDefault) f (List.range inherited) e) := by
  have hstart : f.SameSlots (env.startPlacing c m isDefault f) := sameSlots_startPlacing
  rw [outcome_place]
  cases hbound : (env.store.getMethod m).isBoundStatically with
  | true =>
    rw [if_pos rfl]
    refine ⟨?_, hstart.2, congrArg Array.size hstart.1, fun i => ?_⟩
    · simp [needsSlot, taken, placement, hbound]
    · rw [SameSlots.occupant hstart, if_neg List.not_mem_nil]
  | false =>
    rw [if_neg Bool.false_ne_true]
    exact placeOver_outcome hstart hbound

theorem append_outcome (name : String) :
    Outcome (FillM.append name m) f
      (fun slot f' => slot = f.used ∧ f.used < f.slots.size ∧ f'.slots.size = f.slots.size ∧
        f'.used = f.used + 1 ∧ f'.indices = f.indices ∧
        ∀ i, f'.occupant i = if i = f.used then some m else f.occupant i)
      (fun e _ => f.slots.size ≤ f.used ∧
        e = .inconsistent (.vtableOverflow name f.slots.size)) := by
  by_cases hlt : f.used < f.slots.size
  · have h : FillM.append name m f = .ok f.used
        { f with slots := f.slots.setIfInBounds f.used (some m), used := f.used + 1 } := if_pos hlt
    rw [outcome_of_ok h]
    refine ⟨rfl, hlt, by simp, rfl, rfl, fun i => ?_⟩
    by_cases hi : i = f.used
    · simp [Fill.occupant, hi, hlt]
    · simp [Fill.occupant, hi, Ne.symm hi]
  · have h : FillM.append name m f = .error (.inconsistent (.vtableOverflow name f.slots.size)) f :=
      if_neg hlt
    rw [outcome_of_error h]
    exact ⟨by omega, rfl⟩

/-- A method that needs no slot of its own is placed once it has taken slots over. -/
theorem Places.of_stays {f' : Fill} (hneeds : env.needsSlot c p inherited f = false)
    (hsize : f'.slots.size = f.slots.size) (hused : f'.used = f.used)
    (hocc : ∀ i, f'.occupant i =
      if i ∈ env.taken c p inherited f then some p.method else f.occupant i)
    (hgives : Fill.Gives p.method
      (env.indexPlaced c p.method p.isDefault (env.taken c p inherited f)) f f') :
    env.Places c p inherited f f' where
  size := hsize
  used := by rw [hneeds, hused, Bool.toNat_false, Nat.add_zero]
  room := fun h => by
    rw [hneeds] at h
    cases h
  occupant := fun i => by rw [hocc, hneeds]; simp
  gives := by
    unfold indexGiven lastSlot?
    rw [hneeds]
    exact hgives

/-- A method that needs a slot of its own is placed once it is appended, too. -/
theorem Places.of_appended {f' : Fill} (hneeds : env.needsSlot c p inherited f = true)
    (hlt : f.used < f.slots.size) (hsize : f'.slots.size = f.slots.size)
    (hused : f'.used = f.used + 1)
    (hocc : ∀ i, f'.occupant i = if i = f.used then some p.method
      else if i ∈ env.taken c p inherited f then some p.method else f.occupant i)
    (hgives : Fill.Gives p.method
      (if p.isDefault then none else some (.virtual f.used)) f f') :
    env.Places c p inherited f f' where
  size := hsize
  used := by rw [hneeds, hused, Bool.toNat_true]
  room := fun _ => hlt
  occupant := fun i => by
    rw [hocc, hneeds]
    by_cases hi : i = f.used
    · simp [hi]
    · simp [hi]
  gives := by
    unfold indexGiven lastSlot?
    rw [hneeds]
    exact hgives

/-- A declared method is placed or rejected. -/
theorem placeDeclared_outcome :
    Outcome (env.placeDeclared c inherited m) f
      (fun _ f' => env.Places c (env.placement c m false) inherited f f')
      (fun e _ => env.Rejects c (env.placement c m false) inherited f e) := by
  unfold placeDeclared
  simp only [outcome_bind]
  refine (place_outcome.and place_indices).imp (fun placed f₁ h => ?_)
    (fun e _ he => .refused e he.1)
  obtain ⟨⟨rfl, hused, hsize, hocc⟩, hgives⟩ := h
  cases hneeds : env.needsSlot c (env.placement c m false) inherited f with
  | false =>
    simp only [Bool.false_eq_true, if_false, outcome_pure]
    exact .of_stays hneeds hsize hused hocc hgives
  | true =>
    simp only [if_true, outcome_bind, FillM.setIndex, FillM.note, outcome_modify]
    refine (append_outcome _).imp (fun slot f₂ h₂ => ?_) (fun e _ he => ?_)
    · obtain ⟨rfl, hlt, hsize₂, hused₂, hindices, hocc₂⟩ := h₂
      simp only [hused, hsize, hocc] at hlt hsize₂ hused₂ hocc₂
      refine .of_appended hneeds hlt hsize₂ hused₂ hocc₂ ?_
      have hpush : f₂.indices.push (m, .virtual f₁.used) =
          f₁.indices.push (m, .virtual f.used) := by rw [hindices, hused]
      exact hgives.trans (.of_push hpush)
    · rw [hused, hsize] at he
      rw [he.2]
      exact .full hneeds he.1

/-- An inherited default method is placed and its slot listed, or it is rejected. -/
theorem placeDefault_outcome :
    Outcome (env.placeDefault c inherited m) f
      (fun slot f' => env.Places c (env.placement c m true) inherited f f' ∧
        slot = (env.lastSlot? c (env.placement c m true) inherited f).getD 0)
      (fun e _ => env.Rejects c (env.placement c m true) inherited f e) := by
  unfold placeDefault
  simp only [outcome_bind]
  refine (place_outcome.and place_indices).imp (fun placed f₁ h => ?_)
    (fun e _ he => .refused e he.1)
  obtain ⟨⟨rfl, hused, hsize, hocc⟩, hgives⟩ := h
  cases hneeds : env.needsSlot c (env.placement c m true) inherited f with
  | false =>
    simp only [Bool.false_eq_true, if_false, outcome_pure]
    refine ⟨.of_stays hneeds hsize hused hocc hgives, ?_⟩
    rw [lastSlot?, hneeds]
    rfl
  | true =>
    simp only [if_true, outcome_bind, FillM.note, outcome_modify, outcome_pure]
    refine (append_outcome _).imp (fun slot f₂ h₂ => ?_) (fun e _ he => ?_)
    · obtain ⟨rfl, hlt, hsize₂, hused₂, hindices, hocc₂⟩ := h₂
      have hgives₂ := hgives.trans (.of_same hindices)
      simp only [hused, hsize, hocc, Option.none_or] at hlt hsize₂ hused₂ hocc₂ hgives₂
      refine ⟨.of_appended hneeds hlt hsize₂ hused₂ hocc₂ hgives₂, ?_⟩
      rw [lastSlot?, hneeds, hused]
      rfl
    · rw [hused, hsize] at he
      rw [he.2]
      exact .full hneeds he.1

end Place

/-! ## Placing everything -/

/-- Placing a list of methods in order leads from one fill to another. -/
inductive PlacesAll (inherited : Nat) : List Placement → Fill → Fill → Prop where
  | nil (f : Fill) : PlacesAll inherited [] f f
  | cons {p : Placement} {ps : List Placement} {f f₁ f₂ : Fill} :
    env.Places c p inherited f f₁ → PlacesAll inherited ps f₁ f₂ →
    PlacesAll inherited (p :: ps) f f₂

/-- Placing a list of methods in order leads from one fill to another, and the slots that they came
to last are listed. -/
inductive ListsSlots (inherited : Nat) : List Placement → List Nat → Fill → Fill → Prop where
  | nil (f : Fill) : ListsSlots inherited [] [] f f
  | cons {p : Placement} {ps : List Placement} {slots : List Nat} {f f₁ f₂ : Fill} :
    env.Places c p inherited f f₁ → ListsSlots inherited ps slots f₁ f₂ →
    ListsSlots inherited (p :: ps) ((env.lastSlot? c p inherited f).getD 0 :: slots) f f₂

/-- Placing a list of methods gets as far as one that is rejected. -/
def RejectsOneOf (inherited : Nat) (ps : List Placement) (f : Fill) (e : LinkError) : Prop :=
  ∃ before p after f₁, ps = before ++ p :: after ∧ env.PlacesAll c inherited before f f₁ ∧
    env.Rejects c p inherited f₁ e

/-- What a class places: its declared methods, then its defaults. -/
def placements : List Placement :=
  (env.store.getClass c).methods.map (env.placement c · false) ++
    (env.store.getClass c).defaults.map (env.placement c · true)

section PlaceAll

variable {env c p} {inherited : Nat} {f f₁ f₂ : Fill} {ps qs : List Placement} {e : LinkError}

theorem RejectsOneOf.head (h : env.Rejects c p inherited f e) :
    env.RejectsOneOf c inherited (p :: ps) f e :=
  ⟨[], p, ps, f, rfl, .nil f, h⟩

theorem RejectsOneOf.tail (hp : env.Places c p inherited f f₁)
    (h : env.RejectsOneOf c inherited ps f₁ e) : env.RejectsOneOf c inherited (p :: ps) f e := by
  obtain ⟨before, q, after, f', rfl, hbefore, hq⟩ := h
  exact ⟨p :: before, q, after, f', rfl, .cons hp hbefore, hq⟩

theorem PlacesAll.append (h : env.PlacesAll c inherited ps f f₁)
    (h' : env.PlacesAll c inherited qs f₁ f₂) : env.PlacesAll c inherited (ps ++ qs) f f₂ := by
  induction h with
  | nil => exact h'
  | cons hp _ ih => exact .cons hp (ih h')

/-- A list that is placed is placed part by part. -/
theorem PlacesAll.split (h : env.PlacesAll c inherited (ps ++ qs) f f₂) :
    ∃ f₁, env.PlacesAll c inherited ps f f₁ ∧ env.PlacesAll c inherited qs f₁ f₂ := by
  induction ps generalizing f with
  | nil => exact ⟨f, .nil f, h⟩
  | cons p ps ih =>
    cases h with
    | cons hp h =>
      obtain ⟨f₁, h₁, h₂⟩ := ih h
      exact ⟨f₁, .cons hp h₁, h₂⟩

theorem RejectsOneOf.append_left (h : env.RejectsOneOf c inherited ps f e) :
    env.RejectsOneOf c inherited (ps ++ qs) f e := by
  obtain ⟨before, p, after, f', rfl, hbefore, hp⟩ := h
  exact ⟨before, p, after ++ qs, f', by simp, hbefore, hp⟩

theorem RejectsOneOf.append_right (hps : env.PlacesAll c inherited ps f f₁)
    (h : env.RejectsOneOf c inherited qs f₁ e) : env.RejectsOneOf c inherited (ps ++ qs) f e := by
  obtain ⟨before, p, after, f', rfl, hbefore, hp⟩ := h
  exact ⟨ps ++ before, p, after, f', by simp, hps.append hbefore, hp⟩

theorem placeAllDeclared_outcome {ms : List MethodId} :
    Outcome (env.placeAllDeclared c inherited ms) f
      (fun _ f' => env.PlacesAll c inherited (ms.map (env.placement c · false)) f f')
      (fun e _ => env.RejectsOneOf c inherited (ms.map (env.placement c · false)) f e) := by
  induction ms generalizing f with
  | nil => exact .nil f
  | cons m ms ih =>
    simp only [placeAllDeclared, outcome_bind]
    refine placeDeclared_outcome.imp (fun _ f₁ h => ?_) (fun e _ he => .head he)
    exact ih.imp (fun _ f₂ h' => .cons h h') (fun e _ he => .tail h he)

/-- Methods whose slots are listed are placed. -/
theorem ListsSlots.placesAll {slots : List Nat} (h : env.ListsSlots c inherited ps slots f f₁) :
    env.PlacesAll c inherited ps f f₁ := by
  induction h with
  | nil f => exact .nil f
  | cons hp _ ih => exact .cons hp ih

theorem placeAllDefaults_outcome {ms : List MethodId} :
    Outcome (env.placeAllDefaults c inherited ms) f
      (fun slots f' => env.ListsSlots c inherited (ms.map (env.placement c · true)) slots f f')
      (fun e _ => env.RejectsOneOf c inherited (ms.map (env.placement c · true)) f e) := by
  induction ms generalizing f with
  | nil => exact .nil f
  | cons m ms ih =>
    simp only [placeAllDefaults, outcome_bind, outcome_pure]
    refine placeDefault_outcome.imp (fun slot f₁ h => ?_) (fun e _ he => .head he)
    obtain ⟨h, rfl⟩ := h
    exact ih.imp (fun _ f₂ h' => .cons h h') (fun e _ he => .tail h he)

/-- A filling pass places everything and lists the slots of the defaults, or gets as far as a method
that is rejected. -/
theorem placeAll_slots_outcome :
    Outcome (env.placeAll c inherited) f
      (fun slots f' => ∃ f₁, env.PlacesAll c inherited
          ((env.store.getClass c).methods.map (env.placement c · false)) f f₁ ∧
        env.ListsSlots c inherited ((env.store.getClass c).defaults.map (env.placement c · true))
          slots f₁ f')
      (fun e _ => env.RejectsOneOf c inherited (env.placements c) f e) := by
  unfold placeAll
  simp only [outcome_bind]
  refine placeAllDeclared_outcome.imp (fun _ f₁ h => ?_) (fun e _ he => he.append_left)
  exact placeAllDefaults_outcome.imp (fun _ f₂ h' => ⟨f₁, h, h'⟩)
    (fun e _ he => he.append_right h)

theorem placeAll_outcome :
    Outcome (env.placeAll c inherited) f
      (fun _ f' => env.PlacesAll c inherited (env.placements c) f f')
      (fun e _ => env.RejectsOneOf c inherited (env.placements c) f e) :=
  placeAll_slots_outcome.imp (fun _ _ ⟨_, h, h'⟩ => h.append h'.placesAll) (fun _ _ he => he)

end PlaceAll

end FillEnv
end ClassLinking
