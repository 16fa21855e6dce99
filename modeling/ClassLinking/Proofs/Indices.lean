import ClassLinking.Proofs.Outcome
import ClassLinking.VTable.Fill

/-!
# The dispatch indices that filling gives

A filling pass lists the dispatch indices that it gives, and the last one that it gives a method is
the one that stays.  A declared method is marked as not virtual first; it then gets the index of
every slot that it takes over and of the slot that is appended for it.  An inherited default gets no
index, since it keeps the one that its interface has given it.

Every step is about one method, so all that has to be said of it is what it gives that method:
`Fill.Gives`.  This holds of steps that fail, too.
-/

namespace ClassLinking

namespace Fill

/-- The dispatch index that a method got last. -/
def lastIndex? (f : Fill) (m : MethodId) : Option DispatchIndex :=
  f.indices.toList.reverse.lookup m

/-- Between `f` and `f'` the method `m` got the index `given` last, if there is one, and no other
method got any. -/
def Gives (m : MethodId) (given : Option DispatchIndex) (f f' : Fill) : Prop :=
  ∀ x, f'.lastIndex? x = if x = m then given.or (f.lastIndex? x) else f.lastIndex? x

/-- Between `f` and `f'` only `m` got indices, and none if it is a default. -/
def GivesOnly (m : MethodId) (isDefault : Bool) (f f' : Fill) : Prop :=
  ∃ given, Gives m given f f' ∧ (isDefault = true → given = none)

variable {f f₁ f₂ : Fill} {m : MethodId} {given given' : Option DispatchIndex}

theorem Gives.of_same (h : f₁.indices = f.indices) : Gives m none f f₁ := fun x => by
  rw [lastIndex?, lastIndex?, h, Option.none_or, ite_self]

theorem Gives.of_push {index : DispatchIndex} (h : f₁.indices = f.indices.push (m, index)) :
    Gives m (some index) f f₁ := fun x => by
  rw [lastIndex?, h, Array.toList_push, List.reverse_append, List.reverse_singleton,
    List.singleton_append, List.lookup_cons]
  by_cases hx : x = m
  · simp [hx]
  · have hne : (x == m) = false := by simpa using hx
    simp only [hne, if_neg hx]
    rfl

theorem Gives.trans (h : Gives m given f f₁) (h' : Gives m given' f₁ f₂) :
    Gives m (given'.or given) f f₂ := fun x => by
  rw [h', h]
  split
  · rw [Option.or_assoc]
  · rfl

/-- Methods that a step is not about keep their index. -/
theorem Gives.lastIndex?_of_ne (h : Gives m given f f₁) {x : MethodId} (hx : x ≠ m) :
    f₁.lastIndex? x = f.lastIndex? x := by
  rw [h, if_neg hx]

theorem Gives.lastIndex?_self (h : Gives m given f f₁) :
    f₁.lastIndex? m = given.or (f.lastIndex? m) := by
  rw [h, if_pos rfl]

end Fill

namespace FillEnv

open Fill

variable {env : FillEnv} {c owner : ClassId} {p : Placement} {slot inherited : Nat}
  {slots : List Nat} {m occupant : MethodId} {f : Fill} {isDefault : Bool}

/-- What the method of a placement gets for the slots that it took over. -/
def indexTaken (p : Placement) (taken : List Nat) : Option DispatchIndex :=
  if p.isDefault then none else taken.getLast?.map .virtual

theorem indexTaken_nil : indexTaken p [] = none := by
  unfold indexTaken
  split <;> rfl

theorem overridden_indices (holder : ClassId) :
    Outcome (env.overridden? p slot occupant holder) f (fun _ f' => f'.indices = f.indices)
      (fun _ f' => f'.indices = f.indices) := by
  unfold overridden?
  dsimp only
  split
  · exact rfl
  · split
    · split
      · exact rfl
      · exact rfl
      · exact rfl
    · exact rfl

theorem takeOver_indices :
    Outcome (env.takeOver c p slot occupant owner) f
      (fun _ f' => Gives p.method (indexTaken p [slot]) f f')
      (fun _ f' => Gives p.method none f f') := by
  unfold takeOver
  dsimp only
  split
  · exact .of_same rfl
  · cases hdefault : p.isDefault with
    | true =>
      simp only [FillM.setSlot, FillM.note, indexTaken, hdefault, outcome_bind, outcome_modify,
        Bool.not_true, Bool.false_eq_true, if_false, if_true]
      exact .of_same rfl
    | false =>
      simp only [FillM.setSlot, FillM.setIndex, FillM.note, indexTaken, hdefault, outcome_bind,
        outcome_modify, Bool.not_false, Bool.false_eq_true, if_false, if_true]
      exact .of_push rfl

theorem meetSlot_indices :
    Outcome (env.meetSlot c p slot) f
      (fun took f' => Gives p.method (if took then indexTaken p [slot] else none) f f')
      (fun _ f' => Gives p.method none f f') := by
  unfold meetSlot
  simp only [outcome_bind, outcome_get]
  split
  · exact .of_same rfl
  · split
    · exact .of_same rfl
    · split
      · exact .of_same rfl
      · simp only [outcome_bind]
        refine (overridden_indices _).imp (fun found f₁ h₁ => ?_) (fun _ _ h => .of_same h)
        cases found with
        | none => exact .of_same h₁
        | some owner =>
          have hstart : Gives p.method none f f₁ := .of_same h₁
          simp only [outcome_bind]
          exact takeOver_indices.imp (fun _ _ h => by simpa using hstart.trans h)
            (fun _ _ h => hstart.trans h)

/-- The last slot that was taken over decides about the index. -/
theorem meetSlots_indices :
    Outcome (env.meetSlots c p slots) f
      (fun taken f' => Gives p.method (indexTaken p taken) f f')
      (fun _ f' => GivesOnly p.method p.isDefault f f') := by
  induction slots generalizing f with
  | nil =>
    show Gives p.method (indexTaken p []) f f
    rw [indexTaken_nil]
    exact .of_same rfl
  | cons slot rest ih =>
    simp only [meetSlots, outcome_bind, outcome_pure]
    refine meetSlot_indices.imp (fun took f₁ h₁ => ?_) (fun _ _ h => ⟨none, h, fun _ => rfl⟩)
    refine ih.imp (fun taken f₂ h₂ => ?_) (fun _ f₂ h₂ => ?_)
    · have hgiven : (indexTaken p taken).or (if took then indexTaken p [slot] else none) =
          indexTaken p (if took then slot :: taken else taken) := by
        unfold indexTaken
        cases p.isDefault with
        | true => cases took <;> rfl
        | false =>
          cases took with
          | false => exact Option.or_none
          | true =>
            simp only [if_true, List.getLast?_cons]
            cases taken.getLast? <;> rfl
      exact hgiven ▸ h₁.trans h₂
    · obtain ⟨given, hgiven, hnone⟩ := h₂
      refine ⟨_, h₁.trans hgiven, fun hdefault => ?_⟩
      rw [hnone hdefault, indexTaken, if_pos hdefault, ite_self]
      rfl

/-- The index that a declared method has before it takes slots over. -/
def initialIndex (env : FillEnv) (c : ClassId) (m : MethodId) : DispatchIndex :=
  let k := env.store.getClass c
  if !(env.store.getMethod m).isBoundStatically && !env.store.isFinalMethod m k.flags &&
    k.isInterface then .unassigned else .nonVirtual

/-- What the steps up to taking slots over give a method. -/
def indexPlaced (env : FillEnv) (c : ClassId) (m : MethodId) (isDefault : Bool)
    (taken : List Nat) : Option DispatchIndex :=
  if isDefault then none else some ((taken.getLast?.map .virtual).getD (env.initialIndex c m))

/-- The fill when a method is about to take slots over: it has its first index unless it is a
default. -/
def startPlacing (env : FillEnv) (c : ClassId) (m : MethodId) (isDefault : Bool)
    (f : Fill) : Fill :=
  if isDefault then f
  else
    let indices := f.indices.push (m, .nonVirtual)
    { f with indices :=
        if env.initialIndex c m = .unassigned then indices.push (m, .unassigned) else indices }

/-- Let a method that is not bound statically take inherited slots over. -/
def placeOver (env : FillEnv) (c : ClassId) (inherited : Nat) (m : MethodId) (isDefault : Bool) :
    FillM Placed :=
  let k := env.store.getClass c
  let mayNeedSlot := !env.store.isFinalMethod m k.flags && !k.isInterface
  match k.superclass? with
  | none => return ⟨[], mayNeedSlot⟩
  | some _ => do
    let taken ← env.meetSlots c (env.placement c m isDefault) (List.range inherited)
    return ⟨taken, mayNeedSlot &&
      ((env.store.getMethod m).access.isPackagePrivate || taken.isEmpty)⟩

/-- Placing a method is giving it its first index and letting it take slots over. -/
theorem place_eq :
    env.place c inherited m isDefault f =
      if (env.store.getMethod m).isBoundStatically then
        .ok ⟨[], false⟩ (env.startPlacing c m isDefault f)
      else env.placeOver c inherited m isDefault (env.startPlacing c m isDefault f) := by
  unfold place startPlacing initialIndex
  dsimp only
  cases isDefault with
  | true =>
    cases (env.store.getMethod m).isBoundStatically with
    | true => rfl
    | false =>
      simp only [Bool.not_true, Bool.and_false, Bool.false_eq_true, if_false, if_true]
      rfl
  | false =>
    cases (env.store.getMethod m).isBoundStatically with
    | true => rfl
    | false =>
      by_cases hwait : (!env.store.isFinalMethod m (env.store.getClass c).flags &&
          (env.store.getClass c).isInterface) = true
      · simp only [hwait, Bool.not_false, Bool.true_and, Bool.and_true, if_true]
        rfl
      · simp only [hwait, Bool.not_false, Bool.true_and, Bool.and_true, Bool.false_eq_true,
          if_false]
        rfl

theorem outcome_place {Q : Placed → Fill → Prop} {E : LinkError → Fill → Prop} :
    Outcome (env.place c inherited m isDefault) f Q E ↔
      if (env.store.getMethod m).isBoundStatically then
        Q ⟨[], false⟩ (env.startPlacing c m isDefault f)
      else Outcome (env.placeOver c inherited m isDefault) (env.startPlacing c m isDefault f)
        Q E := by
  unfold Outcome
  rw [place_eq]
  by_cases hbound : (env.store.getMethod m).isBoundStatically = true
  · simp only [hbound, if_true]
  · simp only [hbound, if_false, Bool.false_eq_true]

theorem startPlacing_indices :
    Gives m (env.indexPlaced c m isDefault []) f (env.startPlacing c m isDefault f) := by
  unfold startPlacing
  cases isDefault with
  | true => exact .of_same rfl
  | false =>
    have hfirst : Gives m (some .nonVirtual) f
        { f with indices := f.indices.push (m, .nonVirtual) } := .of_push rfl
    by_cases hwait : env.initialIndex c m = .unassigned
    · have hgiven := hfirst.trans (@Gives.of_push _ { f with
        indices := (f.indices.push (m, .nonVirtual)).push (m, .unassigned) } m .unassigned rfl)
      simpa [indexPlaced, hwait] using hgiven
    · have hinitial : env.initialIndex c m = .nonVirtual := by
        unfold initialIndex at hwait ⊢
        dsimp only at hwait ⊢
        split
        · rename_i hcond
          rw [if_pos hcond] at hwait
          exact absurd rfl hwait
        · rfl
      simpa [indexPlaced, hinitial] using hfirst

theorem placeOver_indices :
    Outcome (env.placeOver c inherited m isDefault) f
      (fun placed f' => Gives m (indexTaken (env.placement c m isDefault) placed.taken) f f')
      (fun _ f' => GivesOnly m isDefault f f') := by
  unfold placeOver
  dsimp only
  cases (env.store.getClass c).superclass? with
  | none =>
    show Gives m (indexTaken (env.placement c m isDefault) []) f f
    rw [indexTaken_nil]
    exact .of_same rfl
  | some _ =>
    simp only [outcome_bind, outcome_pure]
    exact meetSlots_indices

/-- Placing a method gives it an index unless it is a default, also if it fails. -/
theorem place_indices :
    Outcome (env.place c inherited m isDefault) f
      (fun placed f' => Gives m (env.indexPlaced c m isDefault placed.taken) f f')
      (fun _ f' => GivesOnly m isDefault f f') := by
  have hstart : Gives m (env.indexPlaced c m isDefault []) f (env.startPlacing c m isDefault f) :=
    startPlacing_indices
  rw [outcome_place]
  split
  · exact hstart
  · refine placeOver_indices.imp (fun placed f' h => ?_) (fun _ f' h => ?_)
    · have hgiven : (indexTaken (env.placement c m isDefault) placed.taken).or
          (env.indexPlaced c m isDefault []) = env.indexPlaced c m isDefault placed.taken := by
        unfold indexTaken indexPlaced placement
        cases isDefault with
        | true => rfl
        | false => cases placed.taken.getLast? <;> rfl
      exact hgiven ▸ hstart.trans h
    · obtain ⟨given, hgiven, hnone⟩ := h
      refine ⟨_, hstart.trans hgiven, fun hdefault => ?_⟩
      rw [hnone hdefault, indexPlaced, if_pos hdefault]
      rfl

theorem append_indices (name : String) :
    Outcome (FillM.append name m) f (fun _ f' => f'.indices = f.indices)
      (fun _ f' => f'.indices = f.indices) := by
  unfold Outcome FillM.append
  split <;> rename_i h <;> split at h <;> cases h <;> rfl

/-! ## All methods of a class -/

theorem placeDeclared_indices :
    Outcome (env.placeDeclared c inherited m) f (fun _ f' => GivesOnly m false f f')
      (fun _ f' => GivesOnly m false f f') := by
  unfold placeDeclared
  simp only [outcome_bind]
  refine place_indices.imp (fun placed f₁ h₁ => ?_) (fun _ _ h => h)
  have honly : ∀ {given f'}, Gives m given f₁ f' → GivesOnly m false f f' := fun h =>
    ⟨_, h₁.trans h, fun hfalse => Bool.noConfusion hfalse⟩
  split
  · simp only [outcome_bind, FillM.setIndex, FillM.note, outcome_modify]
    refine (append_indices _).imp (fun slot f₂ h₂ => ?_) (fun _ _ h => honly (.of_same h))
    exact honly (.of_push (congrArg (·.push (m, .virtual slot)) h₂))
  · exact honly (.of_same rfl)

theorem placeDefault_indices :
    Outcome (env.placeDefault c inherited m) f (fun _ f' => GivesOnly m true f f')
      (fun _ f' => GivesOnly m true f f') := by
  unfold placeDefault
  simp only [outcome_bind]
  refine place_indices.imp (fun placed f₁ h₁ => ?_) (fun _ _ h => h)
  have honly : ∀ {f' : Fill}, f'.indices = f₁.indices → GivesOnly m true f f' := fun h =>
    ⟨none, by simpa [indexPlaced] using h₁.trans (.of_same h), fun _ => rfl⟩
  split
  · simp only [outcome_bind, FillM.note, outcome_modify, outcome_pure]
    exact (append_indices _).imp (fun _ _ h => honly h) (fun _ _ h => honly h)
  · exact honly rfl

theorem placeAllDeclared_indices {ms : List MethodId} :
    Outcome (env.placeAllDeclared c inherited ms) f
      (fun _ f' => ∀ x, x ∉ ms → f'.lastIndex? x = f.lastIndex? x)
      (fun _ f' => ∀ x, x ∉ ms → f'.lastIndex? x = f.lastIndex? x) := by
  induction ms generalizing f with
  | nil => exact fun _ _ => rfl
  | cons m ms ih =>
    have hhead : ∀ {f'}, GivesOnly m false f f' → ∀ x, x ∉ m :: ms →
        f'.lastIndex? x = f.lastIndex? x := fun h x hx => by
      obtain ⟨_, h, -⟩ := h
      exact h.lastIndex?_of_ne fun heq => hx (heq ▸ List.mem_cons_self)
    simp only [placeAllDeclared, outcome_bind]
    refine placeDeclared_indices.imp (fun _ f₁ h₁ => ?_) (fun _ _ h => hhead h)
    have hrest : ∀ {f' : Fill}, (∀ x, x ∉ ms → f'.lastIndex? x = f₁.lastIndex? x) →
        ∀ x, x ∉ m :: ms → f'.lastIndex? x = f.lastIndex? x := fun h x hx =>
      (h x fun hmem => hx (List.mem_cons_of_mem _ hmem)).trans (hhead h₁ x hx)
    exact ih.imp (fun _ _ h => hrest h) (fun _ _ h => hrest h)

/-- Defaults get no index. -/
theorem placeAllDefaults_indices {ms : List MethodId} :
    Outcome (env.placeAllDefaults c inherited ms) f
      (fun _ f' => ∀ x, f'.lastIndex? x = f.lastIndex? x)
      (fun _ f' => ∀ x, f'.lastIndex? x = f.lastIndex? x) := by
  induction ms generalizing f with
  | nil => exact fun _ => rfl
  | cons m ms ih =>
    have hhead : ∀ {f'}, GivesOnly m true f f' → ∀ x, f'.lastIndex? x = f.lastIndex? x :=
      fun h x => by
        obtain ⟨given, h, hnone⟩ := h
        rw [h, hnone rfl, Option.none_or, ite_self]
    simp only [placeAllDefaults, outcome_bind, outcome_pure]
    refine placeDefault_indices.imp (fun _ f₁ h₁ => ?_) (fun _ _ h => hhead h)
    exact ih.imp (fun _ _ h x => (h x).trans (hhead h₁ x)) (fun _ _ h x => (h x).trans (hhead h₁ x))

/-- **A filling pass gives indices to declared methods only**, whether or not it fails. -/
theorem placeAll_indices :
    Outcome (env.placeAll c inherited) f
      (fun _ f' => ∀ x, x ∉ (env.store.getClass c).methods → f'.lastIndex? x = f.lastIndex? x)
      (fun _ f' => ∀ x, x ∉ (env.store.getClass c).methods →
        f'.lastIndex? x = f.lastIndex? x) := by
  unfold placeAll
  simp only [outcome_bind]
  refine placeAllDeclared_indices.imp (fun _ f₁ h₁ => ?_) (fun _ _ h => h)
  exact placeAllDefaults_indices.imp (fun _ _ h x hx => (h x).trans (h₁ x hx))
    (fun _ _ h x hx => (h x).trans (h₁ x hx))

end FillEnv
end ClassLinking
