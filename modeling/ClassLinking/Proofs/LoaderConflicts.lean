import ClassLinking.Proofs.ITable
import ClassLinking.Proofs.Occupants

/-!
# Asking about loader conflicts

Building the tables of a class asks about loader conflicts in two places: where a method takes an
inherited slot over, and where the entry of an interface method is bound.  Each time the question
is about the descriptor of the method, the loader of the class that has it, and a second loader.  A
conflict ends the build.  `ConflictTable.Agrees` and `ConflictTable.FirstConflict` say what the two
answers mean.

Filling a table asks at each slot that a method takes over from whatever is in it by then, which
may be another method of the same class.  The invariant is about the methods that were there at the
start (`FillEnv.Cleared`): a slot still has its method, or it has one that has cleared this method.
Methods of one selector that are placed in the same table are alike (`FillEnv.PlacesAlike`), so
that the second of two that come to a slot has nothing to ask that the first one did not.
-/

namespace ClassLinking

/-! ## The answers -/

namespace ConflictTable

variable {K : ConflictTable} {descriptor typeName : String} {a b : LoaderId}

/-- The loaders `a` and `b` are the same, or no conflict between them is recorded for any class that
the descriptor names. -/
def Agrees (K : ConflictTable) (descriptor : String) (a b : LoaderId) : Prop :=
  a = b ∨ ∀ name ∈ Descriptor.classNames descriptor, K.records a b name = false

instance (K : ConflictTable) (descriptor : String) (a b : LoaderId) :
    Decidable (K.Agrees descriptor a b) :=
  inferInstanceAs (Decidable (_ ∨ ∀ name ∈ Descriptor.classNames descriptor, _))

/-- The loaders `a` and `b` differ, a conflict between them is recorded for `typeName`, and none for
a class that the descriptor names before it. -/
structure FirstConflict (K : ConflictTable) (descriptor : String) (a b : LoaderId)
    (typeName : String) : Prop where
  ne : a ≠ b
  recorded : K.records a b typeName = true
  first : ∃ before after, Descriptor.classNames descriptor = before ++ typeName :: after ∧
    ∀ name ∈ before, K.records a b name = false

theorem check_eq_none_iff : K.check descriptor a b = none ↔ K.Agrees descriptor a b := by
  unfold check Agrees
  by_cases h : a = b
  · simp [h]
  · simp [h]

theorem check_eq_some_iff :
    K.check descriptor a b = some typeName ↔ K.FirstConflict descriptor a b typeName := by
  unfold check
  by_cases h : a = b
  · rw [if_pos h]
    exact iff_of_false (by simp) fun hfirst => hfirst.ne h
  · rw [if_neg h, List.find?_eq_some_iff_append]
    simp only [Bool.not_eq_true']
    exact ⟨fun ⟨hrecorded, hfirst⟩ => ⟨h, hrecorded, hfirst⟩,
      fun hfirst => ⟨hfirst.recorded, hfirst.first⟩⟩

end ConflictTable

/-! ## Taking slots over -/

/-- Looking through tables does not ask about loaders. -/
theorem Store.not_isConflict_of_transitivelyOverridden {s : Store} {target : Selector}
    {slot : Nat} {loader : LoaderId} {className : String} {above : List ClassId} {e : LinkError}
    (h : s.transitivelyOverridden? target slot loader className above = .error e) :
    ¬ e.IsConflict := by
  rintro ⟨_, _, _, _, _, rfl⟩
  induction above with
  | nil => cases h
  | cons a rest ih =>
    unfold transitivelyOverridden? at h
    split at h
    · cases h
    · split at h
      · cases h
      · split at h
        · cases h
        · split at h
          · cases h
          · exact ih h

namespace FillEnv

variable {env : FillEnv} {c owner : ClassId} {p q : Placement} {slot inherited : Nat}
  {m occupant : MethodId} {f f' start : Fill} {isDefault : Bool} {e : LinkError}

/-- If the method of a placement overrides `occupant` by itself, as a default or by the access
rules, its loader is in no conflict with the loader of the class that has `occupant`. -/
def Clears (env : FillEnv) (p : Placement) (occupant : MethodId) : Prop :=
  p.isDefault = true ∨ env.store.isOverridable occupant p.loader p.className = true →
    ∀ h, env.store.holder? occupant = some h →
      env.conflict? (env.store.selector p.method).descriptor p.loader
        (env.store.getClass h).loader = none

/-- A conflict that the failure reports is one of the placed method's own loader with another one,
about a class of the method's descriptor. -/
def Reports (env : FillEnv) (c : ClassId) (p : Placement) (e : LinkError) : Prop :=
  ∀ className sel typeName a b, e = .loaderConstraint className sel typeName a b →
    className = (env.store.getClass c).name ∧ sel = env.store.selector p.method ∧ a = p.loader ∧
      env.conflict? sel.descriptor a b = some typeName

theorem Reports.of_not (h : ¬ e.IsConflict) : env.Reports c p e :=
  fun _ _ _ _ _ he => absurd ⟨_, _, _, _, _, he⟩ h

/-- A method that overrides an occupant by itself need not look through tables. -/
theorem overridden_direct (holder : ClassId) :
    Outcome (env.overridden? p slot occupant holder) f
      (fun owner _ => p.isDefault = true ∨
        env.store.isOverridable occupant p.loader p.className = true → owner = some holder)
      (fun e _ => ¬ e.IsConflict) := by
  by_cases h : p.isDefault = true ∨ env.store.isOverridable occupant p.loader p.className = true
  · rw [overridden?, if_pos (by simpa using h)]
    exact fun _ => rfl
  · exact (overridden_outcome slot occupant holder).imp (fun _ _ _ hdirect => absurd hdirect h)
      fun _ _ he => Store.not_isConflict_of_transitivelyOverridden he

theorem takeOver_clears :
    Outcome (env.takeOver c p slot occupant owner) f
      (fun _ _ => env.conflict? (env.store.selector p.method).descriptor p.loader
        (env.store.getClass owner).loader = none)
      (fun e _ => env.Reports c p e) := by
  unfold takeOver
  dsimp only
  cases hconflict : env.conflict? (env.store.selector p.method).descriptor p.loader
      (env.store.getClass owner).loader with
  | some typeName =>
    simp only [FillM.note, outcome_bind, outcome_modify, outcome_throw]
    rintro _ _ _ _ _ ⟨⟩
    exact ⟨rfl, rfl, rfl, hconflict⟩
  | none =>
    by_cases hdefault : p.isDefault = true
    · simp [hdefault, FillM.setSlot, FillM.note]
    · simp [hdefault, FillM.setSlot, FillM.setIndex, FillM.note]

/-- A method that takes a slot over has cleared its occupant. -/
theorem meetSlot_clears :
    Outcome (env.meetSlot c p slot) f
      (fun took _ => took = true → ∀ o, f.occupant slot = some o → env.Clears p o)
      (fun e _ => env.Reports c p e) := by
  unfold meetSlot
  have hoccupant : f.slots[slot]?.join = f.occupant slot := rfl
  simp only [outcome_bind, outcome_get, hoccupant]
  cases f.occupant slot with
  | none => exact fun h => absurd h Bool.false_ne_true
  | some occupant =>
    dsimp only
    split
    · exact fun h => absurd h Bool.false_ne_true
    · cases hholder : env.store.holder? occupant with
      | none => exact fun h => absurd h Bool.false_ne_true
      | some holder =>
        simp only [outcome_bind]
        refine (overridden_direct holder).imp (fun found f₁ hdirect => ?_)
          (fun _ _ he => .of_not he)
        cases found with
        | none => exact fun h => absurd h Bool.false_ne_true
        | some owner =>
          simp only [outcome_bind, outcome_pure]
          refine takeOver_clears.imp (fun _ _ hnone _ o ho hover h hh => ?_) (fun _ _ he => he)
          cases ho
          cases hdirect hover
          cases hholder.symm.trans hh
          exact hnone

/-! ## Filling -/

/-- Methods that are placed in the table of `c` and can meet in a slot are placed in the same
way. -/
def PlacesAlike (env : FillEnv) (c : ClassId) : Prop :=
  ∀ p ∈ env.placements c, ∀ q ∈ env.placements c, env.Apart p q ∨
    p.isDefault = q.isDefault ∧ p.loader = q.loader ∧ p.className = q.className

/-- Every inherited slot has the method that it had at the start, or a method placed in the table of
`c` that has cleared it. -/
structure Cleared (env : FillEnv) (c : ClassId) (inherited : Nat) (start f : Fill) : Prop where
  used : inherited ≤ f.used
  slot : ∀ i < inherited, ∀ o, start.occupant i = some o → f.occupant i = some o ∨
    ∃ q ∈ env.placements c, env.isBound q = false ∧ f.occupant i = some q.method ∧
      env.store.selector o = env.selector q ∧ env.Clears q o

theorem Cleared.refl (h : inherited ≤ f.used) : env.Cleared c inherited f f :=
  ⟨h, fun _ _ _ ho => Or.inl ho⟩

theorem Cleared.of_same (h : env.Cleared c inherited start f) (hsame : f.SameSlots f') :
    env.Cleared c inherited start f' where
  used := hsame.2 ▸ h.used
  slot := fun i hi o ho => by
    rw [SameSlots.occupant hsame]
    exact h.slot i hi o ho

section Place

variable (halike : env.PlacesAlike c) (h : env.Cleared c inherited start f)
include halike h

/-- Meeting a slot.  If another method of the class is in it, that one has asked already. -/
theorem meetSlot_cleared (hp : p ∈ env.placements c)
    (hbound : env.isBound p = false) :
    Outcome (env.meetSlot c p slot) f (fun _ f' => env.Cleared c inherited start f')
      (fun e _ => env.Reports c p e) := by
  refine ((meetSlot_outcome slot).and meetSlot_clears).imp (fun took f' hmet => ?_)
    (fun _ _ he => he.2)
  obtain ⟨⟨htook, hused, hslots⟩, hclears⟩ := hmet
  refine ⟨hused ▸ h.used, fun i hi o ho => ?_⟩
  rw [occupant_of_met htook hslots]
  split
  · rename_i hcond
    obtain ⟨rfl, rfl⟩ := hcond
    obtain ⟨x, hx, htakes⟩ := (Option.any_eq_true ..).mp htook.symm
    have hsel := (takes_iff.mp htakes).1
    refine Or.inr ⟨p, hp, hbound, rfl, ?_⟩
    rcases h.slot i hi o ho with hkept | ⟨q, hq, hqbound, hocc, hosel, hqclears⟩
    · cases hx.symm.trans hkept
      exact ⟨hsel, hclears rfl o hkept⟩
    · cases hx.symm.trans hocc
      have hmeet : ¬ env.Apart q p := fun hapart => by
        rcases hapart with hq' | hp' | hne
        · exact absurd (hqbound.symm.trans hq') (by simp)
        · exact absurd (hbound.symm.trans hp') (by simp)
        · exact hne hsel
      obtain ⟨hdefault, hloader, hname⟩ := (halike q hq p hp).resolve_left hmeet
      refine ⟨hosel.trans hsel, fun hover d hd => ?_⟩
      rw [← hdefault, ← hloader, ← hname] at hover
      rw [← hloader, ← hsel]
      exact hqclears hover d hd
  · exact h.slot i hi o ho

theorem meetSlots_cleared (hp : p ∈ env.placements c)
    (hbound : env.isBound p = false) {slots : List Nat} :
    Outcome (env.meetSlots c p slots) f (fun _ f' => env.Cleared c inherited start f')
      (fun e _ => env.Reports c p e) := by
  induction slots generalizing f with
  | nil => exact h
  | cons slot rest ih =>
    simp only [meetSlots, outcome_bind, outcome_pure]
    exact (meetSlot_cleared halike h hp hbound).imp (fun _ _ h' => ih h') (fun _ _ he => he)

theorem place_cleared (hp : env.placement c m isDefault ∈ env.placements c) :
    Outcome (env.place c inherited m isDefault) f
      (fun _ f' => env.Cleared c inherited start f')
      (fun e _ => env.Reports c (env.placement c m isDefault) e) := by
  have hstart : env.Cleared c inherited start (env.startPlacing c m isDefault f) :=
    h.of_same sameSlots_startPlacing
  rw [outcome_place]
  split
  · exact hstart
  · rename_i hbound
    unfold placeOver
    dsimp only
    split
    · exact hstart
    · simp only [outcome_bind, outcome_pure]
      exact meetSlots_cleared halike hstart hp (Bool.not_eq_true _ ▸ hbound)

omit halike in
/-- The slots that are not in use are behind those that are inherited. -/
theorem append_cleared (name : String) :
    Outcome (FillM.append name m) f (fun _ f' => env.Cleared c inherited start f')
      (fun e _ => ¬ e.IsConflict) := by
  refine (append_outcome name).imp (fun slot f' happ => ?_) (fun e _ he => ?_)
  · obtain ⟨-, -, -, hused, -, hocc⟩ := happ
    refine ⟨by have := h.used; omega, fun i hi o ho => ?_⟩
    rw [hocc, if_neg (Nat.ne_of_lt (Nat.lt_of_lt_of_le hi h.used))]
    exact h.slot i hi o ho
  · rw [he.2]
    rintro ⟨_, _, _, _, _, ⟨⟩⟩

theorem placeDeclared_cleared (hp : env.placement c m false ∈ env.placements c) :
    Outcome (env.placeDeclared c inherited m) f
      (fun _ f' => env.Cleared c inherited start f')
      (fun e _ => env.Reports c (env.placement c m false) e) := by
  unfold placeDeclared
  simp only [outcome_bind]
  refine (place_cleared halike h hp).imp (fun placed f₁ h₁ => ?_) (fun _ _ he => he)
  split
  · simp only [outcome_bind, FillM.setIndex, FillM.note, outcome_modify]
    exact (append_cleared h₁ _).imp (fun _ _ h₂ => h₂.of_same ⟨rfl, rfl⟩)
      fun _ _ he => .of_not he
  · exact h₁

theorem placeDefault_cleared (hp : env.placement c m true ∈ env.placements c) :
    Outcome (env.placeDefault c inherited m) f
      (fun _ f' => env.Cleared c inherited start f')
      (fun e _ => env.Reports c (env.placement c m true) e) := by
  unfold placeDefault
  simp only [outcome_bind]
  refine (place_cleared halike h hp).imp (fun placed f₁ h₁ => ?_) (fun _ _ he => he)
  split
  · simp only [outcome_bind, FillM.note, outcome_modify, outcome_pure]
    exact (append_cleared h₁ _).imp (fun _ _ h₂ => h₂.of_same ⟨rfl, rfl⟩)
      fun _ _ he => .of_not he
  · exact h₁

theorem placeAllDeclared_cleared {ms : List MethodId}
    (hms : ∀ m ∈ ms, env.placement c m false ∈ env.placements c) :
    Outcome (env.placeAllDeclared c inherited ms) f
      (fun _ f' => env.Cleared c inherited start f')
      (fun e _ => ∃ p ∈ env.placements c, env.Reports c p e) := by
  induction ms generalizing f with
  | nil => exact h
  | cons m ms ih =>
    obtain ⟨hm, hrest⟩ := List.forall_mem_cons.mp hms
    simp only [placeAllDeclared, outcome_bind]
    exact (placeDeclared_cleared halike h hm).imp (fun _ _ h' => ih h' hrest)
      fun _ _ he => ⟨_, hm, he⟩

theorem placeAllDefaults_cleared {ms : List MethodId}
    (hms : ∀ m ∈ ms, env.placement c m true ∈ env.placements c) :
    Outcome (env.placeAllDefaults c inherited ms) f
      (fun _ f' => env.Cleared c inherited start f')
      (fun e _ => ∃ p ∈ env.placements c, env.Reports c p e) := by
  induction ms generalizing f with
  | nil => exact h
  | cons m ms ih =>
    obtain ⟨hm, hrest⟩ := List.forall_mem_cons.mp hms
    simp only [placeAllDefaults, outcome_bind, outcome_pure]
    exact (placeDefault_cleared halike h hm).imp (fun _ _ h' => ih h' hrest)
      fun _ _ he => ⟨_, hm, he⟩

/-- **A filling pass clears what it takes over**, and a conflict that ends it is one of a method
that it places. -/
theorem placeAll_cleared :
    Outcome (env.placeAll c inherited) f (fun _ f' => env.Cleared c inherited start f')
      (fun e _ => ∃ p ∈ env.placements c, env.Reports c p e) := by
  unfold placeAll
  simp only [outcome_bind]
  refine (placeAllDeclared_cleared halike h fun m hm =>
    List.mem_append_left _ (List.mem_map_of_mem hm)).imp (fun _ _ h' => ?_) (fun _ _ he => he)
  exact placeAllDefaults_cleared halike h' fun m hm =>
    List.mem_append_right _ (List.mem_map_of_mem hm)

end Place

end FillEnv

/-! ## Binding entries -/

namespace Store

variable {s : Store} {conflict? : String → LoaderId → LoaderId → Option String} {c i : ClassId}
  {start length : Nat} {m target : MethodId} {b : Binding} {e : LinkError}

/-- The loader of the class that has `target` is in no conflict with the loader of the interface
`i`. -/
def ClearsEntry (s : Store) (conflict? : String → LoaderId → LoaderId → Option String)
    (i : ClassId) (target : MethodId) : Prop :=
  ∀ h, s.holder? target = some h →
    conflict? (s.selector target).descriptor (s.getClass h).loader (s.getClass i).loader = none

/-- Every number of the interface `i` under which the table of `c` is bound to a method has been
asked about. -/
def ClearsBlock (s : Store) (conflict? : String → LoaderId → LoaderId → Option String)
    (c i : ClassId) (ms : List MethodId) : Prop :=
  ∀ m ∈ ms, (s.interfaceIndex? m).isSome = true → ∀ target, s.entryFor c m = .bound target →
    s.ClearsEntry conflict? i target

/-- A conflict that the failure reports is one of the loader of an implementation with another one,
about a class of its descriptor. -/
def ReportsEntry (s : Store) (conflict? : String → LoaderId → LoaderId → Option String)
    (c : ClassId) (e : LinkError) : Prop :=
  ∀ className sel typeName a b, e = .loaderConstraint className sel typeName a b →
    className = (s.getClass c).name ∧ conflict? sel.descriptor a b = some typeName ∧
      ∃ m h, s.implementation? c sel = some m ∧ s.holder? m = some h ∧ (s.getClass h).loader = a

theorem ReportsEntry.of_not (h : ¬ e.IsConflict) : s.ReportsEntry conflict? c e :=
  fun _ _ _ _ _ he => absurd ⟨_, _, _, _, _, he⟩ h

theorem checkBinding_clears (htarget : s.entryFor c m = .bound target) :
    Outcome (s.checkBinding conflict? c i target) b (fun _ _ => s.ClearsEntry conflict? i target)
      (fun e _ => s.ReportsEntry conflict? c e) := by
  unfold checkBinding
  cases hholder : s.holder? target with
  | none => exact fun h hh => absurd (hholder.symm.trans hh) (by simp)
  | some holder =>
    dsimp only
    cases hconflict : conflict? (s.selector target).descriptor (s.getClass holder).loader
        (s.getClass i).loader with
    | none =>
      intro h hh
      cases hholder.symm.trans hh
      exact hconflict
    | some typeName =>
      simp only [BindM.note, outcome_bind, outcome_modify, outcome_throw]
      rintro _ _ _ _ _ ⟨⟩
      have himpl := (entryOf_eq_bound htarget).1
      rw [← (implementation?_some himpl).1] at himpl
      exact ⟨rfl, hconflict, target, holder, himpl, hholder, rfl⟩

theorem put_not_isConflict (index : Nat) (entry : ITableEntry) :
    Outcome (BindM.put index entry) b (fun _ _ => True) (fun e _ => ¬ e.IsConflict) := by
  unfold BindM.put ITable.put
  simp only [outcome_bind, outcome_get]
  split
  · exact trivial
  · rename_i err herr
    split at herr
    · cases herr
    · cases herr
      rintro ⟨_, _, _, _, _, ⟨⟩⟩

theorem bindMethod_clears :
    Outcome (s.bindMethod conflict? c i start length m) b
      (fun _ _ => s.ClearsBlock conflict? c i [m]) (fun e _ => s.ReportsEntry conflict? c e) := by
  unfold bindMethod
  cases hindex : s.interfaceIndex? m with
  | none =>
    intro m' hm' hsome
    cases List.mem_singleton.mp hm'
    rw [hindex] at hsome
    cases hsome
  | some index =>
    rw [outcome_ite]
    refine ⟨fun _ => ?_, fun _ => ?_⟩
    · rintro _ _ _ _ _ ⟨⟩
    · have hrest : ∀ {b' : Binding} {Q : Prop} (entry : ITableEntry), Q →
          Outcome (do BindM.note (.entry m index entry); BindM.put (start + index) entry) b'
            (fun _ _ => Q) (fun e _ => s.ReportsEntry conflict? c e) := fun entry hQ => by
        simp only [BindM.note, outcome_bind, outcome_modify]
        exact (put_not_isConflict _ _).imp (fun _ _ _ => hQ) fun _ _ he => .of_not he
      have hentry : s.entryOf (s.implementation? c (s.selector m)) = s.entryFor c m := rfl
      rw [hentry]
      have hone : (∀ target, s.entryFor c m = .bound target → s.ClearsEntry conflict? i target) →
          s.ClearsBlock conflict? c i [m] := fun h m' hm' _ => by
        cases List.mem_singleton.mp hm'
        exact h
      cases hfor : s.entryFor c m with
      | bound target =>
        simp only [outcome_bind]
        refine (checkBinding_clears hfor).imp (fun _ _ hclears => ?_) (fun _ _ he => he)
        refine hrest _ (hone fun target' htarget' => ?_)
        cases hfor.symm.trans htarget'
        exact hclears
      | empty =>
        exact hrest _ (hone fun target' htarget' => absurd (hfor.symm.trans htarget') (by simp))
      | inaccessible method =>
        exact hrest _ (hone fun target' htarget' => absurd (hfor.symm.trans htarget') (by simp))

theorem bindMethods_clears {ms : List MethodId} :
    Outcome (s.bindMethods conflict? c i start length ms) b
      (fun _ _ => s.ClearsBlock conflict? c i ms) (fun e _ => s.ReportsEntry conflict? c e) := by
  induction ms generalizing b with
  | nil => exact fun m hm => absurd hm List.not_mem_nil
  | cons m ms ih =>
    simp only [bindMethods, outcome_bind]
    refine bindMethod_clears.imp (fun _ _ hm => ?_) (fun _ _ he => he)
    exact ih.imp (fun _ _ hms => List.forall_mem_cons.mpr ⟨hm m (List.mem_singleton_self m), hms⟩)
      fun _ _ he => he

/-- **A binding pass asks about every entry that it binds**, and a conflict that ends it is one of
an implementation. -/
theorem bindBlocks_clears {blocks : List (ClassId × Nat)} :
    Outcome (s.bindBlocks conflict? c start blocks) b
      (fun _ _ => ∀ e ∈ blocks, s.ClearsBlock conflict? c e.1 (s.getClass e.1).methods)
      (fun e _ => s.ReportsEntry conflict? c e) := by
  induction blocks generalizing b start with
  | nil => exact fun e he => absurd he List.not_mem_nil
  | cons block rest ih =>
    simp only [bindBlocks, outcome_bind]
    refine bindMethods_clears.imp (fun _ _ hblock => ?_) (fun _ _ he => he)
    exact ih.imp (fun _ _ hrest => List.forall_mem_cons.mpr ⟨hblock, hrest⟩) fun _ _ he => he

end Store
end ClassLinking
