import ClassLinking.Proofs.Placing

/-!
# The occupants of a filled table

What placing a list of methods makes of the slots, read off one placement after the other.

* `PlacesAll.occupant_inherited` and `PlacesAll.occupant_eq` --- where an occupant comes from: an
  inherited slot keeps its occupant or passes to a method of the same selector, and every other slot
  holds a method that was placed.
* `PlacesAll.keeps` --- a slot is left alone by methods of other selectors.
* `PlacesAll.occupant_lastSlot` --- a method that is placed stays in the slot that it came to last,
  which is the one that its dispatch index says or that is listed for it (`ListsSlots.forall₂`).
* `PlacesAll.used_eq` --- how many slots are in use afterwards.

The last two need that the methods do not compete for slots, which is what `Apart` says of two of
them: their selectors differ, or one of them is bound statically and takes no slot at all.
-/

namespace ClassLinking
namespace FillEnv

variable {env : FillEnv} {c : ClassId} {p q : Placement} {inherited : Nat} {f f₁ f' : Fill}
  {ps before after : List Placement} {i : Nat}

/-- The selector of the method that is placed. -/
def selector (env : FillEnv) (p : Placement) : Selector := env.store.selector p.method

/-- Whether the method that is placed is bound statically, and so goes nowhere. -/
def isBound (env : FillEnv) (p : Placement) : Bool :=
  (env.store.getMethod p.method).isBoundStatically

/-- The two methods cannot meet in a slot. -/
def Apart (env : FillEnv) (p q : Placement) : Prop :=
  env.isBound p = true ∨ env.isBound q = true ∨ env.selector p ≠ env.selector q

/-! ## One placement -/

/-- A method takes over inherited slots of its own selector only. -/
theorem mem_taken (h : i ∈ env.taken c p inherited f) :
    i < inherited ∧ env.isBound p = false ∧ ∃ occupant, f.occupant i = some occupant ∧
      env.store.selector occupant = env.selector p ∧ env.takes p i occupant = true := by
  unfold taken at h
  split at h
  · exact absurd h List.not_mem_nil
  · rename_i hcond
    rw [Bool.or_eq_true, not_or] at hcond
    rw [List.mem_filter, List.mem_range, Option.any_eq_true] at h
    obtain ⟨hlt, occupant, hocc, htakes⟩ := h
    refine ⟨hlt, by simpa [isBound] using hcond.1, occupant, hocc, ?_, htakes⟩
    rw [takes, Bool.and_eq_true, decide_eq_true_eq] at htakes
    exact htakes.1

theorem isBound_of_needsSlot (h : env.needsSlot c p inherited f = true) :
    env.isBound p = false := by
  simp only [needsSlot, Bool.and_eq_true, Bool.not_eq_true'] at h
  exact h.1.1.1

theorem Places.used_le (h : env.Places c p inherited f f') : f.used ≤ f'.used := by
  rw [h.used]
  omega

/-- A method of another selector leaves a slot in use alone. -/
theorem Places.keeps (h : env.Places c p inherited f f') (hi : i < f.used)
    (hp : env.isBound p = true ∨
      ∀ occupant, f.occupant i = some occupant → env.store.selector occupant ≠ env.selector p) :
    f'.occupant i = f.occupant i := by
  rw [h.occupant, if_neg]
  rintro (htaken | ⟨-, rfl⟩)
  · obtain ⟨-, hbound, occupant, hocc, hsel, -⟩ := mem_taken htaken
    rcases hp with hp | hp
    · rw [hbound] at hp
      cases hp
    · exact hp occupant hocc hsel
  · omega

/-- What one placement makes of a slot. -/
theorem Places.occupant_eq (h : env.Places c p inherited f f') (hused : inherited ≤ f.used) :
    f'.occupant i = f.occupant i ∨
      (f'.occupant i = some p.method ∧ env.isBound p = false ∧
        (i < inherited → ∃ occupant, f.occupant i = some occupant ∧
          env.store.selector occupant = env.selector p)) := by
  rw [h.occupant]
  split
  · rename_i hcond
    refine Or.inr ⟨rfl, ?_⟩
    rcases hcond with htaken | ⟨hneeds, rfl⟩
    · obtain ⟨-, hbound, occupant, hocc, hsel, -⟩ := mem_taken htaken
      exact ⟨hbound, fun _ => ⟨occupant, hocc, hsel⟩⟩
    · exact ⟨isBound_of_needsSlot hneeds, fun hlt => by omega⟩
  · exact Or.inl rfl

/-- A placement does not change what another method finds, if the two are apart. -/
theorem Places.taken_eq (h : env.Places c p inherited f f') (hused : inherited ≤ f.used)
    (hapart : env.Apart p q) :
    env.taken c q inherited f' = env.taken c q inherited f := by
  unfold taken
  split
  · rfl
  · rename_i hcond
    refine List.filter_congr fun i hi => ?_
    rw [List.mem_range] at hi
    rcases h.occupant_eq (i := i) hused with hsame | ⟨hocc, hbound, hsel⟩
    · rw [hsame]
    · obtain ⟨occupant, hocc', hsel'⟩ := hsel hi
      have hne : env.selector p ≠ env.selector q := by
        rcases hapart with h₁ | h₂ | hne
        · rw [hbound] at h₁
          cases h₁
        · exact absurd (Or.inl h₂) (by simpa [isBound] using hcond)
        · exact hne
      rw [hocc, hocc', Option.any_some, Option.any_some, takes, takes, hsel',
        decide_eq_false (show ¬ env.selector p = env.store.selector q.method from hne),
        decide_eq_false (show ¬ env.store.selector p.method = env.store.selector q.method from hne),
        Bool.false_and, Bool.false_and]

theorem Places.needsSlot_eq (h : env.Places c p inherited f f') (hused : inherited ≤ f.used)
    (hapart : env.Apart p q) :
    env.needsSlot c q inherited f' = env.needsSlot c q inherited f := by
  unfold needsSlot
  rw [h.taken_eq hused hapart]

/-- A method is in the slot that it came to last. -/
theorem Places.occupant_lastSlot (h : env.Places c p inherited f f') (hused : inherited ≤ f.used)
    (hi : env.lastSlot? c p inherited f = some i) :
    env.isBound p = false ∧ i < f'.used ∧ f'.occupant i = some p.method := by
  have hle := h.used_le
  unfold lastSlot? at hi
  split at hi
  · rename_i hneeds
    rw [Option.some.injEq] at hi
    subst hi
    refine ⟨isBound_of_needsSlot hneeds, ?_, by rw [h.occupant, if_pos (Or.inr ⟨hneeds, rfl⟩)]⟩
    rw [h.used, hneeds, Bool.toNat_true]
    exact Nat.lt_succ_self _
  · have htaken := List.mem_of_getLast? hi
    obtain ⟨hlt, hbound, -⟩ := mem_taken htaken
    exact ⟨hbound, by omega, by rw [h.occupant, if_pos (Or.inl htaken)]⟩

/-- A method that is bound dynamically and not final comes to a slot, unless the table is an
interface's. -/
theorem exists_lastSlot (hbound : env.isBound p = false)
    (hfinal : env.store.isFinalMethod p.method (env.store.getClass c).flags = false)
    (hint : (env.store.getClass c).isInterface = false) :
    ∃ i, env.lastSlot? c p inherited f = some i := by
  unfold lastSlot?
  split
  · exact ⟨_, rfl⟩
  · rename_i hneeds
    rw [← Option.isSome_iff_exists, List.getLast?_isSome]
    rw [Bool.not_eq_true] at hneeds
    by_contra hempty
    unfold isBound at hbound
    simp only [needsSlot, hbound, hfinal, hint, Bool.not_false, Bool.true_and,
      Bool.or_eq_false_iff, List.isEmpty_eq_false_iff] at hneeds
    exact hneeds.2 hempty

/-! ## Many placements -/

namespace PlacesAll

theorem size (h : env.PlacesAll c inherited ps f f') : f'.slots.size = f.slots.size := by
  induction h with
  | nil => rfl
  | cons hp _ ih => exact ih.trans hp.size

theorem used_le (h : env.PlacesAll c inherited ps f f') : f.used ≤ f'.used := by
  induction h with
  | nil => exact Nat.le_refl _
  | cons hp _ ih => exact Nat.le_trans hp.used_le ih

/-- No more slots are used than there are. -/
theorem used_le_size (h : env.PlacesAll c inherited ps f f') (hle : f.used ≤ f.slots.size) :
    f'.used ≤ f'.slots.size := by
  induction h with
  | nil => exact hle
  | @cons p _ f _ _ hp _ ih =>
    refine ih ?_
    rw [hp.used, hp.size]
    cases hneeds : env.needsSlot c p inherited f with
    | false => exact hle
    | true => exact hp.room hneeds

/-- Every occupant was there before or was placed. -/
theorem occupant_eq (h : env.PlacesAll c inherited ps f f') (hused : inherited ≤ f.used) :
    f'.occupant i = f.occupant i ∨
      ∃ p ∈ ps, f'.occupant i = some p.method ∧ env.isBound p = false := by
  induction h with
  | nil => exact Or.inl rfl
  | cons hp _ ih =>
    rcases ih (Nat.le_trans hused hp.used_le) with hsame | ⟨p, hmem, hocc, hbound⟩
    · rw [hsame]
      rcases hp.occupant_eq hused with hsame | ⟨hocc, hbound, -⟩
      · exact Or.inl hsame
      · exact Or.inr ⟨_, List.mem_cons_self, hocc, hbound⟩
    · exact Or.inr ⟨p, List.mem_cons_of_mem _ hmem, hocc, hbound⟩

/-- An inherited slot keeps its occupant or passes to a placed method of its selector; an empty one
stays empty. -/
theorem occupant_inherited (h : env.PlacesAll c inherited ps f f') (hused : inherited ≤ f.used)
    (hi : i < inherited) :
    f'.occupant i = f.occupant i ∨ ∃ p ∈ ps, f'.occupant i = some p.method ∧
      env.isBound p = false ∧
      ∃ occupant, f.occupant i = some occupant ∧ env.store.selector occupant = env.selector p := by
  induction h with
  | nil => exact Or.inl rfl
  | cons hp _ ih =>
    rcases ih (Nat.le_trans hused hp.used_le) with hsame | ⟨p, hmem, hocc, hbound, occ, hocc₁, hsel⟩
    · rw [hsame]
      rcases hp.occupant_eq hused with hsame | ⟨hocc, hbound, hsel⟩
      · exact Or.inl hsame
      · exact Or.inr ⟨_, List.mem_cons_self, hocc, hbound, hsel hi⟩
    · refine Or.inr ⟨p, List.mem_cons_of_mem _ hmem, hocc, hbound, ?_⟩
      rcases hp.occupant_eq (i := i) hused with hsame | ⟨hocc', hbound', hsel'⟩
      · exact ⟨occ, by rw [← hsame, hocc₁], hsel⟩
      · obtain ⟨occ₀, hocc₀, hsel₀⟩ := hsel' hi
        rw [hocc', Option.some.injEq] at hocc₁
        exact ⟨occ₀, hocc₀, by rw [hsel₀, ← hsel, ← hocc₁]; rfl⟩

/-- Methods of other selectors leave a slot in use alone. -/
theorem keeps (h : env.PlacesAll c inherited ps f f') (hi : i < f.used)
    (hps : ∀ p ∈ ps, env.isBound p = true ∨
      ∀ occupant, f.occupant i = some occupant → env.store.selector occupant ≠ env.selector p) :
    f'.occupant i = f.occupant i := by
  induction h with
  | nil => rfl
  | cons hp _ ih =>
    have hsame := hp.keeps hi (hps _ List.mem_cons_self)
    rw [ih (Nat.lt_of_lt_of_le hi hp.used_le) fun p hmem => ?_, hsame]
    rw [hsame]
    exact hps p (List.mem_cons_of_mem _ hmem)

/-- What a method finds does not depend on the methods placed before it, if it is apart from
them. -/
theorem needsSlot_eq (h : env.PlacesAll c inherited ps f f') (hused : inherited ≤ f.used)
    (hapart : ∀ p ∈ ps, env.Apart p q) :
    env.taken c q inherited f' = env.taken c q inherited f ∧
      env.needsSlot c q inherited f' = env.needsSlot c q inherited f := by
  induction h with
  | nil => exact ⟨rfl, rfl⟩
  | cons hp _ ih =>
    have hq := hapart _ List.mem_cons_self
    obtain ⟨htaken, hneeds⟩ := ih (Nat.le_trans hused hp.used_le) fun p hmem =>
      hapart p (List.mem_cons_of_mem _ hmem)
    exact ⟨htaken.trans (hp.taken_eq hused hq), hneeds.trans (hp.needsSlot_eq hused hq)⟩

/-- Afterwards as many more slots are in use as there are methods that needed one. -/
theorem used_eq (h : env.PlacesAll c inherited ps f f') (hused : inherited ≤ f.used)
    (hapart : ps.Pairwise env.Apart) :
    f'.used = f.used + ps.countP (fun p => env.needsSlot c p inherited f) := by
  induction h with
  | nil => rfl
  | @cons p ps f f₁ f₂ hp _ ih =>
    obtain ⟨hhead, htail⟩ := List.pairwise_cons.mp hapart
    have hcount : ps.countP (fun q => env.needsSlot c q inherited f₁) =
        ps.countP (fun q => env.needsSlot c q inherited f) :=
      List.countP_congr fun q hq => by rw [hp.needsSlot_eq hused (hhead q hq)]
    rw [ih (Nat.le_trans hused hp.used_le) htail, hcount, hp.used, List.countP_cons]
    cases env.needsSlot c p inherited f
    · simp
    · simp only [Bool.toNat_true, if_true]
      omega

/-- The placement of one method of the list. -/
theorem split_at (h : env.PlacesAll c inherited (before ++ p :: after) f f') :
    ∃ f₁ f₂, env.PlacesAll c inherited before f f₁ ∧ env.Places c p inherited f₁ f₂ ∧
      env.PlacesAll c inherited after f₂ f' := by
  obtain ⟨f₁, h₁, h₂⟩ := h.split
  cases h₂ with
  | cons hp h₂ => exact ⟨f₁, _, h₁, hp, h₂⟩

/-- A method stays in the slot that it came to last, if the methods after it are apart from it. -/
theorem occupant_lastSlot (h : env.PlacesAll c inherited after f₁ f')
    (hp : env.Places c p inherited f f₁) (hused : inherited ≤ f.used)
    (hi : env.lastSlot? c p inherited f = some i) (hafter : ∀ q ∈ after, env.Apart p q) :
    i < f'.used ∧ f'.occupant i = some p.method := by
  obtain ⟨hbound, hlt, hocc⟩ := hp.occupant_lastSlot hused hi
  refine ⟨Nat.lt_of_lt_of_le hlt h.used_le, ?_⟩
  rw [h.keeps hlt fun q hq => ?_, hocc]
  rcases hafter q hq with hb | hb | hne
  · rw [hbound] at hb
    cases hb
  · exact Or.inl hb
  · refine Or.inr fun occupant hocc' => ?_
    rw [hocc, Option.some.injEq] at hocc'
    exact hocc' ▸ hne

/-- Methods get their dispatch index when they are placed and at no other time. -/
theorem lastIndex?_eq (h : env.PlacesAll c inherited ps f f') {m : MethodId}
    (hps : ∀ p ∈ ps, p.isDefault = true ∨ p.method ≠ m) : f'.lastIndex? m = f.lastIndex? m := by
  induction h with
  | nil => rfl
  | cons hp _ ih =>
    rw [ih fun p hmem => hps p (List.mem_cons_of_mem _ hmem)]
    rcases hps _ List.mem_cons_self with hdefault | hne
    · rw [hp.gives, indexGiven, if_pos hdefault, Option.none_or, ite_self]
    · exact hp.gives.lastIndex?_of_ne (Ne.symm hne)

/-- Every declared method gets an index, and none that counts the methods of an interface. -/
theorem exists_lastIndex (h : env.PlacesAll c inherited ps f f') (hmem : p ∈ ps)
    (hdeclared : p.isDefault = false) :
    ∃ index, f'.lastIndex? p.method = some index ∧ index.interfaceEntry? = none := by
  have hgiven : ∀ {q : Placement} {f : Fill} {index : DispatchIndex},
      env.indexGiven c q inherited f = some index → index.interfaceEntry? = none := by
    intro q f index hindex
    unfold indexGiven initialIndex at hindex
    split at hindex
    · cases hindex
    · cases hindex
      cases env.lastSlot? c q inherited f with
      | some _ => rfl
      | none =>
        rw [Option.map_none, Option.getD_none]
        dsimp only
        split <;> rfl
  -- An index that a method has stays or gives way to another one of the kind.
  have hkeep : ∀ {qs : List Placement} {f₁ f' : Fill}, env.PlacesAll c inherited qs f₁ f' →
      ∀ {m : MethodId}, (∃ index, f₁.lastIndex? m = some index ∧ index.interfaceEntry? = none) →
        ∃ index, f'.lastIndex? m = some index ∧ index.interfaceEntry? = none := by
    intro qs f₁ f' h m hm
    induction h with
    | nil => exact hm
    | @cons q _ f₁ _ _ hq _ ih =>
      refine ih ?_
      rw [hq.gives]
      split
      · cases hindex : env.indexGiven c q inherited f₁ with
        | none => exact hm
        | some index => exact ⟨index, rfl, hgiven hindex⟩
      · exact hm
  obtain ⟨before, after, rfl⟩ := List.append_of_mem hmem
  obtain ⟨f₁, f₂, -, hp, h₂⟩ := h.split_at
  refine hkeep h₂ ⟨_, ?_, hgiven (q := p) (f := f₁) (if_neg (by simp [hdeclared]))⟩
  rw [hp.gives.lastIndex?_self, indexGiven, if_neg (by simp [hdeclared]), Option.some_or]

end PlacesAll

/-- Defaults stand in the slots that are listed for them. -/
theorem ListsSlots.forall₂ {slots : List Nat} (h : env.ListsSlots c inherited ps slots f f')
    (hused : inherited ≤ f.used) (hapart : ps.Pairwise env.Apart)
    (hbound : ∀ p ∈ ps, env.isBound p = false)
    (hfinal : ∀ p ∈ ps, env.store.isFinalMethod p.method (env.store.getClass c).flags = false)
    (hint : (env.store.getClass c).isInterface = false) :
    List.Forall₂ (fun p slot => slot < f'.used ∧ f'.occupant slot = some p.method) ps slots := by
  induction h with
  | nil => exact .nil
  | cons hp h ih =>
    obtain ⟨hhead, htail⟩ := List.pairwise_cons.mp hapart
    obtain ⟨i, hi⟩ := exists_lastSlot (hbound _ List.mem_cons_self)
      (hfinal _ List.mem_cons_self) hint
    refine .cons ?_ (ih (Nat.le_trans hused hp.used_le) htail
      (fun p hmem => hbound p (List.mem_cons_of_mem _ hmem))
      (fun p hmem => hfinal p (List.mem_cons_of_mem _ hmem)))
    rw [hi, Option.getD_some]
    exact h.placesAll.occupant_lastSlot hp hused hi hhead

end FillEnv
end ClassLinking
