import ClassLinking.Proofs.Linking
import ClassLinking.Proofs.Occupants
import Mathlib.Data.List.Nodup

/-!
# The layout of a virtual table

What a built table has in its slots.  An inherited slot keeps what the superclass has there, or
holds a method of the same selector that the class declares or inherits as a default
(`Built.methodAt_inherited`).  The slots behind the inherited ones hold declared methods, defaults
and placeholders (`Built.methodAt_own`).

Conversely, what is dispatched dynamically has a slot.  Every default of the class stands in the one
that is listed for it (`Built.methodAt_defaultSlots`), and a declared method in the one that its
dispatch index names (`Built.lastIndex?_declared`).
-/

namespace ClassLinking

open FillEnv Linker

namespace FillEnv

variable {env : FillEnv} {c : ClassId} {p : Placement}

theorem mem_placements : p ∈ env.placements c ↔
    (∃ m ∈ (env.store.getClass c).methods, p = env.placement c m false) ∨
      ∃ m ∈ (env.store.getClass c).defaults, p = env.placement c m true := by
  simp only [placements, List.mem_append, List.mem_map, eq_comm (a := p)]

/-- Two methods of different selectors are apart, wherever they are placed. -/
theorem apart_of_ne {m m' : MethodId} {b b' : Bool}
    (h : env.store.selector m ≠ env.store.selector m') :
    env.Apart (env.placement c m b) (env.placement c m' b') :=
  Or.inr (Or.inr h)

/-- A list without two of one selector is pairwise apart. -/
theorem pairwise_apart {ms : List MethodId} {b : Bool} (h : (ms.map env.store.selector).Nodup) :
    (ms.map (env.placement c · b)).Pairwise env.Apart := by
  rw [List.pairwise_map]
  exact (List.pairwise_map.mp h).imp fun hne => apart_of_ne hne

/-- In a class without two methods of one selector, a declared method is the only one of its
selector that is placed, if it is no default's. -/
theorem exists_split_placements {m : MethodId}
    (hnodup : ((env.store.getClass c).methods.map env.store.selector).Nodup)
    (hdefaults : ∀ d ∈ (env.store.getClass c).defaults,
      env.store.selector m ≠ env.store.selector d) (hm : m ∈ (env.store.getClass c).methods) :
    ∃ before after, env.placements c = before ++ env.placement c m false :: after ∧
      ∀ q ∈ before ++ after, env.store.selector m ≠ env.selector q := by
  obtain ⟨before, after, hsplit⟩ := List.append_of_mem hm
  rw [hsplit, List.map_append, List.map_cons, List.nodup_middle, List.nodup_cons,
    ← List.map_append] at hnodup
  refine ⟨before.map (env.placement c · false), after.map (env.placement c · false) ++
    (env.store.getClass c).defaults.map (env.placement c · true), ?_, fun q hq => ?_⟩
  · rw [placements, hsplit, List.map_append, List.map_cons, List.append_assoc, List.cons_append]
  · rw [← List.append_assoc, ← List.map_append, List.mem_append] at hq
    rcases hq with hq | hq
    · obtain ⟨x, hx, rfl⟩ := List.mem_map.mp hq
      exact fun heq => hnodup.1 (List.mem_map.mpr ⟨x, hx, heq.symm⟩)
    · obtain ⟨d, hd, rfl⟩ := List.mem_map.mp hq
      exact hdefaults d hd

/-- A default is the only one of its selector that is placed, if nothing else of the selector is
dispatched dynamically. -/
theorem exists_split_placements_default {m : MethodId}
    (hnodup : ((env.store.getClass c).defaults.map env.store.selector).Nodup)
    (hdeclared : ∀ x ∈ (env.store.getClass c).methods,
      (env.store.getMethod x).isBoundStatically = true ∨
        env.store.selector m ≠ env.store.selector x)
    (hm : m ∈ (env.store.getClass c).defaults) :
    ∃ before after, env.placements c = before ++ env.placement c m true :: after ∧
      ∀ q ∈ before ++ after, env.isBound q = true ∨ env.store.selector m ≠ env.selector q := by
  obtain ⟨before, after, hsplit⟩ := List.append_of_mem hm
  rw [hsplit, List.map_append, List.map_cons, List.nodup_middle, List.nodup_cons,
    ← List.map_append] at hnodup
  refine ⟨(env.store.getClass c).methods.map (env.placement c · false) ++
    before.map (env.placement c · true), after.map (env.placement c · true), ?_, fun q hq => ?_⟩
  · rw [placements, hsplit, List.map_append, List.map_cons, List.append_assoc]
  · rw [List.append_assoc, ← List.map_append, List.mem_append] at hq
    rcases hq with hq | hq
    · obtain ⟨x, hx, rfl⟩ := List.mem_map.mp hq
      exact hdeclared x hx
    · obtain ⟨d, hd, rfl⟩ := List.mem_map.mp hq
      exact Or.inr fun heq => hnodup.1 (List.mem_map.mpr ⟨d, hd, heq.symm⟩)

end FillEnv

namespace VTableLayout.Built

variable {env : FillEnv} {c : ClassId} {size : VTableSize} {layout : VTableLayout} {t : Store}
  {f : Fill} {i : Nat} {m : MethodId} {root : Option ClassId}

theorem inherited_le_used (h : layout.Built env c size t f) : size.inherited ≤ f.used :=
  h.placed.used_le

/-- The placeholders are behind the slots in use and within the table. -/
theorem room (h : layout.Built env c size t f) (hinherited : env.store.inheritedLength
    (env.store.getClass c).superclass? = .ok size.inherited)
    (hle : size.inherited ≤ size.length) :
    f.used + (env.store.pendingMirandas c).length ≤ size.length := by
  have hstart := size_start hinherited hle
  have hused := h.placed.used_le_size (hstart.symm ▸ hle)
  rw [h.placed.size, hstart] at hused
  have hlength := h.placeholders.length_eq
  by_cases hnone : (env.store.pendingMirandas c).length = 0
  · omega
  · -- The last placeholder is in a slot.
    have hlast := h.methodAt (f.used + (env.store.pendingMirandas c).length - 1)
    rw [if_pos (by omega), List.getElem?_eq_getElem (by omega)] at hlast
    have hlt := VTable.lt_of_methodAt hlast
    rw [h.length_eq] at hlt
    omega

theorem methodAt_of_lt_used (h : layout.Built env c size t f) (hi : i < f.used) :
    layout.table.methodAt i = f.occupant i := by
  rw [h.methodAt, if_neg (by omega)]

/-- An inherited slot keeps its method, or passes to a method of the same selector. -/
theorem methodAt_inherited (h : layout.Built env c size t f) (hi : i < size.inherited) :
    layout.table.methodAt i = env.store.inheritedAt c i ∨
      ∃ p ∈ env.placements c, layout.table.methodAt i = some p.method ∧ env.isBound p = false ∧
        ∃ occupant, env.store.inheritedAt c i = some occupant ∧
          env.store.selector occupant = env.selector p := by
  have hle := h.inherited_le_used
  have hstart : (env.start c size).occupant i = env.store.inheritedAt c i := occupant_start i
  rw [h.methodAt_of_lt_used (by omega), ← hstart]
  exact h.placed.occupant_inherited (Nat.le_refl _) hi

/-- A slot behind the inherited ones holds a declared method, a default or a placeholder. -/
theorem methodAt_own (h : layout.Built env c size t f)
    (hinherited : env.store.inheritedLength (env.store.getClass c).superclass? = .ok size.inherited)
    (hi : size.inherited ≤ i) (hm : layout.table.methodAt i = some m) :
    (∃ p ∈ env.placements c, p.method = m ∧ env.isBound p = false) ∨
      ∃ x ∈ env.store.pendingMirandas c, IsPlaceholder env.store t x m := by
  rw [h.methodAt] at hm
  split at hm
  · obtain ⟨x, hx, hplaceholder⟩ := h.placeholder_at hm
    exact Or.inr ⟨x, List.mem_of_getElem? hx, hplaceholder⟩
  · rcases h.placed.occupant_eq (i := i) (Nat.le_refl _) with hsame | ⟨p, hp, hocc, hbound⟩
    · rw [hsame, occupant_start, Store.inheritedAt_eq_none hinherited hi] at hm
      cases hm
    · rw [hocc, Option.some.injEq] at hm
      exact Or.inl ⟨p, hp, hm, hbound⟩

/-- An inherited slot is decided by the only method of its selector that is placed. -/
theorem methodAt_taken (h : layout.Built env c size t f) (hi : i < size.inherited)
    {before after : List Placement} {p : Placement}
    (hsplit : env.placements c = before ++ p :: after)
    (ho : env.store.inheritedAt c i = some m) (hsel : env.store.selector m = env.selector p)
    (hbound : env.isBound p = false)
    (hothers : ∀ q ∈ before ++ after, env.isBound q = true ∨ env.selector p ≠ env.selector q) :
    layout.table.methodAt i = some (if env.takes p i m then p.method else m) := by
  have hle := h.inherited_le_used
  have hstart : (env.start c size).occupant i = some m := (occupant_start i).trans ho
  have hplaced := h.placed
  rw [hsplit] at hplaced
  obtain ⟨f₁, h₁, h₂⟩ := hplaced.split
  have hkeep : f₁.occupant i = some m := by
    rw [h₁.keeps hi fun q hq => ?_, hstart]
    refine (hothers q (List.mem_append_left _ hq)).imp_right fun hne occupant hocc => ?_
    rw [hstart, Option.some.injEq] at hocc
    rw [← hocc, hsel]
    exact hne
  cases h₂ with
  | @cons _ _ _ f₂ _ hp h₂ =>
    have hused : (env.start c size).used ≤ f₁.used := h₁.used_le
    have hlt : i < f₁.used := Nat.lt_of_lt_of_le hi hused
    have hsuper : (env.store.getClass c).superclass?.isNone = false := by
      cases hp : (env.store.getClass c).superclass? with
      | none =>
        rw [Store.inheritedAt_top hp] at ho
        cases ho
      | some _ => rfl
    have htaken : i ∈ env.taken c p size.inherited f₁ ↔ env.takes p i m = true := by
      unfold isBound at hbound
      simp only [taken, hbound, hsuper, Bool.or_false, Bool.false_eq_true, if_false,
        List.mem_filter, List.mem_range, hkeep, Option.any_some, hi, true_and]
    have hocc : f₂.occupant i = some (if env.takes p i m then p.method else m) := by
      rw [hp.occupant]
      by_cases htakes : env.takes p i m = true
      · rw [if_pos (Or.inl (htaken.mpr htakes)), if_pos htakes]
      · rw [if_neg, if_neg htakes, hkeep]
        rintro (htakes' | ⟨-, rfl⟩)
        · exact htakes (htaken.mp htakes')
        · exact Nat.lt_irrefl _ hlt
    rw [h.methodAt_of_lt_used (by omega),
      h₂.keeps (Nat.lt_of_lt_of_le hlt hp.used_le) fun q hq => ?_, hocc]
    refine (hothers q (List.mem_append_right _ hq)).imp_right fun hne occupant hocc' => ?_
    rw [hocc, Option.some.injEq] at hocc'
    rw [← hocc']
    split
    · exact hne
    · rw [hsel]
      exact hne

/-- Every pending miranda has a placeholder in a slot. -/
theorem exists_placeholder (h : layout.Built env c size t f)
    (hm : m ∈ env.store.pendingMirandas c) :
    ∃ i x, layout.table.methodAt i = some x ∧ IsPlaceholder env.store t m x := by
  obtain ⟨j, hj, rfl⟩ := List.getElem_of_mem hm
  have hlen := h.placeholders.length_eq
  have hj' : j < layout.mirandas.length := by omega
  refine ⟨f.used + j, layout.mirandas[j], ?_, h.placeholders.get hj hj'⟩
  rw [h.methodAt, if_pos (by omega), Nat.add_sub_cancel_left, List.getElem?_eq_getElem hj']

/-- A declared method has the dispatch index of a slot that it stands in.  A final one need not come
to a slot, nor does an interface's. -/
theorem lastIndex?_declared (h : layout.Built env c size t f) {before after : List Placement}
    (hsplit : env.placements c = before ++ env.placement c m false :: after)
    (hothers : ∀ q ∈ before ++ after, env.store.selector m ≠ env.selector q)
    (hbound : (env.store.getMethod m).isBoundStatically = false) :
    (∃ i, f.lastIndex? m = some (.virtual i) ∧ layout.table.methodAt i = some m) ∨
      f.lastIndex? m = some (env.initialIndex c m) ∧
        (env.store.isFinalMethod m (env.store.getClass c).flags = true ∨
          (env.store.getClass c).isInterface = true) := by
  have hplaced := h.placed
  rw [hsplit] at hplaced
  obtain ⟨f₁, f₂, h₁, hp, h₂⟩ := hplaced.split_at
  have hindex : f.lastIndex? m = (env.indexGiven c (env.placement c m false) size.inherited
      f₁).or (f₁.lastIndex? m) := by
    rw [h₂.lastIndex?_eq fun q hq => Or.inr fun heq =>
      hothers q (List.mem_append_right _ hq) (by rw [selector, heq])]
    exact hp.gives.lastIndex?_self
  rw [hindex, indexGiven, if_neg (by simp [placement]), Option.some_or]
  cases hslot : env.lastSlot? c (env.placement c m false) size.inherited f₁ with
  | some i =>
    obtain ⟨hlt, hocc⟩ := h₂.occupant_lastSlot hp h₁.used_le hslot fun q hq =>
      Or.inr (Or.inr (hothers q (List.mem_append_right _ hq)))
    exact Or.inl ⟨i, rfl, by rw [h.methodAt_of_lt_used hlt, hocc]; rfl⟩
  | none =>
    refine Or.inr ⟨rfl, ?_⟩
    by_contra hneither
    rw [not_or, Bool.not_eq_true, Bool.not_eq_true] at hneither
    have hsome : ∃ i, env.lastSlot? c (env.placement c m false) size.inherited f₁ = some i :=
      exists_lastSlot hbound hneither.1 hneither.2
    rw [hslot] at hsome
    exact absurd hsome (by simp)

/-- The defaults of the class stand in the slots that are listed for them. -/
theorem methodAt_defaultSlots (h : layout.Built env c size t f)
    (hd : env.store.InheritsDefaults c) :
    List.Forall₂ (fun m slot => layout.table.methodAt slot = some m)
      (env.store.getClass c).defaults layout.defaultSlots := by
  obtain ⟨f₁, hdeclared, hlists⟩ := h.filled
  cases hint : (env.store.getClass c).isInterface with
  | true =>
    rw [hd.interface hint] at hlists ⊢
    generalize layout.defaultSlots = slots at hlists ⊢
    cases hlists
    exact .nil
  | false =>
    have hslots := hlists.forall₂ hdeclared.used_le (pairwise_apart hd.nodup)
      (fun p hp => by
        obtain ⟨m, hm, rfl⟩ := List.mem_map.mp hp
        exact (hd.isDefault m hm).2)
      (fun p hp => by
        obtain ⟨m, hm, rfl⟩ := List.mem_map.mp hp
        simp [placement, Store.isFinalMethod, (hd.isDefault m hm).1])
      hint
    rw [List.forall₂_map_left_iff] at hslots
    refine hslots.imp fun m slot hslot => ?_
    rw [h.methodAt_of_lt_used hslot.1, hslot.2]
    rfl

/-- Every default of the class has a slot. -/
theorem exists_default (h : layout.Built env c size t f) (hd : env.store.InheritsDefaults c)
    (hm : m ∈ (env.store.getClass c).defaults) : ∃ i, layout.table.methodAt i = some m := by
  have hslots := h.methodAt_defaultSlots hd
  obtain ⟨j, hj, rfl⟩ := List.getElem_of_mem hm
  exact ⟨_, hslots.get hj (hslots.length_eq ▸ hj)⟩

end VTableLayout.Built
end ClassLinking
