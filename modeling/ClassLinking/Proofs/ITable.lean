import ClassLinking.ITable.Build
import ClassLinking.Proofs.Mirandas
import Mathlib.Algebra.GroupWithZero.Nat

/-!
# What building an interface table yields

Building lays out one block for each interface and binds the entries one after the other.  Every
index fits its block, every block fits the table, and the header is closed by one terminator, so the
only way to fail is that two loaders disagree.

What stands in the table afterwards is `Store.interfaceTable`, and it `Binds` the class: the entry
of an interface method is what `Store.entryOf` says of the implementation that an interface call on
the class runs, and an entry that is bound belongs to an interface method.  Binding writes a list of
places, one for each numbered method (`Store.blockBindings`), so this is a matter of finding a block
again through the header (`ITable.LaidOut.block?_eq`) and of no other block's places being in it
(`Store.getElem?_write_blockBindings`).
-/

namespace ClassLinking

/-- Two loaders disagree about a class of a descriptor. -/
def LinkError.IsConflict (e : LinkError) : Prop :=
  ∃ className sel typeName loader other, e = .loaderConstraint className sel typeName loader other

/-! ## Writing to a row -/

section Row

variable {α : Type}

/-- A row with something new written to some of its places. -/
def write (row : List α) (places : List (Nat × α)) : List α :=
  places.foldl (fun row e => row.set e.1 e.2) row

variable {row : List α} {places : List (Nat × α)} {i : Nat}

theorem write_append (row : List α) (places more : List (Nat × α)) :
    write row (places ++ more) = write (write row places) more :=
  List.foldl_append

@[simp] theorem length_write : (write row places).length = row.length := by
  induction places generalizing row with
  | nil => rfl
  | cons e places ih =>
    rw [write, List.foldl_cons]
    exact ih.trans List.length_set

/-- A place has what was written there, or nothing was and it is as before. -/
theorem getElem?_write (places : List (Nat × α)) (hi : i < row.length) :
    (∃ x, (i, x) ∈ places ∧ (write row places)[i]? = some x) ∨
      (∀ e ∈ places, e.1 ≠ i) ∧ (write row places)[i]? = row[i]? := by
  induction places generalizing row with
  | nil => exact Or.inr ⟨fun e he => absurd he List.not_mem_nil, rfl⟩
  | cons e places ih =>
    have hstep : write row (e :: places) = write (row.set e.1 e.2) places := rfl
    rw [hstep]
    rcases @ih (row.set e.1 e.2) (by rwa [List.length_set]) with
      ⟨x, hx, heq⟩ | ⟨hnone, heq⟩
    · exact Or.inl ⟨x, List.mem_cons_of_mem _ hx, heq⟩
    · by_cases hei : e.1 = i
      · refine Or.inl ⟨e.2, hei ▸ List.mem_cons_self, ?_⟩
        rw [heq, ← hei, List.getElem?_set_self (by rwa [hei])]
      · refine Or.inr ⟨fun e' he' => ?_, ?_⟩
        · rcases List.mem_cons.mp he' with rfl | he'
          · exact hei
          · exact hnone e' he'
        · rw [heq, List.getElem?_set_ne hei]

/-- Everything in a row that was written to was there before or was written. -/
theorem mem_write {x : α} (h : x ∈ write row places) : x ∈ row ∨ ∃ i, (i, x) ∈ places := by
  obtain ⟨i, hi, rfl⟩ := List.getElem_of_mem h
  have hrow : i < row.length := by rwa [length_write] at hi
  have heq := List.getElem?_eq_getElem hi
  rcases getElem?_write places hrow with ⟨x, hx, hwrite⟩ | ⟨-, hwrite⟩
  · rw [hwrite, Option.some.injEq] at heq
    exact Or.inr ⟨i, heq ▸ hx⟩
  · rw [hwrite] at heq
    exact Or.inl (List.mem_of_getElem? heq)

end Row

namespace Store

variable {s : Store} {conflict? : String → LoaderId → LoaderId → Option String} {c i : ClassId}
  {m : MethodId} {header : List ITableHeader} {n start length : Nat} {b : Binding}

/-! ## The layout -/

/-- A number is below the greatest of some numbers if it is below one of them. -/
theorem lt_foldl_max_iff {α : Type} (g : α → Nat) (l : List α) (n k : Nat) :
    n < l.foldl (fun k y => max k (g y)) k ↔ n < k ∨ ∃ x ∈ l, n < g x := by
  induction l generalizing k with
  | nil => simp
  | cons y l ih =>
    have hmax : n < max k (g y) ↔ n < k ∨ n < g y := by omega
    rw [List.foldl_cons, ih, hmax, or_assoc]
    simp

/-- A block reaches as far as the numbers of the interface's methods. -/
theorem lt_blockLength_iff : n < s.blockLength i ↔
    ∃ m ∈ (s.getClass i).methods, ∃ index, s.interfaceIndex? m = some index ∧ n ≤ index := by
  refine (lt_foldl_max_iff _ _ n 0).trans ?_
  rw [or_iff_right (Nat.not_lt_zero n)]
  refine exists_congr fun m => and_congr_right fun _ => ?_
  cases s.interfaceIndex? m with
  | none => simp
  | some index => exact Nat.lt_succ_iff.trans ⟨fun h => ⟨index, rfl, h⟩, fun ⟨_, rfl, h⟩ => h⟩

/-- The number of an interface's method is within the interface's block. -/
theorem lt_blockLength {index : Nat} (hm : m ∈ (s.getClass i).methods)
    (hindex : s.interfaceIndex? m = some index) : index < s.blockLength i :=
  lt_blockLength_iff.mpr ⟨m, hm, index, hindex, Nat.le_refl index⟩

theorem mem_visitedInterfaces {interfaces : List ClassId}
    (h : (i, length) ∈ s.visitedInterfaces interfaces) :
    i ∈ interfaces ∧ length = s.blockLength i := by
  obtain ⟨j, hj, heq⟩ := List.mem_map.mp (List.mem_filter.mp h).1
  cases heq
  exact ⟨hj, rfl⟩

/-- An interface with numbered methods is visited. -/
theorem visitedInterfaces_mem {interfaces : List ClassId} (hi : i ∈ interfaces)
    (hlength : s.blockLength i ≠ 0) :
    (i, s.blockLength i) ∈ s.visitedInterfaces interfaces :=
  List.mem_filter.mpr ⟨List.mem_map_of_mem (f := fun i => (i, s.blockLength i)) hi,
    by simp [hlength]⟩

theorem blockLength_congr_interfaceIndex {t : Store}
    (hmethods : (t.getClass i).methods = (s.getClass i).methods)
    (hindex : ∀ m ∈ (s.getClass i).methods, t.interfaceIndex? m = s.interfaceIndex? m) :
    t.blockLength i = s.blockLength i := by
  rw [blockLength, blockLength, hmethods]
  refine List.foldl_ext _ _ _ fun n m hm => ?_
  rw [hindex m hm]

/-- Which blocks there are depends on their lengths and on the interfaces above. -/
theorem visitedInterfaces_congr {t : Store} {interfaces : List ClassId}
    (hlength : ∀ i ∈ interfaces, t.blockLength i = s.blockLength i)
    (hall : ∀ i ∈ interfaces, (t.getClass i).allInterfaces = (s.getClass i).allInterfaces) :
    t.visitedInterfaces interfaces = s.visitedInterfaces interfaces := by
  rw [visitedInterfaces, visitedInterfaces,
    List.map_congr_left fun i hi => by rw [hlength i hi]]
  refine List.filter_congr fun e he => ?_
  obtain ⟨i, hi, rfl⟩ := List.mem_map.mp he
  dsimp only
  rw [hall i hi]

/-- Interfaces are visited in the order in which the class lists them. -/
theorem visitedInterfaces_sublist (s : Store) (interfaces : List ClassId) :
    ((s.visitedInterfaces interfaces).map (·.1)).Sublist interfaces := by
  have hmap : (interfaces.map fun i => (i, s.blockLength i)).map (·.1) = interfaces := by
    rw [List.map_map]
    exact List.map_id interfaces
  conv_rhs => rw [← hmap]
  exact List.filter_sublist.map _

/-- No interface is visited twice. -/
theorem nodup_visitedInterfaces {interfaces : List ClassId} (h : interfaces.Nodup) :
    ((s.visitedInterfaces interfaces).map (·.1)).Nodup :=
  h.sublist (s.visitedInterfaces_sublist interfaces)

end Store

namespace ITable

/-- A header names the interfaces of its blocks in order, and nothing else but the terminator. -/
theorem headerFrom_eq (offset : Nat) (blocks : List (ClassId × Nat)) :
    ∃ hs, headerFrom offset blocks = hs ++ [.terminator] ∧
      hs.map (·.interface) = (blocks.map (·.1)).map some := by
  induction blocks generalizing offset with
  | nil => exact ⟨[], rfl, rfl⟩
  | cons b rest ih =>
    obtain ⟨hs, heq, hmap⟩ := ih (offset + b.2)
    refine ⟨⟨some b.1, offset⟩ :: hs, by rw [headerFrom, heq]; rfl, ?_⟩
    rw [List.map_cons, hmap]
    rfl

/-- A header that was laid out is closed by exactly one terminator. -/
theorem isTerminated_of_header {t : ITable} {offset : Nat} {blocks : List (ClassId × Nat)}
    (h : t.header = headerFrom offset blocks) : t.isTerminated = true := by
  obtain ⟨hs, heq, hmap⟩ := headerFrom_eq offset blocks
  have hany : hs.any ITableHeader.isTerminator = false := by
    rw [List.any_eq_false]
    intro x hx
    have hmem : x.interface ∈ (blocks.map (·.1)).map some := hmap ▸ List.mem_map_of_mem hx
    obtain ⟨i, -, hi⟩ := List.mem_map.mp hmem
    simp [ITableHeader.isTerminator, ← hi]
  simp [isTerminated, h, heq, hany, ITableHeader.isTerminator, ITableHeader.terminator]

variable {i : ClassId} {length words offset entryCount : Nat} {before after : List (ClassId × Nat)}

/-- A block that was laid out starts behind the blocks before it and ends where the next one starts,
or at the end of the table. -/
theorem blockIn_headerFrom (hoffset : words ≤ offset)
    (hcount : entryCount =
      offset - words + ((before ++ (i, length) :: after).map (·.2)).sum)
    (hbefore : i ∉ before.map (·.1)) :
    blockIn words entryCount i (headerFrom offset (before ++ (i, length) :: after)) =
      some (offset - words + (before.map (·.2)).sum, length) := by
  induction before generalizing offset with
  | nil =>
    simp only [List.nil_append, List.map_cons, List.map_nil, List.sum_cons, List.sum_nil] at *
    unfold headerFrom blockIn
    rw [if_pos rfl]
    cases after with
    | nil =>
      simp only [headerFrom, ITableHeader.isTerminator, ITableHeader.terminator, hcount,
        List.map_nil, List.sum_nil, Option.isNone_none, beq_self_eq_true, Bool.and_self, if_true,
        Option.some.injEq, Prod.mk.injEq]
      omega
    | cons next rest =>
      simp only [headerFrom, ITableHeader.isTerminator, Option.isNone_some, Bool.false_and,
        Bool.false_eq_true, if_false, Option.some.injEq, Prod.mk.injEq]
      omega
  | cons e before ih =>
    rw [List.map_cons, List.mem_cons, not_or] at hbefore
    simp only [List.cons_append, List.map_cons, List.sum_cons] at hcount
    rw [List.cons_append]
    unfold headerFrom blockIn
    rw [if_neg fun heq => hbefore.1 (Option.some.inj heq).symm,
      ih (by omega) (by rw [hcount]; omega) hbefore.2, List.map_cons, List.sum_cons]
    simp only [Option.some.injEq, Prod.mk.injEq, and_true]
    omega

theorem blockIn_headerFrom_eq_none {blocks : List (ClassId × Nat)} (h : i ∉ blocks.map (·.1)) :
    blockIn words entryCount i (headerFrom offset blocks) = none := by
  induction blocks generalizing offset with
  | nil => simp [headerFrom, blockIn, ITableHeader.terminator]
  | cons e rest ih =>
    rw [List.map_cons, List.mem_cons, not_or] at h
    unfold headerFrom blockIn
    rw [if_neg fun heq => h.1 (Option.some.inj heq).symm, ih h.2]

/-- The table laid out for some blocks. -/
def LaidOut (t : ITable) (blocks : List (ClassId × Nat)) : Prop :=
  t.header = headerFrom ((blocks.length + 1) * ITableHeader.words) blocks ∧
    t.entries.length = (blocks.map (·.2)).sum

/-- The header takes two words for each block and for the terminator. -/
theorem LaidOut.words_eq {t : ITable} {blocks : List (ClassId × Nat)} (h : t.LaidOut blocks) :
    t.words = 2 * (blocks.length + 1) + (blocks.map (·.2)).sum := by
  rw [ITable.words, headerWords, h.1, h.2, length_headerFrom, ITableHeader.words, Nat.mul_comm]

/-- A block starts behind the entries of the blocks before it. -/
theorem LaidOut.block?_eq {t : ITable} (h : t.LaidOut (before ++ (i, length) :: after))
    (hbefore : i ∉ before.map (·.1)) : t.block? i = some ((before.map (·.2)).sum, length) := by
  have hwords : t.headerWords =
      ((before ++ (i, length) :: after).length + 1) * ITableHeader.words := by
    rw [headerWords, h.1, length_headerFrom]
  rw [block?, hwords, h.1, blockIn_headerFrom (Nat.le_refl _) (by rw [h.2]; omega) hbefore,
    Nat.sub_self, Nat.zero_add]

/-- Entries are read from the place that their block has in the table. -/
theorem LaidOut.entry?_eq {t : ITable} (h : t.LaidOut (before ++ (i, length) :: after))
    (hbefore : i ∉ before.map (·.1)) (index : Nat) :
    t.entry? i index =
      if index < length then t.entries[(before.map (·.2)).sum + index]? else none := by
  unfold entry?
  rw [h.block?_eq hbefore]

theorem LaidOut.entry?_eq_none {t : ITable} {blocks : List (ClassId × Nat)} (h : t.LaidOut blocks)
    (hi : i ∉ blocks.map (·.1)) (index : Nat) : t.entry? i index = none := by
  unfold entry?
  rw [block?, h.1, blockIn_headerFrom_eq_none hi]

end ITable

namespace Store

variable {s : Store} {conflict? : String → LoaderId → LoaderId → Option String} {c i : ClassId}
  {m : MethodId} {header : List ITableHeader} {n start length : Nat} {b : Binding}

/-! ## Binding -/

/-- An interface call runs a declaration of the superclass chain with none but static ones below it,
or a default of the class. -/
theorem implementation?_some {sel : Selector} (h : s.implementation? c sel = some m) :
    s.selector m = sel ∧ (s.getMethod m).modifiers.isStatic = false ∧
      ((∃ before k after, s.lineage c = before ++ k :: after ∧ m ∈ (s.getClass k).methods ∧
        ∀ b ∈ before, ∀ x, s.declared? b sel .all = some x →
          (s.getMethod x).modifiers.isStatic = true) ∨ m ∈ (s.getClass c).defaults) := by
  unfold implementation? at h
  dsimp only at h
  rw [Option.or_eq_some_iff] at h
  rcases h with h | ⟨-, h⟩
  · obtain ⟨before, k, after, hsplit, hfound, hbefore⟩ := List.findSome?_eq_some_iff.mp h
    rw [Option.filter_eq_some_iff, Bool.not_eq_true'] at hfound
    obtain ⟨hm, hsel, -⟩ := findAmong?_some hfound.1
    refine ⟨hsel, hfound.2, Or.inl ⟨before, k, after, hsplit, hm, fun b hb x hx => ?_⟩⟩
    simpa [hx] using hbefore b hb
  · rw [Option.filter_eq_some_iff, Bool.not_eq_true'] at h
    obtain ⟨hm, hsel, -⟩ := findAmong?_some h.1
    exact ⟨hsel, h.2, Or.inr hm⟩

/-- The implementation of an interface method is declared in the superclass chain or is a default of
the class. -/
theorem mem_of_implementation? {sel : Selector} (h : s.implementation? c sel = some m) :
    (∃ k ∈ s.lineage c, m ∈ (s.getClass k).methods) ∨ m ∈ (s.getClass c).defaults := by
  obtain ⟨-, -, ⟨before, k, after, hsplit, hm, -⟩ | hm⟩ := implementation?_some h
  · exact Or.inl ⟨k, hsplit ▸ List.mem_append_right _ List.mem_cons_self, hm⟩
  · exact Or.inr hm

theorem entryOf_eq_bound {found : Option MethodId} (h : s.entryOf found = .bound m) :
    found = some m ∧ (s.getMethod m).access.isPublic = true ∧
      (s.getMethod m).modifiers.isAbstract = false := by
  unfold entryOf at h
  cases found with
  | none => cases h
  | some target =>
    dsimp only at h
    split at h
    · cases h
    · rename_i hpublic
      split at h
      · cases h
      · rename_i habstract
        cases h
        exact ⟨rfl, by simpa using hpublic, by simpa using habstract⟩

/-- What a table of `c` has in the entry of an interface method. -/
def entryFor (s : Store) (c : ClassId) (m : MethodId) : ITableEntry :=
  s.entryOf (s.implementation? c (s.selector m))

/-- What binding the methods of a block writes, and where; the block starts at `start`. -/
def bindings (s : Store) (c : ClassId) (start : Nat) (ms : List MethodId) :
    List (Nat × ITableEntry) :=
  ms.filterMap fun m => (s.interfaceIndex? m).map fun index => (start + index, s.entryFor c m)

/-- What binding some blocks writes, and where; the first block starts at `start`. -/
def blockBindings (s : Store) (c : ClassId) :
    (start : Nat) → List (ClassId × Nat) → List (Nat × ITableEntry)
  | _, [] => []
  | start, (i, length) :: rest =>
    s.bindings c start (s.getClass i).methods ++ blockBindings s c (start + length) rest

theorem mem_bindings {ms : List MethodId} {e : Nat × ITableEntry} :
    e ∈ s.bindings c start ms ↔ ∃ m ∈ ms, ∃ index, s.interfaceIndex? m = some index ∧
      e = (start + index, s.entryFor c m) := by
  simp only [bindings, List.mem_filterMap, Option.map_eq_some_iff, eq_comm (b := e)]

theorem blockBindings_append (start : Nat) (blocks more : List (ClassId × Nat)) :
    s.blockBindings c start (blocks ++ more) =
      s.blockBindings c start blocks ++
        s.blockBindings c (start + (blocks.map (·.2)).sum) more := by
  induction blocks generalizing start with
  | nil => rfl
  | cons e rest ih =>
    rw [List.cons_append, blockBindings, ih, blockBindings, List.append_assoc, List.map_cons,
      List.sum_cons, Nat.add_assoc]

/-- Blocks are written within their bounds. -/
theorem bounds_of_mem_blockBindings {blocks : List (ClassId × Nat)}
    (hblocks : ∀ e ∈ blocks, e.2 = s.blockLength e.1) {e : Nat × ITableEntry}
    (h : e ∈ s.blockBindings c start blocks) :
    start ≤ e.1 ∧ e.1 < start + (blocks.map (·.2)).sum := by
  induction blocks generalizing start with
  | nil => exact absurd h List.not_mem_nil
  | cons b rest ih =>
    rw [List.map_cons, List.sum_cons]
    rcases List.mem_append.mp h with h | h
    · obtain ⟨m, hm, index, hindex, rfl⟩ := mem_bindings.mp h
      have hlt := lt_blockLength hm hindex
      rw [← hblocks b List.mem_cons_self] at hlt
      dsimp only
      omega
    · have hrest := ih (fun b hb => hblocks b (List.mem_cons_of_mem _ hb)) h
      omega

/-- An entry of a block has what was written for a method of the interface with its number, or there
is no such method and it is as before. -/
theorem getElem?_write_blockBindings {row : List ITableEntry} {before after : List (ClassId × Nat)}
    {index : Nat} (hblocks : ∀ e ∈ before ++ (i, length) :: after, e.2 = s.blockLength e.1)
    (hroom : (before.map (·.2)).sum + index < row.length) (hindex : index < length) :
    (∃ m ∈ (s.getClass i).methods, s.interfaceIndex? m = some index ∧
      (write row (s.blockBindings c 0 (before ++ (i, length) :: after)))[
        (before.map (·.2)).sum + index]? = some (s.entryFor c m)) ∨
    (∀ m ∈ (s.getClass i).methods, s.interfaceIndex? m ≠ some index) ∧
      (write row (s.blockBindings c 0 (before ++ (i, length) :: after)))[
        (before.map (·.2)).sum + index]? = row[(before.map (·.2)).sum + index]? := by
  have hsplit := s.blockBindings_append (c := c) 0 before ((i, length) :: after)
  rw [Nat.zero_add, blockBindings] at hsplit
  rcases getElem?_write (s.blockBindings c 0 (before ++ (i, length) :: after)) hroom with
    ⟨x, hx, heq⟩ | ⟨hnone, heq⟩
  · rw [hsplit, List.mem_append, List.mem_append] at hx
    rcases hx with hx | hx | hx
    · have hbounds := bounds_of_mem_blockBindings
        (fun b hb => hblocks b (List.mem_append_left _ hb)) hx
      dsimp only at hbounds
      omega
    · obtain ⟨m, hm, index', hindex', hentry⟩ := mem_bindings.mp hx
      rw [Prod.mk.injEq, Nat.add_left_cancel_iff] at hentry
      exact Or.inl ⟨m, hm, hentry.1 ▸ hindex', heq.trans (congrArg some hentry.2)⟩
    · have hbounds := bounds_of_mem_blockBindings
        (fun b hb => hblocks b (List.mem_append_right _ (List.mem_cons_of_mem _ hb))) hx
      dsimp only at hbounds
      omega
  · refine Or.inr ⟨fun m hm hindex' => ?_, heq⟩
    refine hnone ((before.map (·.2)).sum + index, s.entryFor c m) ?_ rfl
    rw [hsplit, List.mem_append, List.mem_append]
    exact Or.inr (Or.inl (mem_bindings.mpr ⟨m, hm, index, hindex', rfl⟩))

/-- Whatever is written is the entry of a method. -/
theorem exists_entryFor_of_mem {blocks : List (ClassId × Nat)} {e : Nat × ITableEntry}
    (h : e ∈ s.blockBindings c start blocks) : ∃ m, e.2 = s.entryFor c m := by
  induction blocks generalizing start with
  | nil => exact absurd h List.not_mem_nil
  | cons b rest ih =>
    rcases List.mem_append.mp h with h | h
    · obtain ⟨m, -, -, -, rfl⟩ := mem_bindings.mp h
      exact ⟨m, rfl⟩
    · exact ih h

/-- The pass wrote the places and left the rest of the table alone. -/
def Writes (places : List (Nat × ITableEntry)) (b b' : Binding) : Prop :=
  b'.table = { b.table with entries := write b.table.entries places }

theorem Writes.trans {places more : List (Nat × ITableEntry)} {b₁ b₂ : Binding}
    (h : Writes places b b₁) (h' : Writes more b₁ b₂) : Writes (places ++ more) b b₂ := by
  rw [Writes, h', h, write_append]

theorem Writes.length_eq {places : List (Nat × ITableEntry)} {b₁ : Binding}
    (h : Writes places b b₁) : b₁.table.entries.length = b.table.entries.length := by
  rw [h, length_write]

theorem checkBinding_outcome (target : MethodId) :
    Outcome (s.checkBinding conflict? c i target) b (fun _ b' => b'.table = b.table)
      (fun e _ => e.IsConflict) := by
  unfold checkBinding
  cases s.holder? target with
  | none => exact rfl
  | some holder =>
    dsimp only
    cases conflict? (s.selector target).descriptor (s.getClass holder).loader
        (s.getClass i).loader with
    | none => exact rfl
    | some typeName =>
      simp only [BindM.note, outcome_bind, outcome_modify, outcome_throw]
      exact ⟨_, _, _, _, _, rfl⟩

theorem bindMethod_outcome (hroom : start + length ≤ b.table.entries.length)
    (hindex : ∀ index, s.interfaceIndex? m = some index → index < length) :
    Outcome (s.bindMethod conflict? c i start length m) b
      (fun _ b' => Writes (s.bindings c start [m]) b b') (fun e _ => e.IsConflict) := by
  unfold bindMethod
  cases hm : s.interfaceIndex? m with
  | none =>
    have hnothing : s.bindings c start [m] = [] := by simp [bindings, hm]
    rw [hnothing]
    exact rfl
  | some index =>
    have hlt := hindex index hm
    have hplace : s.bindings c start [m] = [(start + index, s.entryFor c m)] := by
      simp [bindings, hm]
    rw [hplace]
    simp only [if_neg (Nat.not_le.mpr hlt)]
    have hput : ∀ b' : Binding, b'.table = b.table → ∀ e,
        Outcome (do BindM.note (.entry m index e); BindM.put (start + index) e) b'
          (fun _ b'' => Writes [(start + index, e)] b b'') (fun e _ => e.IsConflict) := by
      intro b' hb' e
      have hslot : start + index < b'.table.entries.length := by
        rw [hb']
        omega
      unfold BindM.put
      simp only [BindM.note, outcome_bind, outcome_get, outcome_modify, ITable.put_of_lt hslot]
      rw [Writes, hb']
      rfl
    have hentry : s.entryOf (s.implementation? c (s.selector m)) = s.entryFor c m := rfl
    rw [hentry]
    generalize s.entryFor c m = e
    cases e with
    | bound target =>
      simp only [outcome_bind]
      exact (checkBinding_outcome target).imp (fun _ b' hb' => by
        simpa only [outcome_bind] using hput b' hb' (.bound target)) (fun _ _ he => he)
    | empty => simpa using hput b rfl .empty
    | inaccessible method => simpa using hput b rfl (.inaccessible method)

theorem bindMethods_outcome {ms : List MethodId} (hroom : start + length ≤ b.table.entries.length)
    (hindex : ∀ m ∈ ms, ∀ index, s.interfaceIndex? m = some index → index < length) :
    Outcome (s.bindMethods conflict? c i start length ms) b
      (fun _ b' => Writes (s.bindings c start ms) b b') (fun e _ => e.IsConflict) := by
  induction ms generalizing b with
  | nil => exact rfl
  | cons m ms ih =>
    have happend : s.bindings c start (m :: ms) = s.bindings c start [m] ++ s.bindings c start ms :=
      List.filterMap_append (l := [m])
    simp only [bindMethods, outcome_bind]
    refine (bindMethod_outcome hroom (hindex m List.mem_cons_self)).imp (fun _ b₁ h₁ => ?_)
      (fun _ _ he => he)
    refine (ih (h₁.length_eq ▸ hroom) fun m hm => hindex m (List.mem_cons_of_mem _ hm)).imp
      (fun _ b₂ h₂ => ?_) (fun _ _ he => he)
    rw [happend]
    exact h₁.trans h₂

theorem bindBlocks_outcome {blocks : List (ClassId × Nat)}
    (hroom : start + (blocks.map (·.2)).sum ≤ b.table.entries.length)
    (hblocks : ∀ e ∈ blocks, e.2 = s.blockLength e.1) :
    Outcome (s.bindBlocks conflict? c start blocks) b
      (fun _ b' => Writes (s.blockBindings c start blocks) b b') (fun e _ => e.IsConflict) := by
  induction blocks generalizing b start with
  | nil => exact rfl
  | cons e rest ih =>
    obtain ⟨i, length⟩ := e
    have hlength : length = s.blockLength i := hblocks _ List.mem_cons_self
    simp only [List.map_cons, List.sum_cons] at hroom
    simp only [bindBlocks, outcome_bind]
    refine (bindMethods_outcome (by omega) fun m hm index hindex => ?_).imp (fun _ b₁ h₁ => ?_)
      (fun _ _ he => he)
    · rw [hlength]
      exact lt_blockLength hm hindex
    · exact (ih (by rw [h₁.length_eq]; omega)
        fun e he => hblocks e (List.mem_cons_of_mem _ he)).imp (fun _ b₂ h₂ => h₁.trans h₂)
        (fun _ _ he => he)

end Store

/-! ## Building -/

/-- The table of the class `c` is bound to what the class implements. -/
structure Binds (s : Store) (c : ClassId) (t : ITable) : Prop where
  implementation : ∀ m, .bound m ∈ t.entries → ∃ sel, s.implementation? c sel = some m
  entry_of_index : ∀ i ∈ (s.getClass c).allInterfaces, ∀ m ∈ (s.getClass i).methods, ∀ index,
    s.interfaceIndex? m = some index → ∃ m' ∈ (s.getClass i).methods,
      s.interfaceIndex? m' = some index ∧ t.entry? i index = some (s.entryFor c m')
  index_of_bound : ∀ i ∈ (s.getClass c).allInterfaces, ∀ index m,
    t.entry? i index = some (.bound m) → ∃ m' ∈ (s.getClass i).methods,
      s.interfaceIndex? m' = some index ∧ s.entryFor c m' = .bound m

/-- The numbers of an interface's methods tell them apart, and only methods that are dispatched
dynamically have one. -/
structure Numbered (s : Store) (i : ClassId) : Prop where
  bound : ∀ m ∈ (s.getClass i).methods, ∀ index, s.interfaceIndex? m = some index →
    (s.getMethod m).isBoundStatically = false
  unique : ∀ m ∈ (s.getClass i).methods, ∀ m' ∈ (s.getClass i).methods, ∀ index,
    s.interfaceIndex? m = some index → s.interfaceIndex? m' = some index → m = m'

/-- A method has a number if it is dispatched by it. -/
theorem Store.interfaceIndex?_eq_some {s : Store} {m : MethodId} {k : Nat} :
    s.interfaceIndex? m = some k ↔ (s.getMethod m).dispatch = .interface k := by
  rw [interfaceIndex?]
  cases (s.getMethod m).dispatch <;> simp [ DispatchIndex.interfaceEntry?]

/-- A method of an interface is found again by its number. -/
theorem Numbered.interfaceMethodAt? {s : Store} {i : ClassId} {m : MethodId} {k : Nat}
    (h : Numbered s i) (hm : m ∈ (s.getClass i).methods)
    (hk : s.interfaceIndex? m = some k) : s.interfaceMethodAt? i k = some m := by
  unfold Store.interfaceMethodAt?
  cases hfound : (s.getClass i).methods.find? fun m => (s.getMethod m).dispatch = .interface k with
  | none =>
    have hnot := List.find?_eq_none.mp hfound m hm
    rw [decide_eq_true_eq, ← Store.interfaceIndex?_eq_some] at hnot
    exact absurd hk hnot
  | some x =>
    have hx := List.find?_some hfound
    rw [decide_eq_true_eq, ← Store.interfaceIndex?_eq_some] at hx
    rw [h.unique x (List.mem_of_find?_eq_some hfound) m hm k hx hk]

/-- The table with the given blocks after all of them were bound. -/
def Store.boundTable (s : Store) (c : ClassId) (blocks : List (ClassId × Nat)) : ITable :=
  { ITable.ofBlocks blocks with
    entries := write (ITable.ofBlocks blocks).entries (s.blockBindings c 0 blocks) }

/-- The table for some blocks has the entries of all of them. -/
theorem ITable.length_entries_ofBlocks (blocks : List (ClassId × Nat)) :
    (ITable.ofBlocks blocks).entries.length = (blocks.map (·.2)).sum := by
  rw [ofBlocks, List.length_replicate, ITableSize.ofBlocks, List.sum_eq_foldr, List.foldr_map]

theorem Store.laidOut_boundTable (s : Store) (c : ClassId) (blocks : List (ClassId × Nat)) :
    (s.boundTable c blocks).LaidOut blocks :=
  ⟨rfl, by rw [boundTable, length_write, ITable.length_entries_ofBlocks]⟩

/-- Whatever a bound table is bound to is the entry of a method. -/
theorem Store.entryFor_of_bound {s : Store} {c : ClassId} {blocks : List (ClassId × Nat)}
    {m : MethodId} (h : .bound m ∈ (s.boundTable c blocks).entries) :
    ∃ x, s.entryFor c x = .bound m := by
  rcases mem_write h with hempty | ⟨_, hm⟩
  · exact absurd (List.eq_of_mem_replicate hempty) (by simp)
  · obtain ⟨x, hx⟩ := exists_entryFor_of_mem hm
    exact ⟨x, hx.symm⟩

/-- An entry of a bound table has what the class implements for the method with its number, and it
is not bound if there is no such method. -/
theorem Store.entry?_boundTable {s : Store} {c i : ClassId} {blocks : List (ClassId × Nat)}
    (hblocks : ∀ e ∈ blocks, e.2 = s.blockLength e.1) (hnodup : (blocks.map (·.1)).Nodup)
    (hi : i ∈ blocks.map (·.1)) (index : Nat) :
    (∃ m ∈ (s.getClass i).methods, s.interfaceIndex? m = some index ∧
      ITable.entry? (s.boundTable c blocks) i index = some (s.entryFor c m)) ∨
    (∀ m ∈ (s.getClass i).methods, s.interfaceIndex? m ≠ some index) ∧
      ∀ m, ITable.entry? (s.boundTable c blocks) i index ≠ some (.bound m) := by
  obtain ⟨⟨j, length⟩, hmem, rfl⟩ := List.mem_map.mp hi
  have hlength : length = s.blockLength j := hblocks _ hmem
  have hlaid := s.laidOut_boundTable c blocks
  obtain ⟨before, after, rfl⟩ := List.append_of_mem hmem
  have hbefore : j ∉ before.map (·.1) := fun hmem' => by
    rw [List.map_append, List.nodup_append] at hnodup
    exact hnodup.2.2 j hmem' j List.mem_cons_self rfl
  rw [hlaid.entry?_eq hbefore]
  by_cases hindex : index < length
  · have hrow : (ITable.ofBlocks (before ++ (j, length) :: after)).entries.length =
        (before.map (·.2)).sum + (length + (after.map (·.2)).sum) := by
      rw [ITable.length_entries_ofBlocks]
      simp
    rw [if_pos hindex]
    refine (getElem?_write_blockBindings hblocks (by omega) hindex).imp_right fun h =>
      ⟨h.1, fun m hm => ?_⟩
    have hempty := List.mem_of_getElem? (h.2.symm.trans hm)
    exact absurd (List.eq_of_mem_replicate hempty) (by simp)
  · rw [if_neg hindex]
    refine Or.inr ⟨fun m hm heq => ?_, fun m => by simp⟩
    exact hindex (hlength ▸ lt_blockLength hm heq)

/-- The table that the class `c` gets: a block for every interface that is to have one, bound. -/
def Store.interfaceTable (s : Store) (c : ClassId) : ITable :=
  s.boundTable c (s.visitedInterfaces (s.getClass c).allInterfaces)

/-- There is a terminator in the table of a class without interfaces, too. -/
theorem Store.words_interfaceTable_ne (s : Store) (c : ClassId) :
    (s.interfaceTable c).words ≠ 0 := by
  rw [interfaceTable, (s.laidOut_boundTable c _).words_eq]
  omega

/-- The table of a class is bound to what the class implements. -/
theorem Binds.of_interfaceTable {s : Store} {c : ClassId}
    (hnodup : (s.getClass c).allInterfaces.Nodup) : Binds s c (s.interfaceTable c) := by
  have hblocks : ∀ e ∈ s.visitedInterfaces (s.getClass c).allInterfaces,
      e.2 = s.blockLength e.1 := fun e he => (Store.mem_visitedInterfaces he).2
  have hentry := fun i hi => Store.entry?_boundTable (c := c) (i := i) hblocks
    (Store.nodup_visitedInterfaces hnodup) hi
  refine ⟨fun m hm => ?_, fun i hi m hm index hindex => ?_, fun i hi index m hbound => ?_⟩
  · obtain ⟨x, hx⟩ := Store.entryFor_of_bound hm
    exact ⟨_, (Store.entryOf_eq_bound hx).1⟩
  · have hlt := Store.lt_blockLength hm hindex
    have hvisited := Store.visitedInterfaces_mem (s := s) hi (by omega)
    exact (hentry i (List.mem_map_of_mem (f := (·.1)) hvisited) index).resolve_right
      fun hnone => hnone.1 m hm hindex
  · by_cases hi' : i ∈ (s.visitedInterfaces (s.getClass c).allInterfaces).map (·.1)
    · rcases hentry i hi' index with ⟨m', hm', hindex, heq⟩ | ⟨-, hnone⟩
      · exact ⟨m', hm', hindex, Option.some.inj (heq.symm.trans hbound)⟩
      · exact absurd hbound (hnone m)
    · rw [Store.interfaceTable,
        ITable.LaidOut.entry?_eq_none (s.laidOut_boundTable c _) hi'] at hbound
      cases hbound

/-- Only the interfaces of the class have entries in its table. -/
theorem Store.mem_allInterfaces_of_entry? {s : Store} {c i : ClassId} {index : Nat}
    {e : ITableEntry} (h : ITable.entry? (s.interfaceTable c) i index = some e) :
    i ∈ (s.getClass c).allInterfaces := by
  by_contra hi
  have hnot : i ∉ (s.visitedInterfaces (s.getClass c).allInterfaces).map (·.1) := fun hmem => by
    obtain ⟨x, hx, rfl⟩ := List.mem_map.mp hmem
    exact hi (Store.mem_visitedInterfaces hx).1
  rw [interfaceTable, ITable.LaidOut.entry?_eq_none (s.laidOut_boundTable c _) hnot] at h
  cases h

/-- The table depends on the interfaces of the class, on the numbers of their methods and on what
the class implements. -/
theorem Store.interfaceTable_congr {s t : Store} {c : ClassId}
    (hall : (t.getClass c).allInterfaces = (s.getClass c).allInterfaces)
    (hinterfaces : ∀ i ∈ (s.getClass c).allInterfaces,
      (t.getClass i).methods = (s.getClass i).methods ∧
        (t.getClass i).allInterfaces = (s.getClass i).allInterfaces)
    (hmethods : ∀ i ∈ (s.getClass c).allInterfaces, ∀ m ∈ (s.getClass i).methods,
      t.interfaceIndex? m = s.interfaceIndex? m ∧ t.entryFor c m = s.entryFor c m) :
    t.interfaceTable c = s.interfaceTable c := by
  have hlength : ∀ i ∈ (s.getClass c).allInterfaces, t.blockLength i = s.blockLength i :=
    fun i hi => blockLength_congr_interfaceIndex (hinterfaces i hi).1 fun m hm =>
      (hmethods i hi m hm).1
  have hvisited := visitedInterfaces_congr hlength fun i hi => (hinterfaces i hi).2
  have hbindings : ∀ (blocks : List (ClassId × Nat)) (start : Nat),
      (∀ e ∈ blocks, e.1 ∈ (s.getClass c).allInterfaces) →
      t.blockBindings c start blocks = s.blockBindings c start blocks := by
    intro blocks
    induction blocks with
    | nil => exact fun _ _ => rfl
    | cons e rest ih =>
      intro start hblocks
      obtain ⟨hi, hrest⟩ := List.forall_mem_cons.mp hblocks
      rw [blockBindings, blockBindings, ih _ hrest, bindings, bindings, (hinterfaces e.1 hi).1]
      refine congrArg (· ++ _) (List.filterMap_congr fun m hm => ?_)
      rw [(hmethods e.1 hi m hm).1, (hmethods e.1 hi m hm).2]
  rw [interfaceTable, interfaceTable, hall, hvisited, boundTable, boundTable,
    hbindings _ 0 fun e he => (mem_visitedInterfaces he).1]

/-- The dispatch index that a method has once the methods of the interface `i` are numbered. -/
def Store.numberedDispatch (s : Store) (i : ClassId) (m : MethodId) : DispatchIndex :=
  (((s.interfaceIndices i).map fun e => (e.1, DispatchIndex.interface e.2)).reverse.lookup m).getD
    (s.getMethod m).dispatch

/-- Numbering gives the methods of an interface the same dispatch indices if they had the same
before. -/
theorem Store.numberedDispatch_congr {s t : Store} {i : ClassId} {m : MethodId}
    (hmethods : (t.getClass i).methods = (s.getClass i).methods)
    (hbound : ∀ x ∈ (s.getClass i).methods,
      (t.getMethod x).isBoundStatically = (s.getMethod x).isBoundStatically)
    (hdispatch : ∀ x ∈ (s.getClass i).methods,
      (t.getMethod x).dispatch = (s.getMethod x).dispatch) (hm : m ∈ (s.getClass i).methods) :
    t.numberedDispatch i m = s.numberedDispatch i m := by
  have hnumbered : t.interfaceMethods i = s.interfaceMethods i := by
    rw [interfaceMethods, interfaceMethods, hmethods]
    refine List.filter_congr fun x hx => ?_
    dsimp only
    rw [hbound x hx, hdispatch x hx]
  rw [numberedDispatch, numberedDispatch, interfaceIndices, interfaceIndices, hnumbered,
    hdispatch m hm]

/-- The number that numbering gives a method last is its place among the methods to be numbered. -/
theorem Store.getElem?_of_lookup_interfaceIndices {s : Store} {i : ClassId} {m : MethodId}
    {d : DispatchIndex} (h : ((s.interfaceIndices i).map fun e =>
      (e.1, DispatchIndex.interface e.2)).reverse.lookup m = some d) :
    ∃ index, d = .interface index ∧ (s.interfaceMethods i)[index]? = some m := by
  obtain ⟨before, after, hsplit, -⟩ := List.lookup_eq_some_iff.mp h
  have hmem : (m, d) ∈ (s.interfaceIndices i).map fun e => (e.1, DispatchIndex.interface e.2) := by
    rw [← List.mem_reverse, hsplit]
    exact List.mem_append_right _ List.mem_cons_self
  obtain ⟨⟨x, index⟩, hx, heq⟩ := List.mem_map.mp hmem
  cases heq
  exact ⟨index, rfl, List.mk_mem_zipIdx_iff_getElem?.mp hx⟩

/-- Numbering gives a method its place among the methods to be numbered, or leaves its index. -/
theorem Store.numberedDispatch_cases (s : Store) (i : ClassId) (m : MethodId) :
    (∃ index, s.numberedDispatch i m = .interface index ∧
      (s.interfaceMethods i)[index]? = some m) ∨
    m ∉ s.interfaceMethods i ∧ s.numberedDispatch i m = (s.getMethod m).dispatch := by
  unfold numberedDispatch
  cases hd : ((s.interfaceIndices i).map fun e =>
      (e.1, DispatchIndex.interface e.2)).reverse.lookup m with
  | some d =>
    obtain ⟨index, rfl, hx⟩ := getElem?_of_lookup_interfaceIndices hd
    exact Or.inl ⟨index, rfl, hx⟩
  | none =>
    refine Or.inr ⟨fun hm => ?_, rfl⟩
    obtain ⟨index, hx⟩ := List.mem_iff_getElem?.mp hm
    have hmem : (m, DispatchIndex.interface index) ∈ ((s.interfaceIndices i).map fun e =>
        (e.1, DispatchIndex.interface e.2)).reverse :=
      List.mem_reverse.mpr (List.mem_map_of_mem (f := fun e => (e.1, DispatchIndex.interface e.2))
        (List.mk_mem_zipIdx_iff_getElem?.mpr hx))
    exact absurd (List.lookup_eq_none_iff.mp hd _ hmem) (by simp)

/-- A method without a number gets its place among the methods to be numbered, if it is one. -/
theorem Store.interfaceEntry?_numberedDispatch {s : Store} {i : ClassId} {m : MethodId} {k : Nat}
    (hnodup : (s.interfaceMethods i).Nodup) (hfresh : s.interfaceIndex? m = none) :
    DispatchIndex.interfaceEntry? (s.numberedDispatch i m) = some k ↔
      (s.interfaceMethods i)[k]? = some m := by
  rcases s.numberedDispatch_cases i m with ⟨index, heq, hx⟩ | ⟨hnot, heq⟩
  · rw [heq, DispatchIndex.interfaceEntry?, Option.some.injEq]
    refine ⟨fun hk => hk ▸ hx, fun hk => ?_⟩
    obtain ⟨hlt, -⟩ := List.getElem?_eq_some_iff.mp hx
    exact (List.getElem?_inj hlt hnodup).mp (hx.trans hk.symm)
  · refine iff_of_false (fun hk => ?_) fun hk => hnot (List.mem_of_getElem? hk)
    rw [heq] at hk
    exact absurd (hfresh.symm.trans hk) nofun

namespace Linker

variable {l : Linker} {c : ClassId} {root : Option ClassId}

/-- Numbering the methods of an interface, none of which has a number. -/
theorem numberInterfaceMethods_outcome (w : l.store.WellFormed root) {i : ClassId}
    (hfresh : ∀ m ∈ (l.store.getClass i).methods, l.store.interfaceIndex? m = none) :
    Outcome (numberInterfaceMethods i) l
      (fun _ t => l.Prepares i t ∧ Numbered t.store i ∧ ∀ m ∈ (l.store.getClass i).methods,
        (t.store.getMethod m).dispatch = l.store.numberedDispatch i m)
      (fun _ _ => False) := by
  let indices := (l.store.interfaceIndices i).map fun e => (e.1, DispatchIndex.interface e.2)
  have hmem : ∀ {m : MethodId} {index : Nat}, (l.store.interfaceMethods i)[index]? = some m →
      m ∈ (l.store.getClass i).methods ∧ (l.store.getMethod m).isBoundStatically = false := by
    intro m index h
    obtain ⟨hm, hbound⟩ := List.mem_filter.mp (List.mem_of_getElem? h)
    simp only [Bool.and_eq_true, Bool.not_eq_true'] at hbound
    exact ⟨hm, hbound.1⟩
  have hprep : l.Prepares i (l.setDispatches indices) :=
    ⟨.of_setDispatches fun m hm => by
      rw [Option.eq_none_iff_forall_not_mem]
      intro d hd
      obtain ⟨index, -, hx⟩ := Store.getElem?_of_lookup_interfaceIndices hd
      exact hm (hmem hx).1, ⟨rfl, rfl, rfl, rfl⟩, rfl⟩
  have hset : ∀ m ∈ (l.store.getClass i).methods,
      ((l.setDispatches indices).store.getMethod m).dispatch = l.store.numberedDispatch i m :=
    fun m hm => Store.dispatch_setDispatches l.store indices
      ((w.fits i (Store.hasClass_of_mem_methods hm)).methods m hm).1
  have hnumber : ∀ m ∈ (l.store.getClass i).methods, ∀ index,
      (l.setDispatches indices).store.interfaceIndex? m = some index →
      (l.store.interfaceMethods i)[index]? = some m := by
    intro m hm index hindex
    rw [Store.interfaceIndex?, hset m hm] at hindex
    rcases l.store.numberedDispatch_cases i m with ⟨index', heq, hx⟩ | ⟨-, heq⟩
    · rw [heq] at hindex
      cases hindex
      exact hx
    · have hnone := hfresh m hm
      rw [heq] at hindex
      rw [Store.interfaceIndex?, hindex] at hnone
      cases hnone
  have hnumbered : Numbered (l.setDispatches indices).store i := by
    refine ⟨fun m hm index hindex => ?_, fun m hm m' hm' index hindex hindex' => ?_⟩
    · rw [hprep.store.getClass] at hm
      have hbound := hmem (hnumber m hm index hindex)
      have hic := Store.hasClass_of_mem_methods hm
      rw [hprep.store.extends.isBoundStatically ((w.fits i hic).methods m hm).1]
      exact hbound.2
    · rw [hprep.store.getClass] at hm hm'
      have heq := hnumber m hm index hindex
      rw [hnumber m' hm' index hindex', Option.some.injEq] at heq
      exact heq.symm
  refine (outcome_of_ok (x := numberInterfaceMethods i) rfl).mpr ?_
  dsimp only
  split
  · exact ⟨⟨hprep.store, ⟨rfl, rfl, rfl, rfl⟩, rfl⟩, hnumbered, hset⟩
  · exact ⟨hprep, hnumbered, hset⟩

/-- The linker with the record of what a binding pass did on the table of `c`. -/
def recordBinding (l : Linker) (c : ClassId) (b : Binding) : Linker :=
  l.record (ITableEvent.diagnostics l.store l.config.traceITables (l.store.getClass c).name
    b.events.toList)

@[simp] theorem outcome_runBinding (pass : BindM Unit) (table : ITable)
    {Q : ITable → Linker → Prop} {E : LinkError → Linker → Prop} :
    Outcome (runBinding c pass table) l Q E ↔
      Outcome pass { table } (fun _ b => Q b.table (l.recordBinding c b))
        (fun e b => E e (l.recordBinding c b)) := by
  unfold Outcome runBinding
  cases pass { table } <;> rfl

theorem runBinding_outcome {blocks : List (ClassId × Nat)}
    (hblocks : ∀ e ∈ blocks, e.2 = l.store.blockLength e.1) :
    Outcome (runBinding c (l.store.bindBlocks l.conflict? c 0 blocks) (.ofBlocks blocks)) l
      (fun table t => l.Prepares c t ∧ t.store = l.store ∧ table = l.store.boundTable c blocks)
      (fun e t => l.Prepares c t ∧ e.IsConflict) := by
  have hroom : 0 + (blocks.map (·.2)).sum ≤ (ITable.ofBlocks blocks).entries.length := by
    rw [ITable.length_entries_ofBlocks, Nat.zero_add]
  have hbind : Outcome (l.store.bindBlocks l.conflict? c 0 blocks) { table := .ofBlocks blocks }
      (fun _ b => Store.Writes (l.store.blockBindings c 0 blocks) { table := .ofBlocks blocks } b)
      (fun e _ => e.IsConflict) :=
    Store.bindBlocks_outcome hroom hblocks
  rw [outcome_runBinding]
  exact hbind.imp (fun _ _ hb => ⟨.of_record l c _, rfl, hb⟩)
    fun _ _ he => ⟨.of_record l c _, he⟩

/-- An interface table whose interfaces are linked is built, or two loaders disagree.  The methods
of an interface are numbered instead, if they have no numbers. -/
theorem buildITable_outcome (w : l.store.WellFormed root)
    (hlinked : ∀ i ∈ (l.store.getClass c).allInterfaces, (l.store.getClass i).isLinked = true)
    (hfresh : ∀ m ∈ (l.store.getClass c).methods, l.store.interfaceIndex? m = none) :
    Outcome (buildITable c) l
      (fun table t => l.Prepares c t ∧
        if (l.store.getClass c).isInterface then table = .empty ∧ Numbered t.store c ∧
          ∀ m ∈ (l.store.getClass c).methods,
            (t.store.getMethod m).dispatch = l.store.numberedDispatch c m
        else t.store = l.store ∧ table = l.store.interfaceTable c)
      (fun e t => l.Prepares c t ∧ e.IsConflict) := by
  unfold buildITable
  cases hint : (l.store.getClass c).isInterface with
  | true =>
    simp only [hint, outcome_bind, outcome_get, outcome_pure, if_true]
    exact (numberInterfaceMethods_outcome w hfresh).imp (fun _ t h => ⟨h.1, trivial, h.2⟩)
      (fun _ _ h => h.elim)
  | false =>
    have hnone : (l.store.getClass c).allInterfaces.find?
        (fun i => !(l.store.getClass i).isLinked) = none := by
      rw [List.find?_eq_none]
      exact fun i hi => by simp [hlinked i hi]
    simp only [hint, hnone, outcome_bind, outcome_get, outcome_ofExcept, outcome_pure,
      Bool.false_eq_true, if_false]
    refine (runBinding_outcome fun e he => (Store.mem_visitedInterfaces he).2).imp
      (fun table t h => ?_) (fun _ _ he => he)
    obtain ⟨hprep, hstore, rfl⟩ := h
    have hterminated := ITable.isTerminated_of_header (l.store.laidOut_boundTable c
      (l.store.visitedInterfaces (l.store.getClass c).allInterfaces)).1
    refine ⟨fun _ _ => ⟨hprep, hstore, rfl⟩, fun e he => ?_⟩
    rw [ITable.verifyTerminator, if_pos hterminated] at he
    cases he

end Linker
end ClassLinking
