import ClassLinking.Proofs.Confinement
import ClassLinking.Proofs.InterfaceSelection

/-!
# How interface tables are laid out

The methods of an interface are numbered when the interface is linked, and its block in the table of
a class is as long as the numbers need it to be.  A redefinition of the interface may put its
methods into another order, add some and leave some out, while the tables that there are keep their
layout.  But what it adds has no number, what it leaves out had none, and what takes the place of a
method has the number of the method, as long as the interface declares no selector twice
(`Redefined.hasNumber_iff`).

So the numbers of a linked interface stay those from zero on (`Store.Gapless`), the blocks of all
tables stay as long as these numbers need (`Store.LaysBlocks`), and what `Store.LaysInterfaces` says
of a table can be read off the lengths of the blocks: they tile the entries one after the other in
the order of the header, and an interface call finds an entry exactly for the numbers of methods.

Right after a class was linked, an entry says whether a call can run what the class has for the
method with the number (`Store.FillsEntries`): it is bound to a public body, it refuses a method
that is not public, and it is empty if there is no method or none with a body (`Store.Classifies`).
The whole table is `Store.interfaceTable` then (`BuiltAfter.itable_eq`).
-/

namespace ClassLinking

/-! ## Reading a layout -/

namespace ITable

/-- The blocks of some interfaces stand one after the other from the entry `start` on, each as long
as `length` says, and the last one ends where the table ends. -/
def Tiles (t : ITable) (length : ClassId → Nat) : (start : Nat) → List ClassId → Prop
  | start, [] => start = t.entries.length
  | start, i :: rest =>
    t.block? i = some (start, length i) ∧ t.Tiles length (start + length i) rest

variable {t : ITable} {blocks before after : List (ClassId × Nat)} {length : ClassId → Nat}
  {i : ClassId} {n k : Nat}

/-- The header names the interfaces of the blocks and is closed by a terminator. -/
theorem LaidOut.header_eq (h : t.LaidOut blocks) :
    ∃ hs, t.header = hs ++ [.terminator] ∧ hs.map (·.interface) = (blocks.map (·.1)).map some := by
  rw [h.1]
  exact headerFrom_eq _ _

theorem LaidOut.interfaces_eq (h : t.LaidOut blocks) : t.interfaces = blocks.map (·.1) := by
  obtain ⟨hs, heq, hmap⟩ := h.header_eq
  have hid : hs.filterMap (·.interface) = (hs.map (·.interface)).filterMap id := by
    rw [List.filterMap_map]
    rfl
  rw [interfaces, heq, List.filterMap_append, hid, hmap, List.filterMap_map]
  exact (List.append_nil _).trans (List.filterMap_some)

/-- Exchanging what stands in the entries keeps the layout. -/
theorem LaidOut.map (h : t.LaidOut blocks) (f : ITableEntry → ITableEntry) :
    LaidOut { t with entries := t.entries.map f } blocks :=
  ⟨h.1, by rw [List.length_map, h.2]⟩

/-- The blocks behind some others tile the rest of the table.  The induction is on the blocks that
are left. -/
theorem LaidOut.tiles_from (h : t.LaidOut (before ++ after))
    (hnodup : ((before ++ after).map (·.1)).Nodup) (hlength : ∀ e ∈ after, e.2 = length e.1) :
    t.Tiles length (before.map (·.2)).sum (after.map (·.1)) := by
  induction after generalizing before with
  | nil =>
    rw [List.append_nil] at h
    exact h.2.symm
  | cons e after ih =>
    obtain ⟨i, n⟩ := e
    obtain ⟨hn, hrest⟩ := List.forall_mem_cons.mp hlength
    dsimp only at hn
    subst hn
    have hbefore : i ∉ before.map (·.1) := fun hmem => by
      rw [List.map_append, List.nodup_append] at hnodup
      exact hnodup.2.2 i hmem i List.mem_cons_self rfl
    have hnext := @ih (before ++ [(i, length i)]) (by simpa using h) (by simpa using hnodup) hrest
    rw [List.map_append, List.sum_append] at hnext
    exact ⟨h.block?_eq hbefore, hnext⟩

/-- The blocks tile the table. -/
theorem LaidOut.tiles (h : t.LaidOut blocks) (hnodup : (blocks.map (·.1)).Nodup)
    (hlength : ∀ e ∈ blocks, e.2 = length e.1) : t.Tiles length 0 (blocks.map (·.1)) :=
  tiles_from (show t.LaidOut ([] ++ blocks) from h) hnodup hlength

/-- A block has the entries below its length. -/
theorem LaidOut.isSome_entry?_iff (h : t.LaidOut blocks) (hnodup : (blocks.map (·.1)).Nodup)
    (hmem : (i, n) ∈ blocks) : (t.entry? i k).isSome = true ↔ k < n := by
  obtain ⟨before, after, rfl⟩ := List.append_of_mem hmem
  have hbefore : i ∉ before.map (·.1) := fun hmem' => by
    rw [List.map_append, List.nodup_append] at hnodup
    exact hnodup.2.2 i hmem' i List.mem_cons_self rfl
  rw [h.entry?_eq hbefore]
  have hlen := h.2
  simp only [List.map_append, List.map_cons, List.sum_append, List.sum_cons] at hlen
  split
  · rename_i hk
    have hlt : (before.map (·.2)).sum + k < t.entries.length := by omega
    exact iff_of_true (by rw [List.getElem?_eq_getElem hlt, Option.isSome_some]) hk
  · rename_i hk
    exact iff_of_false (by simp) hk

end ITable

namespace Store

variable {s t : Store} {root : Option ClassId} {c i : ClassId} {n k : Nat}

/-! ## Numbers -/

/-- Some method of `i` has the number `k`. -/
def HasNumber (s : Store) (i : ClassId) (k : Nat) : Prop :=
  ∃ m ∈ (s.getClass i).methods, s.interfaceIndex? m = some k

/-- The numbers of the methods of `i`, in order of declaration. -/
def numbers (s : Store) (i : ClassId) : List Nat :=
  (s.getClass i).methods.filterMap s.interfaceIndex?

/-- No number that the block of `i` has an entry for is left out. -/
def Gapless (s : Store) (i : ClassId) : Prop := ∀ k, k < s.blockLength i → s.HasNumber i k

theorem mem_numbers : k ∈ s.numbers i ↔ s.HasNumber i k := List.mem_filterMap

theorem HasNumber.lt_blockLength (h : s.HasNumber i k) : k < s.blockLength i := by
  obtain ⟨m, hm, hk⟩ := h
  exact Store.lt_blockLength hm hk

theorem Gapless.hasNumber_iff (h : s.Gapless i) : s.HasNumber i k ↔ k < s.blockLength i :=
  ⟨HasNumber.lt_blockLength, h k⟩

/-- The length of a block depends on the numbers only. -/
theorem blockLength_congr (h : ∀ k, t.HasNumber i k ↔ s.HasNumber i k) :
    t.blockLength i = s.blockLength i := by
  have hlt : ∀ (s : Store) (n : Nat),
      n < s.blockLength i ↔ ∃ k, s.HasNumber i k ∧ n ≤ k := fun s n =>
    lt_blockLength_iff.trans
      ⟨fun ⟨m, hm, k, hk, hle⟩ => ⟨k, ⟨m, hm, hk⟩, hle⟩,
        fun ⟨k, ⟨m, hm, hk⟩, hle⟩ => ⟨m, hm, k, hk, hle⟩⟩
  refine eq_of_forall_lt_iff fun n => ?_
  rw [hlt, hlt]
  exact exists_congr fun k => and_congr_left fun _ => h k

/-- The numbers of an interface are those from zero up to the length of its block, each once. -/
theorem Gapless.numbers_perm (h : s.Gapless i) (hnumbered : Numbered s i)
    (hnodup : (s.getClass i).methods.Nodup) :
    (s.numbers i).Perm (List.range (s.blockLength i)) := by
  have hnumbers : (s.numbers i).Nodup := by
    rw [numbers, List.Nodup, List.pairwise_filterMap]
    refine hnodup.imp_of_mem fun {m m'} hm hm' hne k hk k' hk' heq => hne ?_
    subst heq
    exact hnumbered.unique m hm m' hm' k hk hk'
  rw [List.perm_ext_iff_of_nodup hnumbers List.nodup_range]
  exact fun k => mem_numbers.trans (h.hasNumber_iff.trans List.mem_range.symm)

/-! ## Tables that are laid out for their class -/

/-- The interface table `t` is laid out for the interfaces of the class `c`. -/
structure LaysInterfaces (s : Store) (c : ClassId) (t : ITable) : Prop where
  nodup : t.interfaces.Nodup
  ordered : t.interfaces.Sublist (s.getClass c).allInterfaces
  /-- Every header entry but the last one names an interface. -/
  header : ∃ hs, t.header = hs ++ [.terminator] ∧ hs.map (·.interface) = t.interfaces.map some
  tiles : t.Tiles s.blockLength 0 t.interfaces
  words : t.words = 2 * (t.interfaces.length + 1) + (t.interfaces.map s.blockLength).sum
  entries : ∀ i ∈ (s.getClass c).allInterfaces, ∀ k,
    (t.entry? i k).isSome = true ↔ s.HasNumber i k

/-- A table with a block for each visited interface is laid out for its class. -/
theorem LaysInterfaces.of_laidOut {t : ITable} (hnodup : (s.getClass c).allInterfaces.Nodup)
    (hgapless : ∀ i ∈ (s.getClass c).allInterfaces, s.Gapless i)
    (h : t.LaidOut (s.visitedInterfaces (s.getClass c).allInterfaces)) :
    s.LaysInterfaces c t := by
  have hnodup' := nodup_visitedInterfaces (s := s) hnodup
  have hlength : ∀ e ∈ s.visitedInterfaces (s.getClass c).allInterfaces,
      e.2 = s.blockLength e.1 := fun e he => (mem_visitedInterfaces he).2
  have hlengths : (s.visitedInterfaces (s.getClass c).allInterfaces).map (·.2) =
      t.interfaces.map s.blockLength := by
    rw [h.interfaces_eq, List.map_map]
    exact List.map_congr_left hlength
  have heq := h.interfaces_eq
  refine ⟨heq ▸ hnodup', heq ▸ s.visitedInterfaces_sublist _, heq ▸ h.header_eq, ?_, ?_,
    fun i hi k => ?_⟩
  · rw [heq]
    exact h.tiles hnodup' hlength
  · rw [h.words_eq, hlengths, heq, List.length_map]
  · rw [(hgapless i hi).hasNumber_iff]
    by_cases hmem : i ∈ (s.visitedInterfaces (s.getClass c).allInterfaces).map (·.1)
    · obtain ⟨⟨j, n⟩, hj, rfl⟩ := List.mem_map.mp hmem
      have hn : n = s.blockLength j := hlength _ hj
      rw [h.isSome_entry?_iff hnodup' hj, hn]
    · have hzero : s.blockLength i = 0 := by
        by_contra hne
        exact hmem (List.mem_map_of_mem (f := (·.1)) (visitedInterfaces_mem hi hne))
      rw [h.entry?_eq_none hmem, hzero]
      simp

/-- Linked interfaces are numbered without a gap, and the tables of linked classes have a block for
each visited interface, as long as the interface's numbers need. -/
structure LaysBlocks (s : Store) : Prop where
  linkedUp : s.LinkedUp
  nodup : ∀ c, (s.getClass c).methods.Nodup
  gapless : ∀ i, s.Linked i → (s.getClass i).isInterface = true → s.Gapless i
  laidOut : ∀ c ts, (s.getClass c).tables = some ts → (s.getClass c).isInterface = false →
    ts.itable.LaidOut (s.visitedInterfaces (s.getClass c).allInterfaces)

/-- The interfaces of a linked class are linked interfaces. -/
theorem LaysBlocks.linked_interface (h : s.LaysBlocks) (w : s.WellFormed root) (hc : s.Linked c)
    (hi : i ∈ (s.getClass c).allInterfaces) :
    s.Linked i ∧ (s.getClass i).isInterface = true :=
  ⟨h.linkedUp.allInterfaces w c hc.hasClass (h.linkedUp c hc) i hi,
    (w.allInterfaces_spec c hc.hasClass i hi).2⟩

/-- The tables of linked classes are laid out for their interfaces. -/
theorem LaysBlocks.laysInterfaces (h : s.LaysBlocks) (w : s.WellFormed root) {ts : Tables}
    (hts : (s.getClass c).tables = some ts) (hint : (s.getClass c).isInterface = false) :
    s.LaysInterfaces c ts.itable := by
  have hc : s.Linked c := linked_iff.mpr ⟨ts, hts⟩
  refine .of_laidOut (w.nodup_allInterfaces hc.hasClass) (fun i hi => ?_)
    (h.laidOut c ts hts hint)
  obtain ⟨hlinked, hinterface⟩ := h.linked_interface w hc hi
  exact h.gapless i hlinked hinterface

/-! ## What the entries say -/

/-- The entry of a table for what a class has for a selector, if it has something. -/
inductive Classifies (s : Store) : Option MethodId → ITableEntry → Prop where
  /-- There is nothing to call. -/
  | missing : Classifies s none .empty
  /-- A method that is not public must not be called, with a body or without one. -/
  | inaccessible {m : MethodId} (hpublic : (s.getMethod m).access.isPublic = false) :
      Classifies s (some m) (.inaccessible (s.displayName m))
  /-- A public method without a body cannot run. -/
  | bodiless {m : MethodId} (hpublic : (s.getMethod m).access.isPublic = true)
      (habstract : (s.getMethod m).modifiers.isAbstract = true) : Classifies s (some m) .empty
  /-- A public method with a body runs. -/
  | bound {m : MethodId} (hpublic : (s.getMethod m).access.isPublic = true)
      (hbody : (s.getMethod m).modifiers.isAbstract = false) : Classifies s (some m) (.bound m)

/-- Each entry of the table `t` of the class `c` classifies what the class has for the method with
the number. -/
def FillsEntries (s : Store) (c : ClassId) (t : ITable) : Prop :=
  ∀ i ∈ (s.getClass c).allInterfaces, ∀ k m, s.interfaceMethodAt? i k = some m →
    ∃ e, t.entry? i k = some e ∧ s.Classifies (s.implementation? c (s.selector m)) e

/-- What binding writes is the classification, and nothing else is. -/
theorem classifies_iff {found : Option MethodId} {e : ITableEntry} :
    s.Classifies found e ↔ e = s.entryOf found := by
  constructor
  · rintro (_ | hpublic | ⟨hpublic, habstract⟩ | ⟨hpublic, hbody⟩)
    · rfl
    · simp [entryOf, hpublic]
    · simp [entryOf, hpublic, habstract]
    · simp [entryOf, hpublic, hbody]
  · rintro rfl
    cases found with
    | none => exact .missing
    | some m =>
      cases hpublic : (s.getMethod m).access.isPublic with
      | false => simpa [entryOf, hpublic] using Classifies.inaccessible hpublic
      | true =>
        cases habstract : (s.getMethod m).modifiers.isAbstract with
        | true => simpa [entryOf, hpublic, habstract] using Classifies.bodiless hpublic habstract
        | false => simpa [entryOf, hpublic, habstract] using Classifies.bound hpublic habstract

/-- An entry is found from the case that applies. -/
theorem FillsEntries.entry?_eq {t : ITable} (h : s.FillsEntries c t)
    (hi : i ∈ (s.getClass c).allInterfaces) {m : MethodId}
    (hm : s.interfaceMethodAt? i k = some m) {x : Option MethodId}
    (hx : s.implementation? c (s.selector m) = x) {e : ITableEntry} (he : s.Classifies x e) :
    t.entry? i k = some e := by
  obtain ⟨e', hentry, he'⟩ := h i hi k m hm
  rw [hentry, classifies_iff.mp he', classifies_iff.mp he, hx]

/-! ## Linking -/

section Grows

variable (w : s.WellFormed root) (hg : s.Grows t)
include w hg

/-- The methods of a linked interface keep their numbers. -/
theorem Linked.hasNumber_grows (hi : s.Linked i) : t.HasNumber i k ↔ s.HasNumber i k := by
  rw [HasNumber, HasNumber, hg.methods hi.hasClass]
  exact exists_congr fun m => and_congr_right fun hm => by rw [hi.interfaceIndex?_grows w hg hm]

theorem Linked.blockLength_grows (hi : s.Linked i) : t.blockLength i = s.blockLength i :=
  blockLength_congr fun _ => hi.hasNumber_grows w hg

theorem LaysBlocks.gapless_grows (h : s.LaysBlocks) (hi : s.Linked i)
    (hint : (t.getClass i).isInterface = true) : t.Gapless i := by
  rw [hg.extends.isInterface hi.hasClass] at hint
  intro k hk
  rw [hi.blockLength_grows w hg] at hk
  exact (hi.hasNumber_grows w hg).mpr (h.gapless i hi hint k hk)

theorem LaysBlocks.laidOut_grows (h : s.LaysBlocks) {ts : Tables}
    (hts : (s.getClass c).tables = some ts) (hint : (t.getClass c).isInterface = false) :
    ts.itable.LaidOut (t.visitedInterfaces (t.getClass c).allInterfaces) := by
  have hc : s.Linked c := linked_iff.mpr ⟨ts, hts⟩
  rw [hg.extends.isInterface hc.hasClass] at hint
  have hlinked := fun i hi => (h.linked_interface (i := i) w hc hi).1
  rw [hg.extends.allInterfaces hc.hasClass,
    visitedInterfaces_congr (fun i hi => (hlinked i hi).blockLength_grows w hg)
      fun i hi => hg.extends.allInterfaces (hlinked i hi).hasClass]
  exact h.laidOut c ts hts hint

/-- Where no class gets tables, the layouts stay. -/
theorem LaysBlocks.of_grows (h : s.LaysBlocks) (hup : t.LinkedUp)
    (hnodup : ∀ c, (t.getClass c).methods.Nodup)
    (htables : ∀ c, (t.getClass c).tables = (s.getClass c).tables) : t.LaysBlocks where
  linkedUp := hup
  nodup := hnodup
  gapless := fun i hi hint => by
    rw [Linked, Class.isLinked, htables] at hi
    exact h.gapless_grows w hg hi hint
  laidOut := fun c ts hts hint => h.laidOut_grows w hg ((htables c).symm.trans hts) hint

end Grows
end Store

namespace Linker

open Store

variable {l t : Linker} {s : Store} {root : Option ClassId} {holder c i : ClassId} {k : Nat}
  {ds : List Declaration} {r : RevisedClass} {x : Command} {xs : List Command}

/-- Linking an interface numbers its methods from zero on, in order of declaration. -/
theorem Installs.gapless (h : l.Installs t c) (hnodup : (l.store.getClass c).methods.Nodup)
    (hint : (l.store.getClass c).isInterface = true) (hc : l.store.HasClass c) :
    t.store.Gapless c := by
  obtain ⟨size, layout, itable, f, hlaid⟩ := h.tables
  obtain ⟨u, hprep, hindexes, hdispatch⟩ := hlaid.renumbered hint
  have hmethods : (u.getClass c).methods = (l.store.getClass c).methods := by rw [hprep.getClass]
  have hnodup' : (u.interfaceMethods c).Nodup := (hmethods ▸ hnodup).filter _
  have hnumber : ∀ m ∈ (l.store.getClass c).methods, ∀ k,
      t.store.interfaceIndex? m = some k ↔ (u.interfaceMethods c)[k]? = some m := by
    intro m hm k
    rw [interfaceIndex?, hdispatch m hm]
    exact interfaceEntry?_numberedDispatch hnodup'
      (interfaceIndex?_of_built hlaid.built hindexes hm)
  intro k hk
  obtain ⟨m, hm, index, hindex, hle⟩ := lt_blockLength_iff.mp hk
  rw [h.grows.methods hc] at hm
  obtain ⟨hlt, -⟩ := List.getElem?_eq_some_iff.mp ((hnumber m hm index).mp hindex)
  have hget := List.getElem?_eq_getElem (Nat.lt_of_le_of_lt hle hlt)
  have hmem : (u.interfaceMethods c)[k] ∈ (l.store.getClass c).methods :=
    hmethods ▸ (List.mem_filter.mp (List.mem_of_getElem? hget)).1
  exact ⟨_, h.grows.methods hc ▸ hmem, (hnumber _ hmem k).mpr hget⟩

/-- **Installing tables keeps the layouts.** -/
theorem Installs.laysBlocks (hi : l.Installs t c) (h : l.store.LaysBlocks)
    (w : l.store.WellFormed root) (hready : Ready l.store c) : t.store.LaysBlocks where
  linkedUp := hi.linkedUp h.linkedUp hready
  nodup := fun d => by
    by_cases hdc : d = c
    · rw [hdc, hi.grows.methods hready.hasClass]
      exact h.nodup c
    · rw [hi.others d hdc]
      exact h.nodup d
  gapless := fun d hd hint => by
    by_cases hdc : d = c
    · subst hdc
      rw [hi.grows.extends.isInterface hready.hasClass] at hint
      exact hi.gapless (h.nodup d) hint hready.hasClass
    · rw [Linked, hi.others d hdc] at hd
      exact h.gapless_grows w hi.grows hd hint
  laidOut := fun d ts hts hint => by
    by_cases hdc : d = c
    · subst hdc
      have hc := hready.hasClass
      rw [hi.grows.extends.isInterface hc] at hint
      obtain ⟨size, layout, itable, f, hlaid⟩ := hi.tables
      rw [hlaid.tables, Option.some.injEq] at hts
      have hlinked := h.linkedUp.allInterfaces w d hc hready.definedFrom
      rw [← hts, hlaid.bound hint, hi.grows.extends.allInterfaces hc,
        visitedInterfaces_congr (fun i hi' => (hlinked i hi').blockLength_grows w hi.grows)
          fun i hi' => hi.grows.extends.allInterfaces (hlinked i hi').hasClass]
      exact l.store.laidOut_boundTable d _
    · rw [hi.others d hdc] at hts
      exact h.laidOut_grows w hi.grows hts hint

/-- Linking keeps the layouts. -/
theorem linkRule_laysBlocks (root : Option ClassId) (config : Config) :
    LinkRule root config LaysBlocks (fun _ => True) where
  prepares := fun s t c w h hready hp =>
    h.of_grows w (hp.grows w (tables_of_not_linked hready.unlinked)) (h.linkedUp.prepares hp)
      (fun d => by rw [hp.getClass]; exact h.nodup d) fun d => by rw [hp.getClass]
  installs := fun _ _ _ _ w _ h hready hi _ => hi.laysBlocks h w hready
  fails := fun _ _ _ _ _ _ _ _ _ => trivial
  tooDeep := fun _ => trivial

/-! ## Redefining -/

section Redefined

variable (h : Redefined l t r) (hp : l.Prepared holder ds r)
  (w : l.store.WellFormed l.registry.root) (hholder : l.store.HasClass r.holder)
include h hp w hholder

/-- **A redefinition gives up no number and adds none**, if the redefined class declares no selector
twice. -/
theorem Redefined.hasNumber_iff
    (hdistinct : i = r.holder → ((l.store.getClass i).methods.map l.store.selector).Nodup) :
    t.store.HasNumber i k ↔ l.store.HasNumber i k := by
  constructor
  · rintro ⟨n, hn, hk⟩
    obtain ⟨m, hm, -, -, hmk⟩ := h.exists_numbered_before hp w hholder hn hk
    exact ⟨m, hm, hmk⟩
  · rintro ⟨m, hm, hk⟩
    exact h.exists_numbered_after hp w hholder hdistinct hm hk

/-- **A redefinition keeps the layouts.** -/
theorem Redefined.laysBlocks (hdistinct : l.store.InterfacesDistinct) (hup : t.store.LinkedUp)
    (hnodup : ∀ c, (t.store.getClass c).methods.Nodup) (hblocks : l.store.LaysBlocks) :
    t.store.LaysBlocks := by
  have hlength : ∀ i, (l.store.getClass i).isInterface = true →
      t.store.blockLength i = l.store.blockLength i := fun i hint =>
    blockLength_congr fun k => h.hasNumber_iff hp w hholder fun _ => hdistinct i hint
  refine ⟨hup, hnodup, fun i hi hint k hk => ?_, fun c ts hts hint => ?_⟩
  · have hold := h.linked_iff.mp hi
    rw [h.extends_.isInterface hold.hasClass] at hint
    rw [hlength i hint] at hk
    exact (h.hasNumber_iff hp w hholder fun _ => hdistinct i hint).mpr
      (hblocks.gapless i hold hint k hk)
  · rw [h.tables_exchange] at hts
    obtain ⟨ts, hold, rfl⟩ := Option.map_eq_some_iff.mp hts
    have hc : l.store.Linked c := Store.linked_iff.mpr ⟨ts, hold⟩
    rw [h.extends_.isInterface hc.hasClass] at hint
    have hinterface := fun i hi => hblocks.linked_interface (i := i) w hc hi
    rw [h.extends_.allInterfaces hc.hasClass,
      visitedInterfaces_congr (fun i hi => hlength i (hinterface i hi).2)
        fun i hi => h.extends_.allInterfaces (hinterface i hi).1.hasClass]
    exact (hblocks.laidOut c ts hold hint).map _

end Redefined

/-! ## Runs -/

/-- What is known of the layouts in every state of a run in which interfaces declare no selector
twice. -/
structure Blocked (l : Linker) : Prop where
  served : Served l
  distinct : l.store.InterfacesDistinct
  blocks : l.store.LaysBlocks

theorem IsEmpty.blocked (h : l.IsEmpty) : Blocked l where
  served := h.served
  distinct := fun i _ => h.distinct i
  blocks :=
    { linkedUp := h.sound.linkedUp
      nodup := fun c => by
        rw [h.methods_eq_nil]
        exact List.nodup_nil
      gapless := fun i hi => absurd hi (h.not_linked i)
      laidOut := fun c ts hts => absurd (linked_iff.mpr ⟨ts, hts⟩) (h.not_linked c) }

/-- **Every command keeps the layouts.** -/
theorem Blocked.after (hI : Blocked l) (honce : x.InterfacesDeclareOnce)
    (hx : x.Admissible l.store) : Blocked (x.after l) := by
  have hsound := hI.served.sound
  have hserved := hI.served.after hx
  refine ⟨hserved, hsound.interfacesDistinct_after hI.distinct hx honce, ?_⟩
  have hnodup : ∀ c, ((x.after l).store.getClass c).methods.Nodup :=
    fun c => (hserved.ordinals c).of_map _
  have hup := hserved.sound.linkedUp
  have hsteps := hsound.steps hx (linkRule_laysBlocks _ _) hI.blocks
  generalize x.after l = t at hnodup hup hsteps ⊢
  cases hsteps with
  | defines hd _ => exact hI.blocks.of_grows hsound.wellFormed hd.grows hup hnodup hd.tables_eq
  | links _ hr => exact hr.holds
  | redefines hp hholder hr =>
    exact hr.laysBlocks hp hsound.wellFormed hholder hI.distinct hup hnodup hI.blocks
  | keeps _ hstore _ =>
    rw [hstore]
    exact hI.blocks

/-- A table that was built has what the class implements, for all numbers of its interfaces. -/
theorem BuiltAfter.itable_eq (h : BuiltAfter l s c) {ts : Tables}
    (hts : (s.getClass c).tables = some ts) (hint : (s.getClass c).isInterface = false) :
    ts.itable = s.interfaceTable c := by
  obtain ⟨u, -, hg, hready, ⟨root, w⟩, hup, size, layout, itable, f, hlaid⟩ := h
  have hc := hready.hasClass
  rw [hg.extends.isInterface hc] at hint
  rw [hlaid.tables, Option.some.injEq] at hts
  rw [hg.interfaceTable w hc (hup.allInterfaces w c hc hready.definedFrom), ← hts]
  exact hlaid.bound hint

/-- Only linking gives tables to a class. -/
theorem Sound.linked_or_built (h : l.Sound) (hx : x.Admissible l.store)
    (hc : (x.after l).store.Linked c) :
    l.store.Linked c ∨ BuiltAfter l (x.after l).store c := by
  have hsteps := h.steps hx (linkRule_buildsOn l _ _) (buildsOn_refl l)
  generalize x.after l = t at hc hsteps ⊢
  cases hsteps with
  | defines hd _ => exact Or.inl (hd.of_linked hc).2.1
  | links _ hr => exact hr.holds.built c hc
  | redefines _ _ hr => exact Or.inl (hr.linked_iff.mp hc)
  | keeps _ hstore _ => exact Or.inl (hstore ▸ hc)

/-- The entries of a new table say what the class implements. -/
theorem Served.fillsEntries_of_built (hI : Served t) (hbuilt : BuiltAfter l t.store c) {ts : Tables}
    (hts : (t.store.getClass c).tables = some ts)
    (hint : (t.store.getClass c).isInterface = false) : t.store.FillsEntries c ts.itable := by
  intro i hi k m hm
  have w := hI.sound.wellFormed
  have hup := hI.sound.linkedUp
  have hc : t.store.Linked c := linked_iff.mpr ⟨ts, hts⟩
  have hnodup := w.nodup_allInterfaces hc.hasClass
  have hlinked := hup.allInterfaces w c hc.hasClass (hup c hc) i hi
  have hnumbered := hI.serves.numbered i hlinked (w.allInterfaces_spec c hc.hasClass i hi).2
  obtain ⟨hmem, hk⟩ := interfaceMethodAt?_some hm
  obtain ⟨m', hmem', hk', hentry⟩ :=
    (Binds.of_interfaceTable hnodup).entry_of_index i hi m hmem k hk
  rw [hnumbered.unique m' hmem' m hmem k hk' hk] at hentry
  exact ⟨t.store.entryFor c m, hbuilt.itable_eq hts hint ▸ hentry, classifies_iff.mpr rfl⟩

/-- **The layout and the content of interface tables.**  In all states of a run that defines no
interface with two methods of one selector

* the methods of a linked interface are numbered from zero up to the length of its blocks, each
  number once, and a method is found by its number;
* the table of a linked class that is not an interface is laid out for its interfaces;
* when a command has linked such a class, every entry classifies what an interface call on the class
  finds for the method with the number. -/
theorem interface_layout (h : l.IsEmpty) (hxs : Admits Command.InterfacesDeclareOnce l xs) :
    ∀ t ∈ l.states xs,
      (∀ i, t.store.Linked i → (t.store.getClass i).isInterface = true →
        (t.store.numbers i).Perm (List.range (t.store.blockLength i)) ∧
        ∀ k m, t.store.interfaceMethodAt? i k = some m ↔
          m ∈ (t.store.getClass i).methods ∧ t.store.interfaceIndex? m = some k) ∧
      (∀ c ts, (t.store.getClass c).tables = some ts →
        (t.store.getClass c).isInterface = false → t.store.LaysInterfaces c ts.itable) ∧
      ∀ x : Command, x.Admissible t.store → ∀ c ts, ¬ t.store.Linked c →
        ((x.after t).store.getClass c).tables = some ts →
        ((x.after t).store.getClass c).isInterface = false →
        (x.after t).store.FillsEntries c ts.itable := by
  intro t ht
  have hI := forall_states (I := Blocked) (fun l x hI honce hx => hI.after honce hx) h.blocked hxs
    t ht
  refine ⟨fun i hi hint => ?_, fun c ts hts hint => ?_, fun x hx c ts hunlinked hts hint => ?_⟩
  · have hnumbered := hI.served.serves.numbered i hi hint
    exact ⟨(hI.blocks.gapless i hi hint).numbers_perm hnumbered (hI.blocks.nodup i),
      fun k m => ⟨interfaceMethodAt?_some, fun hm => hnumbered.interfaceMethodAt? hm.1 hm.2⟩⟩
  · exact hI.blocks.laysInterfaces hI.served.sound.wellFormed hts hint
  · have hbuilt := (hI.served.sound.linked_or_built hx (linked_iff.mpr ⟨ts, hts⟩)).resolve_left
      hunlinked
    exact (hI.served.after hx).fillsEntries_of_built hbuilt hts hint

/-- A class implements an interface of two methods, one above it that declares two of its own, and a
marker interface.  Of the four methods it implements the second, hides the third and leaves the last
one abstract. -/
def implementingRun : List Command :=
  [.define { name := "Object" },
   .define { name := "I", flags := .makeInterface {}
             methods := [publicMethod "m" [], publicMethod "n" []].map (·.makeAbstract) },
   .define { name := "J", flags := .makeInterface {}, interfaces := [⟨1⟩]
             methods := [publicMethod "p" [], publicMethod "q" []].map (·.makeAbstract) },
   .define { name := "Marker", flags := .makeInterface {} },
   .define { name := "C", flags := .makeAbstract {}, superclass := some ⟨0⟩
             interfaces := [⟨2⟩, ⟨3⟩]
             methods := [publicMethod "n" [1], (publicMethod "p" [1]).makeProtected,
               (publicMethod "q" []).makeAbstract] }]

/-- The class is linked, and the first interface declares its methods in another order and a static
one in between. -/
def reorderingRun : List Command :=
  implementingRun ++
    [.link ⟨4⟩,
     .redefine ⟨1⟩ [(publicMethod "n" []).makeAbstract, (publicMethod "s" [1]).makeStatic,
       (publicMethod "m" []).makeAbstract]]

/-- The class has just been linked. -/
def implementedState : Linker :=
  (Command.link ⟨4⟩).after (finish { config := .minimal } implementingRun)

/-- The interface has been redefined. -/
def reorderedState : Linker := finish { config := .minimal } reorderingRun

/-- The table of the class has an entry of each kind, and it is still laid out for the numbers when
these stand in another order. -/
theorem reorderedState_laid :
    (∃ ts, (implementedState.store.getClass ⟨4⟩).tables = some ts ∧
      ts.itable.entry? ⟨1⟩ 0 = some .empty ∧ ts.itable.entry? ⟨1⟩ 1 = some (.bound ⟨4⟩) ∧
      ts.itable.entry? ⟨2⟩ 0 = some (.inaccessible "C.p()V") ∧
      ts.itable.entry? ⟨2⟩ 1 = some .empty) ∧
    reorderedState.store.numbers ⟨1⟩ = [1, 0] ∧
    (reorderedState.store.numbers ⟨1⟩).Perm (List.range (reorderedState.store.blockLength ⟨1⟩)) ∧
    ∃ ts, (reorderedState.store.getClass ⟨4⟩).tables = some ts ∧
      reorderedState.store.LaysInterfaces ⟨4⟩ ts.itable := by
  have himplementing := @interface_layout { config := .minimal } implementingRun ⟨rfl, rfl⟩
    (by decide +kernel) _ (finish_mem_states _ _)
  have hreordering := @interface_layout { config := .minimal } reorderingRun ⟨rfl, rfl⟩
    (by decide +kernel) reorderedState (finish_mem_states _ _)
  obtain ⟨ts, hts⟩ : ∃ ts, (implementedState.store.getClass ⟨4⟩).tables = some ts :=
    Option.isSome_iff_exists.mp (by decide +kernel)
  obtain ⟨ts', hts'⟩ : ∃ ts, (reorderedState.store.getClass ⟨4⟩).tables = some ts :=
    Option.isSome_iff_exists.mp (by decide +kernel)
  have hfills : implementedState.store.FillsEntries ⟨4⟩ ts.itable :=
    himplementing.2.2 (.link ⟨4⟩) (by decide +kernel) ⟨4⟩ ts (by decide +kernel) hts
      (by decide +kernel)
  have hname : implementedState.store.displayName ⟨5⟩ = "C.p()V" := by decide +kernel
  refine ⟨⟨ts, hts, ?_, ?_, ?_, ?_⟩, by decide +kernel, ?_, ts', hts', ?_⟩
  · exact hfills.entry?_eq (m := ⟨0⟩) (x := none) (by decide +kernel) (by decide +kernel)
      (by decide +kernel) .missing
  · exact hfills.entry?_eq (m := ⟨1⟩) (x := some ⟨4⟩) (by decide +kernel) (by decide +kernel)
      (by decide +kernel) (.bound (by decide +kernel) (by decide +kernel))
  · rw [← hname]
    exact hfills.entry?_eq (m := ⟨2⟩) (x := some ⟨5⟩) (by decide +kernel) (by decide +kernel)
      (by decide +kernel) (.inaccessible (by decide +kernel))
  · exact hfills.entry?_eq (m := ⟨3⟩) (x := some ⟨6⟩) (by decide +kernel) (by decide +kernel)
      (by decide +kernel) (.bodiless (by decide +kernel) (by decide +kernel))
  · exact (hreordering.1 ⟨1⟩ (by decide +kernel) (by decide +kernel)).1
  · exact hreordering.2.1 ⟨4⟩ ts' hts' (by decide +kernel)

end Linker
end ClassLinking
