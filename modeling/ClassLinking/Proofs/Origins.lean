import ClassLinking.Proofs.Layout
import ClassLinking.Proofs.Runs

/-!
# Where tables come from

As long as nothing is redefined, tables that were installed stay as they are, and so does whatever
they were built from.  So in such a run every linked class has an `Origin`: an earlier linker in
which its tables were built, while its supertypes were linked already.  Everything that building
guarantees can be read off the origin and carried over to the present store.

`Constructed P l` collects what holds in every state of a run that defines and links under settings
with the property `P` (`Reachable.constructed`).
-/

namespace ClassLinking

namespace Store

/-- The method in a slot of the virtual table of `c`, none before linking. -/
def slot (s : Store) (c : ClassId) (i : Nat) : Option MethodId :=
  (s.getClass c).tables.bind fun ts => ts.vtable.methodAt i

/-- The length of the superclass's virtual table. -/
def superLength (s : Store) (c : ClassId) : Nat :=
  (s.getClass c).superclass?.elim 0 fun p => (s.getClass p).vtableLength

/-- Every method in a virtual table exists. -/
def Housed (s : Store) : Prop := ∀ c i m, s.slot c i = some m → s.HasMethod m

variable {s t : Store} {c p : ClassId} {i : Nat} {m : MethodId} {ts : Tables}

theorem slot_of_tables (hts : (s.getClass c).tables = some ts) :
    s.slot c i = ts.vtable.methodAt i := by
  rw [slot, hts, Option.bind_some]

theorem slot_congr (h : (t.getClass c).tables = (s.getClass c).tables) :
    t.slot c i = s.slot c i := by
  rw [slot, slot, h]

/-- Exchanging methods in the tables of a class exchanges them in its slots. -/
theorem slot_exchange {f : MethodId → MethodId}
    (h : (t.getClass c).tables = (s.getClass c).tables.map (Tables.exchange f)) :
    t.slot c i = (s.slot c i).map f := by
  rw [slot, slot, h]
  cases (s.getClass c).tables with
  | none => rfl
  | some ts =>
    rw [Option.map_some, Option.bind_some, Option.bind_some, VTable.methodAt, VTable.methodAt,
      Tables.exchange, List.getElem?_map]
    cases ts.vtable.slots[i]? <;> rfl

theorem linked_of_slot (h : s.slot c i = some m) : s.Linked c := by
  obtain ⟨ts, hts, -⟩ := Option.bind_eq_some_iff.mp h
  exact linked_iff.mpr ⟨ts, hts⟩

theorem vtableLength_of_tables (hts : (s.getClass c).tables = some ts) :
    (s.getClass c).vtableLength = ts.vtable.length := by
  simp only [Class.vtableLength, hts]

/-- Only the slots of the table are filled. -/
theorem lt_of_slot (h : s.slot c i = some m) : i < (s.getClass c).vtableLength := by
  obtain ⟨ts, hts, hm⟩ := Option.bind_eq_some_iff.mp h
  rw [vtableLength_of_tables hts]
  exact VTable.lt_of_methodAt hm

theorem superLength_of_superclass (hp : (s.getClass c).superclass? = some p) :
    s.superLength c = (s.getClass p).vtableLength := by
  rw [superLength, hp]
  rfl

/-- A superclass must be linked for the table to be sized. -/
theorem linked_of_vtableSize {config : Config} {size : VTableSize}
    (h : s.vtableSize config c = .ok size) (hp : (s.getClass c).superclass? = some p) :
    s.Linked p := by
  have hlength := (vtableSize_ok h).1
  rw [hp, inheritedLength] at hlength
  cases hts : (s.getClass p).tables with
  | none => simp [hts] at hlength
  | some ts => exact linked_iff.mpr ⟨ts, hts⟩

/-- A class inherits as many slots as its superclass has. -/
theorem inherited_eq_superLength {config : Config} {size : VTableSize}
    (h : s.vtableSize config c = .ok size) : size.inherited = s.superLength c := by
  have hlength := (vtableSize_ok h).1
  cases hp : (s.getClass c).superclass? with
  | none =>
    rw [hp, inheritedLength, Except.ok.injEq] at hlength
    rw [superLength, hp, ← hlength]
    rfl
  | some p =>
    obtain ⟨ts, hts⟩ := linked_iff.mp (linked_of_vtableSize h hp)
    simp only [hp, inheritedLength, hts, Except.ok.injEq] at hlength
    rw [superLength_of_superclass hp, ← hlength, vtableLength_of_tables hts]

theorem inherited_eq_vtableLength {config : Config} {size : VTableSize}
    (h : s.vtableSize config c = .ok size) (hp : (s.getClass c).superclass? = some p) :
    size.inherited = (s.getClass p).vtableLength :=
  (inherited_eq_superLength h).trans (superLength_of_superclass hp)

theorem inheritedAt_eq_slot (hp : (s.getClass c).superclass? = some p) (hlinked : s.Linked p) :
    s.inheritedAt c i = s.slot p i := by
  obtain ⟨ts, hts⟩ := linked_iff.mp hlinked
  rw [inheritedAt_of_superclass hp hts, slot_of_tables hts]

theorem Linked.slot_grows (h : s.Linked c) (hg : s.Grows t) : t.slot c i = s.slot c i := by
  obtain ⟨ts, hts⟩ := linked_iff.mp h
  exact slot_congr (by rw [hg.tables_eq c ts hts, hts])

theorem Linked.vtableLength_grows (h : s.Linked c) (hg : s.Grows t) :
    (t.getClass c).vtableLength = (s.getClass c).vtableLength := by
  obtain ⟨ts, hts⟩ := linked_iff.mp h
  rw [vtableLength_of_tables hts, vtableLength_of_tables (hg.tables_eq c ts hts)]

end Store

namespace Linker

/-- The tables that `c` has in `s` were built in `l`. -/
structure Origin (l : Linker) (s : Store) (c : ClassId) : Prop where
  wellFormed : ∃ root, l.store.WellFormed root
  linkedUp : l.store.LinkedUp
  housed : l.store.Housed
  ready : Ready l.store c
  inheritsDefaults : l.store.InheritsDefaults c
  selected : l.store.Selected c
  grows : l.store.Grows s
  built : ∃ size layout itable f, l.LaysOut s c size layout itable f

/-- The tables of `c` were built under settings with the property `P`. -/
def HasOrigin (P : Config → Prop) (s : Store) (c : ClassId) : Prop :=
  ∃ l : Linker, P l.config ∧ l.Origin s c

/-- A store in which every table has its origin, and every class the defaults selected for it. -/
structure Traced (P : Config → Prop) (root : Option ClassId) (s : Store) : Prop where
  wellFormed : s.WellFormed root
  linkedUp : s.LinkedUp
  housed : s.Housed
  inheritsDefaults : ∀ c, s.HasClass c → s.InheritsDefaults c
  selected : ∀ c, s.HasClass c → s.Selected c
  origins : ∀ c, s.Linked c → HasOrigin P s c

/-- What holds in every state of a run that defines and links. -/
structure Constructed (P : Config → Prop) (l : Linker) : Prop where
  sound : l.Sound
  housed : l.store.Housed
  inheritsDefaults : ∀ c, l.store.HasClass c → l.store.InheritsDefaults c
  selected : ∀ c, l.store.HasClass c → l.store.Selected c
  origins : ∀ c, l.store.Linked c → HasOrigin P l.store c
  config : P l.config

variable {P : Config → Prop} {l t : Linker} {s u : Store} {c d : ClassId} {root : Option ClassId}

/-- What stands in tables and what belongs to it does not change. -/
theorem LaysOut.of_grows {size : VTableSize} {layout : VTableLayout} {itable : ITable} {f : Fill}
    (h : l.LaysOut s c size layout itable f) (w : l.store.WellFormed root) (hc : l.store.HasClass c)
    (hs : l.store.Grows s) (hg : s.Grows u) : l.LaysOut u c size layout itable f where
  sized := h.sized
  built := h.built.extends hg.extends
  tables := hg.tables_eq c _ h.tables
  indexes := fun hint m hm => by
    rw [h.indexes hint m hm, hg.dispatch_eq c _ h.tables m (hs.methods hc ▸ hm)
      (hs.hasMethod ((w.fits c hc).methods m hm).1)]
  numbered := fun hint => ⟨(h.numbered hint).1, by
    have hhas : ∀ m ∈ (s.getClass c).methods, s.HasMethod m := fun m hm => by
      rw [hs.methods hc] at hm
      exact hs.hasMethod ((w.fits c hc).methods m hm).1
    exact hg.numbered h.tables hhas (h.numbered hint).2⟩
  bound := h.bound
  mirandas := fun j m hm => by
    obtain ⟨x, -, hx⟩ := h.built.placeholder_at hm
    obtain ⟨hnot, hdispatch⟩ := h.mirandas j m hm
    obtain ⟨hnot', hdispatch'⟩ := hg.undeclared m hx.hasMethod hnot
    exact ⟨hnot', hdispatch'.trans hdispatch⟩
  renumbered := fun hint => by
    obtain ⟨v, hprep, hindexes, hdispatch⟩ := h.renumbered hint
    refine ⟨v, hprep, hindexes, fun m hm => ?_⟩
    rw [← hdispatch m hm, hg.dispatch_eq c _ h.tables m (hs.methods hc ▸ hm)
      (hs.hasMethod ((w.fits c hc).methods m hm).1)]

theorem Origin.of_grows (o : l.Origin s c) (hg : s.Grows u) : l.Origin u c := by
  obtain ⟨root, w⟩ := o.wellFormed
  obtain ⟨size, layout, itable, f, h⟩ := o.built
  exact
    { o with
      grows := o.grows.trans hg
      built := ⟨size, layout, itable, f, h.of_grows w o.ready.hasClass o.grows hg⟩ }

theorem HasOrigin.of_grows (h : HasOrigin P s c) (hg : s.Grows u) : HasOrigin P u c := by
  obtain ⟨l, hconfig, o⟩ := h
  exact ⟨l, hconfig, o.of_grows hg⟩

/-! ## One installation -/

/-- What is placed in a table is declared by the class or inherited as a default. -/
theorem hasMethod_of_mem_placements (w : l.store.WellFormed root) (hc : l.store.HasClass c)
    {p : Placement} (hp : p ∈ l.fillEnv.placements c) : l.store.HasMethod p.method := by
  rcases FillEnv.mem_placements.mp hp with ⟨m, hm, rfl⟩ | ⟨m, hm, rfl⟩
  · exact ((w.fits c hc).methods m hm).1
  · exact ((w.fits c hc).defaults m hm).1

/-- An installation houses its methods. -/
theorem Installs.housed (h : l.Installs t c) (w : l.store.WellFormed root)
    (hready : Ready l.store c) (hhoused : l.store.Housed) : t.store.Housed := by
  intro d i m hm
  by_cases hdc : d = c
  · subst hdc
    obtain ⟨size, layout, itable, f, hsize, hbuilt, htables⟩ := h.tables
    rw [Store.slot_of_tables htables] at hm
    have hinherited := (Store.vtableSize_ok hsize).1
    have hplaced : ∀ p ∈ l.fillEnv.placements d, t.store.HasMethod p.method := fun p hp =>
      h.grows.hasMethod (hasMethod_of_mem_placements w hready.hasClass hp)
    by_cases hi : i < size.inherited
    · rcases hbuilt.methodAt_inherited hi with hsame | ⟨p, hp, heq, -⟩
      · rw [hm] at hsame
        cases hp : (l.store.getClass d).superclass? with
        | none =>
          have hnone := Store.inheritedAt_top hp i
          rw [show l.fillEnv.store = l.store from rfl, hnone] at hsame
          cases hsame
        | some p =>
          have hlinked := hready.definedFrom p (Store.mem_definedFrom_superclass hp)
          have hslot := Store.inheritedAt_eq_slot (i := i) hp hlinked
          exact h.grows.hasMethod (hhoused p i m (hslot.symm.trans hsame.symm))
      · rw [heq, Option.some.injEq] at hm
        exact hm ▸ hplaced p hp
    · rcases hbuilt.methodAt_own hinherited (by omega) hm with ⟨p, hp, heq, -⟩ | ⟨x, -, hx⟩
      · exact heq ▸ hplaced p hp
      · exact hx.hasMethod
  · have hsame : t.store.slot d i = l.store.slot d i := by
      rw [Store.slot, Store.slot, h.others d hdc]
    exact h.grows.hasMethod (hhoused d i m (hsame.symm.trans hm))

/-- What linking keeps in a run without redefinitions, from the start of a command on. -/
structure LinksOn (P : Config → Prop) (l : Linker) (s : Store) : Prop where
  grows : l.store.Grows s
  size_eq : s.classes.size = l.store.classes.size
  housed : s.Housed
  origins : ∀ c, s.Linked c → HasOrigin P s c

theorem Constructed.linksOn (h : Constructed P l) : LinksOn P l l.store :=
  ⟨.refl _, rfl, h.housed, h.origins⟩

/-- The classes are the same as before the command, so their defaults are the ones selected for
them. -/
theorem Constructed.selected_of_linksOn (h : Constructed P l) (hs : LinksOn P l s)
    (hc : s.HasClass c) : s.InheritsDefaults c ∧ s.Selected c := by
  rw [Store.HasClass, hs.size_eq] at hc
  exact ⟨(h.inheritsDefaults c hc).of_eq h.sound.wellFormed hc hs.grows.extends
    (hs.grows.defaults hc), (h.selected c hc).grows h.sound.wellFormed hc hs.grows⟩

theorem Constructed.traced (h : Constructed P l) : Traced P l.registry.root l.store :=
  ⟨h.sound.wellFormed, h.sound.linkedUp, h.housed, h.inheritsDefaults, h.selected, h.origins⟩

theorem LinksOn.traced (hs : LinksOn P l s) (h : Constructed P l) (w : s.WellFormed root)
    (hup : s.LinkedUp) : Traced P root s :=
  ⟨w, hup, hs.housed, fun _ hc => (h.selected_of_linksOn hs hc).1,
    fun _ hc => (h.selected_of_linksOn hs hc).2, hs.origins⟩

theorem LinksOn.prepares (h : LinksOn P l s) (w : s.WellFormed root) (hready : Ready s c)
    (hp : s.Prepares c u) : LinksOn P l u where
  grows := h.grows.trans (hp.grows w (Store.tables_of_not_linked hready.unlinked))
  size_eq := by rw [hp.classes_eq, h.size_eq]
  housed := fun c i m hm => by
    have hsame : u.slot c i = s.slot c i := by rw [Store.slot, Store.slot, hp.getClass]
    exact hp.extends.hasMethod (h.housed c i m (hsame.symm.trans hm))
  origins := fun d hd => by
    rw [hp.linked_iff] at hd
    exact (h.origins d hd).of_grows
      (hp.grows w (Store.tables_of_not_linked hready.unlinked))

theorem LinksOn.installs (hl : Constructed P l) {v : Linker} (hconfig : P t.config)
    (w : t.store.WellFormed root) (hup : t.store.LinkedUp) (h : LinksOn P l t.store)
    (hready : Ready t.store c) (hi : t.Installs v c) : LinksOn P l v.store where
  grows := h.grows.trans hi.grows
  size_eq := hi.size_eq.trans h.size_eq
  housed := hi.housed w hready h.housed
  origins := fun d hd => by
    by_cases hdc : d = c
    · subst hdc
      obtain ⟨hdefaults, hselected⟩ := hl.selected_of_linksOn h hready.hasClass
      exact ⟨t, hconfig, ⟨root, w⟩, hup, h.housed, hready, hdefaults, hselected, hi.grows,
        hi.tables⟩
    · rw [Store.Linked, hi.others d hdc] at hd
      exact (h.origins d hd).of_grows hi.grows

/-- Linking keeps the origins of all tables. -/
theorem Constructed.linkRule (h : Constructed P l) (root : Option ClassId) :
    LinkRule root l.config (LinksOn P l) (fun _ => True) where
  prepares := fun _ _ _ w hI hready hp => hI.prepares w hready hp
  installs := fun _ _ _ hconfig w hup hI hready hi _ =>
    hI.installs h (hconfig ▸ h.config) w hup hready hi
  fails := fun _ _ _ _ _ _ _ _ _ => trivial
  tooDeep := fun _ => trivial

theorem Constructed.reaches (h : Constructed P l) (hr : Reaches l.registry.root (LinksOn P l) l t) :
    Constructed P t where
  sound := h.sound.reaches hr
  housed := hr.holds.housed
  inheritsDefaults := fun _ hc => (h.selected_of_linksOn hr.holds hc).1
  selected := fun _ hc => (h.selected_of_linksOn hr.holds hc).2
  origins := hr.holds.origins
  config := by
    rw [hr.continues.config]
    exact h.config

/-! ## Runs -/

theorem IsEmpty.constructed (h : l.IsEmpty) (hconfig : P l.config) : Constructed P l := by
  have hnone : ∀ c, ¬ l.store.HasClass c := fun c hc => by
    rw [h.store] at hc
    exact Nat.not_lt_zero _ hc
  exact
    { sound := h.sound
      housed := fun c i m hm => absurd (Store.linked_of_slot hm).hasClass (hnone c)
      inheritsDefaults := fun c hc => absurd hc (hnone c)
      selected := fun c hc => absurd hc (hnone c)
      origins := fun c hc => absurd hc.hasClass (hnone c)
      config := hconfig }

theorem Constructed.defines (h : Constructed P l) (hd : l.Defines t c) : Constructed P t := by
  have w := h.sound.wellFormed
  refine
    { sound := h.sound.defines hd
      housed := fun e i m hm => ?_
      inheritsDefaults := fun e he => ?_
      selected := fun e he => ?_
      origins := fun e he => (h.origins e (hd.of_linked he).2.1).of_grows hd.grows
      config := ?_ }
  · obtain ⟨-, -, heq⟩ := hd.of_linked (Store.linked_of_slot hm)
    rw [Store.slot, heq] at hm
    exact hd.grows.hasMethod (h.housed e i m hm)
  · rcases (hd.hasClass_iff e).mp he with he | rfl
    · exact (h.inheritsDefaults e he).of_eq w he hd.grows.extends (hd.grows.defaults he)
    · exact hd.inheritsDefaults
  · rcases (hd.hasClass_iff e).mp he with he | rfl
    · exact (h.selected e he).grows w he hd.grows
    · exact hd.selected
  · rw [hd.config]
    exact h.config

theorem Constructed.keeps (h : Constructed P l) (hk : l.Keeps t) : Constructed P t where
  sound := h.sound.keeps hk
  housed := hk.store ▸ h.housed
  inheritsDefaults := hk.store ▸ h.inheritsDefaults
  selected := hk.store ▸ h.selected
  origins := hk.store ▸ h.origins
  config := by
    rw [hk.config]
    exact h.config

/-- The command does not redefine, and settings it brings have the property `P`. -/
def Builds (P : Config → Prop) (x : Command) : Prop :=
  match x with
  | .redefine .. => False
  | .configure config _ _ => P config
  | _ => True

instance [DecidablePred P] : DecidablePred (Builds P)
  | .define _ | .link _ | .linkAll _ => isTrue trivial
  | .redefine _ _ => isFalse id
  | .configure config _ _ => inferInstanceAs (Decidable (P config))

/-- **A command that defines or links keeps the origins of all tables.** -/
theorem Constructed.after (h : Constructed P l) {x : Command} (hx : Builds P x)
    (hadm : x.Admissible l.store) : Constructed P (x.after l) := by
  have w := h.sound.wellFormed
  have hup := h.sound.linkedUp
  cases x with
  | define d =>
    exact ((define_outcome w hadm).imp (fun _ _ ht => h.defines ht)
      (fun _ _ ht => h.keeps ht)).final
  | link c =>
    exact ((link_outcome (h.linkRule _) rfl w hup h.linksOn hadm).imp
      (fun _ _ ht => h.reaches ht.2) (fun _ _ ht => h.reaches ht.2)).final
  | linkAll batch =>
    exact ((linkAll_outcome (h.linkRule _) rfl w hup h.linksOn hadm).imp
      (fun _ _ ht => h.reaches ht) (fun _ _ ht => h.reaches ht.2)).final
  | redefine holder ds => exact hx.elim
  | configure config conflicts consultsConflicts =>
    exact ⟨h.sound.after (x := .configure config conflicts consultsConflicts) trivial, h.housed,
      h.inheritsDefaults, h.selected, h.origins, hx⟩

theorem Reachable.constructed (h : Reachable (Builds P) l) : Constructed P l := by
  induction h with
  | start hempty hconfig => exact hempty.constructed hconfig
  | step _ hx hadm ih => exact ih.after hx hadm

/-! ## Origins that are traced themselves -/

/-- Every table was built in a state whose tables have origins in turn. -/
def BuiltTraced (P : Config → Prop) (s : Store) : Prop :=
  ∀ c, s.Linked c → ∃ (l : Linker) (root : Option ClassId),
    P l.config ∧ l.Origin s c ∧ Traced P root l.store

theorem BuiltTraced.of_grows (h : BuiltTraced P s) (hg : s.Grows u)
    (hlinked : ∀ c, u.Linked c → s.Linked c) : BuiltTraced P u := fun c hc => by
  obtain ⟨l, root, hconfig, o, T⟩ := h c (hlinked c hc)
  exact ⟨l, root, hconfig, o.of_grows hg, T⟩

/-- A class whose tables are installed now has its origin in the present state. -/
theorem BuiltTraced.installs (hl : Constructed P l) {v : Linker} (hconfig : P t.config)
    (w : t.store.WellFormed root) (hup : t.store.LinkedUp) (hI : LinksOn P l t.store)
    (h : BuiltTraced P t.store) (hready : Ready t.store c) (hi : t.Installs v c) :
    BuiltTraced P v.store := fun d hd => by
  by_cases hdc : d = c
  · subst hdc
    obtain ⟨hdefaults, hselected⟩ := hl.selected_of_linksOn hI hready.hasClass
    exact ⟨t, root, hconfig, ⟨⟨root, w⟩, hup, hI.housed, hready, hdefaults, hselected, hi.grows,
      hi.tables⟩, hI.traced hl w hup⟩
  · rw [Store.Linked, hi.others d hdc] at hd
    obtain ⟨l', root', hconfig', o, T⟩ := h d hd
    exact ⟨l', root', hconfig', o.of_grows hi.grows, T⟩

theorem Constructed.tracedRule (h : Constructed P l) (root : Option ClassId) :
    LinkRule root l.config (fun s => LinksOn P l s ∧ BuiltTraced P s) (fun _ => True) where
  prepares := fun _ _ _ w hI hready hp => by
    refine ⟨hI.1.prepares w hready hp, hI.2.of_grows
      (hp.grows w (Store.tables_of_not_linked hready.unlinked)) fun d hd => ?_⟩
    rwa [hp.linked_iff] at hd
  installs := fun _ _ _ hconfig w hup hI hready hi _ =>
    ⟨hI.1.installs h (hconfig ▸ h.config) w hup hready hi,
      hI.2.installs h (hconfig ▸ h.config) w hup hI.1 hready hi⟩
  fails := fun _ _ _ _ _ _ _ _ _ => trivial
  tooDeep := fun _ => trivial

theorem Constructed.builtTraced_after (h : Constructed P l) (hb : BuiltTraced P l.store)
    {x : Command} (hx : Builds P x) (hadm : x.Admissible l.store) :
    BuiltTraced P (x.after l).store := by
  have w := h.sound.wellFormed
  have hup := h.sound.linkedUp
  have hI : LinksOn P l l.store ∧ BuiltTraced P l.store := ⟨h.linksOn, hb⟩
  cases x with
  | define d =>
    exact ((define_outcome w hadm).imp
      (fun _ _ ht => hb.of_grows ht.grows fun e he => (ht.of_linked he).2.1)
      (fun _ _ ht => by rwa [ht.store])).final
  | link c =>
    exact ((link_outcome (h.tracedRule _) rfl w hup hI hadm).imp
      (fun _ _ ht => ht.2.holds.2) (fun _ _ ht => ht.2.holds.2)).final
  | linkAll batch =>
    exact ((linkAll_outcome (h.tracedRule _) rfl w hup hI hadm).imp
      (fun _ _ ht => ht.holds.2) (fun _ _ ht => ht.2.holds.2)).final
  | redefine holder ds => exact hx.elim
  | configure config conflicts consultsConflicts => exact hb

theorem Reachable.builtTraced (h : Reachable (Builds P) l) : BuiltTraced P l.store := by
  induction h with
  | start hempty hconfig =>
    intro c hc
    have hhas := hc.hasClass
    rw [hempty.store] at hhas
    exact absurd hhas (Nat.not_lt_zero _)
  | step h hx hadm ih => exact h.constructed.builtTraced_after ih hx hadm

end Linker
end ClassLinking
