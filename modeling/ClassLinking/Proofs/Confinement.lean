import ClassLinking.Proofs.Coherence
import ClassLinking.Proofs.Currency
import ClassLinking.Proofs.Replacement

/-!
# What a call that links may touch

A call links the classes it is asked for and, before them, what these are defined from.  It may
fail half-way, in a class deep above the one it was asked for.  Whatever happens:

* a class that was linked stays as it was, and so do the methods that it declares
  (`LinksOnly.kept`);
* what a linked class stands on is linked (`LinksOnly.closed`);
* a class gets all of its tables from one build, or none (`LinksOnly.whole`);
* only classes that were asked for and classes above them become linked (`LinksOnly.above`).

A class that could not be linked is not linked in the end, since the classes above it are older than
it is and do without it (`linkWithin_above`).  `linking_confined` puts this together for every state
that defining, linking, redefining and replacing lead to.
-/

namespace ClassLinking

namespace Store

variable {s t : Store} {root : Option ClassId} {c d p : ClassId}

theorem above_self (s : Store) (c : ClassId) : s.Above c c :=
  Or.inl (WellFormed.mem_lineage_self s c)

/-- What is above a class is not younger than the class. -/
theorem Above.index_le (h : s.Above c d) (w : s.WellFormed root) (hc : s.HasClass c) :
    d.index ≤ c.index := by
  rcases h with h | h
  · exact (w.lineage_spec c hc d h).2.1
  · exact Nat.le_of_lt (w.allInterfaces_spec c hc d h).1

/-- What a class is defined from is above it. -/
theorem above_of_mem_definedFrom (w : s.WellFormed root) (hc : s.HasClass c)
    (hp : p ∈ s.definedFrom c) : s.Above c p := by
  rcases List.mem_append.mp hp with hp | hp
  · exact above_of_superclass w hc (Option.mem_toList.mp hp) (above_self s p)
  · exact Or.inr ((w.mem_allInterfaces_iff hc).mpr (Or.inr ⟨p, hp, Or.inl rfl⟩))

theorem Above.trans (h : s.Above c p) (w : s.WellFormed root) (hc : s.HasClass c)
    (h' : s.Above p d) : s.Above c d := by
  rcases h with h | h
  · exact h'.imp (w.mem_lineage_trans hc h) (w.allInterfaces_of_mem_lineage c hc p h d)
  · rcases h' with h' | h'
    · rcases List.mem_cons.mp h' with rfl | h'
      · exact Or.inr h
      · exact Or.inl (List.mem_cons_of_mem _ (w.mem_ancestors_of_supertype hc (Or.inr h) h'))
    · exact Or.inr (w.allInterfaces_trans c hc p h d h')

end Store

namespace Linker

variable {l t u : Linker} {root : Option ClassId} {c d p : ClassId} {cs : List ClassId} {s : Store}

/-! ## Which classes become linked -/

/-- What is linked in `s` was linked in `l` already or is above one of the classes `cs`. -/
def LinksAbove (l : Linker) (cs : List ClassId) (s : Store) : Prop :=
  ∀ d, s.Linked d → l.store.Linked d ∨ ∃ c ∈ cs, l.store.Above c d

theorem linksAbove_refl (l : Linker) (cs : List ClassId) : LinksAbove l cs l.store :=
  fun _ => Or.inl

/-- What is above something that `c` is defined from is above `c`. -/
theorem LinksAbove.of_definedFrom (h : LinksAbove l (l.store.definedFrom c) s)
    (w : l.store.WellFormed root) (hc : l.store.HasClass c) : LinksAbove l [c] s := fun d hd =>
  (h d hd).imp_right fun ⟨_, hp, habove⟩ =>
    ⟨c, List.mem_singleton_self c, (Store.above_of_mem_definedFrom w hc hp).trans w hc habove⟩

/-- A class is younger than all that it is defined from, so it does not become linked with it. -/
theorem LinksAbove.linked_of_definedFrom (h : LinksAbove l (l.store.definedFrom c) s)
    (w : l.store.WellFormed root) (hc : l.store.HasClass c) (hlinked : s.Linked c) :
    l.store.Linked c := by
  rcases h c hlinked with hl | ⟨p, hp, habove⟩
  · exact hl
  · have hle := habove.index_le w (Store.hasClass_of_mem_definedFrom w hc hp)
    have hlt : p.index < c.index := by
      rcases List.mem_append.mp hp with hp | hp
      · exact ((w.fits c hc).superclass p (Option.mem_toList.mp hp)).1
      · exact ((w.fits c hc).localInterfaces p hp).1
    omega

/-- What is built has been above one of `cs`, so all that is linked stays so. -/
theorem LinksAbove.builds (h : LinksAbove l cs t.store) (w : t.store.WellFormed root)
    (hup : t.store.LinkedUp) (hready : Ready t.store d) (hd : ∃ c ∈ cs, l.store.Above c d) :
    Outcome (buildTables d) t (fun _ u => LinksAbove l cs u.store)
      (fun _ u => (∀ k, u.store.Linked k → t.store.Linked k) ∧ LinksAbove l cs u.store) := by
  refine (buildTables_outcome w hup hready).imp (fun _ u hu k hk => ?_) (fun _ u hu => ?_)
  · by_cases hkd : k = d
    · exact Or.inr (hkd ▸ hd)
    · rw [Store.Linked, hu.1.others k hkd] at hk
      exact h k hk
  · have hsame : ∀ k, u.store.Linked k → t.store.Linked k := fun k hk => by
      rwa [hu.1.store.linked_iff] at hk
    exact ⟨hsame, fun k hk => h k (hsame k hk)⟩

/-- Linking one of `cs` links what is above, and so do the calls for its supertypes. -/
theorem linkWithin_above (budget : Nat) (w : l.store.WellFormed root)
    (h : Reaches root (LinksAbove l cs) l t) (hcs : ∀ c ∈ cs, l.store.HasClass c) (hc : c ∈ cs) :
    Outcome (linkWithin budget c) t
      (fun _ u => u.store.Linked c ∧ Reaches root (LinksAbove l cs) t u)
      (fun _ u => Reaches root (LinksAbove l cs) t u) :=
  (linkWithin_outcome (F := fun _ _ => True) (Q := fun d => ∃ c ∈ cs, l.store.Above c d) w
    (fun _ hk ⟨c, hc, habove⟩ _ hp => ⟨c, hc,
      habove.trans w (hcs c hc) (Store.above_of_mem_definedFrom w hk hp)⟩)
    (fun _ _ _ => trivial)
    (fun _ _ ht hq hready => (ht.holds.builds ht.wellFormed ht.linkedUp hready hq).imp
      (fun _ _ hu => hu) (fun _ _ hu => ⟨trivial, hu.2⟩))
    budget h (hcs c hc) ⟨c, hc, Store.above_self _ c⟩).imp (fun _ _ hu => hu) (fun _ _ hu => hu.2)

/-- A class that could not be linked is not linked: the classes above it do without it. -/
theorem ensureLinked_above (w : l.store.WellFormed root) (hup : l.store.LinkedUp)
    (hc : l.store.HasClass c) :
    Outcome (ensureLinked c) l (fun _ t => t.store.Linked c ∧ LinksAbove l [c] t.store)
      (fun _ t => (t.store.Linked c → l.store.Linked c) ∧ LinksAbove l [c] t.store) := by
  unfold ensureLinked linkWithin
  simp only [outcome_bind, outcome_get, outcome_ite, outcome_pure]
  refine ⟨fun hlinked => ⟨hlinked, linksAbove_refl l _⟩, fun _ => ?_⟩
  have hrefs : ∀ p ∈ l.store.definedFrom c, l.store.HasClass p :=
    fun p => Store.hasClass_of_mem_definedFrom w hc
  refine (forM_outcome (I := LinksAbove l (l.store.definedFrom c)) (F := fun _ _ => True) w hup
    (linksAbove_refl l _) hrefs fun t ht p hp =>
      (linkWithin_above _ w ht hrefs hp).imp (fun _ _ hu => hu) (fun _ _ hu => ⟨trivial, hu⟩)).imp
    (fun _ t hall => ?_)
    (fun _ t h => ⟨h.2.holds.linked_of_definedFrom w hc, h.2.holds.of_definedFrom w hc⟩)
  obtain ⟨hlinked, ht⟩ := hall
  have habove := ht.holds.of_definedFrom w hc
  refine ⟨fun hct => ⟨hct, habove⟩, fun hunlinked => ?_⟩
  have hready := ht.ready hc hlinked hunlinked
  exact ((buildTables_outcome ht.wellFormed ht.linkedUp hready).and (habove.builds ht.wellFormed
    ht.linkedUp hready ⟨c, List.mem_singleton_self c, Store.above_self _ c⟩)).imp
    (fun _ u hu => ⟨hu.1.1.linked, hu.2⟩)
    (fun _ u hu => ⟨fun hcu => absurd (hu.2.1 c hcu) hunlinked, hu.2.2⟩)

/-- Linking a class that must not be linked yet. -/
theorem link_above (w : l.store.WellFormed root) (hup : l.store.LinkedUp)
    (hc : l.store.HasClass c) :
    Outcome (link c) l (fun _ t => t.store.Linked c ∧ LinksAbove l [c] t.store)
      (fun _ t => (t.store.Linked c → l.store.Linked c) ∧ LinksAbove l [c] t.store) := by
  unfold link
  simp only [outcome_bind, outcome_get, outcome_ite, outcome_throw, outcome_attempt]
  exact ⟨fun _ => ⟨id, linksAbove_refl l _⟩, fun _ => ensureLinked_above w hup hc⟩

/-- Linking a batch. -/
theorem linkAll_above (w : l.store.WellFormed root) (hup : l.store.LinkedUp)
    (hcs : ∀ c ∈ cs, l.store.HasClass c) :
    Outcome (linkAll cs) l (fun _ t => LinksAbove l cs t.store)
      (fun _ t => LinksAbove l cs t.store) := by
  refine (linkAll_outcome_of (I := LinksAbove l cs) (F := fun _ _ => True) (fun _ => trivial)
    (fun _ _ _ _ _ => trivial) w hup (linksAbove_refl l cs) fun t ht c hc => ?_).imp
    (fun _ _ ht => ht.holds) (fun _ _ ht => ht.2.holds)
  unfold ensureLinked
  simp only [outcome_bind, outcome_get]
  exact (linkWithin_above _ w ht hcs hc).imp (fun _ _ hu => hu.2) (fun _ _ hu => ⟨trivial, hu⟩)

/-! ## What becomes of a class -/

/-- The tables that `c` has in `s` are those of one build, which linking from `l` came to. -/
def BuiltAfter (l : Linker) (s : Store) (c : ClassId) : Prop :=
  ∃ u : Linker, l.store.Grows u.store ∧ u.store.Grows s ∧ Ready u.store c ∧
    (∃ root, u.store.WellFormed root) ∧ u.store.LinkedUp ∧
    ∃ size layout itable f, u.LaysOut s c size layout itable f

theorem BuiltAfter.of_grows {s' : Store} (h : BuiltAfter l s c) (hg : s.Grows s') :
    BuiltAfter l s' c := by
  obtain ⟨u, hlu, hus, hready, ⟨root, w⟩, hup, size, layout, itable, f, hlaid⟩ := h
  exact ⟨u, hlu, hus.trans hg, hready, ⟨root, w⟩, hup, size, layout, itable, f,
    hlaid.of_grows w hready.hasClass hus hg⟩

/-- Linking from `l` came to `s`, and what is linked in `s` was linked before or built since. -/
structure BuildsOn (l : Linker) (s : Store) : Prop where
  grows : l.store.Grows s
  built : ∀ c, s.Linked c → l.store.Linked c ∨ BuiltAfter l s c

theorem buildsOn_refl (l : Linker) : BuildsOn l l.store := ⟨.refl _, fun _ => Or.inl⟩

/-- Linking installs nothing but what was built. -/
theorem linkRule_buildsOn (l : Linker) (root : Option ClassId) (config : Config) :
    LinkRule root config (BuildsOn l) (fun _ => True) where
  prepares := fun s t c w h hready hp => by
    have hg := hp.grows w (Store.tables_of_not_linked hready.unlinked)
    refine ⟨h.grows.trans hg, fun d hd => ?_⟩
    rw [hp.linked_iff] at hd
    exact (h.built d hd).imp_right fun hb => hb.of_grows hg
  installs := fun u t c _ w hup h hready hi _ => by
    refine ⟨h.grows.trans hi.grows, fun d hd => ?_⟩
    by_cases hdc : d = c
    · subst hdc
      exact Or.inr ⟨u, h.grows, hi.grows, hready, ⟨root, w⟩, hup, hi.tables⟩
    · rw [Store.Linked, hi.others d hdc] at hd
      exact (h.built d hd).imp_right fun hb => hb.of_grows hi.grows
  fails := fun _ _ _ _ _ _ _ _ _ => trivial
  tooDeep := fun _ => trivial

/-- What a call that links leaves behind, if it was asked for the classes `cs`. -/
structure LinksOnly (l t : Linker) (cs : List ClassId) : Prop where
  kept : ∀ c, l.store.Linked c → t.store.getClass c = l.store.getClass c ∧
    ∀ m ∈ (l.store.getClass c).methods, t.store.getMethod m = l.store.getMethod m
  closed : ∀ c, t.store.Linked c →
    (∀ p ∈ (t.store.getClass c).superclass?, t.store.Linked p) ∧
      ∀ i ∈ (t.store.getClass c).allInterfaces, t.store.Linked i
  whole : ∀ c, ¬ l.store.Linked c → t.store.getClass c = l.store.getClass c ∨
    (∃ ts, t.store.getClass c = { l.store.getClass c with tables := some ts }) ∧
      BuiltAfter l t.store c
  above : ∀ c, t.store.Linked c → l.store.Linked c ∨ ∃ d ∈ cs, l.store.Above d c

theorem Reaches.linksOnly (h : Reaches root (BuildsOn l) l t) (w : l.store.WellFormed root)
    (habove : LinksAbove l cs t.store) : LinksOnly l t cs where
  kept := fun c hc => by
    obtain ⟨ts, hts⟩ := Store.linked_iff.mp hc
    refine ⟨?_, fun m hm => ?_⟩
    · rw [h.grows.class_eq c hc.hasClass, h.grows.tables_eq c ts hts, ← hts]
    · rw [h.grows.method_eq m ((w.fits c hc.hasClass).methods m hm).1,
        hc.dispatch_grows h.grows w hm]
  closed := fun c hc =>
    ⟨fun _ hp => h.linkedUp c hc _ (Store.mem_definedFrom_superclass hp),
      h.linkedUp.allInterfaces h.wellFormed c hc.hasClass (h.linkedUp c hc)⟩
  whole := fun c hunlinked => by
    by_cases hc : l.store.HasClass c
    · have hclass := h.grows.class_eq c hc
      by_cases hct : t.store.Linked c
      · obtain ⟨ts, hts⟩ := Store.linked_iff.mp hct
        rw [hts] at hclass
        exact Or.inr ⟨⟨ts, hclass⟩, (h.holds.built c hct).resolve_left hunlinked⟩
      · rw [Store.tables_of_not_linked hct, ← Store.tables_of_not_linked hunlinked] at hclass
        exact Or.inl hclass
    · have hct : ¬ t.store.HasClass c := by rwa [Store.HasClass, h.size_eq]
      exact Or.inl (by rw [Store.getClass_of_not hct, Store.getClass_of_not hc])
  above := habove

/-- **Linking is confined and closed upwards.**  In every state that defining, linking, redefining
and replacing lead to, a call that links leaves what was linked as it was and what is linked
standing on linked classes, and it gives all tables or none, to the classes it was asked for and
classes above them.  A class that it fails to link is not linked by it. -/
theorem linking_confined (h : Maintained l) :
    (∀ c, l.store.HasClass c → Outcome (link c) l
      (fun _ t => LinksOnly l t [c] ∧ t.store.Linked c)
      (fun _ t => LinksOnly l t [c] ∧ (t.store.Linked c → l.store.Linked c))) ∧
    ∀ batch : List ClassId, (∀ c ∈ batch, l.store.HasClass c) → Outcome (linkAll batch) l
      (fun _ t => LinksOnly l t batch) (fun _ t => LinksOnly l t batch) := by
  have w := h.sound.wellFormed
  have hup := h.sound.linkedUp
  have rule := linkRule_buildsOn l l.registry.root l.config
  refine ⟨fun c hc => ?_, fun batch hbatch => ?_⟩
  · exact ((link_outcome rule rfl w hup (buildsOn_refl l) hc).and (link_above w hup hc)).imp
      (fun _ _ ht => ⟨ht.1.2.linksOnly w ht.2.2, ht.2.1⟩)
      (fun _ _ ht => ⟨ht.1.2.linksOnly w ht.2.2, ht.2.1⟩)
  · exact ((linkAll_outcome rule rfl w hup (buildsOn_refl l) hbatch).and
      (linkAll_above w hup hbatch)).imp (fun _ _ ht => ht.1.linksOnly w ht.2)
      (fun _ _ ht => ht.1.2.linksOnly w ht.2)

/-- A class that overrides a final method of its superclass. -/
def overridingRun : List Command :=
  [.define { name := "Object" },
   .define { name := "A", superclass := some ⟨0⟩,
             methods := [(publicMethod "m" [1]).makeFinal] },
   .define { name := "B", superclass := some ⟨1⟩, methods := [publicMethod "m" [2]] }]

/-- Linking it fails after its superclass was linked. -/
theorem overridingRun_confined :
    Outcome (link ⟨2⟩) (finish { config := .minimal } overridingRun) (fun _ _ => False)
      (fun _ t => LinksOnly (finish { config := .minimal } overridingRun) t [⟨2⟩] ∧
        t.store.Linked ⟨1⟩ ∧ ¬ t.store.Linked ⟨2⟩) := by
  have hstart : Reachable (fun _ => True) { config := .minimal } := .start ⟨rfl, rfl⟩ trivial
  have hrun := (hstart.finish (show Admits _ _ overridingRun by decide +kernel)).maintained
  -- The state is named, so that only the kernel evaluates the run.
  generalize hl : finish { config := .minimal } overridingRun = l at hrun ⊢
  have hhas : l.store.HasClass ⟨2⟩ := by
    rw [← hl]
    decide +kernel
  have hfails : Outcome (link ⟨2⟩) l (fun _ _ => False)
      (fun _ t => t.store.Linked ⟨1⟩ ∧ ¬ t.store.Linked ⟨2⟩) := by
    rw [← hl]
    decide +kernel
  exact (((linking_confined hrun).1 ⟨2⟩ hhas).and hfails).imp (fun _ _ ht => ht.2)
    fun _ _ ht => ⟨ht.1.1, ht.2⟩

end Linker
end ClassLinking
