import ClassLinking.Proofs.Rebuilding
import ClassLinking.Proofs.Scheduling
import Mathlib.Data.List.Dedup
import Mathlib.Data.List.Perm.Basic

/-!
# Linking a batch

A batch that is linked without a failure has all of its classes linked at the end, and the answer is
the number of those that were not linked before (`linkAll_links`).

More can be said if the batch has all unlinked supertypes of its classes.  Then each class comes to
its turn with its supertypes linked on lower levels, and linking it is building its own tables, and
nothing else (`BuiltAlone`).  Whether a class can be built does not depend on what else was linked
by then (`Buildable`), so linking levels answers exactly if all of their classes can be built.  It
follows that levels may be permuted (`linkAll_topological`): what is linked at the end is the same
classes, and they have the same tables, as linking is canonical along any two paths.
-/

namespace ClassLinking
namespace Linker

open Store

variable {l t u v : Linker} {root : Option ClassId} {c d : ClassId} {level : List ClassId}
  {levels rest : List (List ClassId)} {batch : List ClassId} {n : Nat}

/-! ## Levels that are linked -/

theorem linkLevel_cons_eq_ok_iff :
    linkLevel (c :: level) t = .ok none v ↔
      ∃ u, ensureLinked c t = .ok () u ∧ linkLevel level u = .ok none v := by
  rw [linkLevel, bind_eq_ok_iff]
  constructor
  · rintro ⟨outcome, u, hfirst, hrest⟩
    obtain ⟨later, w, hlater, hend⟩ := bind_eq_ok_iff.mp hrest
    unfold LinkM.attempt at hfirst
    cases hc : ensureLinked c t with
    | ok a u' =>
      rw [hc] at hfirst
      cases hfirst
      cases hend
      exact ⟨u, rfl, hlater⟩
    | error e u' =>
      rw [hc] at hfirst
      cases hfirst
      cases hend
  · rintro ⟨u, hfirst, hrest⟩
    refine ⟨.ok (), u, ?_, bind_eq_ok_iff.mpr ⟨none, v, hrest, rfl⟩⟩
    unfold LinkM.attempt
    rw [hfirst]

theorem linkLevels_cons_eq_ok_iff :
    linkLevels (level :: rest) t = .ok n v ↔
      ∃ u k, linkLevel level t = .ok none u ∧ linkLevels rest u = .ok k v ∧
        n = level.length + k := by
  rw [linkLevels, bind_eq_ok_iff]
  constructor
  · rintro ⟨failure, u, hfirst, hrest⟩
    cases failure with
    | some e => cases hrest
    | none =>
      obtain ⟨k, w, hk, hend⟩ := bind_eq_ok_iff.mp hrest
      cases hend
      exact ⟨u, k, hfirst, hk, rfl⟩
  · rintro ⟨u, k, hfirst, hrest, rfl⟩
    exact ⟨none, u, hfirst, bind_eq_ok_iff.mpr ⟨k, v, hrest, rfl⟩⟩

/-- Classes that are tried without a failure are linked. -/
theorem linkLevel_links (w : t.store.WellFormed root) (hup : t.store.LinkedUp)
    (hlevel : ∀ c ∈ level, t.store.HasClass c) (hok : linkLevel level t = .ok none u) :
    Reaches root (fun _ => True) t u ∧ ∀ c ∈ level, u.store.Linked c := by
  induction level generalizing t with
  | nil =>
    cases hok
    exact ⟨.refl w hup trivial, nofun⟩
  | cons c level ih =>
    obtain ⟨hc, hrest⟩ := List.forall_mem_cons.mp hlevel
    obtain ⟨v, hfirst, hlater⟩ := linkLevel_cons_eq_ok_iff.mp hok
    obtain ⟨hlinked, hreach⟩ :=
      (ensureLinked_outcome (linkRule_true _ _) rfl w hup trivial hc).of_ok hfirst
    obtain ⟨hreach', hall⟩ := ih hreach.wellFormed hreach.linkedUp
      (fun d hd => hreach.grows.hasClass (hrest d hd)) hlater
    exact ⟨hreach.trans hreach', List.forall_mem_cons.mpr ⟨hlinked.grows hreach'.grows, hall⟩⟩

/-- Levels that are linked without a failure are counted. -/
theorem linkLevels_links (w : t.store.WellFormed root) (hup : t.store.LinkedUp)
    (hlevels : ∀ c ∈ levels.flatten, t.store.HasClass c) (hok : linkLevels levels t = .ok n u) :
    Reaches root (fun _ => True) t u ∧ (∀ c ∈ levels.flatten, u.store.Linked c) ∧
      n = levels.flatten.length := by
  induction levels generalizing t n with
  | nil =>
    cases hok
    exact ⟨.refl w hup trivial, nofun, rfl⟩
  | cons level rest ih =>
    rw [List.flatten_cons, List.forall_mem_append] at hlevels
    obtain ⟨v, k, hfirst, hlater, rfl⟩ := linkLevels_cons_eq_ok_iff.mp hok
    obtain ⟨hreach, hlinked⟩ := linkLevel_links w hup hlevels.1 hfirst
    obtain ⟨hreach', hall, rfl⟩ := ih hreach.wellFormed hreach.linkedUp
      (fun d hd => hreach.grows.hasClass (hlevels.2 d hd)) hlater
    refine ⟨hreach.trans hreach', ?_, by rw [List.flatten_cons, List.length_append]⟩
    rw [List.flatten_cons, List.forall_mem_append]
    exact ⟨fun c hc => (hlinked c hc).grows hreach'.grows, hall⟩

/-- **A batch that is linked without a failure** is planned, and all of it is linked. -/
theorem linkAll_links (w : l.store.WellFormed root) (hup : l.store.LinkedUp)
    (hdiffer : l.store.TokensDiffer) (hbatch : ∀ c ∈ batch, l.store.HasClass c)
    (hok : linkAll batch l = .ok n t) :
    ∃ levels, l.plan batch = .ok levels ∧ linkLevels levels l = .ok n t ∧
      Schedules l.store batch levels ∧ (∀ c ∈ batch, t.store.Linked c) ∧
      n = levels.flatten.length := by
  rw [linkAll_eq, bind_eq_ok_iff] at hok
  obtain ⟨levels, u, hplan, hlevels⟩ := hok
  cases hplanned : l.plan batch with
  | error e =>
    rw [hplanned] at hplan
    cases hplan
  | ok planned =>
    rw [hplanned] at hplan
    cases hplan
    have hschedules := schedules_plan w hup hdiffer hbatch hplanned
    obtain ⟨hreach, hlinked, hn⟩ := linkLevels_links w hup
      (fun c hc => hbatch c ((hschedules.mem_iff c).mp hc).1) hlevels
    refine ⟨_, rfl, hlevels, hschedules, fun c hc => ?_, hn⟩
    by_cases hold : l.store.Linked c
    · exact hold.grows hreach.grows
    · exact hlinked c ((hschedules.mem_iff c).mpr ⟨hc, hold⟩)

/-- There is one class in the levels for each unlinked class of the batch. -/
theorem Schedules.length_eq (h : Schedules l.store batch levels) :
    levels.flatten.length = (batch.filter fun c => !l.isLinked c).dedup.length := by
  refine ((List.perm_ext_iff_of_nodup h.nodup (List.nodup_dedup _)).mpr fun c => ?_).length_eq
  rw [h.mem_iff, List.mem_dedup, List.mem_filter, Bool.not_eq_true', ← Bool.not_eq_true]
  rfl

/-! ## Classes whose supertypes are linked -/

theorem linkWithin_linked (budget : Nat) (h : l.store.Linked c) :
    linkWithin (budget + 1) c l = .ok () l := by
  have hlinked : l.isLinked c = true := h
  unfold linkWithin
  rw [bind_of_ok (x := get) rfl, hlinked]
  rfl

theorem forM_linkWithin_linked (budget : Nat) {cs : List ClassId} (h : ∀ c ∈ cs, l.store.Linked c) :
    cs.forM (linkWithin (budget + 1)) l = .ok () l := by
  induction cs with
  | nil => rfl
  | cons c cs ih =>
    obtain ⟨hc, hcs⟩ := List.forall_mem_cons.mp h
    exact (bind_of_ok (linkWithin_linked budget hc) _).trans (ih hcs)

/-- An unlinked class is linked after its supertypes: these are tried first. -/
theorem linkWithin_succ_of_unlinked (budget : Nat) (h : ¬ l.store.Linked c) :
    linkWithin (budget + 1) c l = ((l.store.definedFrom c).forM (linkWithin budget) >>= fun _ => do
      if (← get).isLinked c then return () else buildTables c) l := by
  have hunlinked : l.isLinked c = false := Bool.not_eq_true _ ▸ h
  rw [linkWithin, bind_of_ok (x := get) rfl, hunlinked, if_neg Bool.false_ne_true]
  rfl

/-- Trying its supertypes changes nothing for a class that is ready. -/
theorem Ready.linkWithin_eq {budget : Nat} (h : Ready l.store c)
    (hok : (l.store.definedFrom c).forM (linkWithin budget) l = .ok () l) :
    linkWithin (budget + 1) c l = buildTables c l := by
  have hunlinked : l.isLinked c = false := Bool.not_eq_true _ ▸ h.unlinked
  rw [linkWithin_succ_of_unlinked budget h.unlinked, bind_of_ok hok, bind_of_ok (x := get) rfl,
    hunlinked, if_neg Bool.false_ne_true]

/-- **Linking a class whose supertypes are linked** is building its tables, unless the depth does
not even allow to look at them. -/
theorem Ready.ensureLinked_eq (h : Ready l.store c) :
    ensureLinked c l = if l.store.definedFrom c = [] ∨ 0 < l.config.maxHierarchyDepth
      then buildTables c l else .error (.hierarchyTooDeep l.config.maxHierarchyDepth) l := by
  show linkWithin (l.config.maxHierarchyDepth + 1) c l = _
  cases hdepth : l.config.maxHierarchyDepth with
  | succ depth =>
    rw [if_pos (Or.inr (Nat.succ_pos depth))]
    exact h.linkWithin_eq (forM_linkWithin_linked depth h.definedFrom)
  | zero =>
    cases hdefined : l.store.definedFrom c with
    | nil =>
      rw [if_pos (Or.inl rfl)]
      exact h.linkWithin_eq (by rw [hdefined]; rfl)
    | cons p ps =>
      have htooDeep : linkWithin 0 p l = .error (.hierarchyTooDeep 0) l := by
        show EStateM.Result.error (LinkError.hierarchyTooDeep l.config.maxHierarchyDepth) l = _
        rw [hdepth]
      rw [if_neg (by simp), linkWithin_succ_of_unlinked 0 h.unlinked, hdefined]
      exact bind_of_error (bind_of_error htooDeep _) _

/-! ## Classes that can be built -/

/-- Linking has come from `l` to `t`, and the classes of `linked` are linked there. -/
structure Comes (l : Linker) (linked : ClassId → Prop) (t : Linker) : Prop where
  reaches : Reaches l.registry.root
    (LinkPath l.registry.root l.config.transitiveOverrides l.store) l t
  linked_iff : ∀ d, t.store.Linked d ↔ linked d

/-- Wherever linking comes to the class from `l`, its tables are built. -/
def Buildable (l : Linker) (c : ClassId) : Prop :=
  ∀ linked t, Comes l linked t → Ready t.store c → ∃ u, ensureLinked c t = .ok () u

section Buildable

variable {linked linked' : ClassId → Prop}

theorem Comes.onPath (h : Comes l linked t) :
    OnPath l.registry.root l.config.transitiveOverrides l.store t :=
  ⟨h.reaches.holds, by rw [h.reaches.continues.config]⟩

theorem Comes.congr (h : Comes l linked t) (heq : ∀ d, linked d ↔ linked' d) :
    Comes l linked' t :=
  ⟨h.reaches, fun d => (h.linked_iff d).trans (heq d)⟩

theorem Comes.ready (h : Comes l linked t) (hlevel : Unblocked l.store linked level)
    (hc : c ∈ level) : Ready t.store c :=
  h.reaches.ready (hlevel.hasClass c hc)
    (fun p hp => (h.linked_iff p).mpr (hlevel.derived c hc p hp))
    (mt (h.linked_iff c).mp (hlevel.unlinked c hc))

/-- Where a class is linked that is ready, its own tables are built. -/
theorem Ready.buildTables_of_ok (hready : Ready t.store c) (hok : ensureLinked c t = .ok () u) :
    ensureLinked c t = buildTables c t := by
  rw [hready.ensureLinked_eq] at hok ⊢
  split at hok
  · rename_i hdepth
    rw [if_pos hdepth]
  · cases hok

/-- One more class is linked. -/
theorem Comes.step (h : Comes l linked t) (hready : Ready t.store c)
    (hok : ensureLinked c t = .ok () u) : Comes l (fun d => linked d ∨ d = c) u := by
  have hreach := h.reaches
  have hbuild := (hready.buildTables_of_ok hok).symm.trans hok
  obtain ⟨hi, w⟩ := (buildTables_outcome hreach.wellFormed hreach.linkedUp hready).of_ok hbuild
  refine ⟨hreach.trans (hi.reaches w hreach.linkedUp hready ?_), fun d => ?_⟩
  · exact hreach.holds.installs h.onPath.transitive hready hi w
  · by_cases hdc : d = c
    · subst hdc
      exact iff_of_true hi.linked (Or.inr rfl)
    · rw [Linked, hi.others d hdc, or_iff_left hdc]
      exact h.linked_iff d

variable (hbase : Branch l.registry.root l.store l.store) (hmirandas : l.store.MirandasExist)
include hbase hmirandas

/-- A class whose tables were built once can be built. -/
theorem Comes.buildable (h : Comes l linked t) (hready : Ready t.store c)
    (hok : ensureLinked c t = .ok () u) : Buildable l c := by
  intro linked' t' h' hready'
  have hconfig : t'.config = t.config := by
    rw [h'.reaches.continues.config, h.reaches.continues.config]
  have hconflict : t'.conflict? = t.conflict? := by
    rw [h'.reaches.continues.conflict?_eq, h.reaches.continues.conflict?_eq]
  have hc : l.store.HasClass c := (h.reaches.holds.branch hbase).hasClass_iff.mp hready.hasClass
  have hdefined : t'.store.definedFrom c = t.store.definedFrom c := by
    rw [h'.reaches.grows.extends.definedFrom hc, h.reaches.grows.extends.definedFrom hc]
  rw [hready.ensureLinked_eq] at hok
  rw [hready'.ensureLinked_eq, hdefined, hconfig]
  split at hok
  · rename_i hdepth
    rw [if_pos hdepth]
    obtain ⟨u', hu', -⟩ := buildTables_answers hbase hmirandas h.onPath h'.onPath hconfig hconflict
      hready hready' () u hok
    exact ⟨u', hu'⟩
  · cases hok

/-! ## Levels of classes that can be built -/

/-- A level that is linked consists of classes that can be built. -/
theorem Comes.linkLevel (h : Comes l linked t) (hlevel : Unblocked l.store linked level)
    (hok : linkLevel level t = .ok none u) :
    Comes l (fun d => linked d ∨ d ∈ level) u ∧ ∀ c ∈ level, Buildable l c := by
  induction level generalizing t linked with
  | nil =>
    cases hok
    exact ⟨h.congr fun d => (or_iff_left List.not_mem_nil).symm, nofun⟩
  | cons c level ih =>
    obtain ⟨v, hfirst, hrest⟩ := linkLevel_cons_eq_ok_iff.mp hok
    have hready := h.ready hlevel List.mem_cons_self
    obtain ⟨hend, hall⟩ := ih (h.step hready hfirst) hlevel.tail hrest
    refine ⟨hend.congr fun d => ?_,
      List.forall_mem_cons.mpr ⟨h.buildable hbase hmirandas hready hfirst, hall⟩⟩
    rw [List.mem_cons, or_assoc]

omit hbase hmirandas in
/-- A level of classes that can be built is linked. -/
theorem Comes.exists_linkLevel (h : Comes l linked t) (hlevel : Unblocked l.store linked level)
    (hall : ∀ c ∈ level, Buildable l c) :
    ∃ u, Linker.linkLevel level t = .ok none u := by
  induction level generalizing t linked with
  | nil => exact ⟨t, rfl⟩
  | cons c level ih =>
    obtain ⟨hbuildable, hall⟩ := List.forall_mem_cons.mp hall
    have hready := h.ready hlevel List.mem_cons_self
    obtain ⟨v, hfirst⟩ := hbuildable linked t h hready
    obtain ⟨u, hrest⟩ := ih (h.step hready hfirst) hlevel.tail hall
    exact ⟨u, linkLevel_cons_eq_ok_iff.mpr ⟨v, hfirst, hrest⟩⟩

/-- **Levels that are linked** consist of classes that can be built. -/
theorem Comes.linkLevels (h : Comes l linked t) (hlayers : Layered l.store linked levels)
    (hok : linkLevels levels t = .ok n u) :
    Comes l (fun d => linked d ∨ d ∈ levels.flatten) u ∧ n = levels.flatten.length ∧
      ∀ c ∈ levels.flatten, Buildable l c := by
  induction hlayers generalizing t n with
  | nil =>
    cases hok
    exact ⟨h.congr fun d => (or_iff_left List.not_mem_nil).symm, rfl, nofun⟩
  | cons hlevel _ ih =>
    obtain ⟨v, k, hfirst, hrest, rfl⟩ := linkLevels_cons_eq_ok_iff.mp hok
    obtain ⟨hmid, hbuildable⟩ := h.linkLevel hbase hmirandas hlevel hfirst
    obtain ⟨hend, rfl, hall⟩ := ih hmid hrest
    rw [List.flatten_cons, List.forall_mem_append]
    refine ⟨hend.congr fun d => ?_, List.length_append.symm, hbuildable, hall⟩
    rw [List.mem_append, or_assoc]

/-- **Levels of classes that can be built** are linked. -/
theorem Comes.exists_linkLevels (h : Comes l linked t) (hlayers : Layered l.store linked levels)
    (hall : ∀ c ∈ levels.flatten, Buildable l c) :
    ∃ n u, Linker.linkLevels levels t = .ok n u := by
  induction hlayers generalizing t with
  | nil => exact ⟨0, t, rfl⟩
  | cons hlevel _ ih =>
    rw [List.flatten_cons, List.forall_mem_append] at hall
    obtain ⟨v, hfirst⟩ := h.exists_linkLevel hlevel hall.1
    obtain ⟨k, u, hrest⟩ := ih (h.linkLevel hbase hmirandas hlevel hfirst).1 hall.2
    exact ⟨_, u, linkLevels_cons_eq_ok_iff.mpr ⟨v, k, hfirst, hrest, rfl⟩⟩

/-- The class `c` is built by its own task, when the levels in `lower` and the classes in `left` of
its level have been linked: its supertypes were linked by the levels, it is not linked yet, and
linking it is building its tables. -/
def BuiltAlone (l : Linker) (lower : List (List ClassId)) (left : List ClassId) (c : ClassId) :
    Prop :=
  ∃ n u v w, Linker.linkLevels lower l = .ok n u ∧ Linker.linkLevel left u = .ok none v ∧
    (∀ d, l.store.isSubtype c d = true → d ≠ c → u.store.Linked d) ∧ ¬ v.store.Linked c ∧
      ensureLinked c v = buildTables c v ∧ buildTables c v = .ok () w

omit hbase hmirandas in
/-- All other supertypes of a class that is ready are linked. -/
theorem Ready.linked_of_isSubtype {s : Store} (h : Ready s c) (w : s.WellFormed root)
    (hup : s.LinkedUp) (hsub : s.isSubtype c d = true) (hne : d ≠ c) : s.Linked d := by
  rcases ((isSubtype_iff_reflTransGen w h.hasClass).mp hsub).cases_head with rfl | ⟨p, hp, hwalk⟩
  · exact absurd rfl hne
  · rcases Relation.reflTransGen_iff_eq_or_transGen.mp hwalk with rfl | hwalk
    · exact h.definedFrom _ hp
    · exact (h.definedFrom p hp).of_transGen hup hwalk

/-- **Each class is built by its own task.** -/
theorem Comes.builtAlone (h : Comes l linked l) (hlayers : Layered l.store linked levels)
    (hall : ∀ c ∈ levels.flatten, Buildable l c) {lower upper : List (List ClassId)}
    {left right : List ClassId} (hsplit : levels = lower ++ (left ++ c :: right) :: upper) :
    BuiltAlone l lower left c := by
  subst hsplit
  rw [List.flatten_append, List.flatten_cons, List.forall_mem_append, List.forall_mem_append,
    List.forall_mem_append, List.forall_mem_cons] at hall
  obtain ⟨hlowerAll, ⟨hleftAll, hbuildable, -⟩, -⟩ := hall
  obtain ⟨hlower, hupper⟩ := hlayers.split
  obtain _ | ⟨hlevel, -⟩ := hupper
  obtain ⟨hleft, hright⟩ := hlevel.append
  obtain ⟨n, u, hu⟩ := h.exists_linkLevels hbase hmirandas hlower hlowerAll
  have hcomes := (h.linkLevels hbase hmirandas hlower hu).1
  obtain ⟨v, hv⟩ := hcomes.exists_linkLevel hleft hleftAll
  have hready := (hcomes.linkLevel hbase hmirandas hleft hv).1.ready hright List.mem_cons_self
  obtain ⟨w, hw⟩ := hbuildable _ v (hcomes.linkLevel hbase hmirandas hleft hv).1 hready
  have hbuild := hready.buildTables_of_ok hw
  have hready_u : Ready u.store c := hcomes.ready hlevel (by simp)
  have hc : l.store.HasClass c := hlevel.hasClass c (by simp)
  refine ⟨n, u, v, w, hu, hv, fun d hd hne => ?_, hready.unlinked, hbuild, hbuild ▸ hw⟩
  have hreach := hcomes.reaches
  refine hready_u.linked_of_isSubtype hreach.wellFormed hreach.linkedUp ?_ hne
  rw [isSubtype_iff_above hreach.wellFormed hready_u.hasClass, hreach.grows.extends.above_iff hc]
  exact (isSubtype_iff_above hbase.wellFormed hc).mp hd

end Buildable

/-! ## The whole batch -/

/-- **A batch is linked topologically and completely.**  Let `linkAll` answer `n` in a state that a
run has led to.  Then all classes of the batch are linked, and `n` is the number of different
classes in it that were not linked before.  The levels that were linked have each of these once,
with its unlinked supertypes on lower levels, as far as they are in the batch.

If all of them are, the classes of a level may be tried in any order.  Each is built by its own
task, with all of its supertypes linked on lower levels or before, and in the end the same classes
are linked and have the same tables.

The bound `hrows` is the one that is asserted whenever a class takes a token: its row has 24 bits.
Beyond it two classes could share a token, and scheduling tells classes apart by their tokens. -/
theorem linkAll_topological {allowed : Command → Prop} (h : Reachable allowed l)
    (hrows : l.registry.nextClassRow ≤ Token.rows) (hbatch : ∀ c ∈ batch, l.store.HasClass c)
    (hok : linkAll batch l = .ok n t) :
    (∀ c ∈ batch, t.store.Linked c) ∧ n = (batch.filter fun c => !l.isLinked c).dedup.length ∧
    ∃ levels, l.plan batch = .ok levels ∧ linkLevels levels l = .ok n t ∧
      Schedules l.store batch levels ∧
      ((∀ c ∈ batch, ∀ d, l.store.isSubtype c d = true → ¬ l.store.Linked d → d ∈ batch) →
        ∀ levels', List.Forall₂ List.Perm levels levels' →
          (∀ lower left c right upper, levels' = lower ++ (left ++ c :: right) :: upper →
            BuiltAlone l lower left c) ∧
          ∃ t', linkLevels levels' l = .ok n t' ∧ ∀ c,
            (t'.store.Linked c ↔ t.store.Linked c) ∧
            (t.store.Linked c → SameTables l.store t.store t'.store c)) := by
  have hs := h.sound
  have w := hs.wellFormed
  have hup := hs.linkedUp
  have hmirandas := h.mirandasExist
  have hbase : Branch l.registry.root l.store l.store :=
    ⟨.refl l.store, rfl, w, hup, h.maintained.coherent⟩
  obtain ⟨levels, hplan, hlevels, hschedules, hlinked, hn⟩ :=
    linkAll_links w hup (h.tokensDiffer hrows) hbatch hok
  refine ⟨hlinked, hn.trans hschedules.length_eq, levels, hplan, hlevels, hschedules,
    fun hclosed levels' hperm => ?_⟩
  have hstart : Comes l l.store.Linked l := ⟨.refl w hup .start, fun _ => Iff.rfl⟩
  have hlayers := hschedules.layered w hbatch hclosed
  obtain ⟨hend, -, hall⟩ := hstart.linkLevels hbase hmirandas hlayers hlevels
  have hflatten := List.Perm.flatten_congr hperm
  have hlayers' := hlayers.perm hperm
  have hall' : ∀ c ∈ levels'.flatten, Buildable l c := fun c hc =>
    hall c (hflatten.mem_iff.mpr hc)
  obtain ⟨n', t', hok'⟩ := hstart.exists_linkLevels hbase hmirandas hlayers' hall'
  obtain ⟨hend', rfl, -⟩ := hstart.linkLevels hbase hmirandas hlayers' hok'
  refine ⟨fun lower left c right upper hsplit =>
    hstart.builtAlone hbase hmirandas hlayers' hall' hsplit, t', ?_, fun c => ?_⟩
  · rw [hok', hn, hflatten.length_eq]
  · have hiff : t'.store.Linked c ↔ t.store.Linked c := by
      rw [hend'.linked_iff, hend.linked_iff, hflatten.mem_iff]
    exact ⟨hiff, fun hc => hend.reaches.holds.sameTables hbase hmirandas hend'.reaches.holds hc
      (hiff.mpr hc)⟩

/-- A root class that is linked, and two classes below an abstract one that meets an interface. -/
def layeredRun : List Command :=
  let method (name : String) (word : UInt32) : Declaration :=
    { selector := ⟨name, "()V"⟩, word, code := [1] }
  [.define { name := "Object", methods := [method "hash" 0x1] },
   .define { name := "p/I", flags := .makeInterface {}, superclass := some ⟨0⟩,
             methods := [method "f" 0x401, method "g" 0x1] },
   .define { name := "p/A", superclass := some ⟨0⟩, interfaces := [⟨1⟩] },
   .define { name := "p/B", superclass := some ⟨2⟩, methods := [method "f" 0x1, method "h" 0x0] },
   .define { name := "q/C", superclass := some ⟨2⟩, methods := [method "hash" 0x1] },
   .link ⟨0⟩]

/-- The batch has a class twice, one that is linked, and supertypes last.  It is linked in three
levels, and the classes of the last one may be tried the other way round. -/
theorem layeredRun_topological :
    let l := finish { config := .minimal } layeredRun
    let batch : List ClassId := [⟨3⟩, ⟨4⟩, ⟨3⟩, ⟨0⟩, ⟨2⟩, ⟨1⟩]
    l.plan batch = .ok [[⟨1⟩], [⟨2⟩], [⟨3⟩, ⟨4⟩]] ∧
    ∃ t, linkAll batch l = .ok 4 t ∧ BuiltAlone l [[⟨1⟩], [⟨2⟩]] [⟨4⟩] ⟨3⟩ ∧
      ∃ t', linkLevels [[⟨1⟩], [⟨2⟩], [⟨4⟩, ⟨3⟩]] l = .ok 4 t' ∧
        SameTables l.store t.store t'.store ⟨3⟩ := by
  intro l batch
  have hstart : Reachable (fun _ => True) { config := .minimal } := .start ⟨rfl, rfl⟩ trivial
  have hl : Reachable (fun _ => True) l := hstart.finish (by decide +kernel)
  have hbatch : ∀ c ∈ batch, l.store.HasClass c := by decide +kernel
  have hplan : l.plan batch = .ok [[⟨1⟩], [⟨2⟩], [⟨3⟩, ⟨4⟩]] := by decide +kernel
  obtain ⟨n, t, ht, rfl, hlinked⟩ :
      ∃ n t, linkAll batch l = .ok n t ∧ n = 4 ∧ t.store.Linked ⟨3⟩ :=
    Outcome.exists_ok (by decide +kernel)
  obtain ⟨-, -, levels, hplanned, -, -, hperm⟩ :=
    linkAll_topological hl (by decide +kernel) hbatch ht
  cases hplan.symm.trans hplanned
  have hclosed : ∀ c ∈ batch, ∀ d ∈ l.store.lineage c ++ (l.store.getClass c).allInterfaces,
      ¬ l.store.Linked d → d ∈ batch := by decide +kernel
  obtain ⟨halone, t', ht', hsame⟩ := hperm
    (fun c hc d hd => hclosed c hc d (List.mem_append.mpr
      ((isSubtype_iff_above hl.sound.wellFormed (hbatch c hc)).mp hd)))
    [[⟨1⟩], [⟨2⟩], [⟨4⟩, ⟨3⟩]]
    (.cons (.refl _) (.cons (.refl _) (.cons (.swap _ _ _) .nil)))
  exact ⟨hplan, t, ht, halone [[⟨1⟩], [⟨2⟩]] [⟨4⟩] ⟨3⟩ [] [] rfl, t', ht', (hsame ⟨3⟩).2 hlinked⟩

end Linker
end ClassLinking
