import ClassLinking.Proofs.Refilling
import ClassLinking.Proofs.Steps
import ClassLinking.Proofs.Verification

/-!
# Linking is canonical

The tables of a class do not depend on how linking came to them.  Let two runs start from one
linker and link classes in any order, one by one or in batches, with failures in between and under
settings that may change, apart from whether overriding is transitive.  Then a class that is linked
at the end of both has the `SameTables` there (`linking_canonical`).

A run only ever installs the tables of classes that are ready, `LinkPath`, so a linked class was
linked from the start or has its origin on the path.  Two origins of one class are again at the ends
of two paths, and all classes above the class are linked there.  So the induction is along the order
of definition, over all pairs of paths at once: by then the tables above the class are the same at
the two origins, and `LaysOut.sameTables` says that its own are.
-/

namespace ClassLinking
/-- The placeholders that tables list exist. -/
def Store.MirandasExist (s : Store) : Prop :=
  ∀ c ts, (s.getClass c).tables = some ts → ∀ m ∈ ts.mirandas, s.HasMethod m

namespace Linker

open Store

variable {root : Option ClassId} {base s t : Store} {l l' : Linker} {c : ClassId}
  {size size' : VTableSize} {layout layout' : VTableLayout} {itable itable' : ITable} {f f' : Fill}
  {m a b : MethodId}

/-! ## One class -/

section LaysOut

variable (P : FillEnv.Parallel root base c l.fillEnv l'.fillEnv)
  (hinterfaces : ∀ i ∈ (base.getClass c).allInterfaces, SameTables base l.store l'.store i)
  (hs : l.store.Grows s) (ht : l'.store.Grows t)
  (hlaid : l.LaysOut s c size layout itable f) (hlaid' : l'.LaysOut t c size' layout' itable' f')
include P hlaid hlaid'

/-- The tables of `c` are filled alike. -/
theorem LaysOut.alike : layout'.table.length = layout.table.length ∧
    layout'.defaultSlots = layout.defaultSlots ∧
      f.Alike (FillEnv.SameOccupant base c l.fillEnv l'.fillEnv) f' := by
  obtain ⟨hinherited, hlength⟩ := P.size_eq P.transitive hlaid.sized hlaid'.sized
  refine ⟨?_, P.built hinherited hlaid.built hlaid'.built⟩
  rw [hlaid'.built.length_eq, hlaid.built.length_eq, hlength]

include hs ht in
/-- Placeholders at the same place differ in nothing but their identities. -/
theorem LaysOut.twins {j : Nat} (ha : layout.mirandas[j]? = some a)
    (hb : layout'.mirandas[j]? = some b) : Twins base s t a b := by
  have B : Branches root base l.store l'.store := P.branches
  obtain ⟨x, hx, hpa⟩ := hlaid.built.placeholder_at ha
  obtain ⟨y, hy, hpb⟩ := hlaid'.built.placeholder_at hb
  obtain rfl : y = x := by
    rw [P.pendingMirandas_eq, hx] at hy
    exact (Option.some.inj hy).symm
  obtain ⟨hua, hda⟩ := hlaid.mirandas j a ha
  obtain ⟨hub, hdb⟩ := hlaid'.mirandas j b hb
  -- Both stand for one interface method, which was there from the start.
  have hsource : base.HasMethod y := by
    have hmem := List.mem_of_getElem? hx
    rw [show l.fillEnv.store.pendingMirandas c = base.pendingMirandas c from
      B.left.grows.pendingMirandas B.start P.hasClass] at hmem
    obtain ⟨i, hi, hyi⟩ := hasMethod_of_mem_pendingMirandas B.start P.hasClass hmem
    exact ((B.start.fits i (B.start.hasClass_of_mem_allInterfaces P.hasClass hi)).methods y hyi).1
  have hes := (B.left.grows.trans hs).extends
  have het := (B.right.grows.trans ht).extends
  exact
    { isNew := ⟨fun h => hpa.isNew (B.left.grows.hasMethod h),
        fun h => hpb.isNew (B.right.grows.hasMethod h)⟩
      hasMethod := ⟨hpa.hasMethod, hpb.hasMethod⟩
      undeclared := ⟨hua, hub⟩
      access := ⟨hpa.access, hpb.access⟩
      modifiers := ⟨hpa.modifiers, hpb.modifiers⟩
      selector := by
        rw [hpa.selector, hpb.selector, hes.selector hsource, het.selector hsource]
      holder := by rw [hpa.holder, hpb.holder, hes.holder hsource, het.holder hsource]
      dispatch := by rw [hda, hdb, (hlaid.alike P hlaid').2.2.used] }

include hs ht in
theorem LaysOut.sameMirandas (j : Nat) :
    Option.Rel (SameMethod base s t) layout.mirandas[j]? layout'.mirandas[j]? := by
  have hlength : layout'.mirandas.length = layout.mirandas.length := by
    rw [← hlaid'.built.placeholders.length_eq, ← hlaid.built.placeholders.length_eq]
    exact congrArg List.length P.pendingMirandas_eq
  cases ha : layout.mirandas[j]? with
  | none =>
    have hle := List.getElem?_eq_none_iff.mp ha
    rw [List.getElem?_eq_none (hlength ▸ hle)]
    exact .none
  | some a =>
    have hlt := (List.getElem?_eq_some_iff.mp ha).1
    have hb := List.getElem?_eq_getElem (hlength ▸ hlt)
    rw [hb]
    exact .some (.inr (hlaid.twins P hs ht hlaid' ha hb))

include hs ht in
/-- The virtual tables have the same methods in their slots. -/
theorem LaysOut.sameSlots (i : Nat) :
    Option.Rel (SameMethod base s t) (layout.table.methodAt i) (layout'.table.methodAt i) := by
  have halike := (hlaid.alike P hlaid').2.2
  rw [hlaid.built.methodAt, hlaid'.built.methodAt, halike.used, P.pendingMirandas_eq]
  split
  · exact hlaid.sameMirandas P hs ht hlaid' _
  · have hocc := halike.occupant i
    generalize f.occupant i = x, f'.occupant i = y at hocc
    cases hocc with
    | none => exact .none
    | some hab => exact .some (hab.same.grows hs ht)

/-- The declared methods get the same dispatch indices. -/
theorem LaysOut.dispatch_eq (hm : m ∈ (base.getClass c).methods) :
    (t.getMethod m).dispatch = (s.getMethod m).dispatch := by
  have B : Branches root base l.store l'.store := P.branches
  have w := B.start
  have hc := P.hasClass
  have halike := (hlaid.alike P hlaid').2.2
  have hmethods := B.left.grows.methods hc
  have hmethods' := B.right.grows.methods hc
  have hint := B.left.grows.extends.isInterface hc
  have hint' := B.right.grows.extends.isInterface hc
  have hgiven : ∀ u u' : Store, Indexes f (base.getClass c).methods u →
      Indexes f' (base.getClass c).methods u' → ∀ x ∈ (base.getClass c).methods,
        (u'.getMethod x).dispatch = (u.getMethod x).dispatch := fun u u' hu hu' x hx => by
    have hx' := hu' x hx
    rw [halike.lastIndex?, hu x hx] at hx'
    exact (Option.some.inj hx').symm
  cases hinterface : (base.getClass c).isInterface with
  | false =>
    exact hgiven s t (hmethods ▸ hlaid.indexes (hint.trans hinterface))
      (hmethods' ▸ hlaid'.indexes (hint'.trans hinterface)) m hm
  | true =>
    obtain ⟨u, hu, hindexes, hnumbered⟩ := hlaid.renumbered (hint.trans hinterface)
    obtain ⟨u', hu', hindexes', hnumbered'⟩ := hlaid'.renumbered (hint'.trans hinterface)
    rw [hmethods] at hindexes hnumbered
    rw [hmethods'] at hindexes' hnumbered'
    have hum : (u.getClass c).methods = (base.getClass c).methods := by rw [hu.getClass, hmethods]
    have hum' : (u'.getClass c).methods = (base.getClass c).methods := by
      rw [hu'.getClass, hmethods']
    rw [hnumbered m hm, hnumbered' m hm]
    refine numberedDispatch_congr (hum'.trans hum.symm) (fun x hx => ?_)
      (fun x hx => hgiven u u' hindexes hindexes' x (hum ▸ hx)) (hum.symm ▸ hm)
    have hxhas := ((w.fits c hc).methods x (hum ▸ hx)).1
    rw [hu.extends.isBoundStatically (B.left.grows.hasMethod hxhas),
      hu'.extends.isBoundStatically (B.right.grows.hasMethod hxhas)]
    exact B.isBoundStatically_eq hxhas

include hinterfaces in
/-- The interface tables are the same. -/
theorem LaysOut.itable_eq : itable' = itable := by
  have B : Branches root base l.store l'.store := P.branches
  have w := B.start
  have hc := P.hasClass
  have hint := B.left.grows.extends.isInterface hc
  have hint' := B.right.grows.extends.isInterface hc
  cases hinterface : (base.getClass c).isInterface with
  | true =>
    rw [(hlaid.numbered (hint.trans hinterface)).1, (hlaid'.numbered (hint'.trans hinterface)).1]
  | false =>
    have hall := B.left.grows.extends.allInterfaces hc
    rw [hlaid.bound (hint.trans hinterface), hlaid'.bound (hint'.trans hinterface)]
    refine interfaceTable_congr ((B.right.grows.extends.allInterfaces hc).trans hall.symm)
      (fun i hi => ?_) fun i hi m hm => ?_
    all_goals
      rw [hall] at hi
      have hic := w.hasClass_of_mem_allInterfaces hc hi
    · exact ⟨(B.right.grows.methods hic).trans (B.left.grows.methods hic).symm,
        (B.right.grows.extends.allInterfaces hic).trans
          (B.left.grows.extends.allInterfaces hic).symm⟩
    · rw [B.left.grows.methods hic] at hm
      have hmhas := ((w.fits i hic).methods m hm).1
      rw [interfaceIndex?, interfaceIndex?, (hinterfaces i hi).dispatch m hm,
        B.left.grows.entryFor w hc hmhas, B.right.grows.entryFor w hc hmhas]
      exact ⟨rfl, rfl⟩

include hinterfaces hs ht in
/-- **A class gets the same tables in two branches**, if those of all classes above it are. -/
theorem LaysOut.sameTables : SameTables base s t c where
  tables := by
    obtain ⟨hlength, hdefaultSlots, -⟩ := hlaid.alike P hlaid'
    exact ⟨_, _, hlaid.tables, hlaid'.tables,
      { length := hlength
        methodAt := hlaid.sameSlots P hs ht hlaid'
        defaultSlots := hdefaultSlots
        mirandas := forall₂_of_getElem? (hlaid.sameMirandas P hs ht hlaid')
        itable := hlaid.itable_eq P hinterfaces hlaid' }⟩
  dispatch := fun m hm => hlaid.dispatch_eq P hlaid' hm

end LaysOut

/-! ## Paths -/

/-- What linking goes through from `base` on, when overriding is transitive or not: the tables of
ready classes are installed, or are given up before that. -/
inductive LinkPath (root : Option ClassId) (transitive : Bool) (base : Store) : Store → Prop where
  | start : LinkPath root transitive base base
  | prepares {s t : Store} {c : ClassId} : LinkPath root transitive base s → Ready s c →
    s.Prepares c t → LinkPath root transitive base t
  | installs {l t : Linker} {c : ClassId} : LinkPath root transitive base l.store →
    l.config.transitiveOverrides = transitive → Ready l.store c → l.Installs t c →
    t.store.WellFormed root → LinkPath root transitive base t.store

variable {transitive : Bool}

/-- Every path is a branch. -/
theorem LinkPath.branch (hbase : Branch root base base) (h : LinkPath root transitive base s) :
    Branch root base s := by
  induction h with
  | start => exact hbase
  | prepares _ hready hp ih =>
    exact
      { grows := ih.grows.trans (hp.grows ih.wellFormed (tables_of_not_linked hready.unlinked))
        size_eq := by rw [hp.classes_eq, ih.size_eq]
        wellFormed := hp.wellFormed ih.wellFormed
        linkedUp := ih.linkedUp.prepares hp
        coherent := ih.coherent.prepares hp }
  | installs _ _ hready hi w ih =>
    exact
      { grows := ih.grows.trans hi.grows
        size_eq := hi.size_eq.trans ih.size_eq
        wellFormed := w
        linkedUp := hi.linkedUp ih.linkedUp hready
        coherent := ih.coherent.installs ih.wellFormed ih.linkedUp hready hi }

/-- The tables that `c` has in `s` were built in `l`, which is on a path. -/
structure BuiltOnPath (root : Option ClassId) (transitive : Bool) (base : Store) (l : Linker)
    (s : Store) (c : ClassId) : Prop where
  path : LinkPath root transitive base l.store
  transitive : l.config.transitiveOverrides = transitive
  ready : Ready l.store c
  grows : l.store.Grows s
  laysOut : ∃ size layout itable f, l.LaysOut s c size layout itable f

theorem BuiltOnPath.of_grows (hbase : Branch root base base)
    (h : BuiltOnPath root transitive base l s c) (hg : s.Grows t) :
    BuiltOnPath root transitive base l t c := by
  obtain ⟨size, layout, itable, f, hlaid⟩ := h.laysOut
  exact ⟨h.path, h.transitive, h.ready, h.grows.trans hg, size, layout, itable, f,
    hlaid.of_grows (h.path.branch hbase).wellFormed h.ready.hasClass h.grows hg⟩

/-- **A class that is linked at the end of a path** was linked from the start, or its tables were
built on the way. -/
theorem LinkPath.origin (hbase : Branch root base base) (h : LinkPath root transitive base s)
    (hc : s.Linked c) : base.Linked c ∨ ∃ l, BuiltOnPath root transitive base l s c := by
  induction h with
  | start => exact .inl hc
  | prepares hpath hready hp ih =>
    have hg := hp.grows (hpath.branch hbase).wellFormed (tables_of_not_linked hready.unlinked)
    rw [hp.linked_iff] at hc
    exact (ih hc).imp_right (.imp fun _ h => h.of_grows hbase hg)
  | @installs l t d hpath htransitive hready hi w ih =>
    by_cases hcd : c = d
    · subst hcd
      exact .inr ⟨l, hpath, htransitive, hready, hi.grows, hi.tables⟩
    · rw [Linked, hi.others c hcd] at hc
      exact (ih hc).imp_right (.imp fun _ h => h.of_grows hbase hi.grows)

/-- A class that was linked from the start has the tables that it had there. -/
theorem sameTables_of_linked (hbase : Branch root base base) (hmirandas : base.MirandasExist)
    (hs : base.Grows s) (ht : base.Grows t) (hc : base.Linked c) : SameTables base s t c := by
  obtain ⟨ts, hts⟩ := linked_iff.mp hc
  refine ⟨⟨ts, ts, hs.tables_eq c ts hts, ht.tables_eq c ts hts, rfl, fun i => ?_, rfl, ?_, rfl⟩,
    fun m hm => ?_⟩
  · cases hm : ts.vtable.methodAt i with
    | none => exact .none
    | some m =>
      exact .some (.inl ⟨hbase.coherent.housed c i m ((slot_of_tables hts).trans hm), rfl⟩)
  · exact List.forall₂_same.mpr fun m hm => .inl ⟨hmirandas c ts hts m hm, rfl⟩
  · rw [hc.dispatch_grows hs hbase.wellFormed hm, hc.dispatch_grows ht hbase.wellFormed hm]

/-- Classes above a class that is ready on a path are linked there. -/
theorem LinkPath.linked_above (hbase : Branch root base base)
    (h : LinkPath root transitive base s) (hready : Ready s c) :
    base.HasClass c ∧ (∀ a ∈ (base.getClass c).ancestors, s.Linked a) ∧
      ∀ i ∈ (base.getClass c).allInterfaces, s.Linked i := by
  have B := h.branch hbase
  have hc : base.HasClass c := B.hasClass_iff.mp hready.hasClass
  refine ⟨hc, fun a ha => ?_, fun i hi => ?_⟩
  · refine B.linkedUp.ancestors B.wellFormed hready.hasClass hready.definedFrom ?_
    rw [B.grows.class_eq c hc]
    exact ha
  · refine B.linkedUp.allInterfaces B.wellFormed c hready.hasClass hready.definedFrom i ?_
    rw [B.grows.class_eq c hc]
    exact hi

/-- **Linking is canonical** along any two paths.  The induction is on the place of the class in the
order of definition; for classes above it it speaks of the paths to the two origins. -/
theorem LinkPath.sameTables (hbase : Branch root base base) (hmirandas : base.MirandasExist)
    (hs : LinkPath root transitive base s) (ht : LinkPath root transitive base t)
    (hcs : s.Linked c) (hct : t.Linked c) : SameTables base s t c := by
  induction hn : c.index using Nat.strong_induction_on generalizing c s t with
  | _ n ih =>
  have w := hbase.wellFormed
  have hsg := (hs.branch hbase).grows
  have htg := (ht.branch hbase).grows
  obtain hlinked | ⟨l, h⟩ := hs.origin hbase hcs
  · exact sameTables_of_linked hbase hmirandas hsg htg hlinked
  obtain hlinked | ⟨l', h'⟩ := ht.origin hbase hct
  · exact sameTables_of_linked hbase hmirandas hsg htg hlinked
  obtain ⟨hc, hancestors, hinterfaces⟩ := h.path.linked_above hbase h.ready
  obtain ⟨-, hancestors', hinterfaces'⟩ := h'.path.linked_above hbase h'.ready
  obtain ⟨size, layout, itable, f, hlaid⟩ := h.laysOut
  obtain ⟨size', layout', itable', f', hlaid'⟩ := h'.laysOut
  have P : FillEnv.Parallel root base c l.fillEnv l'.fillEnv :=
    { branches := ⟨w, h.path.branch hbase, h'.path.branch hbase⟩
      transitive := h'.transitive.trans h.transitive.symm
      hasClass := hc
      above := fun a ha => ih a.index (hn ▸ w.index_lt_of_mem_ancestors hc ha) h.path h'.path
        (hancestors a ha) (hancestors' a ha) rfl }
  refine hlaid.sameTables P (fun i hi => ?_) h.grows h'.grows hlaid'
  exact ih i.index (hn ▸ (w.allInterfaces_spec c hc i hi).1) h.path h'.path (hinterfaces i hi)
    (hinterfaces' i hi) rfl

/-! ## Placeholders exist -/

theorem IsEmpty.mirandasExist (h : l.IsEmpty) : l.store.MirandasExist := fun c ts hts =>
  absurd (linked_iff.mpr ⟨ts, hts⟩) (h.not_linked c)

/-- Linking creates the placeholders that it lists. -/
theorem linkRule_mirandasExist (root : Option ClassId) (config : Config) :
    LinkRule root config MirandasExist (fun _ => True) where
  prepares := fun s t d _ h _ hp c ts hts m hm => by
    rw [hp.getClass] at hts
    exact hp.extends.hasMethod (h c ts hts m hm)
  installs := fun l t d _ _ _ h _ hi _ c ts hts m hm => by
    by_cases hcd : c = d
    · subst hcd
      obtain ⟨size, layout, itable, f, hlaid⟩ := hi.tables
      rw [hlaid.tables] at hts
      obtain rfl := Option.some.inj hts
      obtain ⟨j, hj⟩ := List.getElem?_of_mem hm
      obtain ⟨x, -, hx⟩ := hlaid.built.placeholder_at hj
      exact hx.hasMethod
    · rw [hi.others c hcd] at hts
      exact hi.grows.hasMethod (h c ts hts m hm)
  fails := fun _ _ _ _ _ _ _ _ _ => trivial
  tooDeep := fun _ => trivial

theorem Sound.mirandasExist_after (hl : l.Sound) (h : l.store.MirandasExist) {x : Command}
    (hx : x.Admissible l.store) : (x.after l).store.MirandasExist := by
  cases hl.steps hx (linkRule_mirandasExist l.registry.root l.config) h with
  | defines hd _ =>
    intro e ts hts m hm
    obtain ⟨-, -, hsame⟩ := hd.of_linked (linked_iff.mpr ⟨ts, hts⟩)
    exact hd.grows.hasMethod (h e ts (hsame ▸ hts) m hm)
  | links _ hr => exact hr.holds
  | redefines _ _ hr =>
    intro e ts hts m hm
    rw [hr.tables_exchange e, Option.map_eq_some_iff] at hts
    obtain ⟨ts₀, hts₀, rfl⟩ := hts
    exact hr.extends_.hasMethod (h e ts₀ hts₀ m hm)
  | keeps _ hstore _ => exact hstore ▸ h

theorem Reachable.mirandasExist {allowed : Command → Prop} (h : Reachable allowed l) :
    l.store.MirandasExist := by
  induction h with
  | start hl _ => exact hl.mirandasExist
  | step hl _ hx ih => exact hl.sound.mirandasExist_after ih hx

/-! ## Runs -/

/-- The command links, or it brings settings that say the same about transitive overriding. -/
def Links (transitive : Bool) : Command → Prop
  | .link _ | .linkAll _ => True
  | .configure config _ _ => config.transitiveOverrides = transitive
  | .define _ | .redefine .. => False

instance (transitive : Bool) : DecidablePred (Links transitive)
  | .link _ | .linkAll _ => isTrue trivial
  | .configure config _ _ => inferInstanceAs (Decidable (config.transitiveOverrides = transitive))
  | .define _ | .redefine .. => isFalse id

/-- Linking goes on along the path. -/
theorem linkRule_linkPath {config : Config}
    (htransitive : config.transitiveOverrides = transitive) :
    LinkRule root config (LinkPath root transitive base) (fun _ => True) where
  prepares := fun _ _ _ _ h hready hp => h.prepares hready hp
  installs := fun _ _ _ hconfig _ _ h hready hi w =>
    h.installs (hconfig ▸ htransitive) hready hi w
  fails := fun _ _ _ _ _ _ _ _ _ => trivial
  tooDeep := fun _ => trivial

/-- A path has led to the store of `l`. -/
structure OnPath (root : Option ClassId) (transitive : Bool) (base : Store) (l : Linker) :
    Prop where
  path : LinkPath root transitive base l.store
  transitive : l.config.transitiveOverrides = transitive

/-- **A command that links goes on along the path**, whether or not it fails. -/
theorem OnPath.after (hbase : Branch root base base) (h : OnPath root transitive base l)
    {x : Command} (hx : Links transitive x) (hadm : x.Admissible l.store) :
    OnPath root transitive base (x.after l) := by
  have B := h.path.branch hbase
  have rule : LinkRule root l.config (LinkPath root transitive base) (fun _ => True) :=
    linkRule_linkPath h.transitive
  have hreaches : ∀ {t : Linker}, Reaches root (LinkPath root transitive base) l t →
      OnPath root transitive base t := fun ht =>
    ⟨ht.holds, by rw [ht.continues.config, h.transitive]⟩
  cases x with
  | link c =>
    exact Outcome.final ((link_outcome rule rfl B.wellFormed B.linkedUp h.path hadm).imp
      (fun _ _ ht => hreaches ht.2) fun _ _ ht => hreaches ht.2)
  | linkAll batch =>
    exact Outcome.final ((linkAll_outcome rule rfl B.wellFormed B.linkedUp h.path hadm).imp
      (fun _ _ ht => hreaches ht) fun _ _ ht => hreaches ht.2)
  | configure config conflicts consultsConflicts => exact ⟨h.path, hx⟩
  | define d => exact hx.elim
  | redefine holder ds => exact hx.elim

theorem OnPath.finish (hbase : Branch root base base) (h : OnPath root transitive base l)
    {xs : List Command} (hxs : Admits (Links transitive) l xs) :
    OnPath root transitive base (l.finish xs) := by
  induction xs generalizing l with
  | nil => exact h
  | cons x xs ih => exact ih (h.after hbase hxs.1 hxs.2.1) hxs.2.2

/-- **Linking is canonical.**  Let a run of any commands lead to `l`, and let two runs go on from
there by linking, one class or one batch at a time, in whatever order and whether or not it fails,
under settings and conflicts that may change in anything but transitive overriding.  Then a class
that is linked at the end of both has the same tables there: virtual tables of one length with the
same methods in their slots, the same slots of defaults, the same list of placeholders and the same
interface table; and its methods have the same dispatch indices.  Only the identities of
placeholders may differ. -/
theorem linking_canonical {allowed : Command → Prop} (h : Reachable allowed l)
    {xs ys : List Command} (hxs : Admits (Links l.config.transitiveOverrides) l xs)
    (hys : Admits (Links l.config.transitiveOverrides) l ys)
    (hx : (l.finish xs).store.Linked c) (hy : (l.finish ys).store.Linked c) :
    SameTables l.store (l.finish xs).store (l.finish ys).store c := by
  have hs := h.sound
  have hbase : Branch l.registry.root l.store l.store :=
    ⟨.refl l.store, rfl, hs.wellFormed, hs.linkedUp, h.maintained.coherent⟩
  have hstart : OnPath l.registry.root l.config.transitiveOverrides l.store l := ⟨.start, rfl⟩
  exact (hstart.finish hbase hxs).path.sameTables hbase h.mirandasExist
    (hstart.finish hbase hys).path hx hy

/-- Two classes that implement one interface; one of them overrides methods across loaders. -/
def siblings : List Command :=
  let method (name descriptor : String) (word : UInt32) : Declaration :=
    { selector := ⟨name, descriptor⟩, word }
  [.define { name := "Object", methods := [method "f" "()V" 1, method "g" "(Lp/X;)V" 1] },
   .define { name := "p/I", flags := { isInterface := true },
             methods := [method "run" "()V" 0x401] },
   .define { name := "p/A", loader := ⟨1⟩, superclass := some ⟨0⟩, interfaces := [⟨1⟩],
             methods := [method "f" "()V" 1, method "g" "(Lp/X;)V" 1] },
   .define { name := "p/B", superclass := some ⟨0⟩, interfaces := [⟨1⟩] }]

/-- Both classes are tried, but only the second one is linked because of a conflict between the
loaders. -/
def failedBatch : List Command :=
  [.configure { Config.minimal with checkLoaderConstraints := true }
     (ConflictTable.empty.add "p/X" ⟨0⟩ ⟨1⟩) true,
   .linkAll [⟨3⟩, ⟨2⟩]]

/-- After the failed batch the first class is tried again, and the conflict is forgotten. -/
def linkedAgain : List Command :=
  failedBatch ++ [.configure .minimal .empty true, .link ⟨2⟩]

/-- The attempt that failed has given a method its dispatch index, and the class gets its
placeholder after the other class.  Its tables are those that it gets if it is linked at once. -/
theorem linkedAgain_canonical :
    let l := finish { config := .minimal } siblings
    (¬ (l.finish failedBatch).store.Linked ⟨2⟩ ∧
      ((l.finish failedBatch).store.getMethod ⟨3⟩).dispatch = .virtual 0) ∧
    ((l.finish linkedAgain).store.slot ⟨2⟩ 2 = some ⟨6⟩ ∧
      (l.finish [.link ⟨2⟩]).store.slot ⟨2⟩ 2 = some ⟨5⟩) ∧
    l.store.SameTables (l.finish linkedAgain).store (l.finish [.link ⟨2⟩]).store ⟨2⟩ := by
  intro l
  have hstart : Reachable (fun _ => True) { config := .minimal } := .start ⟨rfl, rfl⟩ trivial
  have hl : Reachable (fun _ => True) l := hstart.finish (by decide +kernel)
  exact ⟨by decide +kernel, by decide +kernel,
    linking_canonical hl (by decide +kernel) (by decide +kernel) (by decide +kernel)
      (by decide +kernel)⟩

end Linker
end ClassLinking
