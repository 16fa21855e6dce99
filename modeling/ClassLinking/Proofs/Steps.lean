import ClassLinking.Proofs.Currency
import ClassLinking.Proofs.Revisions
import ClassLinking.Proofs.Slots

/-!
# The steps of a run

A command makes one of four things of a sound linker: it adds a class, it links classes, it
redefines a class, or it changes neither a class nor a method (`Linker.Steps`).  To follow a
property through a run is to look at these four (`Sound.steps`).

Two properties of this kind are kept by every command, as long as no class is defined with two
methods of one selector for the first of them: no class declares a selector twice
(`Sound.distinct_after`), and the methods of a class have ordinals of their own
(`Sound.distinctOrdinals_after`).

Other properties are kept by a redefinition under a condition only.  If a command keeps a property
exactly if it does not meet some condition on redefinitions, then all states of a run have the
property exactly if the run avoids such redefinitions (`forall_states_iff_avoids`).
-/

namespace ClassLinking
namespace Linker

variable {l t : Linker} {c : ClassId} {x : Command} {xs : List Command} {I : Store → Prop}

/-! ## What a new class declares -/

/-- The class `c` is what a definition describes. -/
structure DeclaredBy (d : ClassDefinition) (l t : Linker) (c : ClassId) : Prop where
  isInterface : (t.store.getClass c).isInterface = d.flags.isInterface
  /-- The class declares the methods of its definition, in order. -/
  methods : (t.store.getClass c).methods.map t.store.getMethod =
    declaredMethods l.registry c d.methods
  /-- There are not more of them than ordinals of sixteen bits can number. -/
  numbered : d.methods.length ≤ maxMethods

/-- A new class is what its definition describes. -/
theorem define_declares (d : ClassDefinition) :
    Outcome (define d) l (fun c t => DeclaredBy d l t c) (fun _ _ => True) := by
  cases hcheck : d.check l.store l.registry.root with
  | error fault =>
    unfold Outcome define
    rw [hcheck]
    trivial
  | ok superclass =>
    rw [Outcome, define_eq hcheck]
    have hself := Store.DefinedBy.getClass_self l.store
      (declaredMethods l.registry l.store.nextClass d.methods) (newClass l d superclass)
    cases ((l.registry.takeMethodTokens d.methods.length).takeClassToken).insert l.store
        (newClass l d superclass) l.store.nextClass with
    | error fault => trivial
    | ok r =>
      show DeclaredBy d l ((l.withRegistered l.registry.classToken r).mapStore fun _ =>
        (l.store.addMethods _).addClass (newClass l d superclass)) l.store.nextClass
      refine ⟨?_, ?_, (ClassDefinition.check_ok hcheck).numbered⟩
      · show (((l.store.addMethods _).addClass _).getClass l.store.nextClass).isInterface = _
        rw [hself]
        rfl
      · show (((l.store.addMethods _).addClass _).getClass l.store.nextClass).methods.map
          ((l.store.addMethods _).addClass _).getMethod = _
        rw [hself, newClass]
        refine List.ext_getElem? fun i => ?_
        rw [List.getElem?_map, Store.nextMethods, List.getElem?_map]
        by_cases hi : i < d.methods.length
        · rw [List.getElem?_range hi]
          have hlt : i < (declaredMethods l.registry l.store.nextClass d.methods).length := by
            rwa [length_declaredMethods]
          have hget := List.getElem?_eq_getElem hlt
          rw [hget]
          exact congrArg some (Store.getMethod_addMethods_next l.store _ hget)
        · rw [List.getElem?_eq_none (by simpa using hi),
            List.getElem?_eq_none (by rw [length_declaredMethods]; exact Nat.not_lt.mp hi)]
          rfl

/-! ## What a command does -/

/-- What a command makes of a sound linker `l`; linking classes keeps the property `I`. -/
inductive Steps (I : Store → Prop) (l : Linker) : Command → Linker → Prop where
  | defines {d : ClassDefinition} {t : Linker} {c : ClassId} : l.Defines t c →
    DeclaredBy d l t c → Steps I l (.define d) t
  | links {x : Command} {t : Linker} : (∀ holder ds, x ≠ .redefine holder ds) →
    Reaches l.registry.root I l t → Steps I l x t
  | redefines {holder : ClassId} {ds : List Declaration} {t : Linker} {r : RevisedClass} :
    l.Prepared holder ds r → l.store.HasClass r.holder → Redefined l t r →
    Steps I l (.redefine holder ds) t
  | keeps {x : Command} {t : Linker} :
    (∀ holder ds, x = .redefine holder ds → ¬ ∃ r, l.Prepared holder ds r) → t.store = l.store →
    t.registry.all = l.registry.all → Steps I l x t

/-- **Every command takes one of these steps.** -/
theorem Sound.steps (h : l.Sound) (hx : x.Admissible l.store)
    (rule : LinkRule l.registry.root l.config I (fun _ => True)) (hI : I l.store) :
    Steps I l x (x.after l) := by
  cases x with
  | define d =>
    exact (((define_outcome h.wellFormed hx).and (define_declares d)).imp
      (fun _ _ ht => .defines ht.1 ht.2)
      fun _ _ ht => .keeps nofun ht.1.store (all_eq_of_classes ht.1.classes)).final
  | link c =>
    exact ((link_outcome rule rfl h.wellFormed h.linkedUp hI hx).imp
      (fun _ _ ht => .links nofun ht.2) fun _ _ ht => .links nofun ht.2).final
  | linkAll batch =>
    exact ((linkAll_outcome rule rfl h.wellFormed h.linkedUp hI hx).imp
      (fun _ _ ht => .links nofun ht) fun _ _ ht => .links nofun ht.2).final
  | redefine holder ds =>
    refine ((Linker.redefine_outcome h.wellFormed hx h.nodup ds).imp (fun _ t ht => ?_)
      (fun _ t ht => ?_)).final
    · obtain ⟨r, hp, rfl, hr, -⟩ := ht
      exact .redefines hp hx hr
    · rcases ht with ⟨hn, hno⟩ | ⟨r, hp, rfl, hr, -⟩
      · exact .keeps (fun _ _ heq => by cases heq; exact hno) hn.store
          (all_eq_of_classes hn.classes)
      · exact .redefines hp hx hr
  | configure config conflicts consultsConflicts => exact .keeps nofun rfl rfl

/-- A command takes one of these steps, whatever linking keeps. -/
theorem Sound.steps_true (h : l.Sound) (hx : x.Admissible l.store) :
    Steps (fun _ => True) l x (x.after l) :=
  h.steps hx (linkRule_true _ _) trivial

/-! ## Selectors and ordinals -/

section Nodup

variable {β : Type} {f : Method → β}

/-- The methods of a class that differ in `f` still do if the class keeps them. -/
theorem nodup_of_extends (hf : ∀ x d v, f { x with dispatch := d, revision := v } = f x)
    {s s' : Store} {root : Option ClassId}
    (h : ((s.getClass c).methods.map fun m => f (s.getMethod m)).Nodup) (w : s.WellFormed root)
    (hext : s.Extends s') (hc : s.HasClass c)
    (heq : (s'.getClass c).methods = (s.getClass c).methods) :
    ((s'.getClass c).methods.map fun m => f (s'.getMethod m)).Nodup := by
  have hsame : ∀ m ∈ (s.getClass c).methods, f (s'.getMethod m) = f (s.getMethod m) :=
    fun m hm => by rw [hext.method_eq m ((w.fits c hc).methods m hm).1, hf]
  rw [heq, List.map_congr_left hsame]
  exact h

/-- A command keeps the methods of a class different, or makes them so if the class is new, if those
of its definition and of new lists of methods are. -/
theorem Sound.nodup_after (hf : ∀ x d v, f { x with dispatch := d, revision := v } = f x)
    (hl : l.Sound) (hx : x.Admissible l.store) (c : ClassId)
    (h : (l.store.getClass c).isInterface = ((x.after l).store.getClass c).isInterface →
      ((l.store.getClass c).methods.map fun m => f (l.store.getMethod m)).Nodup)
    (hdefine : ∀ d, x = .define d →
      d.flags.isInterface = ((x.after l).store.getClass c).isInterface →
        ((declaredMethods l.registry c d.methods).map f).Nodup)
    (hredefine : ∀ holder ds r, l.Prepared holder ds r → (r.methods.map (f ·.2.body)).Nodup) :
    (((x.after l).store.getClass c).methods.map
      fun m => f ((x.after l).store.getMethod m)).Nodup := by
  have hsteps := hl.steps_true hx
  generalize x.after l = t at h hdefine hsteps ⊢
  have hnone : ¬ t.store.HasClass c →
      ((t.store.getClass c).methods.map fun m => f (t.store.getMethod m)).Nodup := fun hc => by
    rw [Store.getClass_of_not hc]
    exact List.nodup_nil
  -- A class that was there keeps its methods, or is the one that is redefined.
  have hkept : l.store.HasClass c → l.store.Extends t.store →
      (t.store.getClass c).methods = (l.store.getClass c).methods →
        ((t.store.getClass c).methods.map fun m => f (t.store.getMethod m)).Nodup :=
    fun hc hext heq =>
      nodup_of_extends hf (h (hext.isInterface hc).symm) hl.wellFormed hext hc heq
  cases hsteps with
  | @defines d _ e hd hdeclared =>
    by_cases hc : l.store.HasClass c
    · exact hkept hc hd.grows.extends (congrArg Class.methods (hd.others c hc))
    · by_cases hce : c = e
      · subst hce
        have hmap := congrArg (List.map f) hdeclared.methods
        rw [List.map_map] at hmap
        exact hmap ▸ hdefine d rfl hdeclared.isInterface.symm
      · exact hnone fun hct => ((hd.hasClass_iff c).mp hct).elim hc hce
  | links _ hr =>
    by_cases hc : l.store.HasClass c
    · exact hkept hc hr.grows.extends (hr.grows.methods hc)
    · exact hnone (by rwa [Store.HasClass, hr.size_eq])
  | @redefines holder ds _ r hp hholder hr =>
    by_cases hc : c = r.holder
    · rw [hr.methods, if_pos hc, RevisedClass.declared, List.map_map,
        List.map_congr_left (g := (f ·.2.body)) fun e he => ?_]
      · exact hredefine holder ds r hp
      · show f (t.store.getMethod e.1) = _
        rw [hr.getMethod_of_mem he]
        exact hf e.2.body e.2.body.dispatch _
    · by_cases hcl : l.store.HasClass c
      · exact hkept hcl hr.extends_ (by rw [hr.methods, if_neg hc])
      · exact hnone (by rwa [Store.HasClass, hr.size_eq])
  | keeps _ hstore _ =>
    rw [hstore] at h ⊢
    exact h rfl

end Nodup

end Linker

/-- A definition declares no selector twice. -/
def Command.DeclaresOnce : Command → Prop
  | .define d => (d.methods.map (·.selector)).Nodup
  | _ => True

instance : DecidablePred Command.DeclaresOnce
  | .define d => inferInstanceAs (Decidable (d.methods.map (·.selector)).Nodup)
  | .link _ => isTrue trivial
  | .linkAll _ => isTrue trivial
  | .redefine .. => isTrue trivial
  | .configure .. => isTrue trivial

/-- A definition of an interface declares no selector twice. -/
def Command.InterfacesDeclareOnce : Command → Prop
  | .define d => d.flags.isInterface = true → (d.methods.map (·.selector)).Nodup
  | _ => True

instance : DecidablePred Command.InterfacesDeclareOnce
  | .define d =>
    inferInstanceAs (Decidable (d.flags.isInterface = true → (d.methods.map (·.selector)).Nodup))
  | .link _ => isTrue trivial
  | .linkAll _ => isTrue trivial
  | .redefine .. => isTrue trivial
  | .configure .. => isTrue trivial

/-- No interface declares a selector twice. -/
def Store.InterfacesDistinct (s : Store) : Prop :=
  ∀ i, (s.getClass i).isInterface = true → ((s.getClass i).methods.map s.selector).Nodup

namespace Linker

variable {l t : Linker} {x : Command} {xs : List Command}

theorem IsEmpty.not_linked (h : l.IsEmpty) (c : ClassId) : ¬ l.store.Linked c := fun hc => by
  have hhas := hc.hasClass
  rw [h.store] at hhas
  exact absurd hhas (Nat.not_lt_zero _)

theorem IsEmpty.methods_eq_nil (h : l.IsEmpty) (c : ClassId) :
    (l.store.getClass c).methods = [] := by
  rw [h.store, Store.getClass_of_not (Nat.not_lt_zero _)]
  rfl

theorem IsEmpty.distinct (h : l.IsEmpty) : l.store.Distinct := fun c => by
  rw [h.methods_eq_nil]
  exact List.nodup_nil

theorem IsEmpty.distinctOrdinals (h : l.IsEmpty) : l.store.DistinctOrdinals := fun c => by
  rw [h.methods_eq_nil]
  exact List.nodup_nil

theorem selectors_declaredMethods (r : Registry) (c : ClassId) (ds : List Declaration) :
    (declaredMethods r c ds).map Method.selector = ds.map (·.selector) := by
  refine List.ext_getElem? fun i => ?_
  simp only [declaredMethods, List.getElem?_map, List.getElem?_mapIdx, Option.map_map]
  rfl

/-- **Classes declare no selector twice**, if they are not defined so: a redefinition refuses to. -/
theorem Sound.distinct_after (hl : l.Sound) (h : l.store.Distinct) (hx : x.Admissible l.store)
    (honce : x.DeclaresOnce) : (x.after l).store.Distinct := by
  refine fun c => hl.nodup_after (f := Method.selector) (fun _ _ _ => rfl) hx c (fun _ => h c)
    (fun d heq _ => ?_) fun holder ds r hp => hp.declares.selectors ▸ hp.declares.distinct
  subst heq
  exact selectors_declaredMethods l.registry c d.methods ▸ honce

/-- **Interfaces declare no selector twice**, if they are not defined so. -/
theorem Sound.interfacesDistinct_after (hl : l.Sound) (h : l.store.InterfacesDistinct)
    (hx : x.Admissible l.store) (honce : x.InterfacesDeclareOnce) :
    (x.after l).store.InterfacesDistinct := by
  refine fun c hint => hl.nodup_after (f := Method.selector) (fun _ _ _ => rfl) hx c
    (fun heq => h c (heq.trans hint)) (fun d heq hflags => ?_)
    fun holder ds r hp => hp.declares.selectors ▸ hp.declares.distinct
  have hd := hflags.trans hint
  subst heq
  exact selectors_declaredMethods l.registry c d.methods ▸ honce hd

/-- **The methods of a class have ordinals of their own.**  Definitions count from zero, and
redefinitions go on above the highest. -/
theorem Sound.distinctOrdinals_after (hl : l.Sound) (h : l.store.DistinctOrdinals)
    (hx : x.Admissible l.store) : (x.after l).store.DistinctOrdinals := by
  refine fun c => hl.nodup_after (f := Method.idnum) (fun _ _ _ => rfl) hx c (fun _ => h c)
    (fun d _ _ => ?_)
    fun holder ds r hp => RevisedClass.nodup_ordinals hp.matched h hp.declares hp.accepted
  have hordinals : (declaredMethods l.registry c d.methods).map Method.idnum =
      List.range d.methods.length := by
    refine List.ext_getElem? fun i => ?_
    simp only [declaredMethods, List.getElem?_map, List.getElem?_mapIdx, Option.map_map]
    by_cases hi : i < d.methods.length
    · rw [List.getElem?_range hi, List.getElem?_eq_getElem hi]
      rfl
    · rw [List.getElem?_eq_none (Nat.not_lt.mp hi), List.getElem?_eq_none (by simpa using hi)]
      rfl
  exact hordinals ▸ List.nodup_range

/-- The methods of a class that have ordinals of their own still do if the class keeps them. -/
theorem distinctOrdinals_of_extends (hl : l.Sound) (h : l.store.DistinctOrdinals)
    (hext : l.store.Extends t.store)
    (heq : ∀ c, (t.store.getClass c).methods = (l.store.getClass c).methods) :
    t.store.DistinctOrdinals := fun c => by
  by_cases hc : l.store.HasClass c
  · exact nodup_of_extends (f := Method.idnum) (fun _ _ _ => rfl) (h c) hl.wellFormed hext hc
      (heq c)
  · rw [heq, Store.getClass_of_not hc]
    exact List.nodup_nil

/-- What commands keep of the methods that classes declare, and what is kept when no class declares
other ones, new bodies and replacements of single methods keep, too. -/
theorem Maintained.of_declared {I : Store → Prop} (hempty : ∀ l : Linker, l.IsEmpty → I l.store)
    (hafter : ∀ (l : Linker) (x : Command), l.Sound → I l.store → x.Admissible l.store →
      I (x.after l).store)
    (hextends : ∀ l t : Linker, l.Sound → I l.store → l.store.Extends t.store →
      (∀ c, (t.store.getClass c).methods = (l.store.getClass c).methods) → I t.store)
    (h : Maintained l) : I l.store := by
  induction h with
  | start h => exact hempty _ h
  | command hl hx ih => exact hafter _ _ hl.sound ih hx
  | body hl _ _ ih =>
    exact hextends _ _ hl.sound ih (Store.extends_addMethods _ _) fun _ => rfl
  | @replace l c old new hl ih =>
    have hreplaced : ∀ t, Replaced c old new l t → I t.store := fun t ht =>
      hextends l t hl.sound ih ht.extends fun d => by rw [ht.class_eq d]
    exact ((replaceMethod_outcome c old new).imp (fun _ t ht => hreplaced t ht)
      (fun _ t ht => ht.elim (fun heq => heq ▸ ih) (hreplaced t))).final

theorem Maintained.distinctOrdinals (h : Maintained l) : l.store.DistinctOrdinals :=
  h.of_declared (fun _ => IsEmpty.distinctOrdinals)
    (fun _ _ hl hI hx => hl.distinctOrdinals_after hI hx)
    fun _ _ hl hI hext heq => distinctOrdinals_of_extends hl hI hext heq

/-! ## Runs that avoid a redefinition -/

section Avoids

variable {bad : Linker → ClassId → List Declaration → Prop} {allowed : Command → Prop}

/-- A redefinition that meets a condition passes all checks before the tables change. -/
def Commits (bad : Linker → ClassId → List Declaration → Prop) (l : Linker) : Command → Prop
  | .redefine holder ds => (∃ r, l.Prepared holder ds r) ∧ bad l holder ds
  | _ => False

/-- No step of a run is a redefinition that meets a condition and passes all checks before the
tables change. -/
def Avoids (bad : Linker → ClassId → List Declaration → Prop) : Linker → List Command → Prop
  | _, [] => True
  | l, x :: xs => ¬ l.Commits bad x ∧ Avoids bad (x.after l) xs

instance [∀ l holder ds, Decidable (bad l holder ds)] (l : Linker) :
    (x : Command) → Decidable (l.Commits bad x)
  | .define _ => isFalse id
  | .link _ => isFalse id
  | .linkAll _ => isFalse id
  | .redefine holder ds =>
    inferInstanceAs (Decidable ((∃ r, l.Prepared holder ds r) ∧ bad l holder ds))
  | .configure .. => isFalse id

instance decidableAvoids [∀ l holder ds, Decidable (bad l holder ds)] :
    (l : Linker) → (xs : List Command) → Decidable (Avoids bad l xs)
  | _, [] => isTrue trivial
  | l, x :: xs =>
    haveI : Decidable (Avoids bad (x.after l) xs) := decidableAvoids (x.after l) xs
    inferInstanceAs (Decidable (¬ l.Commits bad x ∧ Avoids bad (x.after l) xs))

/-- Only redefinitions meet the condition. -/
theorem not_commits (h : ∀ holder ds, x = .redefine holder ds → ¬ ∃ r, l.Prepared holder ds r) :
    ¬ l.Commits bad x := by
  cases x with
  | redefine holder ds => exact fun hc => h holder ds rfl hc.1
  | _ => exact id

/-- A redefinition that passes all checks only has to meet the condition. -/
theorem commits_redefine {holder : ClassId} {ds : List Declaration} {r : RevisedClass}
    (hp : l.Prepared holder ds r) : l.Commits bad (.redefine holder ds) ↔ bad l holder ds :=
  and_iff_right ⟨r, hp⟩

/-- A run ends in one of its states. -/
theorem finish_mem_states (l : Linker) (xs : List Command) : l.finish xs ∈ l.states xs := by
  induction xs generalizing l with
  | nil => exact List.mem_singleton_self l
  | cons x xs ih => exact List.mem_cons_of_mem _ (ih (x.after l))

/-- What every step keeps holds in all states of a run. -/
theorem forall_states {I : Linker → Prop}
    (hstep : ∀ l x, I l → allowed x → x.Admissible l.store → I (x.after l)) (hI : I l)
    (hxs : Admits allowed l xs) : ∀ t ∈ l.states xs, I t := by
  induction xs generalizing l with
  | nil => exact fun t ht => List.mem_singleton.mp ht ▸ hI
  | cons x xs ih =>
    obtain ⟨hallowed, hx, hrest⟩ := hxs
    exact List.forall_mem_cons.mpr ⟨hI, ih (hstep l x hI hallowed hx) hrest⟩

/-- **What a step keeps exactly if it does not meet a condition** holds in all states of a run
exactly if no step of the run meets the condition. -/
theorem forall_states_iff_avoids {I Q : Linker → Prop}
    (hstep : ∀ l x, I l → Q l → allowed x → x.Admissible l.store →
      I (x.after l) ∧ (Q (x.after l) ↔ ¬ l.Commits bad x))
    (hI : I l) (hQ : Q l) (hxs : Admits allowed l xs) :
    (∀ t ∈ l.states xs, Q t) ↔ Avoids bad l xs := by
  induction xs generalizing l with
  | nil => exact iff_of_true (fun t ht => List.mem_singleton.mp ht ▸ hQ) trivial
  | cons x xs ih =>
    obtain ⟨hallowed, hx, hrest⟩ := hxs
    obtain ⟨hnext, hiff⟩ := hstep l x hI hQ hallowed hx
    rw [states, List.forall_mem_cons, and_iff_right hQ, Avoids]
    have hself : ∀ t : Linker, t ∈ t.states xs := fun t => by cases xs <;> simp [states]
    by_cases hgood : Q (x.after l)
    · rw [and_iff_right (hiff.mp hgood)]
      exact ih hnext hgood hrest
    · exact iff_of_false (fun h => hgood (h _ (hself _))) fun h => hgood (hiff.mpr h.1)

end Avoids
end Linker
end ClassLinking
