import ClassLinking.Proofs.Coherence
import ClassLinking.Proofs.Replacement

/-!
# Verification finds nothing

Verifying finished tables can be switched off.  This file justifies doing so.  The tables of a
linker are coherent in every state that commands and replacements of single methods lead to
(`Maintained.coherent`): linking installs coherent tables, and everything else carries the tables
over, exchanging methods for others of the same selector and the same holder.

Building a table does the same with verification and without it up to the check at the end
(`buildVTable_eq`), and the check passes for what was built from coherent tables.
-/

namespace ClassLinking

/-- A class refers to what stands in its slots. -/
theorem Store.refersTo_of_slot {s : Store} {c : ClassId} {i : Nat} {m : MethodId}
    (h : s.slot c i = some m) : s.RefersTo c m := by
  obtain ⟨ts, hts, hm⟩ := Option.bind_eq_some_iff.mp h
  exact ⟨ts, hts, Or.inl (List.mem_of_getElem? (Option.join_eq_some_iff.mp hm))⟩

namespace Linker

open Store

variable {root : Option ClassId} {l t : Linker} {c : ClassId} {r : RevisedClass}

/-! ## What a step makes of the tables -/

theorem Defines.carries (hd : l.Defines t c) (hhoused : l.store.Housed) :
    l.store.Carries t.store := by
  refine .of_tables hd.grows.extends hhoused fun d => ?_
  by_cases hdl : l.store.HasClass d
  · rw [hd.others d hdl]
  · rw [getClass_of_not hdl]
    by_cases hdt : t.store.HasClass d
    · rw [((hd.hasClass_iff d).mp hdt).resolve_left hdl, hd.tables]
      rfl
    · rw [getClass_of_not hdt]

/-- A redefinition carries the tables over: a method gives way to a body with its selector. -/
theorem Redefined.carries {holder : ClassId} {ds : List Declaration} (h : Redefined l t r)
    (hp : l.Prepared holder ds r) (hs : l.Sound) (hholder : l.store.HasClass r.holder)
    (hhoused : l.store.Housed) : l.store.Carries t.store := by
  have w := hs.wellFormed
  refine .of_exchange h.extends_ hhoused fun c => ?_
  by_cases hc : c ∈ l.registry.all
  · refine Or.inr ⟨l.successor r, h.tables c hc, fun i m hm => ?_⟩
    by_cases hmem : m ∈ (l.store.getClass r.holder).methods
    · have hrefers : l.store.RefersTo c m := refersTo_of_slot hm
      obtain ⟨x, hx, -, hsel⟩ :=
        RevisedClass.counterpart_spec (hp.counterpart w hholder hc hmem hrefers)
      have hget := (h.getMethod _).trans (RevisedClass.getMethod_of_mem h.matched hx)
      obtain ⟨hnew, hheld, -⟩ := RevisedClass.declared_install w h.matched hholder
        (List.mem_map_of_mem (f := (·.1)) hx)
      refine Or.inr ⟨?_, ?_, ?_⟩
      · rwa [HasMethod, h.methods_eq]
      · rw [Store.selector, hget, ← hsel]
      · rw [h.getMethod, hheld, ((w.fits _ hholder).methods m hmem).2]
    · exact Or.inl (successor_of_not_mem w hholder hmem)
  · exact Or.inl (h.others c hc)

theorem Replaced.carries {old new : MethodId} (h : Replaced c old new l t) (hs : l.Sound)
    (hhoused : l.store.Housed) : l.store.Carries t.store := by
  obtain ⟨d, hold, hnew⟩ := h.holder
  have hhas := hasMethod_of_holder? hnew
  refine .of_exchange h.extends hhoused fun e => ?_
  by_cases he : e = c
  · refine Or.inr ⟨exchanged old new, by rw [h.tables, if_pos he], fun i m hm => ?_⟩
    by_cases hm' : m = old
    · subst hm'
      rw [exchanged, if_pos rfl]
      refine Or.inr ⟨h.extends.hasMethod hhas, ?_, ?_⟩
      · rw [h.extends.selector hhas, h.selector]
      · rw [h.extends.holder hhas, ← hs.wellFormed.holder?_eq hhas, hnew, ← hold,
          hs.wellFormed.holder?_eq (hhoused e i m hm)]
    · exact Or.inl (if_neg hm')
  · exact Or.inl (by rw [h.tables, if_neg he])

/-- Linking keeps tables coherent. -/
theorem linkRule_coherent (root : Option ClassId) (config : Config) :
    LinkRule root config Coherent (fun _ => True) where
  prepares := fun _ _ _ _ h _ hp => h.prepares hp
  installs := fun _ _ _ _ w hup h hready hi _ => h.installs w hup hready hi
  fails := fun _ _ _ _ _ _ _ _ _ => trivial
  tooDeep := fun _ => trivial

/-- A command keeps tables coherent. -/
theorem Sound.coherent_after (hs : l.Sound) (h : l.store.Coherent) {x : Command}
    (hx : x.Admissible l.store) : (x.after l).store.Coherent := by
  have hlinks := linkRule_coherent l.registry.root l.config
  cases x with
  | define d =>
    exact Outcome.final (P := fun t => t.store.Coherent)
      ((define_outcome hs.wellFormed hx).imp (fun _ _ ht => h.carries (ht.carries h.housed))
        fun _ _ ht => ht.store ▸ h)
  | link c =>
    exact Outcome.final (P := fun t => t.store.Coherent)
      ((link_outcome hlinks rfl hs.wellFormed hs.linkedUp h hx).imp
        (fun _ _ ht => ht.2.holds) fun _ _ ht => ht.2.holds)
  | linkAll batch =>
    exact Outcome.final (P := fun t => t.store.Coherent)
      ((linkAll_outcome hlinks rfl hs.wellFormed hs.linkedUp h hx).imp
        (fun _ _ ht => ht.holds) fun _ _ ht => ht.2.holds)
  | redefine holder ds =>
    refine Outcome.final (P := fun t => t.store.Coherent)
      ((Linker.redefine_outcome hs.wellFormed hx hs.nodup ds).imp (fun _ t ht => ?_)
        fun _ t ht => ?_)
    · obtain ⟨r, hp, rfl, hr, -⟩ := ht
      exact h.carries (hr.carries hp hs hx h.housed)
    · rcases ht with ⟨hn, -⟩ | ⟨r, hp, rfl, hr, -⟩
      · exact hn.store ▸ h
      · exact h.carries (hr.carries hp hs hx h.housed)
  | configure config conflicts consultsConflicts => exact h

theorem IsEmpty.coherent (h : l.IsEmpty) : l.store.Coherent := by
  have hnone : ∀ c, ¬ l.store.Linked c := fun c hc => by
    have hhas := hc.hasClass
    rw [h.store] at hhas
    exact Nat.not_lt_zero _ hhas
  exact ⟨fun c i m hm => absurd (linked_of_slot hm) (hnone c), fun c hc => absurd hc (hnone c),
    fun c p hc => absurd hc (hnone c), fun c i m hm => absurd (linked_of_slot hm) (hnone c)⟩

/-- **Tables are coherent in every state of a run**, replacements of single methods included. -/
theorem Maintained.coherent (h : Maintained l) : l.store.Coherent := by
  induction h with
  | start hempty => exact hempty.coherent
  | command hl hx ih => exact hl.sound.coherent_after ih hx
  | @body l x holder hl hx hc ih =>
    refine ih.carries (.of_tables ⟨Nat.le_refl _, ?_, fun _ _ => rfl, fun m hm => ?_⟩ ih.housed
      fun _ => rfl)
    · simp [mapStore]
    · rw [mapStore, getMethod_addMethods_of_has _ _ _ hm]
  | @replace l c old new hl ih =>
    exact Outcome.final (P := fun t => t.store.Coherent)
      ((replaceMethod_outcome c old new).imp
        (fun _ _ ht => ih.carries (ht.carries hl.sound ih.housed))
        fun _ _ ht => ht.elim (fun heq => heq ▸ ih) fun ht =>
          ih.carries (ht.carries hl.sound ih.housed))

/-! ## Building with and without verification -/

/-- The linker with verification of finished tables switched on or off. -/
def verifying (l : Linker) (verifies : Bool) : Linker :=
  { l with config := { l.config with verifyTables := verifies } }

/-- What a step yields, with verification switched on or off in the state after it. -/
def resultVerifying {α : Type} (verifies : Bool) :
    EStateM.Result LinkError Linker α → EStateM.Result LinkError Linker α
  | .ok a t => .ok a (t.verifying verifies)
  | .error e t => .error e (t.verifying verifies)

/-- The step does the same whether finished tables are verified or not. -/
def IgnoresVerifying {α : Type} (x : LinkM α) : Prop :=
  ∀ (l : Linker) (verifies : Bool), x (l.verifying verifies) = resultVerifying verifies (x l)

section Ignores

variable {α β : Type}

theorem ignoresVerifying_pure (a : α) : IgnoresVerifying (pure a : LinkM α) := fun _ _ => rfl

theorem ignoresVerifying_throw (e : LinkError) : IgnoresVerifying (throw e : LinkM α) :=
  fun _ _ => rfl

theorem ignoresVerifying_bind {x : LinkM α} {f : α → LinkM β} (hx : IgnoresVerifying x)
    (hf : ∀ a, IgnoresVerifying (f a)) : IgnoresVerifying (x >>= f) := fun l verifies => by
  have hfirst := hx l verifies
  cases h : x l with
  | ok a t =>
    rw [h] at hfirst
    rw [bind_of_ok hfirst, bind_of_ok h]
    exact hf a t verifies
  | error e t =>
    rw [h] at hfirst
    rw [bind_of_error hfirst, bind_of_error h]
    rfl

/-- A step that reads the state ignores the switch if what it goes on with does. -/
theorem ignoresVerifying_get {f : Linker → LinkM β} (hf : ∀ l, IgnoresVerifying (f l))
    (hsame : ∀ l verifies, f (l.verifying verifies) = f l) : IgnoresVerifying (get >>= f) :=
  fun l verifies => by
  show f (l.verifying verifies) (l.verifying verifies) = resultVerifying verifies (f l l)
  rw [hsame, hf]

theorem ignoresVerifying_trace (wanted : Bool) (d : Diagnostic) :
    IgnoresVerifying (LinkM.trace wanted d) := fun l verifies => by
  cases wanted <;> rfl

theorem ignoresVerifying_ofExcept (x : Except LinkError α) :
    IgnoresVerifying (LinkM.ofExcept x) := fun l verifies => by
  cases x <;> rfl

theorem ignoresVerifying_runFill (c : ClassId) (pass : FillM α) (f : Fill) :
    IgnoresVerifying (runFill c pass f) := fun l verifies => by
  unfold runFill
  cases pass f <;> rfl

theorem ignoresVerifying_placeMirandas (c : ClassId) (used : Nat)
    (slots : Array (Option MethodId)) (ms : List MethodId) :
    IgnoresVerifying (placeMirandas c used slots ms) := by
  induction ms generalizing used slots with
  | nil => exact ignoresVerifying_pure _
  | cons m ms ih =>
    refine ignoresVerifying_bind (fun _ _ => rfl) fun placeholder => ?_
    refine ignoresVerifying_get (fun l => ?_) fun _ _ => rfl
    have hrest := ignoresVerifying_bind (ignoresVerifying_trace l.config.traceVTables
      (VTableEvent.diagnostic l.store (l.store.getClass c).name (.miranda m used))) fun _ =>
        ignoresVerifying_bind (ih (used + 1) (slots.setIfInBounds used (some placeholder)))
          fun r => ignoresVerifying_pure (r.1, placeholder :: r.2)
    dsimp only
    split
    · exact ignoresVerifying_bind (ignoresVerifying_throw _) fun _ => hrest
    · exact hrest

end Ignores

/-- Building the virtual table of `c`, the verification at the end left out. -/
def layVTable (c : ClassId) (size : VTableSize) : LinkM VTableLayout := do
  let env := (← get).fillEnv
  let slots ← LinkM.ofExcept (initialSlots env.store c size.length)
  let (defaultSlots, f) ←
    runFill c (env.placeAll c size.inherited) { slots, used := size.inherited }
  let (slots, mirandas) ← placeMirandas c f.used f.slots (env.store.pendingMirandas c)
  return ⟨⟨slots.toList⟩, defaultSlots, mirandas⟩

/-- Verify a finished table if that is wanted. -/
def verifyLayout (c : ClassId) (layout : VTableLayout) : LinkM VTableLayout := do
  let l ← get
  if l.config.verifyTables then LinkM.ofExcept (l.store.verifyVTable c layout.table)
  return layout

theorem buildVTable_eq (c : ClassId) (size : VTableSize) :
    buildVTable c size = layVTable c size >>= verifyLayout c := by
  unfold buildVTable layVTable verifyLayout
  simp only [bind_assoc, pure_bind]
  rfl

theorem ignoresVerifying_layVTable (c : ClassId) (size : VTableSize) :
    IgnoresVerifying (layVTable c size) := by
  refine ignoresVerifying_get (fun l => ?_) fun _ _ => rfl
  refine ignoresVerifying_bind (ignoresVerifying_ofExcept _) fun slots => ?_
  refine ignoresVerifying_bind (ignoresVerifying_runFill _ _ _) fun filled => ?_
  exact ignoresVerifying_bind (ignoresVerifying_placeMirandas _ _ _ _) fun _ =>
    ignoresVerifying_pure _

/-- Building a table in a coherent store is the same with verification and without. -/
theorem buildVTable_verifying {config : Config} {size : VTableSize} (h : l.store.Coherent)
    (w : l.store.WellFormed root) (hc : l.store.HasClass c)
    (hsize : l.store.vtableSize config c = .ok size) :
    buildVTable c size (l.verifying true) =
      resultVerifying true (buildVTable c size (l.verifying false)) := by
  have hlay := ignoresVerifying_layVTable c size l
  obtain ⟨hinherited, hlength⟩ := vtableSize_ok hsize
  have hbuild := buildVTable_outcome (l := l.verifying false) w hc hinherited (by omega)
  rw [buildVTable_eq] at hbuild ⊢
  show EStateM.bind _ _ _ = resultVerifying true (EStateM.bind _ _ _)
  rw [outcome_bind] at hbuild
  unfold Outcome at hbuild
  unfold EStateM.bind
  rw [hlay] at hbuild ⊢
  rw [hlay]
  cases hrun : layVTable c size l with
  | error e t => rfl
  | ok layout t =>
    rw [hrun] at hbuild
    obtain ⟨hprep, f, hbuilt, -⟩ := hbuild
    have hok : t.store.verifyVTable c layout.table = .ok () :=
      hbuilt.verifyVTable_ok (l := l.verifying false) h w hc hsize hprep.store
    show verifyLayout c layout (t.verifying true) = .ok layout (t.verifying true)
    show (if true = true then (LinkM.ofExcept (t.store.verifyVTable c layout.table) : LinkM Unit)
      else pure ()).bind (fun _ => pure layout) (t.verifying true) = _
    rw [if_pos rfl, hok]
    rfl

/-! ## Runs -/

/-- **Tables continue the superclass's in every state of a run.**  Let classes be defined, linked
and redefined, and single methods be replaced, under settings that may change.  Then a linked class
has a linked superclass; its table is at least as long as the superclass's, fills the slots that the
superclass fills and no others of them, and has methods of the same selectors there; and every
method in the table is held by a supertype.  So verifying the table succeeds, and building any table
is the same with verification and without it. -/
theorem Maintained.tables_continue (h : Maintained l) :
    (∀ c p, l.store.Linked c → (l.store.getClass c).superclass? = some p →
      l.store.Linked p ∧
      (l.store.getClass p).vtableLength ≤ (l.store.getClass c).vtableLength ∧
      ∀ i < (l.store.getClass p).vtableLength,
        (l.store.slot c i).map l.store.selector = (l.store.slot p i).map l.store.selector) ∧
    (∀ c i m, l.store.slot c i = some m → (l.store.holder? m).any (l.store.isSubtype c) = true) ∧
    (∀ c ts, (l.store.getClass c).tables = some ts → l.store.verifyVTable c ts.vtable = .ok ()) ∧
    ∀ c config size, l.store.HasClass c → l.store.vtableSize config c = .ok size →
      buildVTable c size (l.verifying true) =
        resultVerifying true (buildVTable c size (l.verifying false)) := by
  have hcoherent := h.coherent
  have hsound := h.sound
  have w := hsound.wellFormed
  refine ⟨fun c p hc hp => ?_, fun c i m hm => ?_, fun c ts hts => ?_, fun c config size hc hsize =>
    buildVTable_verifying hcoherent w hc hsize⟩
  · have hle := hcoherent.superLength_le c hc
    rw [superLength_of_superclass hp] at hle
    exact ⟨hsound.linkedUp c hc p (mem_definedFrom_superclass hp), hle,
      hcoherent.selector_slot c p hc hp⟩
  · exact any_isSubtype_of_above w (linked_of_slot hm).hasClass (hcoherent.housed c i m hm)
      (hcoherent.holder_slot c i m hm)
  · exact (hcoherent.continues hsound.linkedUp hts).verifyVTable_ok w (hasClass_of_tables hts)

/-- A class is redefined after its subclass was linked. -/
def redefinedParent : List Command :=
  let method (name : String) (code : List UInt8) : Declaration :=
    { selector := ⟨name, "()V"⟩, word := 1, code }
  [.define { name := "Object", methods := [method "hash" [1]] },
   .define { name := "p/A", superclass := some ⟨0⟩, methods := [method "f" [1]] },
   .define { name := "p/B", superclass := some ⟨1⟩, methods := [method "g" [1]] },
   .link ⟨2⟩,
   .redefine ⟨1⟩ [method "f" [2]]]

/-- A third body of the redefined method, which the parent holds and nobody declares. -/
def patch : Method :=
  { Method.fresh (.ofParts Token.methodKind 5) 0 ⟨"f", "()V"⟩ 1 [3] with holder := some ⟨1⟩ }

/-- In the table of the subclass the body that was declared last gives way to the third one. -/
def patched : Linker :=
  (replaceMethod ⟨2⟩ ⟨3⟩ ⟨4⟩).final
    ((finish { config := .minimal } redefinedParent).mapStore fun s => s.addMethods [patch])

theorem maintained_patched : Maintained patched := by
  have hstart : Reachable (fun _ => True) { config := .minimal } := .start ⟨rfl, rfl⟩ trivial
  have hparent : Maintained (finish { config := .minimal } redefinedParent) :=
    (hstart.finish (by decide +kernel)).maintained
  have hbody : patch.holder = some ⟨1⟩ := rfl
  exact .replace _ _ _ (.body hparent hbody (by decide +kernel))

/-- The two tables hold different methods in slot one by now, of one selector and one holder. -/
theorem patched_continues :
    patched.store.slot ⟨2⟩ 1 = some ⟨4⟩ ∧ patched.store.slot ⟨1⟩ 1 = some ⟨3⟩ ∧
      (patched.store.slot ⟨2⟩ 1).map patched.store.selector =
        (patched.store.slot ⟨1⟩ 1).map patched.store.selector ∧
      (patched.store.holder? ⟨4⟩).any (patched.store.isSubtype ⟨2⟩) = true ∧
      ∀ size, patched.store.vtableSize .strict ⟨2⟩ = .ok size →
        buildVTable ⟨2⟩ size (patched.verifying true) =
          resultVerifying true (buildVTable ⟨2⟩ size (patched.verifying false)) := by
  obtain ⟨htables, hheld, -, hbuild⟩ := Maintained.tables_continue maintained_patched
  have hslot : patched.store.slot ⟨2⟩ 1 = some ⟨4⟩ := by decide +kernel
  have hsuper := htables ⟨2⟩ ⟨1⟩ (by decide +kernel) (by decide +kernel)
  exact ⟨hslot, by decide +kernel, hsuper.2.2 1 (by decide +kernel), hheld ⟨2⟩ 1 ⟨4⟩ hslot,
    fun size hsize => hbuild ⟨2⟩ .strict size (by decide +kernel) hsize⟩

end Linker
end ClassLinking
