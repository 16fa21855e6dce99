import ClassLinking.Proofs.Coherence
import ClassLinking.Proofs.Sizing

/-!
# Linking is never inconsistent

Linking can fail for what the program did: two loaders disagree about a class, the hierarchy is too
deep, the root class has the wrong length.  The other failures say that the tables are not what they
should be, or that tables are missing which should be there.  `internal_failures_unreachable` says
that these do not happen, in any order of linking and under any settings, as long as the classes are
as the class-file format guarantees.

There are four places where linking could notice such a thing, and each of them is excluded for a
reason of its own:

* looking through the tables above an occupant, since tables of one chain agree on their selectors
  (`not_internal_of_refuses`);
* running out of slots while methods are placed, and
* running out of slots for placeholders, since the table was sized for them (`placements_fit`);
* verifying the finished table, since it continues the superclass's table and holds methods of
  supertypes only (`Built.verifyVTable_ok`).
-/

namespace ClassLinking

/-- Whether a failure speaks of tables that are wrong or missing. -/
def LinkError.isInternal : LinkError → Bool
  | .linkage .. | .notLinked _ | .inconsistent _ => true
  | _ => false

namespace Linker

section OneClass

variable {P : Config → Prop} {root : Option ClassId} {l : Linker} {c p : ClassId}
  {size : VTableSize} {q : Placement} {qs : List Placement} {f : Fill} {i : Nat}
  {o : MethodId} {e : LinkError}
  (T : Traced P root l.store) (hrules : l.store.AllConform) (hready : Ready l.store c)
  (hsize : l.store.vtableSize l.config c = .ok size)

include T hrules hready in
/-- The methods that a class places do not compete for slots. -/
theorem pairwise_apart_placements : (l.fillEnv.placements c).Pairwise l.fillEnv.Apart := by
  have hdistinct : ((l.store.getClass c).methods.map l.fillEnv.store.selector).Nodup :=
    (hrules c).distinct
  have hdefaults : ((l.store.getClass c).defaults.map l.fillEnv.store.selector).Nodup :=
    (T.inheritsDefaults c hready.hasClass).nodup
  refine List.pairwise_append.mpr
    ⟨FillEnv.pairwise_apart hdistinct, FillEnv.pairwise_apart hdefaults, fun q hq q' hq' => ?_⟩
  obtain ⟨m, hm, rfl⟩ := List.mem_map.mp hq
  obtain ⟨d, hd, rfl⟩ := List.mem_map.mp hq'
  cases hbound : (l.store.getMethod m).isBoundStatically with
  | true => exact Or.inl hbound
  | false =>
    exact FillEnv.apart_of_ne (T.selector_default_ne hready.hasClass hd
      (Store.WellFormed.mem_lineage_self l.store c) hm (Store.isInstance_of_bound hbound))

/-! ## Placing methods -/

include T hready in
/-- The occupant of an inherited slot has the selector that the slot has in the superclass's table,
and is held by a supertype. -/
theorem exists_slot_of_occupant
    (h : l.fillEnv.PlacesAll c size.inherited qs (l.fillEnv.start c size) f)
    (hqs : qs ⊆ l.fillEnv.placements c) (hi : i < size.inherited) (ho : f.occupant i = some o) :
    (∃ p o', (l.store.getClass c).superclass? = some p ∧ l.store.slot p i = some o' ∧
      l.store.selector o' = l.store.selector o) ∧
    ∃ h, (l.store.getMethod o).holder = some h ∧ l.store.Above c h := by
  have w := T.wellFormed
  have hc := hready.hasClass
  have hup : ∀ p, (l.store.getClass c).superclass? = some p → l.store.Linked p := fun p hp =>
    hready.definedFrom p (Store.mem_definedFrom_superclass hp)
  have hstart : (l.fillEnv.start c size).occupant i = l.store.inheritedAt c i :=
    FillEnv.occupant_start i
  rcases h.occupant_inherited (Nat.le_refl _) hi with hsame | ⟨q, hq, hocc, -, o', ho', hsel⟩
  · rw [hsame, hstart] at ho
    obtain ⟨p, hp, hslot⟩ := exists_slot_of_inheritedAt hup ho
    exact ⟨⟨p, o, hp, hslot, rfl⟩, exists_holder_of_slot T.coherent w hc hp hslot⟩
  · rw [hocc, Option.some.injEq] at ho
    rw [hstart] at ho'
    obtain ⟨p, hp, hslot⟩ := exists_slot_of_inheritedAt hup ho'
    exact ⟨⟨p, o', hp, hslot, ho ▸ hsel⟩, ho ▸ exists_holder_of_placement w hc (hqs hq)⟩

include T hready in
/-- A method is refused a slot because of a conflict of loaders only. -/
theorem not_internal_of_refuses
    (h : l.fillEnv.PlacesAll c size.inherited qs (l.fillEnv.start c size) f)
    (hqs : qs ⊆ l.fillEnv.placements c)
    (he : l.fillEnv.Refuses q f (List.range size.inherited) e) : e.isInternal = false := by
  have w := T.wellFormed
  have hc := hready.hasClass
  cases he with
  | conflict => rfl
  | ancestors i o holder e hi ho hsel hholder hsearch =>
    obtain ⟨⟨p, o', hp, ho', hsel'⟩, h, hh, hmem⟩ :=
      exists_slot_of_occupant T hready h hqs (List.mem_range.mp hi) ho
    have hplinked := hready.definedFrom p (Store.mem_definedFrom_superclass hp)
    have heq : holder = h := by
      change (l.store.getMethod o).holder.filter _ = some holder at hholder
      rw [hh, Option.filter_some] at hholder
      split at hholder
      · exact (Option.some.inj hholder).symm
      · cases hholder
    subst heq
    have habove : ∀ a ∈ (l.store.getClass holder).ancestors, a ∈ l.store.lineage p := by
      rw [← w.ancestors_of_superclass hc hp]
      exact fun a ha => w.mem_ancestors_of_supertype hc hmem ha
    have hagree := T.agree_of_slot hplinked ho' habove
    obtain ⟨found, hfound⟩ := Store.transitivelyOverridden_ok hagree q.loader q.className
    change l.store.transitivelyOverridden? (l.store.selector q.method) i q.loader q.className
      (l.store.getClass holder).ancestors = .error e at hsearch
    have hselq : l.store.selector o = l.store.selector q.method := hsel
    rw [hsel', hselq, hsearch] at hfound
    cases hfound

include T hrules hready hsize in
/-- Placing methods fails because of a conflict of loaders only: there are enough slots. -/
theorem not_internal_of_rejects
    (he : l.fillEnv.RejectsOneOf c size.inherited (l.fillEnv.placements c)
      (l.fillEnv.start c size) e) : e.isInternal = false := by
  obtain ⟨before, q, after, f, hsplit, hbefore, hreject⟩ := he
  have hapart := pairwise_apart_placements T hrules hready
  rw [hsplit, List.pairwise_append, List.pairwise_cons] at hapart
  obtain ⟨hapart, -, hcross⟩ := hapart
  cases hreject with
  | refused e hrefuse =>
    refine not_internal_of_refuses T hready hbefore (fun x hx => ?_) hrefuse
    rw [hsplit]
    exact List.mem_append_left _ hx
  | full hneeds hfull =>
    exfalso
    have hused := hbefore.used_eq (Nat.le_refl _) hapart
    have hsame := (hbefore.needsSlot_eq (Nat.le_refl _) fun x hx =>
      hcross x hx q List.mem_cons_self).2
    have hfit := placements_fit T hrules hready hsize
    have hinherited := (Store.vtableSize_ok hsize)
    have hsizes : f.slots.size = size.length :=
      hbefore.size.trans (FillEnv.size_start hinherited.1 (by omega))
    have hcount : l.needsSlot c size q = true := hsame.symm.trans hneeds
    rw [hsplit, List.countP_append, List.countP_cons, if_pos hcount] at hfit
    have hstart : (l.fillEnv.start c size).used = size.inherited := rfl
    change f.used = _ + before.countP (l.needsSlot c size) at hused
    omega

/-! ## The whole class -/

include T hrules hready in
/-- **No class fails to be linked for an internal reason.** -/
theorem not_internal_of_linkFailure (he : l.LinkFailure c e) : e.isInternal = false := by
  cases he with
  | root => rfl
  | conflict e he =>
    obtain ⟨className, sel, typeName, loader, other, rfl⟩ := he
    rfl
  | vtable size e hsize he =>
    cases he with
    | rejected e he => exact not_internal_of_rejects T hrules hready hsize he
    | overflow f name n hplaced hfull =>
      exfalso
      have hused := hplaced.used_eq (Nat.le_refl _) (pairwise_apart_placements T hrules hready)
      have hfit := placements_fit T hrules hready hsize
      have hstart : (l.fillEnv.start c size).used = size.inherited := rfl
      change f.used = _ + (l.fillEnv.placements c).countP (l.needsSlot c size) at hused
      change size.length < f.used + (l.store.pendingMirandas c).length at hfull
      omega
    | unverified layout t f e hprep hbuilt hverify =>
      rw [hbuilt.verifyVTable_ok T.coherent T.wellFormed hready.hasClass hsize hprep] at hverify
      cases hverify

end OneClass

/-! ## Every call -/

variable {l : Linker}

/-- Linking keeps the origins of all tables, and fails for no internal reason. -/
theorem Constructed.linkRule_not_internal {P : Config → Prop} (h : Constructed P l)
    (hrules : l.store.AllConform) (root : Option ClassId) :
    LinkRule root l.config (LinksOn P l) (fun e => e.isInternal = false) where
  prepares := (h.linkRule root).prepares
  installs := (h.linkRule root).installs
  fails := fun t _ _ _ w hup hI hready he => by
    have hrules' : t.store.AllConform := hrules.grows h.sound.wellFormed hI.grows hI.size_eq
    exact not_internal_of_linkFailure (hI.traced h w hup) hrules' hready he
  tooDeep := fun _ => rfl

/-- **The internal failures of linking are unreachable.**  In a run that defines and links
classes, under settings that may change, let the classes be as the class-file format guarantees.
Then linking a class or a batch does not fail with a linkage error, with a missing table or with
an inconsistency, and what filling a table appends fits into the length that was computed for it.
-/
theorem internal_failures_unreachable (h : Reachable (Builds fun _ => True) l)
    (hrules : l.store.AllConform) :
    (∀ c, l.store.HasClass c → ∀ e t, link c l = .error e t → e.isInternal = false) ∧
    (∀ batch, (∀ c ∈ batch, l.store.HasClass c) → ∀ e t, linkAll batch l = .error e t →
      e.isInternal = false) ∧
    ∀ c size slots f, Ready l.store c → l.store.vtableSize l.config c = .ok size →
      l.fillEnv.placeAll c size.inherited (l.fillEnv.start c size) = .ok slots f →
        f.used + (l.store.pendingMirandas c).length ≤ size.length := by
  have hcons := h.constructed
  have w := hcons.sound.wellFormed
  have hup := hcons.sound.linkedUp
  have rule := hcons.linkRule_not_internal hrules l.registry.root
  refine ⟨fun c hc e t he => ?_, fun batch hbatch e t he => ?_,
    fun c size slots f hready hsize hf => ?_⟩
  · have hfail := ((link_outcome rule rfl w hup hcons.linksOn hc).of_error he).1
    rcases hfail with hfail | ⟨name, rfl⟩
    · exact hfail
    · rfl
  · exact ((linkAll_outcome rule rfl w hup hcons.linksOn hbatch).of_error he).1
  · have hplaced : l.fillEnv.PlacesAll c size.inherited (l.fillEnv.placements c)
        (l.fillEnv.start c size) f := FillEnv.placeAll_outcome.of_ok hf
    have hused := hplaced.used_eq (Nat.le_refl _)
      (pairwise_apart_placements hcons.traced hrules hready)
    have hfit := placements_fit hcons.traced hrules hready hsize
    have hstart : (l.fillEnv.start c size).used = size.inherited := rfl
    change f.used = _ + (l.fillEnv.placements c).countP (l.needsSlot c size) at hused
    omega

/-- An interface with a body and without, an abstract class that implements it, and two classes
below which declare the methods. -/
def mirandaRun : List Command :=
  let method (name : String) (word : UInt32) : Declaration :=
    { selector := ⟨name, "()V"⟩, word, code := [1] }
  [.define { name := "Object", methods := [method "hash" 0x11] },
   .define { name := "p/I", flags := .makeInterface {}, superclass := some ⟨0⟩,
             methods := [method "f" 0x401, method "g" 0x1] },
   .define { name := "p/A", superclass := some ⟨0⟩, interfaces := [⟨1⟩] },
   .define { name := "p/B", superclass := some ⟨2⟩, methods := [method "f" 0x1, method "h" 0x0] },
   .define { name := "q/C", superclass := some ⟨3⟩, methods := [method "g" 0x1, method "h" 0x1] },
   .link ⟨3⟩]

/-- Linking the last class fails for no internal reason, and its table is long enough. -/
theorem mirandaRun_links :
    let l := finish { config := .minimal } mirandaRun
    (∀ e t, link ⟨4⟩ l = .error e t → e.isInternal = false) ∧
      ∀ size slots f, l.store.vtableSize l.config ⟨4⟩ = .ok size →
        l.fillEnv.placeAll ⟨4⟩ size.inherited (l.fillEnv.start ⟨4⟩ size) = .ok slots f →
          f.used + (l.store.pendingMirandas ⟨4⟩).length ≤ size.length :=
  have hstart : Reachable (Builds fun _ => True) { config := .minimal } := .start ⟨rfl, rfl⟩ trivial
  have h := internal_failures_unreachable (hstart.finish (by decide +kernel)) (by decide +kernel)
  ⟨h.1 ⟨4⟩ (by decide +kernel), fun size slots f => h.2.2 ⟨4⟩ size slots f
    ⟨by decide +kernel, by decide +kernel, by decide +kernel⟩⟩

end Linker
end ClassLinking
