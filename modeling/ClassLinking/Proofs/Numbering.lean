import ClassLinking.Proofs.Steps

/-!
# The numbers of methods

A definition numbers its methods from zero.  A redefinition lets a method keep its number as long as
the class goes on declaring its selector, and counts on for added methods from the highest number in
use.  So a number that was given up may be given to another method later on, by another
redefinition, but no redefinition gives an added method a number that was in use before it
(`Linker.KeepsNumbers`).

Numbers have sixteen bits.  Definitions and redefinitions refuse what they cannot number, so
counting never goes past the end (`Store.OrdinalsFit`), and two numbers that differ still differ in
sixteen bits.
-/

namespace ClassLinking

/-- All ordinals of declared methods have sixteen bits. -/
def Store.OrdinalsFit (s : Store) : Prop :=
  ∀ c, ∀ m ∈ (s.getClass c).methods, (s.getMethod m).idnum < maxMethods

namespace Linker

variable {l t : Linker} {holder c : ClassId} {ds : List Declaration} {r : RevisedClass}
  {x : Command}

/-! ## What fits -/

theorem idnum_lt_of_mem_declaredMethods {registry : Registry} {ds : List Declaration} {y : Method}
    (hy : y ∈ declaredMethods registry c ds) : y.idnum < ds.length := by
  rw [declaredMethods, List.mem_mapIdx] at hy
  obtain ⟨i, hi, rfl⟩ := hy
  exact hi

/-- A class that keeps its methods keeps their numbers. -/
theorem idnum_of_extends {root : Option ClassId} {s s' : Store} (w : s.WellFormed root)
    (hext : s.Extends s') (hc : s.HasClass c) {m : MethodId} (hm : m ∈ (s.getClass c).methods) :
    (s'.getMethod m).idnum = (s.getMethod m).idnum := by
  rw [hext.method_eq m ((w.fits c hc).methods m hm).1]

theorem ordinalsFit_of_extends (hl : l.Sound) (h : l.store.OrdinalsFit)
    (hext : l.store.Extends t.store)
    (heq : ∀ c, (t.store.getClass c).methods = (l.store.getClass c).methods) :
    t.store.OrdinalsFit := fun c m hm => by
  rw [heq] at hm
  rw [idnum_of_extends hl.wellFormed hext (Store.hasClass_of_mem_methods hm) hm]
  exact h c m hm

/-- **A redefinition gives out numbers of sixteen bits.** -/
theorem Redefined.ordinalsFit (hr : Redefined l t r) (hp : l.Prepared holder ds r) (hl : l.Sound)
    (h : l.store.OrdinalsFit) : t.store.OrdinalsFit := fun c m hm => by
  rw [hr.methods] at hm
  split at hm
  · obtain ⟨⟨n, y⟩, hy, rfl⟩ := List.mem_map.mp hm
    rw [hr.getMethod_of_mem hy]
    show y.body.idnum < maxMethods
    cases hprevious : y.previous with
    | none => exact (hp.accepted.methods _ hy).numbered hprevious
    | some b =>
      rw [(hr.matched.methods _ hy).idnum b hprevious]
      exact h _ b (RevisedClass.mem_of_previous hr.matched hy hprevious).1
  · rw [idnum_of_extends hl.wellFormed hr.extends_ (Store.hasClass_of_mem_methods hm) hm]
    exact h c m hm

/-- **A definition gives out numbers of sixteen bits.** -/
theorem Defines.ordinalsFit {d : ClassDefinition} (hd : l.Defines t c)
    (hdeclared : DeclaredBy d l t c) (hl : l.Sound) (h : l.store.OrdinalsFit) :
    t.store.OrdinalsFit := fun e m hm => by
  by_cases he : l.store.HasClass e
  · rw [hd.others e he] at hm
    rw [idnum_of_extends hl.wellFormed hd.grows.extends he hm]
    exact h e m hm
  · have hec : e = c :=
      ((hd.hasClass_iff e).mp (Store.hasClass_of_mem_methods hm)).resolve_left he
    subst hec
    have hmem : t.store.getMethod m ∈ declaredMethods l.registry e d.methods :=
      hdeclared.methods ▸ List.mem_map_of_mem hm
    have hlt := idnum_lt_of_mem_declaredMethods hmem
    have hle := hdeclared.numbered
    omega

/-- **Every command keeps numbers within sixteen bits.** -/
theorem Sound.ordinalsFit_after (hl : l.Sound) (h : l.store.OrdinalsFit)
    (hx : x.Admissible l.store) : (x.after l).store.OrdinalsFit := by
  have hsteps := hl.steps_true hx
  generalize x.after l = t at hsteps ⊢
  cases hsteps with
  | defines hd hdeclared => exact hd.ordinalsFit hdeclared hl h
  | links _ hr => exact ordinalsFit_of_extends hl h hr.grows.extends hr.methods
  | redefines hp _ hr => exact hr.ordinalsFit hp hl h
  | keeps _ hstore _ =>
    rw [hstore]
    exact h

theorem IsEmpty.ordinalsFit (h : l.IsEmpty) : l.store.OrdinalsFit := fun c m hm => by
  rw [h.methods_eq_nil] at hm
  exact absurd hm List.not_mem_nil

theorem Maintained.ordinalsFit (h : Maintained l) : l.store.OrdinalsFit :=
  h.of_declared (fun _ => IsEmpty.ordinalsFit) (fun _ _ hl hI hx => hl.ordinalsFit_after hI hx)
    fun _ _ hl hI hext heq => ordinalsFit_of_extends hl hI hext heq

/-! ## What a redefinition does to the numbers -/

/-- Redefining `holder` has led from `l` to `t` and has kept its numbers apart. -/
structure KeepsNumbers (l t : Linker) (holder : ClassId) : Prop where
  /-- A method keeps its number and its dispatch index as long as its selector is declared. -/
  kept : ∀ m ∈ (l.store.getClass holder).methods, ∀ n ∈ (t.store.getClass holder).methods,
    t.store.selector n = l.store.selector m →
      (t.store.getMethod n).idnum = (l.store.getMethod m).idnum ∧
      (t.store.getMethod n).dispatch = (l.store.getMethod m).dispatch
  /-- A method whose selector was not declared has a number that was not in use. -/
  added : ∀ n ∈ (t.store.getClass holder).methods,
    (∀ m ∈ (l.store.getClass holder).methods, l.store.selector m ≠ t.store.selector n) →
      ∀ m ∈ (l.store.getClass holder).methods,
        (t.store.getMethod n).idnum ≠ (l.store.getMethod m).idnum

/-- **A redefinition keeps the numbers of methods apart.** -/
theorem Redefined.keepsNumbers (hr : Redefined l t r) (hp : l.Prepared holder ds r) (hl : l.Sound)
    (hholder : l.store.HasClass r.holder)
    (hdistinct : ((l.store.getClass r.holder).methods.map l.store.selector).Nodup) :
    l.KeepsNumbers t r.holder where
  kept := fun m hm n hn hsel => by
    obtain ⟨y, hy, hprevious⟩ := hr.exists_previous_of_selector hdistinct hm hn hsel
    refine ⟨?_, (hr.succeeds hp hl.wellFormed hholder hy hprevious).dispatch⟩
    rw [hr.getMethod_of_mem hy]
    exact (hr.matched.methods _ hy).idnum m hprevious
  added := fun n hn hnew m hm => by
    rw [hr.methods, if_pos rfl] at hn
    obtain ⟨⟨n, y⟩, hy, rfl⟩ := List.mem_map.mp hn
    have hget := hr.getMethod_of_mem hy
    have hprevious : y.previous = none := by
      refine Option.eq_none_iff_forall_ne_some.mpr fun b hb => ?_
      obtain ⟨hmem, hsel⟩ := RevisedClass.mem_of_previous hr.matched hy hb
      refine hnew b hmem (hsel.trans ?_)
      rw [Store.selector, hget]
    have hnext : l.store.nextIdnum r.holder ≤ y.body.idnum := hp.accepted.ordinals _ hy hprevious
    have hlt := Store.idnum_lt_nextIdnum hm
    rw [hget]
    show y.body.idnum ≠ _
    omega

/-- **Methods are numbered apart, and keep their numbers.**  In every state that commands, new
bodies and replacements of single methods lead to, the methods of a class have numbers of their own,
which have sixteen bits.  A redefinition that succeeds, of a class that declares no selector twice,
lets every selector that is declared before and after keep its number and its dispatch index, and
gives every other method a number that none of the previous methods had. -/
theorem Maintained.numbering_stable (h : Maintained l) :
    (∀ c, ((l.store.getClass c).methods.map fun m => (l.store.getMethod m).idnum).Nodup ∧
      ∀ m ∈ (l.store.getClass c).methods, (l.store.getMethod m).idnum < maxMethods) ∧
    ∀ holder ds report t, l.store.HasClass holder →
      ((l.store.getClass holder).methods.map l.store.selector).Nodup →
      redefine holder ds l = .ok report t → l.KeepsNumbers t holder := by
  refine ⟨fun c => ⟨h.distinctOrdinals c, h.ordinalsFit c⟩, ?_⟩
  intro holder ds report t hholder hdistinct hrun
  have hsound := h.sound
  obtain ⟨r, hp, rfl, hr, -⟩ :=
    (redefine_outcome hsound.wellFormed hholder hsound.nodup ds).of_ok hrun
  exact hr.keepsNumbers hp hsound hholder hdistinct

/-- A class with three methods loses the one with the highest number. -/
def droppedRun : List Command :=
  [.define { name := "Object" },
   .define { name := "A", superclass := some ⟨0⟩
             methods := [publicMethod "f" [1], publicMethod "g" [1],
                         { selector := ⟨"s", "()V"⟩, word := 0x9, code := [1] }] },
   .link ⟨1⟩,
   .redefine ⟨1⟩ [publicMethod "g" [2], publicMethod "f" [1]]]

/-- The methods that are left, and an added one between them. -/
def extendedMethods : List Declaration :=
  [publicMethod "f" [2], { selector := ⟨"k", "()V"⟩, word := 0x9, code := [1] },
   publicMethod "g" [2]]

/-- The next method that is added gets the number that was given up. -/
theorem droppedRun_keepsNumbers :
    ∃ report t, redefine ⟨1⟩ extendedMethods (finish { config := .minimal } droppedRun) =
        .ok report t ∧
      (t.store.getClass ⟨1⟩).methods.map (fun m => (t.store.getMethod m).idnum) = [0, 2, 1] ∧
      (finish { config := .minimal } droppedRun).KeepsNumbers t ⟨1⟩ := by
  have hstart : Reachable (fun _ => True) { config := .minimal } := .start ⟨rfl, rfl⟩ trivial
  have hreach : Reachable (fun _ => True) (finish { config := .minimal } droppedRun) :=
    hstart.finish (by decide +kernel)
  obtain ⟨report, t, hok, hnumbers⟩ := Outcome.exists_ok (x := redefine ⟨1⟩ extendedMethods)
    (s := finish { config := .minimal } droppedRun)
    (Q := fun _ t => (t.store.getClass ⟨1⟩).methods.map (fun m => (t.store.getMethod m).idnum) =
      [0, 2, 1]) (by decide +kernel)
  exact ⟨report, t, hok, hnumbers, hreach.maintained.numbering_stable.2 ⟨1⟩ _ report t
    (by decide +kernel) (by decide +kernel) hok⟩

end Linker
end ClassLinking
