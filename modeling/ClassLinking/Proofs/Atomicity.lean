import ClassLinking.Proofs.Currency

/-!
# Redefinitions that fail

A redefinition checks and plans everything before it changes anything, so that one which is
refused has taken method tokens and done nothing else.  There is one check behind the point of no
return: the tables that were adjusted must not refer to a replaced body.  Adjusting never makes
them refer to one, so the check finds what the tables referred to before.

Hence a redefinition fails half-way exactly if a class whose tables are to be adjusted refers to a
replaced body already (`fails_changed_iff`).  That can happen: a class that was defined before an
interface was redefined and is linked afterwards takes the interface's replaced bodies from its list
of defaults.
-/

namespace ClassLinking
namespace Linker

variable {allowed : Command → Prop} {l t : Linker} {c holder : ClassId} {ds : List Declaration}

/-- The class `holder` declares what it did, every body that was there has its revision and its
dispatch index, every class has its tables and its defaults, and no adjusted entry was counted. -/
structure Unchanged (holder : ClassId) (l t : Linker) : Prop where
  methods : (t.store.getClass holder).methods = (l.store.getClass holder).methods
  revision : ∀ m, l.store.HasMethod m →
    (t.store.getMethod m).revision = (l.store.getMethod m).revision
  dispatch : ∀ m, l.store.HasMethod m →
    (t.store.getMethod m).dispatch = (l.store.getMethod m).dispatch
  tables : ∀ c, (t.store.getClass c).tables = (l.store.getClass c).tables
  defaults : ∀ c, (t.store.getClass c).defaults = (l.store.getClass c).defaults
  entriesAdjusted : t.statistics.entriesAdjusted = l.statistics.entriesAdjusted

theorem Numbers.unchanged (h : l.Numbers t) : Unchanged holder l t := by
  obtain ⟨n, rfl⟩ := h
  exact ⟨rfl, fun _ _ => rfl, fun _ _ => rfl, fun _ => rfl, fun _ => rfl, rfl⟩

/-- A class that declares a method declares another list of methods after it was redefined. -/
theorem Redefined.changed {r : RevisedClass} (h : Redefined l t r) (w : l.store.WellFormed root)
    (hholder : l.store.HasClass r.holder) {m : MethodId}
    (hm : m ∈ (l.store.getClass r.holder).methods) : ¬ Unchanged r.holder l t :=
  fun hunchanged => by
  have hsame := hunchanged.methods
  rw [h.methods, if_pos rfl] at hsame
  exact (h.declared m (hsame ▸ hm)).1 ((w.fits _ hholder).methods m hm).1

/-- A class whose tables the redefinition of `holder` adjusts refers to a replaced body. -/
def FindsOldEntry (l : Linker) (holder : ClassId) : Prop :=
  ∃ c ∈ l.registry.all, RefersToMethodOf l.store c holder ∧ ¬ l.store.checkNoOldEntries c = .ok ()

instance (l : Linker) (holder : ClassId) : Decidable (l.FindsOldEntry holder) :=
  inferInstanceAs (Decidable (∃ c ∈ _, _ ∧ _))

/-- **When a redefinition fails half-way.**  It fails and has changed more than the next tokens
exactly if it passes every check before the swap and a class whose tables it adjusts refers to a
replaced body from before. -/
theorem fails_changed_iff (h : Reachable allowed l) (hholder : holder ∈ l.registry.all)
    (ds : List Declaration) :
    (∃ e t, redefine holder ds l = .error e t ∧ ¬ Unchanged holder l t) ↔
      (∃ r, l.Prepared holder ds r) ∧ l.FindsOldEntry holder := by
  have hs := h.sound
  have hhas := hs.registered holder hholder
  have houtcome := redefine_outcome hs.wellFormed hhas hs.nodup ds
  constructor
  · rintro ⟨e, t, hrun, hchanged⟩
    rcases houtcome.of_error hrun with ⟨hn, -⟩ | ⟨r, hp, rfl, hr, c, hc, hrefers, hcheck⟩
    · exact absurd hn.unchanged hchanged
    · refine ⟨⟨r, hp⟩, c, hc, hrefers, fun hok => hcheck ?_⟩
      exact (hr.checkNoOldEntries_iff hp hs.wellFormed hhas (hs.current _) hc).mpr hok
  · rintro ⟨⟨r, hp⟩, c, hc, hrefers, hold⟩
    cases hrun : redefine holder ds l with
    | ok report t =>
      obtain ⟨r, hp, rfl, hr, hcheck⟩ := houtcome.of_ok hrun
      refine absurd ?_ hold
      exact (hr.checkNoOldEntries_iff hp hs.wellFormed hhas (hs.current _) hc).mp
        (hcheck c hc hrefers)
    | error e t =>
      rcases houtcome.of_error hrun with ⟨-, hno⟩ | ⟨r, -, rfl, hr, -⟩
      · exact absurd ⟨r, hp⟩ hno
      · obtain ⟨m, hm, -⟩ := hrefers
        exact ⟨e, t, rfl, hr.changed hs.wellFormed hhas hm⟩

/-- After `staleRun`, redefining the class that was linked last fails half-way. -/
theorem staleRun_fails_changed :
    ∃ e t, redefine ⟨2⟩ [publicMethod "h" [2]] (finish { config := .minimal } staleRun) =
      .error e t ∧
      ¬ Unchanged ⟨2⟩ (finish { config := .minimal } staleRun) t :=
  have hstart : Reachable (fun _ => True) { config := .minimal } := .start ⟨rfl, rfl⟩ trivial
  (fails_changed_iff (hstart.finish (by decide +kernel)) (by decide +kernel) _).mpr
    ⟨by decide +kernel, by decide +kernel⟩

end Linker
end ClassLinking
