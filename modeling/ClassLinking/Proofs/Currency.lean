import ClassLinking.Proofs.Layout
import ClassLinking.Proofs.Runs
import Mathlib.Data.Nat.Bitwise

/-!
# Tables and replaced bodies

No table should refer to a replaced body.  A redefinition writes the new bodies into the tables of
all registered classes, so the tables that are there stay up to date.  Linking copies from the
superclass's table, from the declared methods and from the list of defaults.  The first two are up
to date, but the list of defaults was made when the class was defined, and a redefinition looks at
the defaults of linked classes only.

So a run keeps the tables up to date exactly if no step links a class one of whose defaults was
replaced before (`all_current_iff_fresh`).  The condition cannot be weakened, since every default of
a class gets a slot.

Redefinition walks over the registered classes.  All classes are registered as long as tokens
differ, that is, as long as the rows of class tokens fit into their 24 bits.
-/

namespace ClassLinking

/-! ## All classes are registered -/

section Tokens

variable {r : Registry} {token : Token} {c : ClassId} {classes : List (Token × ClassId)}

/-- The number of rows that a token can tell apart.  Taking a token asserts that its row is one of
them, so a theorem about what tokens are needed for assumes that the next row is at most this. -/
def Token.rows : Nat := 2 ^ 24

theorem toNat_classToken (h : r.nextClassRow < Token.rows) :
    r.classToken.value.toNat = Token.rows + r.nextClassRow := by
  have hrow : r.nextClassRow < 2 ^ 24 := h
  have hkind : ((Token.classKind.toUInt32 <<< 24 : UInt32)).toNat = 2 ^ 24 * 1 := by decide
  have hmask : (0x00FFFFFF : UInt32).toNat = 2 ^ 24 - 1 := by decide
  rw [Registry.classToken, Token.ofParts, UInt32.toNat_or, UInt32.toNat_and, hkind, hmask,
    Nat.and_two_pow_sub_one_eq_mod, UInt32.toNat_ofNat', Token.rows]
  rw [Nat.mod_eq_of_lt (show r.nextClassRow < 2 ^ 32 by omega), Nat.mod_eq_of_lt hrow,
    ← Nat.two_pow_add_eq_or_of_lt hrow, Nat.mul_one]

/-- A token above all others goes to the end. -/
theorem insertByToken_of_gt (h : ∀ e ∈ classes, e.1.value.toNat < token.value.toNat) :
    Registry.insertByToken token c classes = classes ++ [(token, c)] := by
  induction classes with
  | nil => rfl
  | cons e rest ih =>
    obtain ⟨u, d⟩ := e
    have hu : u.value.toNat < token.value.toNat := h (u, d) List.mem_cons_self
    unfold Registry.insertByToken
    rw [if_neg, if_neg, ih fun e he => h e (List.mem_cons_of_mem _ he)]
    · rfl
    · rw [UInt32.lt_iff_toNat_lt]
      omega
    · rintro rfl
      exact Nat.lt_irrefl _ hu

end Tokens

namespace Linker

variable {l t : Linker} {c holder : ClassId} {m : MethodId}

/-- Every class is registered, under a token of a row that is taken. -/
structure Complete (l : Linker) : Prop where
  rows : ∀ e ∈ l.registry.classes, e.1.value.toNat < Token.rows + l.registry.nextClassRow
  registered : ∀ c, l.store.HasClass c → c ∈ l.registry.all

/-- The step from `l` to `t` takes rows, and leaves no class unregistered while there are rows. -/
structure Counts (l t : Linker) : Prop where
  rows_le : l.registry.nextClassRow ≤ t.registry.nextClassRow
  complete : t.registry.nextClassRow ≤ Token.rows → l.Complete → t.Complete

theorem Counts.of_same (hclasses : t.registry.classes = l.registry.classes)
    (hrows : l.registry.nextClassRow ≤ t.registry.nextClassRow)
    (hsize : t.store.classes.size = l.store.classes.size) : l.Counts t where
  rows_le := hrows
  complete := fun _ h =>
    { rows := fun e he => by
        rw [hclasses] at he
        exact Nat.lt_of_lt_of_le (h.rows e he) (Nat.add_le_add_left hrows _)
      registered := fun c hc => by
        rw [Store.HasClass, hsize] at hc
        rw [all_eq_of_classes hclasses]
        exact h.registered c hc }

theorem Counts.of_defines (h : l.Defines t c) : l.Counts t where
  rows_le := by
    rw [h.nextClassRow]
    exact Nat.le_succ _
  complete := fun hrows hl => by
    rw [h.nextClassRow] at hrows
    have htoken := toNat_classToken (r := l.registry) (by omega)
    have hclasses : t.registry.classes = l.registry.classes ++ [(l.registry.classToken, c)] := by
      rw [h.classes, insertByToken_of_gt fun e he => by rw [htoken]; exact hl.rows e he]
    refine ⟨fun e he => ?_, fun e he => ?_⟩
    · rw [h.nextClassRow]
      rw [hclasses, List.mem_append, List.mem_singleton] at he
      rcases he with he | rfl
      · exact Nat.lt_succ_of_lt (hl.rows e he)
      · rw [htoken]
        exact Nat.lt_succ_self _
    · rw [Registry.all, hclasses, List.map_append, List.mem_append]
      rcases (h.hasClass_iff e).mp he with he | rfl
      · exact Or.inl (hl.registered e he)
      · exact Or.inr (List.mem_singleton_self e)

theorem Counts.of_numbers (h : l.Numbers t) : l.Counts t := by
  obtain ⟨n, rfl⟩ := h
  exact .of_same rfl (Nat.le_refl _) rfl

theorem Counts.of_redefined {r : RevisedClass} (h : Redefined l t r) : l.Counts t := by
  refine .of_same h.classes.1 ?_ h.size_eq
  obtain ⟨n, hn⟩ := h.registry
  rw [hn]
  exact Nat.le_refl _

theorem Counts.of_reaches {root : Option ClassId} {I : Store → Prop} (h : Reaches root I l t) :
    l.Counts t := by
  refine .of_same h.continues.classes ?_ h.size_eq
  rw [h.continues.registry]

/-- Every command counts the classes that it adds. -/
theorem Sound.counts (h : l.Sound) {x : Command} (hx : x.Admissible l.store) :
    l.Counts (x.after l) := by
  cases x with
  | define d =>
    exact ((define_outcome h.wellFormed hx).imp (fun _ _ ht => .of_defines ht)
      (fun _ t ht => .of_same ht.classes ht.nextClassRow_le (by rw [ht.store]))).final
  | link c =>
    exact ((link_outcome (linkRule_true _ _) rfl h.wellFormed h.linkedUp trivial hx).imp
      (fun _ _ ht => .of_reaches ht.2) (fun _ _ ht => .of_reaches ht.2)).final
  | linkAll batch =>
    exact ((linkAll_outcome (linkRule_true _ _) rfl h.wellFormed h.linkedUp trivial hx).imp
      (fun _ _ ht => .of_reaches ht) (fun _ _ ht => .of_reaches ht.2)).final
  | redefine holder ds =>
    refine ((Linker.redefine_outcome h.wellFormed hx h.nodup ds).imp (fun _ t ht => ?_)
      (fun _ t ht => ?_)).final
    · obtain ⟨r, -, -, hr, -⟩ := ht
      exact .of_redefined hr
    · rcases ht with ⟨hn, -⟩ | ⟨r, -, -, hr, -⟩
      · exact .of_numbers hn
      · exact .of_redefined hr
  | configure config conflicts consultsConflicts => exact .of_same rfl (Nat.le_refl _) rfl

/-! ## What a step does to the tables -/

/-- No table refers to a replaced body. -/
def AllCurrent (s : Store) : Prop := ∀ c m, s.RefersTo c m → s.isOld m = false

/-- No class that is linked from `s` to `t` has a default that was replaced before. -/
def Fresh (s t : Store) : Prop :=
  ∀ c, ¬ s.Linked c → t.Linked c → ∀ m ∈ (s.getClass c).defaults, s.isOld m = false

/-- Where a replaced body in new tables comes from. -/
theorem Installs.mem_of_isOld (h : l.Installs t c) (hcurrent : ∀ k,
    ∀ m ∈ (l.store.getClass k).methods, l.store.isOld m = false) (hm : t.store.RefersTo c m)
    (hold : t.store.isOld m = true) :
    (∃ p, l.store.RefersTo p m) ∨ m ∈ (l.store.getClass c).defaults := by
  obtain ⟨size, layout, itable, f, hlaid⟩ := h.tables
  have hsize := hlaid.sized
  have hbuilt := hlaid.built
  have htables := hlaid.tables
  have hold' : l.store.isOld m = true := by
    rw [Store.isOld, ← h.grows.isOld]
    exact hold
  have hdeclared : ∀ k, m ∉ (l.store.getClass k).methods := fun k hk => by
    rw [hcurrent k m hk] at hold'
    cases hold'
  obtain ⟨ts, hts, hrefers⟩ := hm
  rw [htables, Option.some.injEq] at hts
  subst hts
  rcases hrefers with hslot | hentry
  · obtain ⟨i, hi⟩ := List.mem_iff_getElem?.mp hslot
    have hmethod : layout.table.methodAt i = some m := by
      change layout.table.slots[i]? = _ at hi
      rw [VTable.methodAt, hi]
      rfl
    have hplaced : ∀ p ∈ l.fillEnv.placements c, p.method = m → m ∈ (l.store.getClass c).defaults :=
      fun p hp heq => by
        rcases FillEnv.mem_placements.mp hp with ⟨m', hm', rfl⟩ | ⟨m', hm', rfl⟩
        · exact absurd (heq ▸ hm') (hdeclared c)
        · exact heq ▸ hm'
    by_cases hlt : i < size.inherited
    · rcases hbuilt.methodAt_inherited hlt with hsame | ⟨p, hp, heq, -⟩
      · rw [hsame] at hmethod
        cases hp : (l.store.getClass c).superclass? with
        | none =>
          rw [show l.fillEnv.store = l.store from rfl, Store.inheritedAt_top hp] at hmethod
          cases hmethod
        | some p =>
          have hlen := (Store.vtableSize_ok hsize).1
          rw [hp, Store.inheritedLength] at hlen
          cases hts : (l.store.getClass p).tables with
          | none => simp [hts] at hlen
          | some ts =>
            rw [show l.fillEnv.store = l.store from rfl,
              Store.inheritedAt_of_superclass hp hts] at hmethod
            exact Or.inl ⟨p, ts, hts, Or.inl (List.mem_iff_getElem?.mpr
              ⟨i, Option.join_eq_some_iff.mp hmethod⟩)⟩
      · rw [heq, Option.some.injEq] at hmethod
        exact Or.inr (hplaced p hp hmethod)
    · rcases hbuilt.methodAt_own (Store.vtableSize_ok hsize).1 (by omega) hmethod with
        ⟨p, hp, heq, -⟩ | ⟨x, -, hx⟩
      · exact Or.inr (hplaced p hp heq)
      · exact absurd (Store.hasMethod_of_isOld hold') hx.isNew
  · rcases hlaid.mem_of_bound hentry with ⟨k, -, hk⟩ | hdefault
    · exact absurd hk (hdeclared k)
    · exact Or.inr hdefault

/-- New tables refer to every default of the class. -/
theorem Installs.refersTo_default (h : l.Installs t c) (hd : l.store.InheritsDefaults c)
    (hm : m ∈ (l.store.getClass c).defaults) : t.store.RefersTo c m := by
  obtain ⟨size, layout, itable, f, hsize, hbuilt, htables⟩ := h.tables
  obtain ⟨i, hi⟩ := hbuilt.exists_default (m := m) hd hm
  exact ⟨_, htables, Or.inl (List.mem_iff_getElem?.mpr ⟨i, Option.join_eq_some_iff.mp hi⟩)⟩

/-- What holds while a step from `l` links classes: the tables stay current if no default of a newly
linked class was replaced, and they refer to all of these defaults. -/
structure LinksFrom (l : Linker) (s : Store) : Prop where
  grows : l.store.Grows s
  size_eq : s.classes.size = l.store.classes.size
  current : Fresh l.store s → AllCurrent s
  defaults : ∀ c, ¬ l.store.Linked c → s.Linked c → ∀ m ∈ (l.store.getClass c).defaults,
    s.RefersTo c m

theorem refersTo_congr {s s' : Store} (h : s'.getClass c = s.getClass c) :
    s'.RefersTo c m ↔ s.RefersTo c m := by
  rw [Store.RefersTo, Store.RefersTo, h]

/-- One installation after the other. -/
theorem LinksFrom.installs {u : Linker} (hl : l.Sound) (h : LinksFrom l t.store)
    (hready : Ready t.store c) (hi : t.Installs u c) : LinksFrom l u.store := by
  have hc : l.store.HasClass c := by
    have hc := hready.hasClass
    rwa [Store.HasClass, h.size_eq] at hc
  have hunlinked : ¬ l.store.Linked c := fun hlinked => hready.unlinked (hlinked.grows h.grows)
  have hlinked : u.store.Linked c := by
    obtain ⟨_, _, _, _, _, _, htables⟩ := hi.tables
    exact Store.linked_iff.mpr ⟨_, htables⟩
  have hdefaults := h.grows.defaults hc
  have hinherits : t.store.InheritsDefaults c :=
    (hl.inheritsDefaults c hc hunlinked).of_eq hl.wellFormed hc h.grows.extends hdefaults
  have hdeclared : ∀ k, ∀ m ∈ (t.store.getClass k).methods, t.store.isOld m = false := by
    intro k m hm
    rw [Store.isOld, h.grows.isOld]
    by_cases hk : l.store.HasClass k
    · rw [h.grows.methods hk] at hm
      exact hl.current k m hm
    · rw [Store.getClass_of_not (by rwa [Store.HasClass, h.size_eq])] at hm
      exact absurd hm List.not_mem_nil
  refine ⟨h.grows.trans hi.grows, hi.size_eq.trans h.size_eq, fun hfresh d m hm => ?_,
    fun d hd hdu m hm => ?_⟩
  · have hcurrent := h.current fun e he het => hfresh e he (het.grows hi.grows)
    by_contra hold
    rw [Bool.not_eq_false] at hold
    have hold' : t.store.isOld m = true := by
      rw [Store.isOld, ← hi.grows.isOld]
      exact hold
    by_cases hdc : d = c
    · subst hdc
      rcases hi.mem_of_isOld hdeclared hm hold with ⟨p, hp⟩ | hdefault
      · rw [hcurrent p m hp] at hold'
        cases hold'
      · rw [hdefaults] at hdefault
        rw [Store.isOld, h.grows.isOld] at hold'
        have hfalse := hfresh d hunlinked hlinked m hdefault
        rw [Store.isOld, hold'] at hfalse
        cases hfalse
    · rw [refersTo_congr (hi.others d hdc)] at hm
      rw [hcurrent d m hm] at hold'
      cases hold'
  · by_cases hdc : d = c
    · subst hdc
      exact hi.refersTo_default hinherits (hdefaults ▸ hm)
    · rw [refersTo_congr (hi.others d hdc)]
      refine h.defaults d hd ?_ m hm
      rwa [Store.Linked, ← hi.others d hdc]

theorem linkRule_linksFrom (hl : l.Sound) (root : Option ClassId) (config : Config) :
    LinkRule root config (LinksFrom l) (fun _ => True) where
  prepares := fun s t _ w h hready hp =>
    have hgrows := hp.grows w (Store.tables_of_not_linked hready.unlinked)
    { grows := h.grows.trans hgrows
      size_eq := by rw [hp.classes_eq, h.size_eq]
      current := fun hfresh c m hm => by
        rw [refersTo_congr (hp.getClass c)] at hm
        rw [Store.isOld, hgrows.isOld]
        refine h.current (fun d hd hds => hfresh d hd ?_) c m hm
        rwa [hp.linked_iff]
      defaults := fun c hc hct m hm => by
        rw [refersTo_congr (hp.getClass c)]
        refine h.defaults c hc ?_ m hm
        rwa [hp.linked_iff] at hct }
  installs := fun _ _ _ _ _ _ h hready hi _ => h.installs hl hready hi
  fails := fun _ _ _ _ _ _ _ _ _ => trivial
  tooDeep := fun _ => trivial

theorem linksFrom_refl (hcurrent : AllCurrent l.store) : LinksFrom l l.store where
  grows := .refl _
  size_eq := rfl
  current := fun _ => hcurrent
  defaults := fun _ hc hc' => absurd hc' hc

/-- Linking keeps the tables current exactly if it is fresh. -/
theorem allCurrent_iff_of_linksFrom (h : LinksFrom l t.store) :
    AllCurrent t.store ↔ Fresh l.store t.store := by
  refine ⟨fun hcurrent c hc hct m hm => ?_, fun hfresh => h.current hfresh⟩
  rw [Store.isOld, ← h.grows.isOld]
  exact hcurrent c m (h.defaults c hc hct m hm)

/-- A step that links nothing is fresh. -/
theorem fresh_of_no_links {s t : Store} (h : ∀ c, t.Linked c → s.Linked c) : Fresh s t :=
  fun c hc hct => absurd (h c hct) hc

/-- A redefinition keeps the tables current. -/
theorem AllCurrent.redefined {r : RevisedClass} {ds : List Declaration}
    (hcurrent : AllCurrent l.store) (hl : l.Sound) (hcomplete : l.Complete)
    (hholder : l.store.HasClass r.holder) (hp : l.Prepared holder ds r) (h : Redefined l t r) :
    AllCurrent t.store := fun c m hm => by
  have hc : l.store.HasClass c := by
    obtain ⟨ts, hts, -⟩ := hm
    have hc := Store.hasClass_of_tables hts
    rwa [Store.HasClass, h.size_eq] at hc
  have hregistered := hcomplete.registered c hc
  have hcheck := (h.checkNoOldEntries_iff hp hl.wellFormed hholder (hl.current _) hregistered).mpr
    (Store.checkNoOldEntries_iff.mpr (hcurrent c))
  exact Store.checkNoOldEntries_iff.mp hcheck m hm

/-- **One step.**  A command keeps the tables current exactly if it is fresh. -/
theorem Sound.allCurrent_iff (h : l.Sound) (hcomplete : l.Complete) (hcurrent : AllCurrent l.store)
    {x : Command} (hx : x.Admissible l.store) :
    AllCurrent (x.after l).store ↔ Fresh l.store (x.after l).store := by
  have hlinks := linkRule_linksFrom h l.registry.root l.config
  have hstart := linksFrom_refl hcurrent
  cases x with
  | define d =>
    refine (Outcome.final (P := fun t => AllCurrent t.store ∧ Fresh l.store t.store)
      ((define_outcome h.wellFormed hx).imp (fun c t ht => ?_) (fun _ t ht => ?_))).elim
      fun h₁ h₂ => iff_of_true h₁ h₂
    · have hold : ∀ e, t.store.Linked e → l.store.HasClass e ∧
          t.store.getClass e = l.store.getClass e := fun e he => by
        have hne : e ≠ c := fun hec => by
          rw [hec, Store.Linked, Class.isLinked, ht.tables] at he
          exact absurd he (by simp)
        have hhas := ((ht.hasClass_iff e).mp he.hasClass).resolve_right hne
        exact ⟨hhas, ht.others e hhas⟩
      refine ⟨fun e m hm => ?_, fresh_of_no_links fun e he => ?_⟩
      · obtain ⟨ts, hts, -⟩ := id hm
        rw [refersTo_congr (hold e (Store.linked_iff.mpr ⟨ts, hts⟩)).2] at hm
        rw [Store.isOld, ht.grows.isOld]
        exact hcurrent e m hm
      · have heq := (hold e he).2
        rwa [Store.Linked, heq] at he
    · rw [ht.store]
      exact ⟨hcurrent, fresh_of_no_links fun _ he => he⟩
  | link c =>
    exact allCurrent_iff_of_linksFrom
      ((link_outcome hlinks rfl h.wellFormed h.linkedUp hstart hx).imp (fun _ _ ht => ht.2.holds)
        (fun _ _ ht => ht.2.holds)).final
  | linkAll batch =>
    exact allCurrent_iff_of_linksFrom
      ((linkAll_outcome hlinks rfl h.wellFormed h.linkedUp hstart hx).imp (fun _ _ ht => ht.holds)
        (fun _ _ ht => ht.2.holds)).final
  | redefine holder ds =>
    have hredefined : ∀ t, ∀ r, l.Prepared holder ds r → r.holder = holder → Redefined l t r →
        AllCurrent t.store ∧ Fresh l.store t.store := fun t r hp heq hr =>
      ⟨hcurrent.redefined h hcomplete (heq ▸ hx) hp hr,
        fresh_of_no_links fun c hc => hr.linked_iff.mp hc⟩
    refine (Outcome.final (P := fun t => AllCurrent t.store ∧ Fresh l.store t.store)
      ((Linker.redefine_outcome h.wellFormed hx h.nodup ds).imp (fun _ t ht => ?_)
        (fun _ t ht => ?_))).elim fun h₁ h₂ => iff_of_true h₁ h₂
    · obtain ⟨r, hp, heq, hr, -⟩ := ht
      exact hredefined t r hp heq hr
    · rcases ht with ⟨hn, -⟩ | ⟨r, hp, heq, hr, -⟩
      · rw [hn.store]
        exact ⟨hcurrent, fresh_of_no_links fun _ hc => hc⟩
      · exact hredefined t r hp heq hr
  | configure config conflicts consultsConflicts =>
    exact iff_of_true hcurrent (fresh_of_no_links fun _ hc => hc)

/-! ## Runs -/

/-- The states that a run goes through, the first and the last one included. -/
def states : Linker → List Command → List Linker
  | l, [] => [l]
  | l, x :: xs => l :: states (x.after l) xs

/-- No step of a run links a class that has a default which was replaced before. -/
def FreshRun : Linker → List Command → Prop
  | _, [] => True
  | l, x :: xs => Fresh l.store (x.after l).store ∧ FreshRun (x.after l) xs

theorem IsEmpty.complete (h : l.IsEmpty) : l.Complete where
  rows := fun e he => by
    rw [h.registry] at he
    exact absurd he List.not_mem_nil
  registered := fun c hc => by
    rw [h.store] at hc
    exact absurd hc (Nat.not_lt_zero _)

theorem IsEmpty.allCurrent (h : l.IsEmpty) : AllCurrent l.store := fun c m hm => by
  obtain ⟨ts, hts, -⟩ := hm
  have hc := Store.hasClass_of_tables hts
  rw [h.store] at hc
  exact absurd hc (Nat.not_lt_zero _)

/-- The rows that are taken stay taken to the end of a run. -/
theorem Sound.rows_le_finish (h : l.Sound) {xs : List Command}
    (hxs : Admits (fun _ => True) l xs) :
    l.registry.nextClassRow ≤ (l.finish xs).registry.nextClassRow := by
  induction xs generalizing l with
  | nil => exact Nat.le_refl _
  | cons x xs ih =>
    exact Nat.le_trans (h.counts hxs.2.1).rows_le (ih (h.after hxs.2.1) hxs.2.2)

/-- Checking all registered classes is checking all classes. -/
theorem Complete.allCurrent_iff (h : l.Complete) :
    AllCurrent l.store ↔ ∀ c ∈ l.registry.all, l.store.checkNoOldEntries c = .ok () := by
  constructor
  · exact fun hcurrent c _ => Store.checkNoOldEntries_iff.mpr (hcurrent c)
  · intro hall c m hm
    obtain ⟨ts, hts, -⟩ := id hm
    exact Store.checkNoOldEntries_iff.mp
      (hall c (h.registered c (Store.hasClass_of_tables hts))) m hm

theorem Sound.states_allCurrent_iff (h : l.Sound) (hcomplete : l.Complete)
    (hcurrent : AllCurrent l.store) {xs : List Command} (hxs : Admits (fun _ => True) l xs)
    (hrows : (l.finish xs).registry.nextClassRow ≤ Token.rows) :
    (∀ t ∈ l.states xs, ∀ c ∈ t.registry.all, t.store.checkNoOldEntries c = .ok ()) ↔
      FreshRun l xs := by
  induction xs generalizing l with
  | nil =>
    simp only [states, List.mem_singleton, forall_eq, FreshRun, iff_true]
    exact hcomplete.allCurrent_iff.mp hcurrent
  | cons x xs ih =>
    have hsound := h.after hxs.2.1
    have hcounts := h.counts hxs.2.1
    have hcomplete' := hcounts.complete
      (Nat.le_trans (hsound.rows_le_finish hxs.2.2) hrows) hcomplete
    have hstep := h.allCurrent_iff hcomplete hcurrent hxs.2.1
    simp only [states, List.mem_cons, forall_eq_or_imp, FreshRun]
    rw [← hcomplete.allCurrent_iff]
    constructor
    · rintro ⟨-, hrest⟩
      have hcurrent' : AllCurrent (x.after l).store :=
        hcomplete'.allCurrent_iff.mpr (hrest _ (by cases xs <;> exact List.mem_cons_self))
      exact ⟨hstep.mp hcurrent', (ih hsound hcomplete' hcurrent' hxs.2.2 hrows).mp hrest⟩
    · rintro ⟨hfresh, hrest⟩
      have hcurrent' := hstep.mpr hfresh
      exact ⟨hcurrent, (ih hsound hcomplete' hcurrent' hxs.2.2 hrows).mpr hrest⟩

/-- **When tables refer to replaced bodies.**  In all states of a run the tables of all registered
classes refer to current bodies exactly if no step of the run links a class with a default that was
replaced before.  The bound `hrows` is the one that is asserted whenever a class takes a token. -/
theorem all_current_iff_fresh (h : l.IsEmpty) {xs : List Command}
    (hxs : Admits (fun _ => True) l xs)
    (hrows : (l.finish xs).registry.nextClassRow ≤ Token.rows) :
    (∀ t ∈ l.states xs, ∀ c ∈ t.registry.all, t.store.checkNoOldEntries c = .ok ()) ↔
      FreshRun l xs :=
  h.sound.states_allCurrent_iff h.complete h.allCurrent hxs hrows

/-- A public method of a run. -/
def publicMethod (name : String) (code : List UInt8) : Declaration :=
  { selector := ⟨name, "()V"⟩, word := 1, code }

/-- The interface that a class inherits a default from is redefined after the class was defined and
before it is linked. -/
def staleRun : List Command :=
  [.define { name := "Object" },
   .define { name := "I", flags := .makeInterface {}, methods := [publicMethod "g" [1]] },
   .define { name := "C", superclass := some ⟨0⟩, interfaces := [⟨1⟩]
             methods := [publicMethod "h" [1]] },
   .link ⟨1⟩,
   .redefine ⟨1⟩ [publicMethod "g" [2]],
   .link ⟨2⟩]

/-- The last step of the run puts a replaced body into a table. -/
theorem staleRun_not_all_current :
    ¬ ∀ t ∈ states { config := .minimal } staleRun, ∀ c ∈ t.registry.all,
      t.store.checkNoOldEntries c = .ok () := fun hall => by
  obtain ⟨-, -, -, -, -, hfresh, -⟩ :=
    (all_current_iff_fresh ⟨rfl, rfl⟩ (by decide +kernel) (by decide +kernel)).mp hall
  have hcurrent := hfresh ⟨2⟩ (by decide +kernel) (by decide +kernel) ⟨0⟩ (by decide +kernel)
  exact absurd hcurrent (by decide +kernel)

end Linker
end ClassLinking
