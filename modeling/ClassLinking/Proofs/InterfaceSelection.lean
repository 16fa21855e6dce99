import ClassLinking.Proofs.Steps

/-!
# What interface calls select

An entry of an interface table is bound to a method that is public, not static and not abstract.
Filling a table makes sure of all three (`Installs.serves`), and that the method has the selector of
the interface method whose number the entry has.

A redefinition writes other methods into entries.  It compares the new body with the old one, but
only the access level, the staticness and the selector, so that the entries stay bound to public
instance methods of the right selector (`Redefined.servesInterfaces`).  Whether the body is abstract
it does not compare, and a selection does not look at it either.  So the methods that interface
calls select have bodies in all states of a run exactly if no redefinition goes through that gives
an abstract body for a method which an entry is bound to (`interface_selection`).
-/

namespace ClassLinking

/-! ## Reading entries -/

/-- Exchanging the methods of a table exchanges them in its entries. -/
theorem ITable.entry?_exchange (f : MethodId → MethodId) (t : ITable) (i : ClassId) (k : Nat) :
    ITable.entry? { t with entries := t.entries.map (ITableEntry.exchange f) } i k =
      (t.entry? i k).map (ITableEntry.exchange f) := by
  have hblock : ITable.block? { t with entries := t.entries.map (ITableEntry.exchange f) } i =
      t.block? i := by
    unfold block? headerWords
    dsimp only
    rw [List.length_map]
  unfold entry?
  rw [hblock]
  cases t.block? i with
  | none => rfl
  | some b =>
    dsimp only
    split
    · rw [List.getElem?_map]
    · rfl

theorem ITableEntry.exchange_eq_bound {f : MethodId → MethodId} {e : ITableEntry} {n : MethodId} :
    e.exchange f = .bound n ↔ ∃ m, e = .bound m ∧ f m = n := by
  cases e <;> simp [exchange]

namespace Store

variable {s t : Store} {c i : ClassId} {k : Nat} {m n : MethodId}
  {f : MethodId → MethodId}

/-- Some entry in the interface table of `c` is bound to `m`. -/
def IsBoundTo (s : Store) (c : ClassId) (m : MethodId) : Prop :=
  ∃ ts, (s.getClass c).tables = some ts ∧ .bound m ∈ ts.itable.entries

instance (s : Store) (c : ClassId) (m : MethodId) : Decidable (s.IsBoundTo c m) :=
  decidable_of_iff ((s.getClass c).tables.any fun ts => decide (.bound m ∈ ts.itable.entries))
    (by simp [IsBoundTo, Option.any_eq_true])

/-- An interface call on `c` for the method of `i` with the number `k` selects `m`. -/
def Selects (s : Store) (c i : ClassId) (k : Nat) (m : MethodId) : Prop :=
  ∃ ts, (s.getClass c).tables = some ts ∧ s.selectInterface c i ts.itable k = .ok m

theorem selects_iff : s.Selects c i k m ↔
    ∃ ts, (s.getClass c).tables = some ts ∧ ts.itable.entry? i k = some (.bound m) := by
  refine exists_congr fun ts => and_congr_right fun _ => ?_
  unfold selectInterface
  cases ts.itable.entry? i k with
  | none => simp
  | some e => cases e <;> simp

/-- What is selected stands in the table. -/
theorem Selects.isBoundTo (h : s.Selects c i k m) : s.IsBoundTo c m := by
  obtain ⟨ts, hts, hentry⟩ := selects_iff.mp h
  refine ⟨ts, hts, ?_⟩
  unfold ITable.entry? at hentry
  split at hentry
  · split at hentry
    · exact List.mem_of_getElem? hentry
    · cases hentry
  · cases hentry

theorem IsBoundTo.refersTo (h : s.IsBoundTo c m) : s.RefersTo c m :=
  h.imp fun _ h => ⟨h.1, Or.inr h.2⟩

theorem IsBoundTo.linked (h : s.IsBoundTo c m) : s.Linked c :=
  linked_iff.mpr (h.imp fun _ h => h.1)

theorem isBoundTo_congr (h : (t.getClass c).tables = (s.getClass c).tables) :
    t.IsBoundTo c m ↔ s.IsBoundTo c m := by
  rw [IsBoundTo, IsBoundTo, h]

theorem selects_congr (h : (t.getClass c).tables = (s.getClass c).tables) :
    t.Selects c i k m ↔ s.Selects c i k m := by
  rw [selects_iff, selects_iff, h]

theorem isBoundTo_exchange (h : (t.getClass c).tables = (s.getClass c).tables.map
    (Tables.exchange f)) : t.IsBoundTo c n ↔ ∃ m, s.IsBoundTo c m ∧ f m = n := by
  unfold IsBoundTo
  rw [h]
  cases (s.getClass c).tables with
  | none => simp
  | some ts =>
    simp only [Option.map_some, Option.some.injEq, exists_eq_left', Tables.exchange, List.mem_map,
      ITableEntry.exchange_eq_bound]
    constructor
    · rintro ⟨e, he, m, rfl, hm⟩
      exact ⟨m, he, hm⟩
    · rintro ⟨m, he, hm⟩
      exact ⟨_, he, m, rfl, hm⟩

theorem selects_exchange (h : (t.getClass c).tables = (s.getClass c).tables.map
    (Tables.exchange f)) : t.Selects c i k n ↔ ∃ m, s.Selects c i k m ∧ f m = n := by
  simp only [selects_iff]
  rw [h]
  cases (s.getClass c).tables with
  | none => simp
  | some ts =>
    simp only [Option.map_some, Option.some.injEq, exists_eq_left', Tables.exchange,
      ITable.entry?_exchange, Option.map_eq_some_iff, ITableEntry.exchange_eq_bound]
    constructor
    · rintro ⟨e, he, m, rfl, hm⟩
      exact ⟨m, he, hm⟩
    · rintro ⟨m, he, hm⟩
      exact ⟨_, he, m, rfl, hm⟩

/-! ## What a table serves -/

/-- The interface table of `c` is bound to public instance methods, and each entry of a linked
interface to one of the selector of the interface's method. -/
structure Serves (s : Store) (c : ClassId) : Prop where
  hasMethod : ∀ m, s.IsBoundTo c m → s.HasMethod m
  isPublic : ∀ m, s.IsBoundTo c m → (s.getMethod m).access.isPublic = true
  isStatic : ∀ m, s.IsBoundTo c m → (s.getMethod m).modifiers.isStatic = false
  linked : ∀ i k m, s.Selects c i k m → s.Linked i
  selector : ∀ i k m, s.Selects c i k m → ∀ x ∈ (s.getClass i).methods,
    s.interfaceIndex? x = some k → s.selector m = s.selector x

/-- All tables serve their interfaces, whose methods are numbered. -/
structure ServesInterfaces (s : Store) : Prop where
  numbered : ∀ i, s.Linked i → (s.getClass i).isInterface = true → Numbered s i
  serves : ∀ c, s.Serves c

/-- The entries of the table of `c` belong to methods of interfaces. -/
def Accounts (s : Store) (c : ClassId) : Prop :=
  ∀ i k m, s.Selects c i k m → ∃ x ∈ (s.getClass i).methods, s.interfaceIndex? x = some k

/-- The entries of the table of `c` are bound to methods that are not abstract. -/
def BindsBodies (s : Store) (c : ClassId) : Prop :=
  ∀ m, s.IsBoundTo c m → (s.getMethod m).modifiers.isAbstract = false

theorem interfaceMethodAt?_some (h : s.interfaceMethodAt? i k = some m) :
    m ∈ (s.getClass i).methods ∧ s.interfaceIndex? m = some k := by
  have hdispatch := List.find?_some h
  exact ⟨List.mem_of_find?_eq_some h, interfaceIndex?_eq_some.mpr (of_decide_eq_true hdispatch)⟩

/-- A method of an interface with a number is found by it, or another one is. -/
theorem exists_interfaceMethodAt? (hm : m ∈ (s.getClass i).methods)
    (hk : s.interfaceIndex? m = some k) : ∃ x, s.interfaceMethodAt? i k = some x := by
  refine Option.isSome_iff_exists.mp (List.find?_isSome.mpr ⟨m, hm, ?_⟩)
  exact decide_eq_true (interfaceIndex?_eq_some.mp hk)

end Store

/-! ## Linking -/

namespace Store

variable {s t : Store} {root : Option ClassId} {c i : ClassId} {k : Nat} {m : MethodId}

section Grows

variable (w : s.WellFormed root) (hg : s.Grows t)
include w hg

/-- The methods of a linked interface keep their numbers. -/
theorem Linked.interfaceIndex?_grows (h : s.Linked i) (hm : m ∈ (s.getClass i).methods) :
    t.interfaceIndex? m = s.interfaceIndex? m := by
  rw [interfaceIndex?, interfaceIndex?, h.dispatch_grows hg w hm]

theorem Serves.of_grows (h : s.Serves c)
    (htables : (t.getClass c).tables = (s.getClass c).tables) : t.Serves c := by
  have hbound := fun m => isBoundTo_congr (m := m) htables
  have hselects := fun i k m => selects_congr (i := i) (k := k) (m := m) htables
  refine ⟨fun m hm => ?_, fun m hm => ?_, fun m hm => ?_, fun i k m hm => ?_,
    fun i k m hm x hx hk => ?_⟩
  · exact hg.hasMethod (h.hasMethod m ((hbound m).mp hm))
  · rw [hg.extends.access (h.hasMethod m ((hbound m).mp hm))]
    exact h.isPublic m ((hbound m).mp hm)
  · rw [hg.extends.modifiers (h.hasMethod m ((hbound m).mp hm))]
    exact h.isStatic m ((hbound m).mp hm)
  · exact (h.linked i k m ((hselects i k m).mp hm)).grows hg
  · have hold := (hselects i k m).mp hm
    have hlinked := h.linked i k m hold
    rw [hg.methods hlinked.hasClass] at hx
    rw [hlinked.interfaceIndex?_grows w hg hx] at hk
    rw [hg.extends.selector (h.hasMethod m hold.isBoundTo),
      hg.extends.selector ((w.fits i hlinked.hasClass).methods x hx).1]
    exact h.selector i k m hold x hx hk

theorem Accounts.of_grows (h : s.Accounts c) (hserves : s.Serves c)
    (htables : (t.getClass c).tables = (s.getClass c).tables) : t.Accounts c := by
  intro i k m hm
  have hold := (selects_congr htables).mp hm
  have hlinked := hserves.linked i k m hold
  obtain ⟨x, hx, hk⟩ := h i k m hold
  exact ⟨x, hg.methods hlinked.hasClass ▸ hx, (hlinked.interfaceIndex?_grows w hg hx).trans hk⟩

omit w in
theorem BindsBodies.of_grows (h : s.BindsBodies c) (hserves : s.Serves c)
    (htables : (t.getClass c).tables = (s.getClass c).tables) : t.BindsBodies c := by
  intro m hm
  have hold := (isBoundTo_congr htables).mp hm
  rw [hg.extends.modifiers (hserves.hasMethod m hold)]
  exact h m hold

theorem Linked.numbered_grows (hi : s.Linked i) (h : Numbered s i) : Numbered t i := by
  obtain ⟨ts, hts⟩ := linked_iff.mp hi
  exact hg.numbered hts (fun m hm => ((w.fits i hi.hasClass).methods m hm).1) h

end Grows

/-- What linking keeps, from a store `s₀` on. -/
structure LinksServing (s₀ s : Store) : Prop where
  serves : s.ServesInterfaces
  accounts : (∀ c, s₀.Accounts c) → ∀ c, s.Accounts c
  bindsBodies : (∀ c, s₀.BindsBodies c) → ∀ c, s.BindsBodies c

theorem ServesInterfaces.links (h : s.ServesInterfaces) : LinksServing s s :=
  ⟨h, id, id⟩

/-- Where no class gets tables, everything stays. -/
theorem LinksServing.of_grows {s₀ : Store} (h : LinksServing s₀ s) (w : s.WellFormed root)
    (hg : s.Grows t) (htables : ∀ c, (t.getClass c).tables = (s.getClass c).tables) :
    LinksServing s₀ t where
  serves := by
    refine ⟨fun i hi hint => ?_, fun c => (h.serves.serves c).of_grows w hg (htables c)⟩
    rw [Linked, Class.isLinked, htables] at hi
    rw [hg.extends.isInterface (Linked.hasClass hi)] at hint
    exact Linked.numbered_grows w hg hi (h.serves.numbered i hi hint)
  accounts := fun h₀ c => (h.accounts h₀ c).of_grows w hg (h.serves.serves c) (htables c)
  bindsBodies := fun h₀ c => (h.bindsBodies h₀ c).of_grows hg (h.serves.serves c) (htables c)

end Store

namespace Linker

open Store

variable {l t : Linker} {root : Option ClassId} {holder c i : ClassId} {ds : List Declaration}
  {r : RevisedClass} {k : Nat} {m n : MethodId} {x : Command} {xs : List Command}

/-- What an entry of a new table is bound to was found among the methods of the class. -/
theorem Installs.exists_entryFor (h : l.Installs t c) (hm : t.store.IsBoundTo c m) :
    (l.store.getClass c).isInterface = false ∧ ∃ y, l.store.entryFor c y = .bound m := by
  obtain ⟨size, layout, itable, f, hlaid⟩ := h.tables
  obtain ⟨ts, hts, hbound⟩ := hm
  rw [hlaid.tables, Option.some.injEq] at hts
  subst hts
  cases hint : (l.store.getClass c).isInterface with
  | true =>
    rw [(hlaid.numbered hint).1] at hbound
    exact absurd hbound List.not_mem_nil
  | false =>
    rw [hlaid.bound hint] at hbound
    exact ⟨rfl, entryFor_of_bound hbound⟩

section Installs

variable (h : l.Installs t c) (w : l.store.WellFormed root) (hup : l.store.LinkedUp)
  (hready : Ready l.store c)
include h w hup hready

omit hup in
/-- What an entry of a new table is bound to is found for the interface method with the number of
the entry. -/
theorem Installs.exists_selected (hm : t.store.Selects c i k m) :
    i ∈ (l.store.getClass c).allInterfaces ∧ ∃ y ∈ (l.store.getClass i).methods,
      l.store.interfaceIndex? y = some k ∧ l.store.entryFor c y = .bound m := by
  obtain ⟨hint, -⟩ := h.exists_entryFor hm.isBoundTo
  obtain ⟨size, layout, itable, f, hlaid⟩ := h.tables
  obtain ⟨ts, hts, hentry⟩ := selects_iff.mp hm
  rw [hlaid.tables, Option.some.injEq] at hts
  subst hts
  dsimp only at hentry
  rw [hlaid.bound hint] at hentry
  have hnodup := w.nodup_allInterfaces hready.hasClass
  have hi := mem_allInterfaces_of_entry? hentry
  exact ⟨hi, (Binds.of_interfaceTable hnodup).index_of_bound i hi k m hentry⟩

/-- A new table serves the interfaces of its class. -/
theorem Installs.serves (hserves : l.store.ServesInterfaces) : t.store.Serves c := by
  have hc := hready.hasClass
  have hfound : ∀ y m, l.store.entryFor c y = .bound m → l.store.HasMethod m ∧
      (l.store.getMethod m).access.isPublic = true ∧
      (l.store.getMethod m).modifiers.isStatic = false ∧
      l.store.selector m = l.store.selector y := by
    intro y m hy
    obtain ⟨himplementation, hpublic, -⟩ := entryOf_eq_bound hy
    obtain ⟨hsel, hstatic, -⟩ := implementation?_some himplementation
    exact ⟨hasMethod_of_implementation? w hc himplementation, hpublic, hstatic, hsel⟩
  have hlinked := hup.allInterfaces w c hc hready.definedFrom
  refine ⟨fun m hm => ?_, fun m hm => ?_, fun m hm => ?_, fun i k m hm => ?_,
    fun i k m hm x hx hk => ?_⟩
  · obtain ⟨-, y, hy⟩ := h.exists_entryFor hm
    exact h.grows.hasMethod (hfound y m hy).1
  · obtain ⟨-, y, hy⟩ := h.exists_entryFor hm
    rw [h.grows.extends.access (hfound y m hy).1]
    exact (hfound y m hy).2.1
  · obtain ⟨-, y, hy⟩ := h.exists_entryFor hm
    rw [h.grows.extends.modifiers (hfound y m hy).1]
    exact (hfound y m hy).2.2.1
  · exact (hlinked i (h.exists_selected w hready hm).1).grows h.grows
  · obtain ⟨hi, y, hy, hyk, hentry⟩ := h.exists_selected w hready hm
    have hlinked_i := hlinked i hi
    have hhas := (w.fits i hlinked_i.hasClass).methods
    rw [h.grows.methods hlinked_i.hasClass] at hx
    rw [hlinked_i.interfaceIndex?_grows w h.grows hx] at hk
    have hint := (w.allInterfaces_spec c hc i hi).2
    rw [(hserves.numbered i hlinked_i hint).unique x hx y hy k hk hyk,
      h.grows.extends.selector (hfound y m hentry).1, h.grows.extends.selector (hhas y hy).1]
    exact (hfound y m hentry).2.2.2

/-- Entries of a new table belong to interface methods. -/
theorem Installs.accounts : t.store.Accounts c := by
  intro i k m hm
  obtain ⟨hi, y, hy, hyk, -⟩ := h.exists_selected w hready hm
  have hlinked := hup.allInterfaces w c hready.hasClass hready.definedFrom i hi
  exact ⟨y, h.grows.methods hlinked.hasClass ▸ hy,
    (hlinked.interfaceIndex?_grows w h.grows hy).trans hyk⟩

omit hup in
/-- A new table is bound to methods with bodies. -/
theorem Installs.bindsBodies : t.store.BindsBodies c := by
  intro m hm
  obtain ⟨-, y, hy⟩ := h.exists_entryFor hm
  obtain ⟨himplementation, -, hbody⟩ := entryOf_eq_bound hy
  rw [h.grows.extends.modifiers (hasMethod_of_implementation? w hready.hasClass himplementation)]
  exact hbody

end Installs

/-- **Installing tables keeps what the tables serve.** -/
theorem Installs.linksServing (hi : l.Installs t c) {s₀ : Store} (h : LinksServing s₀ l.store)
    (w : l.store.WellFormed root) (hup : l.store.LinkedUp) (hready : Ready l.store c) :
    LinksServing s₀ t.store := by
  have htables : ∀ d, d ≠ c → (t.store.getClass d).tables = (l.store.getClass d).tables :=
    fun d hd => congrArg Class.tables (hi.others d hd)
  have hlinked : ∀ d, d ≠ c → t.store.Linked d → l.store.Linked d := fun d hd hl => by
    rwa [Linked, hi.others d hd] at hl
  constructor
  · refine ⟨fun d hd hint => ?_, fun d => ?_⟩
    · by_cases hdc : d = c
      · subst hdc
        rw [hi.grows.extends.isInterface hready.hasClass] at hint
        obtain ⟨size, layout, itable, f, hlaid⟩ := hi.tables
        exact (hlaid.numbered hint).2
      · have hold := hlinked d hdc hd
        rw [hi.grows.extends.isInterface hold.hasClass] at hint
        exact hold.numbered_grows w hi.grows (h.serves.numbered d hold hint)
    · by_cases hdc : d = c
      · exact hdc ▸ hi.serves w hup hready h.serves
      · exact (h.serves.serves d).of_grows w hi.grows (htables d hdc)
  · intro h₀ d
    by_cases hdc : d = c
    · exact hdc ▸ hi.accounts w hup hready
    · exact (h.accounts h₀ d).of_grows w hi.grows (h.serves.serves d) (htables d hdc)
  · intro h₀ d
    by_cases hdc : d = c
    · exact hdc ▸ hi.bindsBodies w hready
    · exact (h.bindsBodies h₀ d).of_grows hi.grows (h.serves.serves d) (htables d hdc)

theorem linkRule_linksServing (s₀ : Store) (root : Option ClassId) (config : Config) :
    LinkRule root config (LinksServing s₀) (fun _ => True) where
  prepares := fun s t c w h hready hp =>
    h.of_grows w (hp.grows w (tables_of_not_linked hready.unlinked)) fun d => by rw [hp.getClass]
  installs := fun l t c _ w hup h hready hi _ => hi.linksServing h w hup hready
  fails := fun _ _ _ _ _ _ _ _ _ => trivial
  tooDeep := fun _ => trivial

/-! ## Redefining -/

section Redefined

variable (h : Redefined l t r) (hp : l.Prepared holder ds r)
  (w : l.store.WellFormed l.registry.root) (hholder : l.store.HasClass r.holder)
include h hp w hholder

/-- A method with a number stands for a method of the interface that had the number. -/
theorem Redefined.exists_numbered_before (hn : n ∈ (t.store.getClass i).methods)
    (hk : t.store.interfaceIndex? n = some k) : ∃ m ∈ (l.store.getClass i).methods,
      l.StandsFor t m n ∧ (i ≠ r.holder → m = n) ∧ l.store.interfaceIndex? m = some k := by
  rw [interfaceIndex?_eq_some] at hk
  obtain ⟨m, hm, hstandsFor, hsame⟩ := h.exists_previous hp w hholder hn (by rw [hk]; nofun)
  exact ⟨m, hm, hstandsFor, hsame, interfaceIndex?_eq_some.mpr (hstandsFor.dispatch.symm.trans hk)⟩

/-- No method with a number is left out of a new list of methods, if no two declared methods have
one selector. -/
theorem Redefined.exists_numbered_after
    (hdistinct : i = r.holder → ((l.store.getClass i).methods.map l.store.selector).Nodup)
    (hm : m ∈ (l.store.getClass i).methods) (hk : l.store.interfaceIndex? m = some k) :
    ∃ n ∈ (t.store.getClass i).methods, t.store.interfaceIndex? n = some k := by
  by_cases hi : i = r.holder
  · have hnodup := hdistinct hi
    subst hi
    have hnot : m ∉ r.removed := fun hmem => by
      have hnone := hp.accepted.removed m hmem
      rw [interfaceIndex?] at hk
      simp [isDispatched, hk] at hnone
    cases hcounterpart : r.counterpart? l.store m with
    | none =>
      exact absurd ((RevisedClass.mem_removed_iff h.matched hp.declares hnodup hm).mpr
        hcounterpart) hnot
    | some n =>
      obtain ⟨y, hy, hsel⟩ := (RevisedClass.counterpart_iff h.matched hp.declares hnodup hm).mp
        hcounterpart
      have hprevious := (RevisedClass.previous_iff h.matched hnodup hy).mpr ⟨hm, hsel.symm⟩
      have hsucceeds := h.succeeds hp w hholder hy hprevious
      refine ⟨n, hsucceeds.mem, interfaceIndex?_eq_some.mpr ?_⟩
      rw [hsucceeds.dispatch]
      exact interfaceIndex?_eq_some.mp hk
  · have hi' := Store.hasClass_of_mem_methods hm
    refine ⟨m, by rwa [h.methods, if_neg hi], interfaceIndex?_eq_some.mpr ?_⟩
    rw [(h.standsFor_self ((w.fits i hi').methods m hm).1).dispatch]
    exact interfaceIndex?_eq_some.mp hk

/-- An entry belongs to an interface method after a redefinition if it did before. -/
theorem Redefined.accounts (hdistinct : l.store.Distinct) (haccounts : l.store.Accounts c) :
    t.store.Accounts c := by
  intro i k n hn
  obtain ⟨m, hm, -⟩ := (selects_exchange (h.tables_exchange c)).mp hn
  obtain ⟨x, hx, hk⟩ := haccounts i k m hm
  exact h.exists_numbered_after hp w hholder (fun _ => hdistinct i) hx hk

/-- **A redefinition keeps what the tables serve.** -/
theorem Redefined.servesInterfaces (hserves : l.store.ServesInterfaces)
    (hordinals : l.store.DistinctOrdinals) : t.store.ServesInterfaces := by
  have hstands : ∀ c m, l.store.IsBoundTo c m → l.StandsFor t m (l.successorIn r c m) :=
    fun c m hm => h.standsFor hp w hholder hordinals ((hserves.serves c).hasMethod m hm) hm.refersTo
  refine ⟨fun i hi hint => ?_, fun c => ?_⟩
  · have hold := h.linked_iff.mp hi
    rw [h.extends_.isInterface hold.hasClass] at hint
    have hnumbered := hserves.numbered i hold hint
    refine ⟨fun n hn k hk => ?_, fun n hn n' hn' k hk hk' => ?_⟩
    · obtain ⟨m, hm, hstandsFor, -, hmk⟩ := h.exists_numbered_before hp w hholder hn hk
      rw [hstandsFor.isBoundStatically]
      exact hnumbered.bound m hm k hmk
    · obtain ⟨m, hm, hstandsFor, hsame, hmk⟩ := h.exists_numbered_before hp w hholder hn hk
      obtain ⟨m', hm', hstandsFor', hsame', hmk'⟩ := h.exists_numbered_before hp w hholder hn' hk'
      have heq := hnumbered.unique m hm m' hm' k hmk hmk'
      by_cases hi : i = r.holder
      · rw [h.methods, if_pos hi] at hn hn'
        obtain ⟨⟨_, x⟩, hx, rfl⟩ := List.mem_map.mp hn
        obtain ⟨⟨_, x'⟩, hx', rfl⟩ := List.mem_map.mp hn'
        have hsel := hstandsFor.selector
        rw [heq, ← hstandsFor'.selector, selector, selector, h.getMethod_of_mem hx,
          h.getMethod_of_mem hx'] at hsel
        exact congrArg Prod.fst (hp.declares.eq_of_selector hx hx' hsel)
      · rw [← hsame hi, ← hsame' hi, heq]
  · have hbound := fun n => isBoundTo_exchange (n := n) (h.tables_exchange c)
    refine ⟨fun n hn => ?_, fun n hn => ?_, fun n hn => ?_, fun i k n hn => ?_,
      fun i k n hn x hx hk => ?_⟩
    · obtain ⟨m, hm, rfl⟩ := (hbound n).mp hn
      exact (hstands c m hm).hasMethod
    · obtain ⟨m, hm, rfl⟩ := (hbound n).mp hn
      rw [(hstands c m hm).access]
      exact (hserves.serves c).isPublic m hm
    · obtain ⟨m, hm, rfl⟩ := (hbound n).mp hn
      rw [(hstands c m hm).isStatic]
      exact (hserves.serves c).isStatic m hm
    · obtain ⟨m, hm, -⟩ := (selects_exchange (h.tables_exchange c)).mp hn
      exact h.linked_iff.mpr ((hserves.serves c).linked i k m hm)
    · obtain ⟨m, hm, rfl⟩ := (selects_exchange (h.tables_exchange c)).mp hn
      obtain ⟨y, hy, hstandsFor, -, hyk⟩ := h.exists_numbered_before hp w hholder hx hk
      rw [(hstands c m hm.isBoundTo).selector, hstandsFor.selector]
      exact (hserves.serves c).selector i k m hm y hy hyk

end Redefined

/-- A redefinition gives an abstract body for a method that an entry of a registered class is bound
to. -/
def AbstractsBound (l : Linker) (holder : ClassId) (ds : List Declaration) : Prop :=
  ∃ c ∈ l.registry.all, ∃ m ∈ (l.store.getClass holder).methods, l.store.IsBoundTo c m ∧
    ∃ d ∈ ds, d.selector = l.store.selector m ∧ (Modifiers.ofWord d.word).isAbstract = true

instance (l : Linker) (holder : ClassId) (ds : List Declaration) :
    Decidable (l.AbstractsBound holder ds) :=
  inferInstanceAs (Decidable (∃ c ∈ l.registry.all, ∃ m ∈ _, _ ∧ ∃ d ∈ ds, _ ∧ _))

/-- The entries of all tables are bound to methods with bodies after a redefinition exactly if it
gives none of them an abstract body. -/
theorem Redefined.bindsBodies_iff (h : Redefined l t r) (hp : l.Prepared holder ds r)
    (w : l.store.WellFormed l.registry.root) (hholder : l.store.HasClass r.holder)
    (hordinals : l.store.DistinctOrdinals) (hserves : l.store.ServesInterfaces)
    (hbodies : ∀ c, l.store.BindsBodies c) :
    (∀ c, t.store.BindsBodies c) ↔ ¬ l.AbstractsBound r.holder ds := by
  -- The new body of a bound method is described by the declaration of its selector.
  have hdescribed : ∀ {m n : MethodId}, l.Succeeds t r.holder m n →
      ∃ d ∈ ds, d.selector = l.store.selector m ∧
        (t.store.getMethod n).modifiers = .ofWord d.word := by
    intro m n hsucceeds
    obtain ⟨d, hd, hdescribes⟩ := h.exists_declaration hp.declares hsucceeds.mem
    exact ⟨d, hd, hdescribes.selector.symm.trans hsucceeds.selector, hdescribes.modifiers⟩
  constructor
  · rintro hall ⟨c, hc, m, hm, hbound, d, hd, hsel, habstract⟩
    rcases h.successorIn_cases hp w hholder hordinals hbound.refersTo with
      ⟨-, hnot⟩ | ⟨-, hsucceeds⟩
    · exact hnot hc hm
    · obtain ⟨d', hd', hsel', hmodifiers⟩ := hdescribed hsucceeds
      have heq : d' = d :=
        List.inj_on_of_nodup_map hp.declares.distinct hd' hd (hsel'.trans hsel.symm)
      have hbody := hall c _ ((isBoundTo_exchange (h.tables_exchange c)).mpr ⟨m, hbound, rfl⟩)
      rw [hmodifiers, heq, habstract] at hbody
      cases hbody
  · intro hnone c n hn
    obtain ⟨m, hbound, rfl⟩ := (isBoundTo_exchange (h.tables_exchange c)).mp hn
    rcases h.successorIn_cases hp w hholder hordinals hbound.refersTo with
      ⟨hsame, -⟩ | ⟨⟨hc, hm⟩, hsucceeds⟩
    · rw [hsame, h.extends_.modifiers ((hserves.serves c).hasMethod m hbound)]
      exact hbodies c m hbound
    · obtain ⟨d, hd, hsel, hmodifiers⟩ := hdescribed hsucceeds
      refine (Bool.not_eq_true _).mp fun habstract => hnone ⟨c, hc, m, hm, hbound, d, hd, hsel, ?_⟩
      rwa [hmodifiers] at habstract

/-! ## Runs -/

/-- What is known of the interface tables in every state of a run. -/
structure Served (l : Linker) : Prop where
  sound : l.Sound
  ordinals : l.store.DistinctOrdinals
  serves : l.store.ServesInterfaces

/-- What a command does to the interface tables: it keeps what they serve, or it redefines a
class. -/
theorem Served.steps (hI : Served l) (hx : x.Admissible l.store) :
    (LinksServing l.store (x.after l).store ∧
      ∀ holder ds, x = .redefine holder ds → ¬ ∃ r, l.Prepared holder ds r) ∨
    ∃ holder ds r, x = .redefine holder ds ∧ l.Prepared holder ds r ∧
      l.store.HasClass r.holder ∧ Redefined l (x.after l) r := by
  have hsteps := hI.sound.steps hx (linkRule_linksServing l.store _ _) hI.serves.links
  generalize ht : x.after l = t at hsteps ⊢
  cases hsteps with
  | defines hd _ =>
    exact Or.inl ⟨hI.serves.links.of_grows hI.sound.wellFormed hd.grows hd.tables_eq, nofun⟩
  | links hne hr => exact Or.inl ⟨hr.holds, fun holder ds heq => absurd heq (hne holder ds)⟩
  | redefines hp hholder hr => exact Or.inr ⟨_, _, _, rfl, hp, hp.holder_eq ▸ hholder, hr⟩
  | keeps hno hstore _ =>
    rw [hstore]
    exact Or.inl ⟨hI.serves.links, hno⟩

/-- **Every command keeps what the interface tables serve.** -/
theorem Served.after (hI : Served l) (hx : x.Admissible l.store) : Served (x.after l) := by
  refine ⟨hI.sound.after hx, hI.sound.distinctOrdinals_after hI.ordinals hx, ?_⟩
  rcases hI.steps hx with ⟨hlinks, -⟩ | ⟨holder, ds, r, -, hp, hholder, hr⟩
  · exact hlinks.serves
  · exact hr.servesInterfaces hp hI.sound.wellFormed hholder hI.serves hI.ordinals

/-- A command keeps the tables bound to methods with bodies exactly if it gives none of these an
abstract body. -/
theorem Served.bindsBodies_after (hI : Served l) (hbodies : ∀ c, l.store.BindsBodies c)
    (hx : x.Admissible l.store) :
    (∀ c, (x.after l).store.BindsBodies c) ↔ ¬ l.Commits AbstractsBound x := by
  rcases hI.steps hx with ⟨hlinks, hno⟩ | ⟨holder, ds, r, rfl, hp, hholder, hr⟩
  · exact iff_of_true (hlinks.bindsBodies hbodies) (not_commits hno)
  · have hiff := hr.bindsBodies_iff hp hI.sound.wellFormed hholder hI.ordinals hI.serves hbodies
    rw [hp.holder_eq] at hiff
    rw [hiff, commits_redefine hp]

/-- A command that declares no selector twice keeps entries for interface methods only. -/
theorem Served.accounts_after (hI : Served l) (hdistinct : l.store.Distinct)
    (haccounts : ∀ c, l.store.Accounts c) (hx : x.Admissible l.store) :
    ∀ c, (x.after l).store.Accounts c := by
  rcases hI.steps hx with ⟨hlinks, -⟩ | ⟨holder, ds, r, rfl, hp, hholder, hr⟩
  · exact hlinks.accounts haccounts
  · exact fun c => hr.accounts hp hI.sound.wellFormed hholder hdistinct (haccounts c)

theorem IsEmpty.served (h : l.IsEmpty) : Served l where
  sound := h.sound
  ordinals := h.distinctOrdinals
  serves :=
    { numbered := fun i hi => absurd hi (h.not_linked i)
      serves := fun c => by
        have hnone : ∀ m, ¬ l.store.IsBoundTo c m := fun m hm => h.not_linked c hm.linked
        exact ⟨fun m hm => absurd hm (hnone m), fun m hm => absurd hm (hnone m),
          fun m hm => absurd hm (hnone m), fun i k m hm => absurd hm.isBoundTo (hnone m),
          fun i k m hm => absurd hm.isBoundTo (hnone m)⟩ }

/-- **What interface calls select.**  In all states of a run

* every entry of an interface table is bound to a public instance method, and what is selected has
  the selector of the interface's method with the number;
* there is such an interface method, as long as no class is defined with two methods of one
  selector;
* the methods that entries are bound to, and those that are selected, are not abstract exactly if no
  redefinition of the run gives an abstract body for a method that an entry is bound to. -/
theorem interface_selection (h : l.IsEmpty) (hxs : Admits (fun _ => True) l xs) :
    (∀ t ∈ l.states xs, ∀ c,
      (∀ m, t.store.IsBoundTo c m → (t.store.getMethod m).access.isPublic = true ∧
        (t.store.getMethod m).modifiers.isStatic = false) ∧
      ∀ i k m, t.store.Selects c i k m → ∀ x, t.store.interfaceMethodAt? i k = some x →
        t.store.selector m = t.store.selector x) ∧
    (Admits Command.DeclaresOnce l xs → ∀ t ∈ l.states xs, ∀ c i k m, t.store.Selects c i k m →
      ∃ x, t.store.interfaceMethodAt? i k = some x) ∧
    ((∀ t ∈ l.states xs, ∀ c,
        (∀ m, t.store.IsBoundTo c m → (t.store.getMethod m).modifiers.isAbstract = false) ∧
        ∀ i k m, t.store.Selects c i k m → (t.store.getMethod m).modifiers.isAbstract = false) ↔
      Avoids AbstractsBound l xs) := by
  have hnone : ∀ c m, ¬ l.store.IsBoundTo c m := fun c m hm => h.not_linked c hm.linked
  refine ⟨fun t ht c => ?_, fun honce => ?_, ?_⟩
  · have hserved := forall_states (I := Served) (fun l x hI _ hx => hI.after hx) h.served hxs t ht
    have hserves := hserved.serves.serves c
    refine ⟨fun m hm => ⟨hserves.isPublic m hm, hserves.isStatic m hm⟩, fun i k m hm x hx => ?_⟩
    obtain ⟨hmem, hk⟩ := interfaceMethodAt?_some hx
    exact hserves.selector i k m hm x hmem hk
  · have haccounts : ∀ t ∈ l.states xs,
        Served t ∧ t.store.Distinct ∧ ∀ c, t.store.Accounts c :=
      forall_states (fun l x hI honce hx => ⟨hI.1.after hx,
        hI.1.sound.distinct_after hI.2.1 hx honce, hI.1.accounts_after hI.2.1 hI.2.2 hx⟩)
      ⟨h.served, h.distinct, fun c i k m hm => absurd hm.isBoundTo (hnone c m)⟩ honce
    intro t ht c i k m hm
    obtain ⟨hserved, -, hall⟩ := haccounts t ht
    obtain ⟨x, hx, hk⟩ := hall c i k m hm
    exact exists_interfaceMethodAt? hx hk
  · rw [← forall_states_iff_avoids (I := Served) (Q := fun l => ∀ c, l.store.BindsBodies c)
      (fun l x hI hbodies _ hx => ⟨hI.after hx, hI.bindsBodies_after hbodies hx⟩) h.served
      (fun c m hm => absurd hm (hnone c m)) hxs]
    exact forall₂_congr fun t _ => forall_congr' fun c =>
      and_iff_left_of_imp fun hbodies i k m hm => hbodies m hm.isBoundTo

/-- A class implements an interface, and its method loses its body. -/
def abstractRun : List Command :=
  [.define { name := "Object" },
   .define { name := "I", flags := .makeInterface {}
             methods := [(publicMethod "m" []).makeAbstract] },
   .define { name := "C", superclass := some ⟨0⟩, interfaces := [⟨1⟩]
             methods := [publicMethod "m" [1]] },
   .link ⟨2⟩,
   .redefine ⟨2⟩ [(publicMethod "m" []).makeAbstract]]

/-- An interface call selects a method without a body after the last step of the run. -/
theorem abstractRun_selects :
    ¬ ∀ t ∈ states { config := .minimal } abstractRun, ∀ c,
      (∀ m, t.store.IsBoundTo c m → (t.store.getMethod m).modifiers.isAbstract = false) ∧
      ∀ i k m, t.store.Selects c i k m → (t.store.getMethod m).modifiers.isAbstract = false :=
  fun h => absurd ((interface_selection ⟨rfl, rfl⟩ (by decide +kernel)).2.2.mp h)
    (by decide +kernel)

end Linker
end ClassLinking
