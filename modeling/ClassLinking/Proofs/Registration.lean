import ClassLinking.Proofs.Currency

/-!
# The registry is consistent

The registry keeps three records of the classes: a list by token, a list of the tokens of each name,
and the root.  A class enters them when it is defined.  It may also be registered by request, which
is refused, because a class that was defined is registered already.

`Linker.Keyed` holds in every state: tokens increase along the list, and each class stands in it
under its own token.  Tokens repeat when the rows are used up.  As long as they are not, a new class
has the highest token and goes to the end of the list, every class is registered, and the names
follow the list in the order of registration (`Linker.Listed`).  Then all look-ups can be read off
the list of the classes that were registered (`Linker.Registers`), and a request that registers
nothing changes none of their answers (`registry_consistent`).
-/

namespace ClassLinking
namespace Linker

/-! ## Lists in the order of tokens -/

section Sorted

variable {classes : List (Token × ClassId)} {token : Token} {c : ClassId}

/-- Tokens increase along the list. -/
def SortedByToken (classes : List (Token × ClassId)) : Prop :=
  classes.Pairwise fun e e' => e.1.value < e'.1.value

/-- In a sorted list, each entry is the first one with its token. -/
theorem SortedByToken.lookup_eq_some_iff (h : SortedByToken classes) :
    classes.lookup token = some c ↔ (token, c) ∈ classes := by
  induction classes with
  | nil => simp
  | cons e rest ih =>
    obtain ⟨u, d⟩ := e
    obtain ⟨hlt, hrest⟩ := List.pairwise_cons.mp h
    rw [List.lookup_cons, List.mem_cons]
    by_cases htu : token = u
    · subst htu
      have hnot : (token, c) ∉ rest := fun hmem =>
        UInt32.lt_irrefl _ (show token.value < token.value from hlt (token, c) hmem)
      simp [hnot, eq_comm]
    · rw [beq_eq_false_iff_ne.mpr htu]
      simp [htu, ih hrest]

theorem SortedByToken.insertByToken (h : SortedByToken classes) :
    SortedByToken (Registry.insertByToken token c classes) := by
  induction classes with
  | nil => exact List.pairwise_singleton _ _
  | cons e rest ih =>
    obtain ⟨u, d⟩ := e
    obtain ⟨hlt, hrest⟩ := List.pairwise_cons.mp h
    unfold Registry.insertByToken
    split
    · rename_i htu
      subst htu
      exact List.pairwise_cons.mpr ⟨hlt, hrest⟩
    · rename_i hne
      split
      · rename_i htu
        refine List.pairwise_cons.mpr ⟨fun e he => ?_, h⟩
        rcases List.mem_cons.mp he with rfl | he
        · exact htu
        · exact UInt32.lt_trans htu (hlt e he)
      · rename_i hnot
        refine List.pairwise_cons.mpr ⟨fun e he => ?_, ih hrest⟩
        rcases mem_insertByToken he with rfl | he
        · exact UInt32.lt_of_le_of_ne (UInt32.not_lt.mp hnot) fun heq =>
            hne (congrArg Token.mk heq.symm)
        · exact hlt e he

end Sorted

variable {l t : Linker} {c d : ClassId} {token : Token}

/-! ## Classes by token -/

/-- Each registered class stands under its own token, and tokens increase along the list. -/
structure Keyed (l : Linker) : Prop where
  sorted : SortedByToken l.registry.classes
  token_eq : ∀ e ∈ l.registry.classes, (l.store.getClass e.2).token = e.1

theorem Keyed.mem_classes_iff (h : l.Keyed) :
    (token, c) ∈ l.registry.classes ↔ c ∈ l.registry.all ∧ (l.store.getClass c).token = token := by
  constructor
  · intro hmem
    exact ⟨List.mem_map_of_mem (f := (·.2)) hmem, h.token_eq _ hmem⟩
  · rintro ⟨hmem, rfl⟩
    obtain ⟨⟨u, d⟩, he, rfl⟩ := List.mem_map.mp hmem
    rw [h.token_eq _ he]
    exact he

/-- Looking a token up finds the registered class that has it. -/
theorem Keyed.get?_eq_some_iff (h : l.Keyed) :
    l.registry.get? token = some c ↔
      c ∈ l.registry.all ∧ (l.store.getClass c).token = token := by
  rw [Registry.get?, h.sorted.lookup_eq_some_iff, h.mem_classes_iff]

/-- No two registered classes have the same token. -/
theorem Keyed.eq_of_token (h : l.Keyed) (hc : c ∈ l.registry.all) (hd : d ∈ l.registry.all)
    (heq : (l.store.getClass c).token = (l.store.getClass d).token) : c = d := by
  have hfound := h.get?_eq_some_iff.mpr ⟨hc, heq⟩
  rw [h.get?_eq_some_iff.mpr ⟨hd, rfl⟩] at hfound
  exact (Option.some.inj hfound).symm

theorem Keyed.nodup_all (h : l.Keyed) : l.registry.all.Nodup := by
  rw [Registry.all, List.Nodup, List.pairwise_map]
  refine h.sorted.imp_of_mem fun he he' hlt heq => ?_
  rw [← h.token_eq _ he, ← h.token_eq _ he', heq] at hlt
  exact UInt32.lt_irrefl _ hlt

theorem IsEmpty.keyed (h : l.IsEmpty) : l.Keyed := by
  rw [show l = { l with registry := .empty } by rw [← h.registry]]
  exact ⟨List.Pairwise.nil, fun e he => absurd he List.not_mem_nil⟩

/-! ## What a step does to the registry -/

/-- Nothing was registered: tokens were taken at most. -/
structure Rests (l t : Linker) : Prop where
  extends_ : l.store.Extends t.store
  size_eq : t.store.classes.size = l.store.classes.size
  classes : t.registry.classes = l.registry.classes
  names : t.registry.names = l.registry.names
  root : t.registry.root = l.registry.root
  rows_le : l.registry.nextClassRow ≤ t.registry.nextClassRow

/-- The class `c` was defined, and entered the registry at the end of the names. -/
structure Enters (l t : Linker) (c : ClassId) : Prop where
  defines : l.Defines t c
  token : (t.store.getClass c).token = l.registry.classToken
  names : t.registry.names =
    l.registry.names ++ [((t.store.getClass c).name, (t.store.getClass c).token)]
  isNew : l.registry.getByName? l.store (t.store.getClass c).name (t.store.getClass c).loader = none

theorem Rests.refl (l : Linker) : l.Rests l := ⟨.refl _, rfl, rfl, rfl, rfl, Nat.le_refl _⟩

theorem Rests.of_reaches {root : Option ClassId} {I : Store → Prop} (h : Reaches root I l t) :
    l.Rests t := by
  refine ⟨h.grows.extends, h.size_eq, ?_, ?_, ?_, ?_⟩ <;> rw [h.continues.registry]

theorem Rests.of_redefined {r : RevisedClass} (h : Redefined l t r) : l.Rests t := by
  obtain ⟨n, hn⟩ := h.registry
  refine ⟨h.extends_, h.size_eq, h.classes.1, ?_, h.classes.2, ?_⟩
  · rw [hn]
    rfl
  · rw [hn]
    exact Nat.le_refl _

/-- What the registry looks at before it takes a class in. -/
theorem getByName?_of_insert {r r' : Registry} {s : Store} {k : Class}
    (h : r.insert s k c = .ok r') : r.getByName? s k.name k.loader = none := by
  unfold Registry.insert at h
  split at h
  · cases h
  · split at h
    · cases h
    · rename_i hnone
      exact Option.not_isSome_iff_eq_none.mp hnone

/-- A definition registers its class or nothing. -/
theorem define_registers {x : ClassDefinition} (w : l.store.WellFormed l.registry.root)
    (hx : x.Admissible l.store) :
    Outcome (define x) l (fun c t => l.Enters t c) (fun _ t => l.Rests t) := by
  have hnames : Outcome (define x) l
      (fun c t => (t.store.getClass c).token = l.registry.classToken ∧
        t.registry.names =
          l.registry.names ++ [((t.store.getClass c).name, (t.store.getClass c).token)] ∧
        l.registry.getByName? l.store (t.store.getClass c).name (t.store.getClass c).loader = none)
      (fun _ t => t.registry.names = l.registry.names) := by
    cases hcheck : x.check l.store l.registry.root with
    | error fault =>
      unfold Outcome define
      rw [hcheck]
    | ok superclass =>
      rw [Outcome, define_eq hcheck]
      have hself := Store.DefinedBy.getClass_self l.store
        (declaredMethods l.registry l.store.nextClass x.methods) (newClass l x superclass)
      cases hinsert : ((l.registry.takeMethodTokens x.methods.length).takeClassToken).insert l.store
          (newClass l x superclass) l.store.nextClass with
      | error fault => rfl
      | ok r =>
        have hnone := getByName?_of_insert hinsert
        dsimp only [mapStore, withRegistered]
        rw [hself, insert_ok hinsert]
        exact ⟨rfl, rfl, hnone⟩
  exact ((define_outcome w hx).and hnames).imp
    (fun _ _ ht => ⟨ht.1, ht.2.1, ht.2.2.1, ht.2.2.2⟩)
    (fun _ _ ht => ⟨ht.1.store ▸ .refl _, by rw [ht.1.store], ht.1.classes, ht.2, ht.1.root,
      ht.1.nextClassRow_le⟩)

/-- Every command registers the class that it defines, or nothing. -/
theorem Sound.rests (h : l.Sound) {x : Command} (hx : x.Admissible l.store)
    (hdefine : ∀ d, x ≠ .define d) : l.Rests (x.after l) := by
  cases x with
  | define d => exact absurd rfl (hdefine d)
  | link c =>
    exact ((link_outcome (linkRule_true _ _) rfl h.wellFormed h.linkedUp trivial hx).imp
      (fun _ _ ht => .of_reaches ht.2) (fun _ _ ht => .of_reaches ht.2)).final
  | linkAll batch =>
    exact ((linkAll_outcome (linkRule_true _ _) rfl h.wellFormed h.linkedUp trivial hx).imp
      (fun _ _ ht => .of_reaches ht) (fun _ _ ht => .of_reaches ht.2)).final
  | redefine holder ds =>
    refine ((Linker.redefine_outcome h.wellFormed hx h.nodup ds).imp (fun _ t ht => ?_)
      (fun _ t ht => ?_)).final
    · obtain ⟨r, -, -, hr, -⟩ := ht
      exact .of_redefined hr
    · rcases ht with ⟨⟨n, rfl⟩, -⟩ | ⟨r, -, -, hr, -⟩
      · exact ⟨.refl _, rfl, rfl, rfl, rfl, Nat.le_refl _⟩
      · exact .of_redefined hr
  | configure config conflicts consultsConflicts =>
    exact ⟨.refl _, rfl, rfl, rfl, rfl, Nat.le_refl _⟩

theorem Keyed.rests (h : l.Keyed) (hl : l.Sound) (ht : l.Rests t) : t.Keyed where
  sorted := by
    rw [ht.classes]
    exact h.sorted
  token_eq := fun e he => by
    rw [ht.classes] at he
    have hc := hl.registered _ (List.mem_map_of_mem (f := (·.2)) he)
    rw [ht.extends_.class_eq _ hc]
    exact h.token_eq e he

theorem Keyed.enters (h : l.Keyed) (hl : l.Sound) (ht : l.Enters t c) : t.Keyed where
  sorted := by
    rw [ht.defines.classes]
    exact h.sorted.insertByToken
  token_eq := fun e he => by
    rw [ht.defines.classes] at he
    rcases mem_insertByToken he with rfl | he
    · exact ht.token
    · have hc := hl.registered _ (List.mem_map_of_mem (f := (·.2)) he)
      rw [ht.defines.others _ hc]
      exact h.token_eq e he

/-- The class `c`, which exists, was registered once more, although tokens had been used up. -/
structure Reenters (l t : Linker) (c : ClassId) : Prop where
  store : t.store = l.store
  classes : t.registry.classes =
    Registry.insertByToken (l.store.getClass c).token c l.registry.classes
  root : t.registry.root = l.registry.root
  nextClassRow : t.registry.nextClassRow = l.registry.nextClassRow
  isNew : l.registry.getByName? l.store (l.store.getClass c).name (l.store.getClass c).loader = none

/-- The root of the hierarchy is there when any class is, so a class that exists does not become
the root. -/
theorem register_outcome (w : l.store.WellFormed l.registry.root) (hc : l.store.HasClass c) :
    Outcome (register c) l (fun _ t => l.Reenters t c) (fun _ t => t = l) := by
  unfold Outcome register
  dsimp only
  cases hinsert : l.registry.insert l.store (l.store.getClass c) c with
  | error fault => rfl
  | ok r =>
    have hsuper : (l.store.getClass c).superclass?.isNone = false := by
      obtain ⟨root, hroot⟩ := Option.ne_none_iff_exists'.mp (w.rooted c hc)
      by_contra hnone
      rw [Bool.not_eq_false] at hnone
      unfold Registry.insert at hinsert
      rw [hnone, hroot] at hinsert
      cases hinsert
    have hnone := getByName?_of_insert hinsert
    refine ⟨rfl, ?_, ?_, ?_, hnone⟩
    all_goals
      rw [withRegistered, insert_ok hinsert]
    simp only [hsuper, Bool.false_eq_true, if_false]

theorem Reenters.keyed (h : l.Reenters t c) (hk : l.Keyed) : t.Keyed where
  sorted := by
    rw [h.classes]
    exact hk.sorted.insertByToken
  token_eq := fun e he => by
    rw [h.classes] at he
    rw [h.store]
    rcases mem_insertByToken he with rfl | he
    · rfl
    · exact hk.token_eq e he

theorem Reenters.sound (h : l.Reenters t c) (hl : l.Sound) (hk : l.Keyed)
    (hc : l.store.HasClass c) : t.Sound where
  wellFormed := by
    rw [h.store, h.root]
    exact hl.wellFormed
  linkedUp := h.store ▸ hl.linkedUp
  current := h.store ▸ hl.current
  inheritsDefaults := h.store ▸ hl.inheritsDefaults
  nodup := (h.keyed hk).nodup_all
  registered := fun d hd => by
    rw [h.store]
    rw [Registry.all, h.classes] at hd
    obtain ⟨e, he, rfl⟩ := List.mem_map.mp hd
    rcases mem_insertByToken he with rfl | he
    · exact hc
    · exact hl.registered _ (List.mem_map_of_mem (f := (·.2)) he)

/-! ## Names -/

/-- Every class is registered, the names follow the list of classes, and no loader defined a name
twice. -/
structure Listed (l : Linker) : Prop where
  complete : l.Complete
  names : l.registry.names =
    l.registry.all.map fun c => ((l.store.getClass c).name, (l.store.getClass c).token)
  distinct : ∀ c ∈ l.registry.all, ∀ d ∈ l.registry.all,
    (l.store.getClass c).name = (l.store.getClass d).name →
      (l.store.getClass c).loader = (l.store.getClass d).loader → c = d

/-- The classes of a name are the registered ones that have it. -/
theorem Listed.named_eq (h : l.Listed) (hk : l.Keyed) (name : String) :
    l.registry.named name =
      l.registry.all.filter fun c => (l.store.getClass c).name = name := by
  rw [Registry.named, h.names, List.filter_map, List.filterMap_map]
  refine (List.filterMap_congr fun c hc => ?_).trans List.filterMap_some
  exact hk.get?_eq_some_iff.mpr ⟨(List.mem_filter.mp hc).1, rfl⟩

/-- Looking a name up finds the registered class that the loader defined under it. -/
theorem Listed.getByName?_eq_some_iff (h : l.Listed) (hk : l.Keyed) {name : String}
    {loader : LoaderId} :
    l.registry.getByName? l.store name loader = some c ↔
      c ∈ l.registry.all ∧ (l.store.getClass c).name = name ∧
        (l.store.getClass c).loader = loader := by
  rw [Registry.getByName?, h.named_eq hk]
  constructor
  · intro hfind
    obtain ⟨hmem, hname⟩ := List.mem_filter.mp (List.mem_of_find?_eq_some hfind)
    have hloader := List.find?_some hfind
    exact ⟨hmem, of_decide_eq_true hname, of_decide_eq_true hloader⟩
  · rintro ⟨hmem, hname, hloader⟩
    have hfilter : c ∈ l.registry.all.filter fun c => (l.store.getClass c).name = name :=
      List.mem_filter.mpr ⟨hmem, decide_eq_true hname⟩
    have hsome :=
      List.find?_isSome (p := fun c => decide ((l.store.getClass c).loader = loader)).mpr
        ⟨c, hfilter, decide_eq_true hloader⟩
    obtain ⟨d, hd⟩ := Option.isSome_iff_exists.mp hsome
    obtain ⟨hdmem, hdname⟩ := List.mem_filter.mp (List.mem_of_find?_eq_some hd)
    have hdloader := List.find?_some hd
    rw [hd, h.distinct c hmem d hdmem (hname.trans (of_decide_eq_true hdname).symm)
      (hloader.trans (of_decide_eq_true hdloader).symm)]

theorem IsEmpty.listed (h : l.IsEmpty) : l.Listed where
  complete := h.complete
  names := by
    rw [h.registry]
    rfl
  distinct := fun c hc => by
    rw [h.registry] at hc
    exact absurd hc List.not_mem_nil

theorem Listed.rests (h : l.Listed) (hl : l.Sound) (ht : l.Rests t) : t.Listed where
  complete :=
    { rows := fun e he => by
        rw [ht.classes] at he
        exact Nat.lt_of_lt_of_le (h.complete.rows e he) (Nat.add_le_add_left ht.rows_le _)
      registered := fun c hc => by
        rw [Store.HasClass, ht.size_eq] at hc
        rw [all_eq_of_classes ht.classes]
        exact h.complete.registered c hc }
  names := by
    rw [ht.names, h.names, all_eq_of_classes ht.classes]
    refine List.map_congr_left fun c hc => ?_
    rw [ht.extends_.class_eq c (hl.registered c hc)]
  distinct := fun c hc d hd hname hloader => by
    rw [all_eq_of_classes ht.classes] at hc hd
    rw [ht.extends_.name (hl.registered c hc), ht.extends_.name (hl.registered d hd)] at hname
    rw [ht.extends_.loader (hl.registered c hc), ht.extends_.loader (hl.registered d hd)] at hloader
    exact h.distinct c hc d hd hname hloader

/-- While there are rows, a new class has the highest token of all. -/
theorem Enters.all_eq (ht : l.Enters t c) (h : l.Complete)
    (hrows : t.registry.nextClassRow ≤ Token.rows) :
    t.registry.all = l.registry.all ++ [c] := by
  rw [ht.defines.nextClassRow] at hrows
  have htoken := toNat_classToken (r := l.registry) (by omega)
  rw [Registry.all, ht.defines.classes, insertByToken_of_gt fun e he => by
    rw [htoken]
    exact h.rows e he]
  exact List.map_append

theorem Listed.enters (h : l.Listed) (hl : l.Sound) (hk : l.Keyed) (ht : l.Enters t c)
    (hrows : t.registry.nextClassRow ≤ Token.rows) : t.Listed where
  complete := (Counts.of_defines ht.defines).complete hrows h.complete
  names := by
    rw [ht.names, h.names, ht.all_eq h.complete hrows, List.map_append]
    refine congrArg (· ++ _) (List.map_congr_left fun d hd => ?_)
    rw [ht.defines.others d (hl.registered d hd)]
  distinct := by
    -- A class of the same name and loader would have been found when the new one was checked.
    have hother : ∀ d ∈ l.registry.all, (t.store.getClass d).name = (t.store.getClass c).name →
        (t.store.getClass d).loader ≠ (t.store.getClass c).loader := by
      intro d hd hname hloader
      rw [ht.defines.others d (hl.registered d hd)] at hname hloader
      have hfound := (h.getByName?_eq_some_iff hk).mpr ⟨hd, hname, hloader⟩
      rw [ht.isNew] at hfound
      cases hfound
    intro d hd e he hname hloader
    rw [ht.all_eq h.complete hrows, List.mem_append, List.mem_singleton] at hd he
    rcases hd with hd | rfl <;> rcases he with he | rfl
    · rw [ht.defines.others d (hl.registered d hd), ht.defines.others e (hl.registered e he)]
        at hname hloader
      exact h.distinct d hd e he hname hloader
    · exact absurd hloader (hother d hd hname)
    · exact absurd hloader.symm (hother e he hname.symm)
    · rfl

/-- While there are rows, a class that exists is registered and is not registered again. -/
theorem Listed.not_reenters (h : l.Listed) (hk : l.Keyed) (hc : l.store.HasClass c) :
    ¬ l.Reenters t c := by
  intro ht
  have hfound := (h.getByName?_eq_some_iff hk).mpr ⟨h.complete.registered c hc, rfl, rfl⟩
  rw [ht.isNew] at hfound
  cases hfound

end Linker

/-! ## Requests -/

/-- What is asked of a linker and its registry: a command, or to register a class that exists. -/
inductive Request where
  | command (x : Command)
  | register (c : ClassId)

namespace Request

/-- The state after a request. -/
def after : Request → Linker → Linker
  | .command x, l => x.after l
  | .register c, l => (Linker.register c).final l

/-- A request speaks of classes that exist. -/
def Admissible : Request → Store → Prop
  | .command x, s => x.Admissible s
  | .register c, s => s.HasClass c

instance : (x : Request) → (s : Store) → Decidable (x.Admissible s)
  | .command x, s => inferInstanceAs (Decidable (x.Admissible s))
  | .register c, s => inferInstanceAs (Decidable (s.HasClass c))

/-- The class that a request registers, if it succeeds. -/
def registered? : Request → Linker → Option ClassId
  | .command (.define d), l => (Linker.define d).answer? l
  | .register c, l => ((Linker.register c).answer? l).map fun _ => c
  | .command _, _ => none

end Request

namespace Linker

variable {l t : Linker} {c d : ClassId} {x : Request} {xs ys zs : List Request}

/-- The state after some requests. -/
def serve (l : Linker) (xs : List Request) : Linker := xs.foldl (fun l x => x.after l) l

/-- The classes that some requests register, in order. -/
def registrations : Linker → List Request → List ClassId
  | _, [] => []
  | l, x :: xs => (x.registered? l).toList ++ registrations (x.after l) xs

/-- All requests speak of classes that exist by then. -/
def Serves : Linker → List Request → Prop
  | _, [] => True
  | l, x :: xs => x.Admissible l.store ∧ Serves (x.after l) xs

instance decidableServes : (l : Linker) → (xs : List Request) → Decidable (Serves l xs)
  | _, [] => isTrue trivial
  | l, x :: xs =>
    haveI : Decidable (Serves (x.after l) xs) := decidableServes (x.after l) xs
    inferInstanceAs (Decidable (_ ∧ _))

/-- What a request does to the registry. -/
inductive Serving (l : Linker) (x : Request) : Prop where
  | rests : x.registered? l = none → l.Rests (x.after l) → Serving l x
  | enters {c : ClassId} : x.registered? l = some c → l.Enters (x.after l) c → Serving l x
  | reenters {c : ClassId} : x.registered? l = some c → l.store.HasClass c →
    l.Reenters (x.after l) c → Serving l x

/-- Each request registers a class that it defines, or one that exists, or nothing. -/
theorem Sound.serving (h : l.Sound) (hx : x.Admissible l.store) : Serving l x := by
  match x with
  | .command (.define d) =>
    rcases (define_registers h.wellFormed hx).answers with ⟨c, hc, ht⟩ | ⟨hnone, -, ht⟩
    · exact .enters hc ht
    · exact .rests hnone ht
  | .command (.link c) => exact .rests rfl (h.rests (x := .link c) hx fun _ => nofun)
  | .command (.linkAll batch) =>
    exact .rests rfl (h.rests (x := .linkAll batch) hx fun _ => nofun)
  | .command (.redefine holder ds) =>
    exact .rests rfl (h.rests (x := .redefine holder ds) hx fun _ => nofun)
  | .command (.configure config conflicts consults) =>
    exact .rests rfl (h.rests (x := .configure config conflicts consults) hx fun _ => nofun)
  | .register c =>
    rcases (register_outcome h.wellFormed hx).answers with ⟨_, hc, ht⟩ | ⟨hnone, _, ht⟩
    · exact .reenters (by rw [Request.registered?, hc]; rfl) hx ht
    · exact .rests (by rw [Request.registered?, hnone]; rfl)
        (by rw [Request.after, ht]; exact .refl l)

/-- What holds in every state that requests lead to. -/
structure Kept (l : Linker) : Prop where
  sound : l.Sound
  keyed : l.Keyed

theorem IsEmpty.kept (h : l.IsEmpty) : l.Kept := ⟨h.sound, h.keyed⟩

theorem Kept.after (h : l.Kept) (hx : x.Admissible l.store) : (x.after l).Kept where
  sound := by
    match x with
    | .command x => exact h.sound.after hx
    | .register c =>
      exact ((register_outcome h.sound.wellFormed hx).imp
        (fun _ _ ht => ht.sound h.sound h.keyed hx) (fun _ _ ht => ht ▸ h.sound)).final
  keyed := by
    cases h.sound.serving hx with
    | rests _ ht => exact h.keyed.rests h.sound ht
    | enters _ ht => exact h.keyed.enters h.sound ht
    | reenters _ _ ht => exact ht.keyed h.keyed

theorem Sound.rows_le_after (h : l.Sound) (hx : x.Admissible l.store) :
    l.registry.nextClassRow ≤ (x.after l).registry.nextClassRow := by
  cases h.serving hx with
  | rests _ ht => exact ht.rows_le
  | enters _ ht =>
    rw [ht.defines.nextClassRow]
    exact Nat.le_succ _
  | reenters _ _ ht => exact Nat.le_of_eq ht.nextClassRow.symm

theorem Kept.rows_le_serve (h : l.Kept) (hxs : l.Serves xs) :
    l.registry.nextClassRow ≤ (l.serve xs).registry.nextClassRow := by
  induction xs generalizing l with
  | nil => exact Nat.le_refl _
  | cons x xs ih =>
    exact Nat.le_trans (h.sound.rows_le_after hxs.1) (ih (h.after hxs.1) hxs.2)

/-! ## Runs of requests -/

/-- The linker `t` was reached from `l` by requests that registered `cs`, in this order. -/
structure Registered (l t : Linker) (cs : List ClassId) : Prop where
  kept : t.Kept
  listed : t.Listed
  extends_ : l.store.Extends t.store
  all_eq : t.registry.all = l.registry.all ++ cs

/-- One request, while there are rows. -/
theorem Kept.registered_after (h : l.Kept) (hl : l.Listed) (hx : x.Admissible l.store)
    (hrows : (x.after l).registry.nextClassRow ≤ Token.rows) :
    Registered l (x.after l) (x.registered? l).toList := by
  cases h.sound.serving hx with
  | rests hnone ht =>
    refine ⟨h.after hx, hl.rests h.sound ht, ht.extends_, ?_⟩
    rw [hnone, all_eq_of_classes ht.classes]
    exact (List.append_nil _).symm
  | enters hsome ht =>
    refine ⟨h.after hx, hl.enters h.sound h.keyed ht hrows, ht.defines.grows.extends, ?_⟩
    rw [hsome, ht.all_eq hl.complete hrows]
    rfl
  | reenters _ hc ht => exact absurd ht (hl.not_reenters h.keyed hc)

/-- **Any requests, while there are rows.** -/
theorem Kept.registered_serve (h : l.Kept) (hl : l.Listed) (hxs : l.Serves xs)
    (hrows : (l.serve xs).registry.nextClassRow ≤ Token.rows) :
    Registered l (l.serve xs) (l.registrations xs) := by
  induction xs generalizing l with
  | nil => exact ⟨h, hl, .refl _, (List.append_nil _).symm⟩
  | cons x xs ih =>
    have hafter := h.after hxs.1
    have hfirst := h.registered_after hl hxs.1
      (Nat.le_trans (hafter.rows_le_serve hxs.2) hrows)
    have hrest := ih hafter hfirst.listed hxs.2 hrows
    refine ⟨hrest.kept, hrest.listed, hfirst.extends_.trans hrest.extends_, ?_⟩
    rw [registrations, ← List.append_assoc, ← hfirst.all_eq]
    exact hrest.all_eq

/-- The registry holds exactly the classes `cs`, registered in this order, and finds each of them by
what it is. -/
structure Registers (l : Linker) (cs : List ClassId) : Prop where
  all_eq : l.registry.all = cs
  nodup : cs.Nodup
  token_inj : ∀ c ∈ cs, ∀ d ∈ cs,
    (l.store.getClass c).token = (l.store.getClass d).token → c = d
  name_inj : ∀ c ∈ cs, ∀ d ∈ cs, (l.store.getClass c).name = (l.store.getClass d).name →
    (l.store.getClass c).loader = (l.store.getClass d).loader → c = d
  get? : ∀ token c, l.registry.get? token = some c ↔ c ∈ cs ∧ (l.store.getClass c).token = token
  getByName? : ∀ name loader c, l.registry.getByName? l.store name loader = some c ↔
    c ∈ cs ∧ (l.store.getClass c).name = name ∧ (l.store.getClass c).loader = loader
  root : ∀ c, l.registry.root = some c ↔ c ∈ cs ∧ (l.store.getClass c).superclass? = none

theorem Kept.registers (h : l.Kept) (hl : l.Listed) : l.Registers l.registry.all where
  all_eq := rfl
  nodup := h.sound.nodup
  token_inj := fun c hc d hd => h.keyed.eq_of_token hc hd
  name_inj := hl.distinct
  get? := fun _ _ => h.keyed.get?_eq_some_iff
  getByName? := fun _ _ _ => hl.getByName?_eq_some_iff h.keyed
  root := fun c => by
    constructor
    · intro hroot
      obtain ⟨hc, hsuper⟩ := h.sound.wellFormed.root_fits c hroot
      exact ⟨hl.complete.registered c hc, hsuper⟩
    · rintro ⟨hc, hsuper⟩
      exact ((h.sound.wellFormed.fits c (h.sound.registered c hc)).top hsuper).1

/-- The registries of `l` and `t` answer every question alike. -/
structure AnswersAlike (l t : Linker) : Prop where
  get? : ∀ token, t.registry.get? token = l.registry.get? token
  getByName? : ∀ name loader,
    t.registry.getByName? t.store name loader = l.registry.getByName? l.store name loader
  root : t.registry.root = l.registry.root
  all : t.registry.all = l.registry.all

theorem Rests.answersAlike (ht : l.Rests t) (h : l.Kept) : l.AnswersAlike t := by
  have hget : ∀ token, t.registry.get? token = l.registry.get? token := fun token => by
    rw [Registry.get?, Registry.get?, ht.classes]
  refine ⟨hget, fun name loader => ?_, ht.root, all_eq_of_classes ht.classes⟩
  have hnamed : t.registry.named name = l.registry.named name := by
    rw [Registry.named, Registry.named, ht.names]
    exact List.filterMap_congr fun e _ => hget e.2
  rw [Registry.getByName?, Registry.getByName?, hnamed]
  refine List.find?_congr fun c hc => ?_
  obtain ⟨e, -, he⟩ := List.mem_filterMap.mp hc
  have hall := (h.keyed.get?_eq_some_iff.mp he).1
  rw [ht.extends_.loader (h.sound.registered c hall)]

theorem serve_append (l : Linker) (ys zs : List Request) :
    l.serve (ys ++ zs) = (l.serve ys).serve zs :=
  List.foldl_append

theorem Serves.split (h : l.Serves (ys ++ zs)) : l.Serves ys ∧ (l.serve ys).Serves zs := by
  induction ys generalizing l with
  | nil => exact ⟨trivial, h⟩
  | cons y ys ih =>
    obtain ⟨hy, hrest⟩ := h
    exact ⟨⟨hy, (ih hrest).1⟩, (ih hrest).2⟩

theorem Kept.serve (h : l.Kept) (hxs : l.Serves xs) : (l.serve xs).Kept := by
  induction xs generalizing l with
  | nil => exact h
  | cons x xs ih => exact ih (h.after hxs.1) hxs.2

/-- **The registry is consistent.**  While there are rows of class tokens, the registry lists the
classes that were registered, once each and in this order; it finds each of them under its token and
under its name and loader, which no other one has, and nothing else; and the root is the one without
a superclass.  What is found stays to be found, and a request that registers nothing changes no
answer.  The bound `hrows` is the one that is asserted whenever a class takes a token. -/
theorem registry_consistent (h : l.IsEmpty) (hxs : l.Serves xs)
    (hrows : (l.serve xs).registry.nextClassRow ≤ Token.rows) :
    (l.serve xs).Registers (l.registrations xs) ∧
    (∀ ys zs, xs = ys ++ zs → ∀ c ∈ (l.serve ys).registry.all,
      (l.serve xs).registry.get? ((l.serve ys).store.getClass c).token = some c ∧
      (l.serve xs).registry.getByName? (l.serve xs).store ((l.serve ys).store.getClass c).name
        ((l.serve ys).store.getClass c).loader = some c) ∧
    ∀ ys x zs, xs = ys ++ x :: zs → x.registered? (l.serve ys) = none →
      (l.serve ys).AnswersAlike (l.serve (ys ++ [x])) := by
  have hend := h.kept.registered_serve h.listed hxs hrows
  have hregisters := hend.kept.registers hend.listed
  have hall : (l.serve xs).registry.all = l.registrations xs := by
    rw [hend.all_eq, h.registry]
    rfl
  refine ⟨hall ▸ hregisters, fun ys zs heq c hc => ?_, fun ys x zs heq hnone => ?_⟩
  · subst heq
    obtain ⟨hys, hzs⟩ := hxs.split
    rw [serve_append] at hrows hregisters ⊢
    have hbefore := h.kept.serve hys
    have hlisted := (h.kept.registered_serve h.listed hys
      (Nat.le_trans (hbefore.rows_le_serve hzs) hrows)).listed
    have hsuffix := hbefore.registered_serve hlisted hzs hrows
    have hclass := hsuffix.extends_.class_eq c (hbefore.sound.registered c hc)
    have hmem : c ∈ ((l.serve ys).serve zs).registry.all := by
      rw [hsuffix.all_eq]
      exact List.mem_append_left _ hc
    exact ⟨(hregisters.get? _ c).mpr ⟨hmem, by rw [hclass]⟩,
      (hregisters.getByName? _ _ c).mpr ⟨hmem, by rw [hclass], by rw [hclass]⟩⟩
  · subst heq
    obtain ⟨hys, hx⟩ := hxs.split
    have hbefore := h.kept.serve hys
    rw [serve_append]
    cases hbefore.sound.serving hx.1 with
    | rests _ ht => exact ht.answersAlike hbefore
    | enters hsome _ => exact absurd (hnone.symm.trans hsome) (by simp)
    | reenters hsome _ _ => exact absurd (hnone.symm.trans hsome) (by simp)

/-- Some requests, four of which are refused: a second class `A` of one loader, a class that is
registered already, a second root, and a class under a final one. -/
def registeringRun : List Request :=
  [.command (.define { name := "Object" }),
   .command (.define { name := "A", superclass := some ⟨0⟩ }),
   .command (.define { name := "A", superclass := some ⟨0⟩, flags := { isInterface := true } }),
   .register ⟨1⟩,
   .command (.define { name := "B" }),
   .command (.define { name := "A", loader := ⟨1⟩, superclass := some ⟨1⟩,
                       flags := { isFinal := true } }),
   .command (.define { name := "B", superclass := some ⟨2⟩ }),
   .command (.link ⟨2⟩)]

/-- Three classes are registered, and each loader finds its class `A`. -/
theorem registeringRun_registers :
    (serve { config := .minimal } registeringRun).Registers [⟨0⟩, ⟨1⟩, ⟨2⟩] ∧
      (serve { config := .minimal } registeringRun).registry.getByName?
        (serve { config := .minimal } registeringRun).store "A" ⟨1⟩ = some ⟨2⟩ := by
  have hserves : Serves { config := .minimal } registeringRun := by decide +kernel
  have hconsistent := registry_consistent ⟨rfl, rfl⟩ hserves (by decide +kernel)
  have hregistrations :
      registrations { config := .minimal } registeringRun = [⟨0⟩, ⟨1⟩, ⟨2⟩] := by
    decide +kernel
  rw [hregistrations] at hconsistent
  refine ⟨hconsistent.1, (hconsistent.1.getByName? _ _ _).mpr ?_⟩
  decide +kernel

end Linker
end ClassLinking
