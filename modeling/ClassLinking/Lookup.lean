import ClassLinking.Store

/-!
# Looking methods up

The linking rules ask three questions about a selector and a class:

* `Store.lookup?`: the closest declaration in the superclass chain, whatever its kind;
* `Store.lookupInInterfaces?`: a public instance declaration in one of the interfaces;
* `Store.implementation?`: what an interface call on a receiver of the class runs, which is the
  closest declaration of the chain that is not static, or else an inherited default.

All three are built from one search of one list of methods, `Store.findAmong?`, which takes the
first method with the selector that a filter lets through.
-/

namespace ClassLinking

/-- The kinds of methods that a search passes over. -/
structure LookupFilter where
  skipOverpass : Bool := false
  skipStatic : Bool := false
  skipPrivate : Bool := false
  deriving DecidableEq, Inhabited

namespace LookupFilter

/-- A filter that lets everything through. -/
def all : LookupFilter := {}

/-- A filter that lets instance methods through, static and private ones not. -/
def instanceOnly : LookupFilter := { skipStatic := true, skipPrivate := true }

/-- A filter that stops static methods. -/
def nonStatic : LookupFilter := { skipStatic := true }

/-- The filter in a word of flags. -/
def ofWord (word : UInt32) : LookupFilter where
  skipOverpass := Text.hasBits word 0x1
  skipStatic := Text.hasBits word 0x2
  skipPrivate := Text.hasBits word 0x4

/-- Whether a method is let through. -/
def accepts (f : LookupFilter) (m : Method) : Bool :=
  !(f.skipOverpass && m.modifiers.isOverpass || f.skipStatic && m.modifiers.isStatic
    || f.skipPrivate && m.access.isPrivate)

@[simp] theorem accepts_all (m : Method) : all.accepts m = true := by
  simp [accepts, all]

@[simp] theorem accepts_instanceOnly (m : Method) : instanceOnly.accepts m = m.isInstance := by
  simp [accepts, instanceOnly, Method.isInstance]

end LookupFilter

namespace Store

/-- The first method of a list with the selector `sel` that `f` lets through. -/
def findAmong? (s : Store) (ms : List MethodId) (sel : Selector) (f : LookupFilter) :
    Option MethodId :=
  ms.find? fun m => s.selector m = sel && f.accepts (s.getMethod m)

/-- A method declared by a class. -/
def declared? (s : Store) (c : ClassId) (sel : Selector) (f : LookupFilter) : Option MethodId :=
  s.findAmong? (s.getClass c).methods sel f

/-- Whether a class declares an instance method with the selector. -/
def declaresInstance (s : Store) (sel : Selector) (c : ClassId) : Bool :=
  (s.declared? c sel .instanceOnly).isSome

/-- The closest declaration in the class and its superclasses, of any kind. -/
def lookup? (s : Store) (c : ClassId) (sel : Selector) : Option MethodId :=
  (s.lineage c).findSome? fun k => s.declared? k sel .all

/-- A public instance method that one of the class's interfaces declares; with `skipDefaults` only
one without a body. -/
def lookupInInterfaces? (s : Store) (c : ClassId) (sel : Selector) (skipDefaults : Bool) :
    Option MethodId :=
  (s.getClass c).allInterfaces.findSome? fun i =>
    (s.declared? i sel .nonStatic).filter fun m =>
      (s.getMethod m).access.isPublic && !(skipDefaults && s.isDefault m)

/-- An inherited default method of the class. -/
def inheritedDefault? (s : Store) (c : ClassId) (sel : Selector) : Option MethodId :=
  s.findAmong? (s.getClass c).defaults sel .all

/-- What an interface call runs on a receiver of the class.  A static declaration hides nothing from
it, so the search goes on above. -/
def implementation? (s : Store) (c : ClassId) (sel : Selector) : Option MethodId :=
  let isStatic m := (s.getMethod m).modifiers.isStatic
  let inChain := (s.lineage c).findSome? fun k => (s.declared? k sel .all).filter (!isStatic ·)
  inChain.or ((s.inheritedDefault? c sel).filter (!isStatic ·))

/-- The declared method with an ordinal. -/
def withIdnum? (s : Store) (c : ClassId) (idnum : Nat) : Option MethodId :=
  (s.getClass c).methods.find? fun m => (s.getMethod m).idnum = idnum

theorem findAmong?_some {s : Store} {ms : List MethodId} {sel : Selector} {f : LookupFilter}
    {m : MethodId} (h : s.findAmong? ms sel f = some m) :
    m ∈ ms ∧ s.selector m = sel ∧ f.accepts (s.getMethod m) = true := by
  have hp := List.find?_some h
  simp only [Bool.and_eq_true, decide_eq_true_eq] at hp
  exact ⟨List.mem_of_find?_eq_some h, hp⟩

theorem findAmong?_isNone_iff {s : Store} {ms : List MethodId} {sel : Selector} {f : LookupFilter} :
    (s.findAmong? ms sel f).isNone = true ↔
      ∀ m ∈ ms, s.selector m = sel → f.accepts (s.getMethod m) = false := by
  simp [findAmong?]

end Store
end ClassLinking
