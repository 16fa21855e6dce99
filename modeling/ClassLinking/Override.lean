import ClassLinking.Lookup

/-!
# Overriding

A private method is never overridden, a public or protected one always, a package-private one only
from its own runtime package.  Package-private methods make overriding transitive: if `B.m`
overrides `A.m` and `C.m` overrides `B.m`, then `C.m` overrides `A.m` even where `C` could not see
it.  In the tables this shows as a slot that `C` may not take over from its current occupant but
may take over from what an ancestor has there.

* `Store.isOverridable` is the access rule for one method and one class;
* `Store.transitivelyOverridden?` searches the ancestors' tables at one slot;
* `Store.needsNewSlot` decides whether a declared method gets a slot of its own.
-/

namespace ClassLinking
namespace Store

/-- Whether a declaration in the class `className` of `loader` overrides `m`. -/
def isOverridable (s : Store) (m : MethodId) (loader : LoaderId) (className : String) : Bool :=
  let access := (s.getMethod m).access
  !access.isPrivate &&
    (access.isPublic || access.isProtected ||
      (s.holder? m).any fun c => (s.getClass c).sharesPackage loader className)

/-- The first method in slot `slot` of the given ancestors' tables that a declaration of `target` in
`className` overrides.  The search ends without a result where a table has no such slot or leaves
it empty, and fails at an ancestor without a table or with another selector in the slot. -/
def transitivelyOverridden? (s : Store) (target : Selector) (slot : Nat) (loader : LoaderId)
    (className : String) : List ClassId → Except LinkError (Option MethodId)
  | [] => .ok none
  | a :: rest =>
    match (s.getClass a).tables with
    | none => .error (.notLinked (s.getClass a).name)
    | some t =>
      match t.vtable.methodAt slot with
      | none => .ok none
      | some m =>
        if s.selector m ≠ target then
          .error (.inconsistent
            (.ancestorSlotMismatch slot (s.getClass a).name (s.selector m) target))
        else if s.isOverridable m loader className then .ok (some m)
        else s.transitivelyOverridden? target slot loader className rest

/-- What the closest visible declaration above a method says about a slot for it: an overridden one
passes its slot on, unless it stands behind one that is out of reach and overriding is not
transitive; a declaration out of reach leaves the method without a slot.  Nothing is said when no
instance declaration is found. -/
def slotFromChain (s : Store) (transitive : Bool) (sel : Selector) (loader : LoaderId)
    (className : String) : (outOfReach : Bool) → List ClassId → Option Bool
  | outOfReach, [] => if outOfReach then some true else none
  | outOfReach, k :: above =>
    match s.declared? k sel .all with
    | none => s.slotFromChain transitive sel loader className outOfReach above
    | some m =>
      if !(s.getMethod m).isInstance then
        s.slotFromChain transitive sel loader className outOfReach above
      else if s.isOverridable m loader className then some (outOfReach && !transitive)
      else s.slotFromChain transitive sel loader className true above

/-- Whether the declared method `m` needs a slot of its own in the virtual table of the class
`className` of `loader`, with the given flags and superclass. -/
def needsNewSlot (s : Store) (transitive : Bool) (m : MethodId) (superclass : Option ClassId)
    (loader : LoaderId) (className : String) (flags : ClassFlags) : Bool :=
  let x := s.getMethod m
  if flags.isInterface then false
  else if s.isDefault m || x.isBoundStatically then false
  else if s.isFinalMethod m flags then false
  else
    match superclass with
    | none => true
    | some parent =>
      -- Subclasses in other packages must not find a package-private method in a shared slot.
      if x.access.isPackagePrivate then true
      else
        match s.slotFromChain transitive x.selector loader className false (s.lineage parent) with
        | some answer => answer
        | none =>
          -- An abstract superclass may have reserved a placeholder's slot for the method.
          !(!(s.getClass parent).mirandas.isEmpty
            && (s.lookupInInterfaces? parent x.selector false).isSome)

end Store
end ClassLinking
