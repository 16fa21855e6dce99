import ClassLinking.Lookup

/-!
# Miranda methods

An interface method that no class of the hierarchy declares still needs a slot in the virtual table,
so that a call through the class finds something to fail with.  Such a method is a *miranda*, and
the class that is the first to meet it introduces a placeholder for it.  A miranda that the
superclass meets already, through its own interfaces, has its slot there.
-/

namespace ClassLinking
namespace Store

/-- Whether the interface method `m` is left unimplemented by a class that declares `own`, inherits
the default methods `defaults` (none to leave defaults out of account) and has `superclass`. -/
def isMiranda (s : Store) (m : MethodId) (own : List MethodId) (defaults : Option (List MethodId))
    (superclass : Option ClassId) : Bool :=
  let x := s.getMethod m
  x.isInstance && !x.modifiers.isOverpass
    && (s.findAmong? own x.selector .instanceOnly).isNone
    && (defaults.all fun ds => (s.findAmong? ds x.selector .all).isNone)
    && (superclass.all fun p => !(s.lineage p).any (s.declaresInstance x.selector))

/-- The interface methods that a class meets through its local interfaces: those of each local
interface, followed by those of the interfaces above it. -/
def metMethods (s : Store) (localInterfaces : List ClassId) : List MethodId :=
  localInterfaces.flatMap fun i =>
    (i :: (s.getClass i).allInterfaces).flatMap fun j => (s.getClass j).methods

/-- The mirandas that a class is the first of its hierarchy to meet, in order of discovery and each
selector once. -/
def newMirandas (s : Store) (superclass : Option ClassId) (own : List MethodId)
    (defaults : Option (List MethodId)) (localInterfaces : List ClassId) : List MethodId :=
  let isNew m :=
    s.isMiranda m own defaults superclass &&
      (superclass.all fun p => (s.lookupInInterfaces? p (s.selector m) false).isNone)
  ((s.metMethods localInterfaces).filter isNew).eraseDupsBy fun a b => s.selector a == s.selector b

end Store
end ClassLinking
