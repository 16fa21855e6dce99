import ClassLinking.Class.Basic
import ClassLinking.Method.Declaration

/-!
# The store of classes and methods

All classes and methods live in one store and refer to each other by identity.  Entries are added at
the end and never removed, so an identity stays good for ever; a look-up of an identity that was
never given out yields a default entry, which no operation ever asks for.

A method refers to its holder, but that reference does not keep the holder loaded: once a class is
unloaded, its methods have no holder.
-/

namespace ClassLinking

/-- The classes and methods of a machine, by identity. -/
structure Store where
  classes : Array Class := #[]
  methods : Array Method := #[]
  deriving DecidableEq, Inhabited

namespace Store

/-- The store without classes and methods. -/
def empty : Store := ⟨#[], #[]⟩

/-- The class with an identity. -/
def getClass (s : Store) (c : ClassId) : Class := s.classes.getD c.index default

/-- The method with an identity. -/
def getMethod (s : Store) (m : MethodId) : Method := s.methods.getD m.index default

/-- Change one class. -/
def modifyClass (s : Store) (c : ClassId) (f : Class → Class) : Store :=
  { s with classes := s.classes.modify c.index f }

/-- Change one method. -/
def modifyMethod (s : Store) (m : MethodId) (f : Method → Method) : Store :=
  { s with methods := s.methods.modify m.index f }

/-- The identity that the next class added will have. -/
def nextClass (s : Store) : ClassId := ⟨s.classes.size⟩

/-- The identities that the next `count` methods added will have. -/
def nextMethods (s : Store) (count : Nat) : List MethodId :=
  (List.range count).map fun i => ⟨s.methods.size + i⟩

/-- Add a class. -/
def addClass (s : Store) (k : Class) : Store := { s with classes := s.classes.push k }

/-- Add methods. -/
def addMethods (s : Store) (ms : List Method) : Store := { s with methods := s.methods ++ ms }

/-- Give a method its dispatch index. -/
def setDispatch (s : Store) (m : MethodId) (index : DispatchIndex) : Store :=
  s.modifyMethod m fun x => { x with dispatch := index }

/-- Give a method its revision. -/
def setRevision (s : Store) (m : MethodId) (revision : Revision) : Store :=
  s.modifyMethod m fun x => { x with revision := revision }

/-- The selector of a method. -/
def selector (s : Store) (m : MethodId) : Selector := (s.getMethod m).selector

/-- The class that declares a method, unless it was never attached or is unloaded. -/
def holder? (s : Store) (m : MethodId) : Option ClassId :=
  (s.getMethod m).holder.filter fun c => (s.getClass c).isLoaded

/-- The superclass chain of a class, the class itself first. -/
def lineage (s : Store) (c : ClassId) : List ClassId := c :: (s.getClass c).ancestors

/-- Whether `interface` is among the interfaces of `c`. -/
def implements (s : Store) (c interface : ClassId) : Bool :=
  (s.getClass c).allInterfaces.contains interface

/-- Whether `d` is `c` itself, one of its superclasses or one of its interfaces. -/
def isSubtype (s : Store) (c d : ClassId) : Bool :=
  c == d ||
    (if (s.getClass d).isInterface then s.implements c d else (s.getClass c).ancestors.contains d)

/-- Whether a method is a default method: an instance method with a body that an interface holds. -/
def isDefault (s : Store) (m : MethodId) : Bool :=
  let x := s.getMethod m
  !x.modifiers.isAbstract && !x.modifiers.isStatic &&
    (s.holder? m).any fun c => (s.getClass c).isInterface

/-- Whether a method can be bound statically in a class with the given flags: it or the class is
final.  Overpasses and default methods are inherited into classes whose finality they do not
share. -/
def isFinalMethod (s : Store) (m : MethodId) (flags : ClassFlags) : Bool :=
  let x := s.getMethod m
  !(x.modifiers.isOverpass || s.isDefault m) && (x.modifiers.isFinal || flags.isFinal)

/-- The name of a method with its holder. -/
def displayName (s : Store) (m : MethodId) : String :=
  let holder :=
    match s.holder? m with
    | some c => (s.getClass c).name
    | none => "<unknown>"
  holder ++ "." ++ (s.selector m).text

end Store
end ClassLinking
