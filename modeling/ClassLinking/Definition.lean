import ClassLinking.DefaultSelection
import ClassLinking.Linker

/-!
# Defining classes

A definition names a superclass, interfaces and methods.  Defining the class checks the hierarchy,
numbers the methods, collects the interfaces from all sides, selects the inherited default methods
and registers the class.  A definition that is refused leaves the store and the registered classes
as they were; one that gets as far as registration has used up the tokens it took.
-/

namespace ClassLinking

/-- What a class or interface is defined by. -/
structure ClassDefinition where
  name : String
  loader : LoaderId := .bootstrap
  flags : ClassFlags := {}
  superclass : Option ClassId := none
  interfaces : List ClassId := []
  methods : List Declaration := []
  deriving Inhabited

/-- The most methods that ordinals of sixteen bits can number. -/
def maxMethods : Nat := Nat.pow 2 16

namespace ClassDefinition

/-- The superclass of the class.  An interface always extends the root class, which must exist by
then; it may say so, but it may not name another class. -/
def resolveSuperclass (d : ClassDefinition) (s : Store) (root : Option ClassId) :
    Except DefinitionFault (Option ClassId) :=
  if d.flags.isInterface then
    match root with
    | none => .error (.interfaceBeforeRoot d.name)
    | some r =>
      if d.superclass.all (· = r) then .ok (some r)
      else .error (.interfaceNotUnderRoot d.name (s.getClass r).name)
  else .ok d.superclass

/-- Refuse a superclass that cannot be extended, and a class other than the root without one. -/
def checkSuperclass (d : ClassDefinition) (s : Store) (root : Option ClassId) :
    Option ClassId → Except DefinitionFault Unit
  | some p =>
    let parent := s.getClass p
    if parent.isInterface || parent.flags.isFinal then .error (.cannotExtend d.name parent.name)
    else .ok ()
  | none => if root.isSome then .error (.missingSuperclass d.name) else .ok ()

/-- Refuse what is implemented without being an interface, and more methods than can be numbered. -/
def checkMembers (d : ClassDefinition) (s : Store) : Except DefinitionFault Unit :=
  match d.interfaces.find? fun i => !(s.getClass i).isInterface with
  | some bad => .error (.cannotImplement d.name (s.getClass bad).name)
  | none =>
    if maxMethods < d.methods.length then .error (.tooManyMethods d.name d.methods.length)
    else .ok ()

/-- The superclass of the class, after all checks that come before anything is numbered. -/
def check (d : ClassDefinition) (s : Store) (root : Option ClassId) :
    Except DefinitionFault (Option ClassId) := do
  let superclass ← d.resolveSuperclass s root
  d.checkSuperclass s root superclass
  d.checkMembers s
  return superclass

/-- Every interface of a class: the superclass's first, then each local interface followed by those
above it, each once. -/
def collectInterfaces (s : Store) (superclass : Option ClassId) (localInterfaces : List ClassId) :
    List ClassId :=
  let inherited := superclass.elim [] fun p => (s.getClass p).allInterfaces
  (inherited ++ localInterfaces.flatMap fun i => i :: (s.getClass i).allInterfaces).eraseDups

end ClassDefinition

namespace Linker

open ClassDefinition

/-- The methods of a definition for the holder `c`, numbered in order. -/
def declaredMethods (r : Registry) (c : ClassId) (ds : List Declaration) : List Method :=
  ds.mapIdx fun i d => (d.toMethod (r.methodToken i) i).attach c

/-- Define a class; the answer is its identity. -/
def define (d : ClassDefinition) : LinkM ClassId := fun l =>
  match d.check l.store l.registry.root with
  | .error fault => .error (.classInsert fault) l
  | .ok superclass =>
    let c := l.store.nextClass
    let own := l.store.nextMethods d.methods.length
    let s := l.store.addMethods (declaredMethods l.registry c d.methods)
    let allInterfaces := collectInterfaces l.store superclass d.interfaces
    let k : Class :=
      { token := l.registry.classToken
        name := d.name
        loader := d.loader
        flags := d.flags
        ancestors := superclass.elim [] l.store.lineage
        localInterfaces := d.interfaces
        allInterfaces
        methods := own
        defaults := if d.flags.isInterface then [] else s.defaultsOf own superclass allInterfaces
        tables := none
        isLoaded := true }
    let r := (l.registry.takeMethodTokens d.methods.length).takeClassToken
    match r.insert l.store k c with
    | .error fault => .error (.classInsert fault) { l with registry := r }
    | .ok r => .ok c ((l.withRegistered k.token r).mapStore fun _ => s.addClass k)

/-- Register a class once more, under the token it has. -/
def register (c : ClassId) : LinkM Unit := fun l =>
  let k := l.store.getClass c
  match l.registry.insert l.store k c with
  | .error fault => .error (.classInsert fault) l
  | .ok r => .ok () (l.withRegistered k.token r)

end Linker
end ClassLinking
