import ClassLinking.Lookup

/-!
# Selecting default methods

A class inherits the body of an interface method when nothing closer decides: neither the class nor
any of its superclasses declares an instance method with the selector, and of the interfaces'
declarations exactly one is *maximally specific*, and that one has a body.  A declaration is
maximally specific when no interface below its holder declares the selector as well.

Inherited bodies keep their interface as holder.  The selection depends on the set of interfaces
only; their order decides the order of the result.
-/

namespace ClassLinking
namespace Store

/-- The instance methods that the given interfaces declare; private ones and initializers are not
inherited. -/
def inheritable (s : Store) (interfaces : List ClassId) : List MethodId :=
  (interfaces.flatMap fun i => (s.getClass i).methods).filter fun m =>
    !(s.getMethod m).isBoundStatically

/-- Whether one of `among` is declared by an interface below the holder `c`. -/
def isShadowed (s : Store) (among : List MethodId) (c : ClassId) : Bool :=
  among.any fun m => (s.holder? m).any fun d => d != c && s.implements d c

/-- The maximally specific ones among declarations of one selector, each once. -/
def maximallySpecific (s : Store) (among : List MethodId) : List MethodId :=
  (among.filter fun m => (s.holder? m).any fun c => !s.isShadowed among c).eraseDups

/-- The single maximally specific declaration of `sel` among `candidates`, if it has a body. -/
def selectedDefault? (s : Store) (candidates : List MethodId) (sel : Selector) : Option MethodId :=
  match s.maximallySpecific (candidates.filter (s.selector · = sel)) with
  | [only] => if (s.getMethod only).modifiers.isAbstract then none else some only
  | _ => none

/-- Whether the class or a superclass decides what `sel` means, so that no default is inherited. -/
def isDecidedByClasses (s : Store) (own : List MethodId) (superclass : Option ClassId)
    (sel : Selector) : Bool :=
  (s.findAmong? own sel .nonStatic).isSome ||
    superclass.any fun p => (s.lineage p).any (s.declaresInstance sel)

/-- The default methods that a class with the given declarations, superclass and interfaces
inherits, in the order in which their selectors are first met. -/
def defaultsOf (s : Store) (own : List MethodId) (superclass : Option ClassId)
    (interfaces : List ClassId) : List MethodId :=
  let candidates := s.inheritable interfaces
  (candidates.map s.selector).eraseDups.filterMap fun sel =>
    if s.isDecidedByClasses own superclass sel then none else s.selectedDefault? candidates sel

end Store
end ClassLinking
