import ClassLinking.Linker

/-!
# Unloading classes

A class stays loaded while the registry or someone outside keeps it, or while a class that stays
loaded refers to it as a superclass or an interface.  One that gave way to another under its token
is never unloaded.  Methods do not keep their holders loaded: when a class goes, its methods lose
their holder, and references to it become invalid.
-/

namespace ClassLinking
namespace Store

/-- The classes that `c` refers to: its superclass and the interfaces that it names. -/
def references (s : Store) (c : ClassId) : List ClassId :=
  (s.getClass c).superclass?.toList ++ (s.getClass c).localInterfaces

/-- Mark each class of a list. -/
def markAll (marks : Array Bool) (cs : List ClassId) : Array Bool :=
  cs.foldl (fun marks c => marks.setIfInBounds c.index true) marks

/-- Mark what the marked ones of the first `count` classes refer to, the newest class first.  A
class refers to older ones only, so every class is passed after all those that refer to it. -/
def markReferences (s : Store) : (count : Nat) → Array Bool → Array Bool
  | 0, marks => marks
  | i + 1, marks =>
    s.markReferences i (if marks.getD i false then markAll marks (s.references ⟨i⟩) else marks)

/-- Which classes the given ones keep loaded: themselves, their superclasses and interfaces, and
theirs. -/
def keptBy (s : Store) (roots : List ClassId) : Array Bool :=
  s.markReferences s.classes.size (markAll (Array.replicate s.classes.size false) roots)

/-- The store in which only what the given classes keep is loaded. -/
def unloadExcept (s : Store) (roots : List ClassId) : Store :=
  let kept := s.keptBy roots
  { s with classes := s.classes.mapIdx fun i k =>
      { k with isLoaded := k.isLoaded && kept.getD i false } }

end Store

namespace Linker

/-- Unload every class that no registered, displaced or held class keeps. -/
def unload (l : Linker) (held : List ClassId) : Linker :=
  l.mapStore fun s =>
    s.unloadExcept (l.registry.root.toList ++ l.registry.all ++ l.displaced ++ held)

end Linker
end ClassLinking
