/-!
# Identities of classes and methods

Every class and every method of the model lives in one store and is known by its position there.
Two descriptors with equal contents are still two things, so tables, hierarchies and holders speak
of identities and never of contents.
-/

namespace ClassLinking

/-- The identity of a class or interface. -/
structure ClassId where
  index : Nat
  deriving DecidableEq, Inhabited

/-- The identity of a method body: a declared method, one of its later versions, or a
placeholder. -/
structure MethodId where
  index : Nat
  deriving DecidableEq, Inhabited

end ClassLinking
