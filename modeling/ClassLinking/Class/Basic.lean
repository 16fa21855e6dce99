import ClassLinking.Class.Flags
import ClassLinking.ITable.Basic
import ClassLinking.Token
import ClassLinking.VTable.Basic

/-!
# Classes

A class (or interface) is described by identity fields that definition fixes once and for all, by
the methods it declares and the default methods it inherits, which a redefinition may replace, and
by its tables.  The tables are installed together in one step: a class has all of them or none.

The superclass chain is part of the description.  It is computed at definition from the chain of the
superclass, so walking up a hierarchy is recursion along a list.
-/

namespace ClassLinking

/-- What linking installs on a class. -/
structure Tables where
  vtable : VTable
  /-- The virtual table slot of each inherited default method, in the order of the defaults. -/
  defaultSlots : List Nat
  /-- The placeholders that this class introduced into its virtual table. -/
  mirandas : List MethodId
  itable : ITable
  deriving DecidableEq, Inhabited

/-- A class or interface. -/
structure Class where
  token : Token
  name : String
  loader : LoaderId
  flags : ClassFlags
  /-- The superclass chain, the direct superclass first; empty for a root class only. -/
  ancestors : List ClassId
  /-- The interfaces that the class names, in order of declaration. -/
  localInterfaces : List ClassId
  /-- Every interface that the class implements, directly or not, each once. -/
  allInterfaces : List ClassId
  /-- The declared methods, in order of declaration. -/
  methods : List MethodId
  /-- The inherited default methods. -/
  defaults : List MethodId
  /-- What linking installed, none before. -/
  tables : Option Tables
  /-- False once nothing reaches the class any more. -/
  isLoaded : Bool
  deriving DecidableEq, Inhabited

namespace Class

/-- The direct superclass. -/
def superclass? (k : Class) : Option ClassId := k.ancestors.head?

/-- Whether this is an interface. -/
def isInterface (k : Class) : Bool := k.flags.isInterface

/-- Whether the tables are installed. -/
def isLinked (k : Class) : Bool := k.tables.isSome

/-- The package part of the name. -/
def package (k : Class) : String := packageOf k.name

/-- Whether a class named `className` that `loader` defines is in the runtime package of `k`. -/
def sharesPackage (k : Class) (loader : LoaderId) (className : String) : Bool :=
  k.loader == loader && k.package == packageOf className

/-- The placeholders introduced by the class, none before linking. -/
def mirandas (k : Class) : List MethodId :=
  match k.tables with
  | some t => t.mirandas
  | none => []

/-- The slots of the default methods, none before linking. -/
def defaultSlots (k : Class) : List Nat :=
  match k.tables with
  | some t => t.defaultSlots
  | none => []

/-- The length of the virtual table, zero before linking. -/
def vtableLength (k : Class) : Nat :=
  match k.tables with
  | some t => t.vtable.length
  | none => 0

end Class
end ClassLinking
