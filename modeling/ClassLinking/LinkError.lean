import ClassLinking.Class.Flags
import ClassLinking.Method.Basic

/-!
# What can go wrong

Every failure is a cause with the names it speaks of; the wording is one function of the cause.
Causes fall into three groups: a definition or redefinition that the rules refuse, a program that
violates the linking rules, and an inconsistency, which is an invariant of the tables that does not
hold.
-/

namespace ClassLinking

/-- Why a class cannot be defined. -/
inductive DefinitionFault where
  | interfaceBeforeRoot (name : String)
  | interfaceNotUnderRoot (name root : String)
  | cannotExtend (name parent : String)
  | missingSuperclass (name : String)
  | cannotImplement (name bad : String)
  | tooManyMethods (name : String) (count : Nat)
  | secondRoot (name : String)
  | alreadyDefined (name : String) (loader : LoaderId)
  deriving DecidableEq

/-- The wording of a refused definition. -/
def DefinitionFault.text : DefinitionFault → String
  | interfaceBeforeRoot name => "interface " ++ name ++ " defined before the root class"
  | interfaceNotUnderRoot name root =>
    "interface " ++ name ++ " must extend the root class " ++ root
  | cannotExtend name parent => name ++ " cannot extend " ++ parent
  | missingSuperclass name => name ++ " has no superclass but the root class is already defined"
  | cannotImplement name bad => name ++ " cannot implement class " ++ bad
  | tooManyMethods name count =>
    name ++ " declares " ++ toString count ++ " methods, more than idnums can number"
  | secondRoot name => name ++ " would be a second root class"
  | alreadyDefined name loader => name ++ " already defined by loader " ++ loader.text

/-- Why a redefinition is incompatible with the class. -/
inductive RedefinitionFault where
  | declaredTwice (selector : Selector)
  | noIdnumLeft (selector : Selector)
  | changesModifiers (method : String)
  | addsVirtual (selector : Selector)
  | removesVirtual (selector : Selector)
  | cannotReplace (new old : String)
  deriving DecidableEq

/-- The wording of an incompatible redefinition. -/
def RedefinitionFault.text : RedefinitionFault → String
  | declaredTwice selector => selector.text ++ " is declared twice"
  | noIdnumLeft selector => "no idnum left for " ++ selector.text
  | changesModifiers method => method ++ " changes its modifiers"
  | addsVirtual selector => "adds virtual method " ++ selector.text
  | removesVirtual selector => "removes virtual method " ++ selector.text
  | cannotReplace new old => new ++ " cannot replace " ++ old

/-- How a table violates the linking rules. -/
inductive LinkageFault where
  | notInherited (slot : Nat) (method : String)
  | noInterfaceEntry (entry : Nat) (interface : String)
  | badTerminator
  deriving DecidableEq

/-- The wording of a violated linking rule. -/
def LinkageFault.text : LinkageFault → String
  | notInherited slot method =>
    "vtable entry " ++ toString slot ++ " holds " ++ method ++ " which is not inherited"
  | noInterfaceEntry entry interface =>
    "no itable entry " ++ toString entry ++ " for interface " ++ interface
  | badTerminator => "itable header is not terminated by a single null entry"

/-- An invariant of the tables that does not hold. -/
inductive Inconsistency where
  | vtableTooShort (className : String)
  | vtableOverflow (className : String) (length : Nat)
  | slotMismatch (slot : Nat) (className : String) (ours theirs : Selector)
  | ancestorSlotMismatch (slot : Nat) (ancestor : String) (found expected : Selector)
  | slotOutOfBounds (slot length : Nat)
  | receiverSlotOutOfBounds (slot : Nat) (receiver : String) (length : Nat)
  | entryOutOfBounds (entry count : Nat)
  | entryExceedsBlock (entry : Nat) (method : String) (length : Nat)
  | adjustmentsForUnlinked (className : String)
  deriving DecidableEq

/-- The wording of an inconsistency. -/
def Inconsistency.text : Inconsistency → String
  | vtableTooShort className => "vtable of " ++ className ++ " is shorter than its superclass's"
  | vtableOverflow className length =>
    "vtable of " ++ className ++ " overflows its computed length " ++ toString length
  | slotMismatch slot className ours theirs =>
    "mismatched name/signature of vtable entries " ++ toString slot ++ " in " ++ className ++ ": "
      ++ ours.text ++ " vs " ++ theirs.text
  | ancestorSlotMismatch slot ancestor found expected =>
    "vtable entry " ++ toString slot ++ " of " ++ ancestor ++ " is " ++ found.text ++ ", expected "
      ++ expected.text
  | slotOutOfBounds slot length =>
    "vtable index " ++ toString slot ++ " out of bounds for length " ++ toString length
  | receiverSlotOutOfBounds slot receiver length =>
    "vtable index " ++ toString slot ++ " out of bounds for " ++ receiver ++ " (length "
      ++ toString length ++ ")"
  | entryOutOfBounds entry count =>
    "itable method entry " ++ toString entry ++ " out of bounds for " ++ toString count
  | entryExceedsBlock entry method length =>
    "itable index " ++ toString entry ++ " of " ++ method ++ " exceeds its block of "
      ++ toString length
  | adjustmentsForUnlinked className => "adjustments planned for unlinked class " ++ className

/-- The two kinds of dispatch table. -/
inductive TableKind where
  | vtable
  | itable
  deriving DecidableEq, Inhabited

/-- The name of a kind of table. -/
def TableKind.text : TableKind → String
  | vtable => "vtable"
  | itable => "itable"

/-- A failure of a definition, of linking, of selection or of redefinition. -/
inductive LinkError where
  /-- A table of the class violates a linking rule. -/
  | linkage (className : String) (fault : LinkageFault)
  /-- A method of the class crosses two loaders that disagree about a class of its descriptor. -/
  | loaderConstraint (className : String) (method : Selector) (typeName : String)
      (loader other : LoaderId)
  /-- The root class's virtual table has the wrong length. -/
  | invalidRoot (className : String) (expected actual : Nat)
  /-- More supertypes stand one above the other than the configuration allows. -/
  | hierarchyTooDeep (max : Nat)
  /-- The selected method has no body. -/
  | abstractMethod (className method : String)
  /-- The selected method is not public. -/
  | illegalAccess (className method : String)
  /-- A table refers to a replaced body. -/
  | retiredMethod (className method : String) (table : TableKind) (index : Nat)
  /-- The new bodies of a class do not fit the old ones. -/
  | incompatibleRedefinition (className : String) (fault : RedefinitionFault)
  /-- The class has its tables already. -/
  | alreadyLinked (className : String)
  /-- The class has no tables yet. -/
  | notLinked (className : String)
  /-- The class cannot be defined. -/
  | classInsert (fault : DefinitionFault)
  /-- An invariant of the tables does not hold. -/
  | inconsistent (fault : Inconsistency)
  deriving DecidableEq

instance : Inhabited LinkError := ⟨.hierarchyTooDeep 0⟩

namespace LinkError

/-- The wording of a failure. -/
def text : LinkError → String
  | linkage className fault => "LinkageError in " ++ className ++ ": " ++ fault.text
  | loaderConstraint className method typeName loader other =>
    "LinkageError: loader constraint violation in " ++ className ++ " for " ++ method.text
      ++ ": loader " ++ loader.text ++ " and loader " ++ other.text
      ++ " have different Class objects for the type " ++ typeName
  | invalidRoot className expected actual =>
    "Root class " ++ className ++ " has a vtable of length " ++ toString actual ++ ", expected "
      ++ toString expected
  | hierarchyTooDeep max => "Class hierarchy exceeds the maximum depth allowed - " ++ toString max
  | abstractMethod className method => "AbstractMethodError: " ++ className ++ "." ++ method
  | illegalAccess className method =>
    "IllegalAccessError: " ++ className ++ "." ++ method ++ " is not public"
  | retiredMethod className method table index =>
    className ++ " still references retired method " ++ method ++ " at " ++ table.text ++ " index "
      ++ toString index
  | incompatibleRedefinition className fault =>
    "Incompatible redefinition of " ++ className ++ ": " ++ fault.text
  | alreadyLinked className => "Class " ++ className ++ " is already linked"
  | notLinked className => "Class " ++ className ++ " is not linked"
  | classInsert fault => "Failed to insert class into ClassRegistry - " ++ fault.text
  | inconsistent fault => "Inconsistent - " ++ fault.text

end LinkError
end ClassLinking
