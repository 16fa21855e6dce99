import ClassLinking.Id
import ClassLinking.Token
import ClassLinking.Method.Flags

/-!
# Methods

A method has an identity that never changes (its selector, access level, modifiers, body and the
class that holds it) and two pieces of state: the dispatch index that linking gives it, and the
revision that a redefinition of its holder gives it.

Slots of dispatch tables are matched by selector: two methods are *the same method in two places*
when they agree in name and descriptor.
-/

namespace ClassLinking

/-- The name and the descriptor of a method. -/
structure Selector where
  name : String
  descriptor : String
  deriving DecidableEq, Inhabited

namespace Selector

/-- The name followed by the descriptor. -/
def text (s : Selector) : String := s.name ++ s.descriptor

/-- Instance and class initializers are never dispatched. -/
def isInitializer (s : Selector) : Bool := s.name == "<init>" || s.name == "<clinit>"

end Selector

/-- Where a method is found by dynamic dispatch. -/
inductive DispatchIndex where
  /-- Not reached by linking yet. -/
  | unassigned
  /-- Bound statically, in no table. -/
  | nonVirtual
  /-- A slot of the virtual table of the declaring class. -/
  | virtual (slot : Nat)
  /-- An entry of the declaring interface's block in interface tables. -/
  | interface (entry : Nat)
  deriving DecidableEq, Inhabited

namespace DispatchIndex

/-- The virtual table slot, if that is what was assigned. -/
def virtualSlot? : DispatchIndex → Option Nat
  | virtual slot => some slot
  | _ => none

/-- The interface table entry, if that is what was assigned. -/
def interfaceEntry? : DispatchIndex → Option Nat
  | interface entry => some entry
  | _ => none

/-- Whether linking has not reached the method. -/
def isUnassigned : DispatchIndex → Bool
  | unassigned => true
  | _ => false

/-- A dispatch index as it is listed. -/
def text : DispatchIndex → String
  | unassigned => "unassigned"
  | nonVirtual => "nonvirtual"
  | virtual slot => "vtable[" ++ toString slot ++ "]"
  | interface entry => "itable[" ++ toString entry ++ "]"

end DispatchIndex

/-- Where a method body stands after redefinitions of its holder. -/
inductive Revision where
  /-- The body that its holder declares. -/
  | current
  /-- Replaced by a body with the same code. -/
  | old
  /-- Replaced by a body with other code. -/
  | obsolete
  /-- Removed without a replacement. -/
  | deleted
  deriving DecidableEq, Inhabited

namespace Revision

/-- Replaced or removed by a redefinition. -/
def isOld : Revision → Bool
  | current => false
  | _ => true

/-- Never to run again. -/
def isRetired : Revision → Bool
  | obsolete | deleted => true
  | _ => false

/-- A revision as it is listed. -/
def text : Revision → String
  | current => "Current"
  | old => "Old"
  | obsolete => "Obsolete"
  | deleted => "Deleted"

end Revision

/-- A method body. -/
structure Method where
  token : Token
  /-- The ordinal of the declaration; a redefined body keeps it. -/
  idnum : Nat
  selector : Selector
  access : Access
  modifiers : Modifiers
  code : List UInt8
  /-- The class that declares the method. -/
  holder : Option ClassId
  dispatch : DispatchIndex
  revision : Revision
  deriving DecidableEq, Inhabited

namespace Method

/-- A fresh body: no holder, no dispatch index, current.  Access level and modifiers are read from
one raw access word. -/
def fresh (token : Token) (idnum : Nat) (selector : Selector) (word : UInt32) (code : List UInt8) :
    Method where
  token := token
  idnum := idnum
  selector := selector
  access := .ofWord word
  modifiers := .ofWord word
  code := code
  holder := none
  dispatch := .unassigned
  revision := .current

/-- The placeholder for the unimplemented interface method `source` at slot `slot`: public,
abstract, without a body, and held by the interface that declares `source`. -/
def placeholder (token : Token) (source : Method) (slot : Nat) : Method where
  token := token
  idnum := source.idnum
  selector := source.selector
  access := .onlyPublic
  modifiers := .miranda
  code := []
  holder := source.holder
  dispatch := .virtual slot
  revision := .current

/-- A method gets its holder once; a later call changes nothing. -/
def attach (m : Method) (holder : ClassId) : Method :=
  match m.holder with
  | some _ => m
  | none => { m with holder := some holder }

/-- Static or private methods and initializers are bound statically. -/
def isBoundStatically (m : Method) : Bool :=
  m.modifiers.isStatic || m.access.isPrivate || m.selector.isInitializer

/-- Neither static nor private: a declaration that instance dispatch sees. -/
def isInstance (m : Method) : Bool := !m.modifiers.isStatic && !m.access.isPrivate

end Method
end ClassLinking
