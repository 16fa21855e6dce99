import ClassLinking.Diagnostic
import ClassLinking.Store

/-!
# Steps of building a virtual table

What happens while a table is filled is a list of events.  They do not depend on what the
configuration wants recorded; recording picks the wanted ones out of the list afterwards and puts
them into words.
-/

namespace ClassLinking

/-- A step of filling a virtual table. -/
inductive VTableEvent where
  /-- A declared method got a slot of its own. -/
  | added (m : MethodId) (slot : Nat)
  /-- A default method got a slot of its own. -/
  | addedDefault (m : MethodId) (slot : Nat)
  /-- A placeholder for an interface method was put into a slot. -/
  | miranda (m : MethodId) (slot : Nat)
  /-- A method took over an inherited slot. -/
  | overriding (m : MethodId) (slot : Nat)
  /-- The occupant of an inherited slot stayed. -/
  | notOverriding (occupant : MethodId) (slot : Nat)
  /-- An ancestor's occupant of the slot is overridden by a declaration of the class `className`. -/
  | transitive (className : String) (overridden : MethodId) (slot : Nat)
  /-- A method that took over a slot crosses two loaders in conflict. -/
  | conflict (m overridden : MethodId)
  deriving DecidableEq, Inhabited

namespace VTableEvent

/-- Whether the event is a failure, which is recorded in any case. -/
def isFailure : VTableEvent → Bool
  | conflict .. => true
  | _ => false

/-- The record of a step on the table of the class `className`. -/
def diagnostic (s : Store) (className : String) : VTableEvent → Diagnostic
  | added m slot =>
    { severity := .info, category := .vtable, message := "adding", className
      method := (s.selector m).text, index := slot, flags := (s.getMethod m).access.describe }
  | addedDefault m slot =>
    { severity := .info, category := .defaultMethod, message := "adding default", className
      method := s.displayName m, index := slot }
  | miranda m slot =>
    { severity := .info, category := .miranda, message := "fill in mirandas", className
      method := s.displayName m, index := slot }
  | overriding m slot =>
    { severity := .info, category := .override, message := "overriding", className
      method := s.displayName m, index := slot }
  | notOverriding m slot =>
    { severity := .info, category := .override, message := "NOT overriding", className
      method := s.displayName m, index := slot }
  | transitive overrider m slot =>
    { severity := .info, category := .override, message := "transitive override"
      className := overrider, method := s.displayName m, index := slot }
  | conflict m overridden =>
    { severity := .error, category := .loaderConstraint
      message := s.displayName m ++ " overriding " ++ s.displayName overridden ++ " in "
        ++ className }

/-- The records of a list of steps, with or without those that are not failures. -/
def diagnostics (s : Store) (trace : Bool) (className : String) (events : List VTableEvent) :
    List Diagnostic :=
  (events.filter fun e => trace || e.isFailure).map (diagnostic s className)

end VTableEvent
end ClassLinking
