import ClassLinking.Store

/-!
# The registry of defined classes

The registry lists the defined classes in the order of their tokens and knows which class is the
root of the hierarchy.  A name may be defined once by each loader.  It also numbers what is created:
classes, methods and placeholders are counted separately, each from one.
-/

namespace ClassLinking

/-- The defined classes and the next rows of the three kinds of tokens. -/
structure Registry where
  /-- The classes by token, in increasing order of tokens. -/
  classes : List (Token × ClassId) := []
  /-- The tokens that were registered under a name, in order of registration. -/
  names : List (String × Token) := []
  /-- The class without a superclass. -/
  root : Option ClassId := none
  nextClassRow : Nat := 1
  nextMethodRow : Nat := 1
  nextMirandaRow : Nat := 1
  deriving DecidableEq, Inhabited

namespace Registry

/-- The registry without classes; rows start at one. -/
def empty : Registry := {}

/-- The class registered under a token. -/
def get? (r : Registry) (t : Token) : Option ClassId := r.classes.lookup t

/-- The number of registered classes. -/
def size (r : Registry) : Nat := r.classes.length

/-- Whether no class is registered. -/
def isEmpty (r : Registry) : Bool := r.classes.isEmpty

/-- Every registered class, in the order of tokens. -/
def all (r : Registry) : List ClassId := r.classes.map (·.2)

/-- The classes registered under a name, one for each loader. -/
def named (r : Registry) (name : String) : List ClassId :=
  (r.names.filter (·.1 = name)).filterMap fun entry => r.get? entry.2

/-- The class with a name that a loader defined. -/
def getByName? (r : Registry) (s : Store) (name : String) (loader : LoaderId) : Option ClassId :=
  (r.named name).find? fun c => (s.getClass c).loader = loader

/-- Put a class under a token.  A class that is under the token already gives way. -/
def insertByToken (t : Token) (c : ClassId) : List (Token × ClassId) → List (Token × ClassId)
  | [] => [(t, c)]
  | (u, d) :: rest =>
    if t = u then (t, c) :: rest
    else if t.value < u.value then (t, c) :: (u, d) :: rest
    else (u, d) :: insertByToken t c rest

/-- Register the class `k`, which has the identity `c`. -/
def insert (r : Registry) (s : Store) (k : Class) (c : ClassId) : Except DefinitionFault Registry :=
  if k.superclass?.isNone && r.root.isSome then .error (.secondRoot k.name)
  else if (r.getByName? s k.name k.loader).isSome then .error (.alreadyDefined k.name k.loader)
  else
    .ok { r with
      classes := insertByToken k.token c r.classes
      names := r.names ++ [(k.name, k.token)]
      root := if k.superclass?.isNone then some c else r.root }

/-- The token of the next class. -/
def classToken (r : Registry) : Token := .ofParts Token.classKind (.ofNat r.nextClassRow)

/-- The token of the method that is `ahead` places after the next one. -/
def methodToken (r : Registry) (ahead : Nat) : Token :=
  .ofParts Token.methodKind (.ofNat (r.nextMethodRow + ahead))

/-- The token of the next placeholder. -/
def mirandaToken (r : Registry) : Token := .ofParts Token.mirandaKind (.ofNat r.nextMirandaRow)

/-- The registry after one class token was taken. -/
def takeClassToken (r : Registry) : Registry := { r with nextClassRow := r.nextClassRow + 1 }

/-- The registry after `count` method tokens were taken. -/
def takeMethodTokens (r : Registry) (count : Nat) : Registry :=
  { r with nextMethodRow := r.nextMethodRow + count }

/-- The registry after one placeholder token was taken. -/
def takeMirandaToken (r : Registry) : Registry := { r with nextMirandaRow := r.nextMirandaRow + 1 }

end Registry
end ClassLinking
