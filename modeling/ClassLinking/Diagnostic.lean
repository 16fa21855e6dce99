import ClassLinking.Text.Lines

/-!
# Diagnostics

A linker keeps a record of what it did and of what went wrong, in the order in which it happened.
Steps are recorded at the lowest severity and only when the configuration asks for them; failures
are always recorded.
-/

namespace ClassLinking

/-- How serious a record is. -/
inductive Severity where
  /-- A step of construction. -/
  | info
  /-- Something unusual that stopped nothing. -/
  | warning
  /-- A failure of linking or redefinition. -/
  | error
  deriving DecidableEq, Inhabited

namespace Severity

/-- A severity as it is printed. -/
def text : Severity → String
  | info => "INFO"
  | warning => "WARN"
  | error => "ERROR"

end Severity

/-- The part of linking that a record is about. -/
inductive Category where
  | vtable
  | itable
  | miranda
  | defaultMethod
  | override
  | loaderConstraint
  | redefinition
  | general
  deriving DecidableEq, Inhabited

namespace Category

/-- A category as it is printed. -/
def text : Category → String
  | vtable => "VTable"
  | itable => "ITable"
  | miranda => "Miranda"
  | defaultMethod => "DefaultMethod"
  | override => "Override"
  | loaderConstraint => "LoaderConstraint"
  | redefinition => "Redefinition"
  | general => "General"

end Category

/-- One record, with as much of its context as applies. -/
structure Diagnostic where
  severity : Severity
  category : Category
  message : String
  className : Option String := none
  method : Option String := none
  index : Option Nat := none
  flags : Option String := none
  deriving DecidableEq, Inhabited

namespace Diagnostic

/-- A part of the context in parentheses, and nothing for a part that is absent. -/
def contextText (label : String) : Option String → String
  | some value => " (" ++ label ++ ": " ++ value ++ ")"
  | none => ""

/-- A record on one line. -/
def text (d : Diagnostic) : String :=
  "[" ++ d.severity.text ++ "] " ++ d.category.text ++ ": " ++ d.message
    ++ contextText "class" d.className ++ contextText "method" d.method
    ++ contextText "index" (d.index.map toString) ++ contextText "flags" d.flags

end Diagnostic

/-- The records of a linker, oldest first. -/
structure Diagnostics where
  entries : Array Diagnostic := #[]
  deriving DecidableEq, Inhabited

namespace Diagnostics

/-- Nothing recorded yet. -/
def empty : Diagnostics := ⟨#[]⟩

/-- Record `d` after everything else. -/
def push (ds : Diagnostics) (d : Diagnostic) : Diagnostics := ⟨ds.entries.push d⟩

/-- Record every element of a list in order. -/
def append (ds : Diagnostics) (new : List Diagnostic) : Diagnostics := new.foldl push ds

/-- Record a message without context. -/
def report (ds : Diagnostics) (severity : Severity) (category : Category) (message : String) :
    Diagnostics :=
  ds.push { severity, category, message }

/-- The number of records. -/
def count (ds : Diagnostics) : Nat := ds.entries.size

/-- All records, oldest first. -/
def toList (ds : Diagnostics) : List Diagnostic := ds.entries.toList

/-- The records of one severity. -/
def ofSeverity (ds : Diagnostics) (severity : Severity) : List Diagnostic :=
  ds.toList.filter (·.severity = severity)

/-- The number of records of one severity. -/
def countOf (ds : Diagnostics) (severity : Severity) : Nat := (ds.ofSeverity severity).length

/-- Whether anything is recorded. -/
def hasAny (ds : Diagnostics) : Bool := ds.count != 0

/-- Whether anything of the given severity is recorded. -/
def has (ds : Diagnostics) (severity : Severity) : Bool := ds.countOf severity != 0

/-- The records of one category. -/
def ofCategory (ds : Diagnostics) (category : Category) : List Diagnostic :=
  ds.toList.filter (·.category = category)

/-- The records about the class named `className`. -/
def forClass (ds : Diagnostics) (className : String) : List Diagnostic :=
  ds.toList.filter (·.className = some className)

/-- The entries of the summary: the count of each severity, then the errors, then the warnings. -/
def summaryEntries (ds : Diagnostics) : List String :=
  ("Diagnostics: " ++ toString (ds.countOf .error) ++ " error(s), "
      ++ toString (ds.countOf .warning) ++ " warning(s), "
      ++ toString (ds.countOf .info) ++ " info(s)")
    :: (ds.ofSeverity .error ++ ds.ofSeverity .warning).map fun d => "  " ++ d.text

/-- The summary as one text, a line feed after every entry. -/
def summary (ds : Diagnostics) : String := String.join (ds.summaryEntries.map (· ++ "\n"))

/-- The lines of the summary.  An entry whose message or names hold line feeds takes several. -/
def summaryLines (ds : Diagnostics) : List String := Text.lines ds.summary

end Diagnostics
end ClassLinking
