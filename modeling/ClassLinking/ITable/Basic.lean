import ClassLinking.Id
import ClassLinking.LinkError

/-!
# Interface tables

An interface table has two regions, measured in words:

    +------------------------------+  word 0
    | interface I₁ | offset of m₁  |  header, two words an entry
    | interface I₂ | offset of m₂  |
    | none         | 0             |  terminator
    +------------------------------+
    | m₁[0] | m₁[1] | ...          |  block of I₁, one word an entry
    | m₂[0] | ...                  |  block of I₂
    +------------------------------+

Offsets count from the start of the table, so the offset of a block is never zero and the terminator
can be told from every other header entry.  A block is indexed by the interface-local indices of the
interface's methods.  An interface itself owns a table without header and without entries.
-/

namespace ClassLinking

/-- One entry of a method block. -/
inductive ITableEntry where
  /-- No public implementation with a body. -/
  | empty
  /-- The implementation that an interface call runs. -/
  | bound (method : MethodId)
  /-- The implementation found is not public.  Only its name is kept, so the entry outlives the
  body. -/
  | inaccessible (method : String)
  deriving DecidableEq, Inhabited

namespace ITableEntry

/-- The bound implementation, if there is one. -/
def method? : ITableEntry → Option MethodId
  | bound m => some m
  | _ => none

/-- Whether nothing was found. -/
def isEmpty : ITableEntry → Bool
  | empty => true
  | _ => false

end ITableEntry

/-- One entry of the header: an interface and the word at which its block starts. -/
structure ITableHeader where
  interface : Option ClassId
  offset : Nat
  deriving DecidableEq, Inhabited

namespace ITableHeader

/-- The entry that closes a header. -/
def terminator : ITableHeader := ⟨none, 0⟩

/-- Whether this entry closes a header. -/
def isTerminator (h : ITableHeader) : Bool := h.interface.isNone && h.offset == 0

/-- Words taken by one header entry. -/
def words : Nat := 2

end ITableHeader

/-- The interface table of a class. -/
structure ITable where
  header : List ITableHeader
  entries : List ITableEntry
  deriving DecidableEq, Inhabited

namespace ITable

/-- The table of an interface. -/
def empty : ITable := ⟨[], []⟩

/-- Words taken by the header. -/
def headerWords (t : ITable) : Nat := t.header.length * ITableHeader.words

/-- Words taken by the whole table. -/
def words (t : ITable) : Nat := t.headerWords + t.entries.length

/-- The interfaces that have a block, in table order. -/
def interfaces (t : ITable) : List ClassId := t.header.filterMap (·.interface)

/-- The first entry and the number of entries of the block that `header` places for `interface`:
a block ends where the next one starts, the last one at the end of the table. -/
def blockIn (headerWords entryCount : Nat) (interface : ClassId) :
    List ITableHeader → Option (Nat × Nat)
  | [] => none
  | h :: rest =>
    if h.interface = some interface then
      let start := h.offset - headerWords
      let stop :=
        match rest with
        | next :: _ => if next.isTerminator then entryCount else next.offset - headerWords
        | [] => entryCount
      some (start, stop - start)
    else blockIn headerWords entryCount interface rest

/-- The first entry and the number of entries of the block of `interface`. -/
def block? (t : ITable) (interface : ClassId) : Option (Nat × Nat) :=
  blockIn t.headerWords t.entries.length interface t.header

/-- The entries of the block of `interface`, none at all for an interface without a block. -/
def entriesFor (t : ITable) (interface : ClassId) : List ITableEntry :=
  match t.block? interface with
  | some (start, count) => (t.entries.drop start).take count
  | none => []

/-- One entry of the block of `interface`. -/
def entry? (t : ITable) (interface : ClassId) (index : Nat) : Option ITableEntry :=
  match t.block? interface with
  | some (start, count) => if index < count then t.entries[start + index]? else none
  | none => none

/-- Replace an entry, counted across all blocks. -/
def put (t : ITable) (index : Nat) (e : ITableEntry) : Except LinkError ITable :=
  if index < t.entries.length then .ok { t with entries := t.entries.set index e }
  else .error (.inconsistent (.entryOutOfBounds index t.entries.length))

/-- Whether the header is closed by exactly one terminator; a table without a header needs none. -/
def isTerminated (t : ITable) : Bool :=
  match t.header.getLast? with
  | none => true
  | some last => last.isTerminator && !t.header.dropLast.any ITableHeader.isTerminator

/-- Refuse a header that is not closed by exactly one terminator. -/
def verifyTerminator (t : ITable) (className : String) : Except LinkError Unit :=
  if t.isTerminated then .ok () else .error (.linkage className .badTerminator)

/-- A table by the number of its interfaces and of its entries. -/
def describe (t : ITable) : String :=
  "ITable \x7b interfaces: " ++ toString t.interfaces.length ++ ", methods: "
    ++ toString t.entries.length ++ " \x7d"

theorem put_of_lt {t : ITable} {index : Nat} (h : index < t.entries.length) (e : ITableEntry) :
    t.put index e = .ok { t with entries := t.entries.set index e } := by
  simp [put, h]

end ITable
end ClassLinking
