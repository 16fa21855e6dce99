import ClassLinking.Lookup

/-!
# Laying out an interface table

The methods of an interface are numbered within the interface when it is linked.  The block of the
interface in any table is as long as these numbers need it to be.  A class's table has a block for
each of its interfaces that has numbered methods or superinterfaces of its own, in the order in
which the class lists them.
-/

namespace ClassLinking
namespace Store

/-- The methods of an interface that are called through interface tables: those dispatched
dynamically that did not take over a slot of the root class. -/
def interfaceMethods (s : Store) (i : ClassId) : List MethodId :=
  (s.getClass i).methods.filter fun m =>
    let x := s.getMethod m
    !x.isBoundStatically && x.dispatch.virtualSlot?.isNone

/-- The numbers of the methods of an interface: those called through interface tables, counted from
zero in order of declaration. -/
def interfaceIndices (s : Store) (i : ClassId) : List (MethodId × Nat) :=
  (s.interfaceMethods i).zipIdx

/-- The number of a method within its interface. -/
def interfaceIndex? (s : Store) (m : MethodId) : Option Nat :=
  (s.getMethod m).dispatch.interfaceEntry?

/-- The length of the block of a linked interface: one more than its highest number. -/
def blockLength (s : Store) (i : ClassId) : Nat :=
  (s.getClass i).methods.foldl (fun n m => max n ((s.interfaceIndex? m).elim 0 (· + 1))) 0

/-- The method of an interface with a number. -/
def interfaceMethodAt? (s : Store) (i : ClassId) (index : Nat) : Option MethodId :=
  (s.getClass i).methods.find? fun m => (s.getMethod m).dispatch = .interface index

/-- The interfaces that get a block, with the lengths of their blocks. -/
def visitedInterfaces (s : Store) (interfaces : List ClassId) : List (ClassId × Nat) :=
  (interfaces.map fun i => (i, s.blockLength i)).filter fun (i, length) =>
    length != 0 || !(s.getClass i).allInterfaces.isEmpty

end Store

/-- The outcome of sizing an interface table. -/
structure ITableSize where
  /-- The interfaces with a block. -/
  interfaces : Nat
  /-- The entries of all blocks. -/
  methods : Nat
  deriving DecidableEq, Inhabited

namespace ITableSize

/-- The words of the table, terminator included. -/
def words (n : ITableSize) : Nat := (n.interfaces + 1) * ITableHeader.words + n.methods

/-- The size of a table with the given blocks. -/
def ofBlocks (blocks : List (ClassId × Nat)) : ITableSize :=
  ⟨blocks.length, blocks.foldr (fun b n => b.2 + n) 0⟩

end ITableSize

namespace Store

/-- The size of the table of a class with the given interfaces. -/
def itableSize (s : Store) (interfaces : List ClassId) : ITableSize :=
  .ofBlocks (s.visitedInterfaces interfaces)

end Store

namespace ITable

/-- The header entries of the given blocks, the first of which starts at the word `offset`. -/
def headerFrom : (offset : Nat) → List (ClassId × Nat) → List ITableHeader
  | _, [] => [.terminator]
  | offset, (i, length) :: rest => ⟨some i, offset⟩ :: headerFrom (offset + length) rest

/-- The table with the given blocks and nothing in them. -/
def ofBlocks (blocks : List (ClassId × Nat)) : ITable :=
  ⟨headerFrom ((blocks.length + 1) * ITableHeader.words) blocks,
    List.replicate (ITableSize.ofBlocks blocks).methods .empty⟩

@[simp] theorem length_headerFrom (offset : Nat) (blocks : List (ClassId × Nat)) :
    (headerFrom offset blocks).length = blocks.length + 1 := by
  induction blocks generalizing offset with
  | nil => rfl
  | cons b rest ih => simp [headerFrom, ih]

end ITable

namespace Store

/-- The implementation that an interface call through a table runs. -/
def selectInterface (s : Store) (receiver interface : ClassId) (t : ITable) (index : Nat) :
    Except LinkError MethodId :=
  let name := (s.getClass receiver).name
  match t.entry? interface index with
  | none => .error (.linkage name (.noInterfaceEntry index (s.getClass interface).name))
  | some (.bound m) => .ok m
  | some (.inaccessible method) => .error (.illegalAccess name method)
  | some .empty =>
    .error (.abstractMethod name
      (match s.interfaceMethodAt? interface index with
        | some m => (s.selector m).text
        | none => "<itable entry " ++ toString index ++ ">"))

/-- The first entry, counted from `index`, that refers to a replaced body. -/
def firstOldEntry? (s : Store) : (index : Nat) → List ITableEntry → Option (Nat × MethodId)
  | _, [] => none
  | index, .bound m :: rest =>
    if (s.getMethod m).revision.isOld then some (index, m) else s.firstOldEntry? (index + 1) rest
  | index, _ :: rest => s.firstOldEntry? (index + 1) rest

/-- The first entry of a table that refers to a replaced body. -/
def oldEntry? (s : Store) (t : ITable) : Option (Nat × MethodId) := s.firstOldEntry? 0 t.entries

end Store
end ClassLinking
