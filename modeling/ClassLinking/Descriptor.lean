/-!
# Class names in method descriptors

A method descriptor writes a class type as an `L`, the name of the class and a `;`.  Primitive types
are single capital letters other than `L`, arrays put brackets in front of their element type, and
none of the other characters of a descriptor is an `L` outside a name, so a scan for `L … ;` reads
off exactly the class names.
-/

namespace ClassLinking
namespace Descriptor

/-- The class names in a descriptor, in order of appearance and with repetitions.  A name that no
`;` closes ends the scan. -/
def classNamesIn : List Char → List String
  | [] => []
  | c :: cs =>
    if c = 'L' then
      if ';' ∈ cs then
        String.ofList (cs.takeWhile (· ≠ ';')) :: classNamesIn (cs.dropWhile (· ≠ ';')).tail
      else []
    else classNamesIn cs
termination_by cs => cs.length
decreasing_by
  · simp only [List.length_tail, List.length_cons]
    have := (List.dropWhile_sublist (fun x : Char => decide (x ≠ ';')) (l := cs)).length_le
    omega
  · simp

/-- The class names in a descriptor. -/
def classNames (descriptor : String) : List String := classNamesIn descriptor.toList

@[simp] theorem classNamesIn_nil : classNamesIn [] = [] := by
  simp [classNamesIn]

/-- A character that opens no class name is passed over. -/
theorem classNamesIn_cons_of_ne {c : Char} (h : c ≠ 'L') (cs : List Char) :
    classNamesIn (c :: cs) = classNamesIn cs := by
  rw [classNamesIn, if_neg h]

end Descriptor
end ClassLinking
