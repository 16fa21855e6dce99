import ClassLinking.Descriptor

/-!
# Descriptors and the class names in them

A method descriptor is the text of a list of parameter types and a return type.  The scan for class
names does not take it apart: it looks for the next `L`, and from there for the next `;`.  On the
text of a method type this finds the class names of its types and nothing else
(`classNames_text`), for two reasons.  No letter of a primitive type and none of the characters
`(`, `)`, `[` and `V` is an `L`, so the scan stops at the `L` in front of a class name and nowhere
before it; and no class name contains a `;`, so it goes on right behind the name, whatever other
characters the name is made of.

The induction is on the type, with what follows it in the descriptor left open
(`classNamesIn_text_append`).
-/

namespace ClassLinking
namespace Descriptor

/-! ## Types and their texts -/

/-- The primitive types. -/
inductive PrimitiveType where
  | byte
  | char
  | double
  | float
  | int
  | long
  | short
  | boolean
  deriving DecidableEq

/-- The letter of a primitive type. -/
def PrimitiveType.letter : PrimitiveType → Char
  | byte => 'B'
  | char => 'C'
  | double => 'D'
  | float => 'F'
  | int => 'I'
  | long => 'J'
  | short => 'S'
  | boolean => 'Z'

/-- A name that a class type may have: any text without the `;` that ends the type. -/
structure ClassName where
  text : String
  ne_empty : text ≠ ""
  not_mem : ';' ∉ text.toList

/-- The type of a parameter or of a value that is returned. -/
inductive ValueType where
  | primitive (p : PrimitiveType)
  | object (name : ClassName)
  | array (element : ValueType)

/-- A list of parameter types and a return type, none for a method that returns nothing. -/
structure MethodType where
  parameters : List ValueType
  result : Option ValueType

namespace ValueType

/-- A type as it is written in a descriptor. -/
def text : ValueType → String
  | primitive p => String.singleton p.letter
  | object name => "L" ++ name.text ++ ";"
  | array element => "[" ++ element.text

/-- The class names in a type: its own, or that of its element type. -/
def classNames : ValueType → List String
  | primitive _ => []
  | object name => [name.text]
  | array element => element.classNames

end ValueType

namespace MethodType

/-- A return type as it is written in a descriptor. -/
def resultText : Option ValueType → String
  | none => "V"
  | some t => t.text

/-- A method type as it is written in a descriptor. -/
def text (d : MethodType) : String :=
  "(" ++ String.join (d.parameters.map ValueType.text) ++ ")" ++ resultText d.result

/-- The class names in a method type, in order of appearance and with repetitions. -/
def classNames (d : MethodType) : List String :=
  d.parameters.flatMap ValueType.classNames ++ d.result.elim [] ValueType.classNames

end MethodType

/-! ## Scanning -/

theorem PrimitiveType.letter_ne (p : PrimitiveType) : p.letter ≠ 'L' := by
  cases p <;> decide

/-- A class name is read up to its `;`, and the scan goes on behind it. -/
theorem classNamesIn_name (name : ClassName) (rest : List Char) :
    classNamesIn ('L' :: (name.text.toList ++ ';' :: rest)) =
      name.text :: classNamesIn rest := by
  have hpass : ∀ c ∈ name.text.toList, decide (c ≠ ';') = true := by
    intro c hc
    rw [decide_eq_true_eq]
    rintro rfl
    exact name.not_mem hc
  have htaken : (name.text.toList ++ ';' :: rest).takeWhile (· ≠ ';') = name.text.toList := by
    rw [List.takeWhile_append_of_pos hpass]
    simp
  have hleft : (name.text.toList ++ ';' :: rest).dropWhile (· ≠ ';') = ';' :: rest := by
    rw [List.dropWhile_append_of_pos hpass]
    simp
  rw [classNamesIn, if_pos rfl, if_pos (by simp), htaken, hleft, String.ofList_toList,
    List.tail_cons]

/-- **A type adds its class names to those of what follows it.** -/
theorem classNamesIn_text_append (t : ValueType) (rest : List Char) :
    classNamesIn (t.text.toList ++ rest) = t.classNames ++ classNamesIn rest := by
  induction t with
  | primitive p =>
    rw [ValueType.text, String.toList_singleton]
    exact classNamesIn_cons_of_ne p.letter_ne rest
  | object name =>
    show classNamesIn (("L" ++ name.text ++ ";").toList ++ rest) = _
    rw [String.toList_append, String.toList_append, List.append_assoc, List.append_assoc]
    exact classNamesIn_name name rest
  | array element ih =>
    rw [ValueType.text, String.toList_append, List.append_assoc]
    show classNamesIn ('[' :: (element.text.toList ++ rest)) = _
    rw [classNamesIn_cons_of_ne (by decide), ih]
    rfl

/-- The same for parameters, one after the other. -/
theorem classNamesIn_parameters_append (ts : List ValueType) (rest : List Char) :
    classNamesIn ((String.join (ts.map ValueType.text)).toList ++ rest) =
      ts.flatMap ValueType.classNames ++ classNamesIn rest := by
  rw [String.toList_join, List.flatMap_map]
  induction ts with
  | nil => rfl
  | cons t ts ih =>
    rw [List.flatMap_cons, List.flatMap_cons, List.append_assoc, List.append_assoc,
      classNamesIn_text_append, ih]

/-- A return type is the end of a descriptor. -/
theorem classNamesIn_resultText (result : Option ValueType) :
    classNamesIn (MethodType.resultText result).toList =
      result.elim [] ValueType.classNames := by
  cases result with
  | none =>
    show classNamesIn ['V'] = []
    rw [classNamesIn_cons_of_ne (by decide), classNamesIn_nil]
  | some t =>
    have h := classNamesIn_text_append t []
    rwa [List.append_nil, classNamesIn_nil, List.append_nil] at h

/-- **The class names read off a descriptor are those of the types it is written from**, in order of
appearance and with repetitions. -/
theorem classNames_text (d : MethodType) : classNames d.text = d.classNames := by
  have htext : d.text.toList = '(' :: ((String.join (d.parameters.map ValueType.text)).toList ++
      ')' :: (MethodType.resultText d.result).toList) := by
    simp [MethodType.text]
  rw [classNames, htext, classNamesIn_cons_of_ne (by decide), classNamesIn_parameters_append,
    classNamesIn_cons_of_ne (by decide), classNamesIn_resultText]
  rfl

/-- A name may be made of characters that mean something elsewhere in a descriptor. -/
example : classNames "([[Lp/L(L)V[;J)V" = ["p/L(L)V["] := by cbv

end Descriptor
end ClassLinking
