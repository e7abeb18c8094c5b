import ValueCoverage.Text.Quoted

/-!
# Field and method types

The types that a virtual machine gives to fields and parameters, and what follows from them: the
text of a type, how many local-variable slots it takes and which wrapper class boxes it. Arrays are
references whatever their elements are, and only `long` and `double` take two slots.
-/

namespace ValueCoverage

/-- The eight primitive types. -/
inductive Primitive where
  | boolean
  | byte
  | char
  | short
  | int
  | long
  | float
  | double
deriving Repr, DecidableEq

namespace Primitive

/-- All of them, in the order in which their accessors are looked up. -/
def all : List Primitive := [.boolean, .byte, .char, .short, .int, .long, .float, .double]

/-- The letter that stands for the type in descriptors. -/
def tag : Primitive → Char
  | .boolean => 'Z'
  | .byte => 'B'
  | .char => 'C'
  | .short => 'S'
  | .int => 'I'
  | .long => 'J'
  | .float => 'F'
  | .double => 'D'

/-- The type that a letter stands for. -/
def ofTag? (c : Char) : Option Primitive :=
  all.find? (·.tag = c)

/-- The keyword of the type in source code. -/
def keyword : Primitive → String
  | .boolean => "boolean"
  | .byte => "byte"
  | .char => "char"
  | .short => "short"
  | .int => "int"
  | .long => "long"
  | .float => "float"
  | .double => "double"

/-- The type that a keyword names. -/
def ofKeyword? (word : String) : Option Primitive :=
  all.find? (·.keyword = word)

/-- Whether a value takes two slots. -/
def isWide : Primitive → Bool
  | .long | .double => true
  | _ => false

/-- The simple name of the wrapper class. -/
def boxName : Primitive → String
  | .boolean => "Boolean"
  | .byte => "Byte"
  | .char => "Character"
  | .short => "Short"
  | .int => "Integer"
  | .long => "Long"
  | .float => "Float"
  | .double => "Double"

/-- The internal name of the wrapper class. -/
def boxClass (p : Primitive) : String :=
  "java/lang/" ++ p.boxName

/-- The descriptor of the wrapper's factory method. -/
def valueOfDescriptor (p : Primitive) : String :=
  "(" ++ p.tag.toString ++ ")L" ++ p.boxClass ++ ";"

/-- The name of the wrapper's accessor. -/
def unboxName (p : Primitive) : String :=
  p.keyword ++ "Value"

/-- The descriptor of the wrapper's accessor. -/
def unboxDescriptor (p : Primitive) : String :=
  "()" ++ p.tag.toString

@[simp] theorem ofTag?_tag (p : Primitive) : ofTag? p.tag = some p := by
  cases p <;> decide

theorem tag_eq_of_ofTag? {c : Char} {p : Primitive} (h : ofTag? c = some p) : p.tag = c := by
  simpa using List.find?_some h

end Primitive

/-- A type without array brackets. -/
inductive BaseType where
  | primitive (kind : Primitive)
  /-- A class by its internal name. -/
  | object (name : String)
deriving Repr, DecidableEq

/-- The type of a field or of a parameter: a base type under any number of array dimensions. -/
structure FieldType where
  dims : Nat
  base : BaseType
deriving Repr, DecidableEq

namespace BaseType

/-- The text of the type in descriptors. -/
def descriptor : BaseType → List Char
  | .primitive kind => [kind.tag]
  | .object name => 'L' :: name.toList ++ [';']

end BaseType

namespace FieldType

/-- The text of the type in descriptors. -/
def descriptorChars (t : FieldType) : List Char :=
  List.replicate t.dims '[' ++ t.base.descriptor

/-- The text of the type in descriptors. -/
def descriptor (t : FieldType) : String :=
  String.ofList t.descriptorChars

/-- The primitive type, for a type that is one. -/
def primitive? (t : FieldType) : Option Primitive :=
  match t.dims, t.base with
  | 0, .primitive kind => some kind
  | _, _ => none

/-- How many local-variable slots a value takes. -/
def width (t : FieldType) : Nat :=
  if t.primitive?.any Primitive.isWide then 2 else 1

/-- The wrapper class of a primitive type. -/
def boxClass? (t : FieldType) : Option String :=
  t.primitive?.map Primitive.boxClass

end FieldType

/-- The type of a method; nothing is returned where the result is missing. -/
structure MethodType where
  params : List FieldType
  result : Option FieldType
deriving Repr, DecidableEq

/-- The slots that parameters take together. -/
def slotCount (params : List FieldType) : Nat :=
  params.foldr (fun p n => p.width + n) 0

/-- The first slot of every parameter, and at the end the first slot after them all. -/
def slotSequence : List FieldType → (first : UInt16) → List UInt16
  | [], first => [first]
  | p :: ps, first => first :: slotSequence ps (first + UInt16.ofNat p.width)

/-- The text of a method type. -/
def MethodType.descriptorChars (m : MethodType) : List Char :=
  '(' :: m.params.flatMap FieldType.descriptorChars ++
    ')' :: (match m.result with
      | none => ['V']
      | some t => t.descriptorChars)

/-! ## Types as they are told -/

/-- What a parameter or a field holds: a primitive value, an object of a class by its internal name,
or an array by its whole text. -/
inductive ParamKind where
  | primitive (kind : Primitive)
  | object (name : String)
  | array (text : String)
deriving Repr, DecidableEq

/-- The text that it is read from. -/
def ParamKind.descriptor : ParamKind → String
  | .primitive kind => kind.tag.toString
  | .object name => "L" ++ name ++ ";"
  | .array text => text

def FieldType.kind (t : FieldType) : ParamKind :=
  match t.dims, t.base with
  | 0, .primitive kind => .primitive kind
  | 0, .object name => .object name
  | _ + 1, _ => .array t.descriptor

/-- What a method takes and returns. -/
structure Signature where
  params : List ParamKind
  result : Option ParamKind
deriving Repr, DecidableEq

def MethodType.signature (m : MethodType) : Signature :=
  ⟨m.params.map FieldType.kind, m.result.map FieldType.kind⟩

/-- The text of the result. -/
def Signature.resultText (sig : Signature) : String :=
  match sig.result with
  | none => "V"
  | some kind => kind.descriptor

/-- The text that it is read from. -/
def Signature.descriptor (sig : Signature) : String :=
  "(" ++ String.join (sig.params.map ParamKind.descriptor) ++ ")" ++ sig.resultText

/-! ## Slots -/

@[simp] theorem length_slotSequence (params : List FieldType) (first : UInt16) :
    (slotSequence params first).length = params.length + 1 := by
  induction params generalizing first with
  | nil => rfl
  | cons p ps ih => simp [slotSequence, ih]

/-- Every slot comes behind those that the parameters before it take. -/
theorem getElem?_slotSequence {params : List FieldType} {k : Nat} (h : k ≤ params.length)
    (first : UInt16) : (slotSequence params first)[k]? =
      some (first + UInt16.ofNat (slotCount (params.take k))) := by
  induction params generalizing first k with
  | nil =>
    obtain rfl := Nat.le_zero.1 h
    simp [slotSequence, slotCount]
  | cons p ps ih =>
    cases k with
    | zero => simp [slotSequence, slotCount]
    | succ k =>
      rw [slotSequence, List.getElem?_cons_succ, ih (Nat.le_of_succ_le_succ h), List.take_succ_cons,
        slotCount, slotCount, List.foldr_cons, UInt16.ofNat_add, UInt16.add_assoc]

end ValueCoverage
