import ValueCoverage.Bytecode.Instruction
import ValueCoverage.Capture.References

/-!
# The capture prefix

The instructions in front of a method that pack its arguments into an array, boxing the primitive
ones, and hand the array over together with the strings that say which member it is.
-/

namespace ValueCoverage

/-- The load that takes a parameter of the type from its slot. -/
def FieldType.loadKind (t : FieldType) : LoadKind :=
  match t.primitive? with
  | some .long => .long
  | some .float => .float
  | some .double => .double
  | some _ => .int
  | none => .reference

namespace Capture

/-- Boxes the value on the stack, if it is primitive. -/
def boxing (refs : CaptureRefs) (t : FieldType) : List Instruction :=
  match t.primitive?.bind refs.valueOf? with
  | some index => [.invokestatic index]
  | none => []

/-- Stores the parameter in `slot` as element `index` of the array on the stack, which stays. -/
def storeArgument (refs : CaptureRefs) (index : Nat) (t : FieldType) (slot : UInt16) :
    List Instruction :=
  [.dup, .pushInt index, .load t.loadKind slot] ++ boxing refs t ++ [.aastore]

/-- Stores parameters, each from its slot, from element `index` on. -/
def storeArguments (refs : CaptureRefs) :
    (index : Nat) → List (FieldType × UInt16) → List Instruction
  | _, [] => []
  | index, (t, slot) :: rest =>
    storeArgument refs index t slot ++ storeArguments refs (index + 1) rest

/-- The slot of the first parameter; that of the receiver comes before. -/
def firstSlot (isStatic : Bool) : UInt16 := if isStatic then 0 else 1

/-- The instructions that hand over the arguments of a method with these parameters. -/
def prefixCode (params : List FieldType) (isStatic : Bool) (refs : CaptureRefs) :
    List Instruction :=
  [.loadConstant refs.owner, .loadConstant refs.member, .loadConstant refs.signature,
    .pushInt params.length, .anewarray refs.elementClass] ++
  storeArguments refs 0 (params.zip (slotSequence params (firstSlot isStatic))) ++
  [.invokestatic refs.record]

/-- How many instructions that do nothing bring a length to a multiple of four. -/
def padding (length : Nat) : Nat := (4 - length % 4) % 4

end Capture

end ValueCoverage
