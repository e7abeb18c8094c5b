import ValueCoverage.ClassFile.ConstantPool
import ValueCoverage.Descriptor.Basic
import ValueCoverage.Member

/-!
# Constants of a capture

The code that hands arguments over refers to constants of the pool: three strings that say which
member it is, the class of the array elements, the method that takes the arguments, and for each
primitive type among the parameters the method that boxes it.
-/

namespace ValueCoverage

/-- The method that takes the arguments: its class by internal name, and its name. -/
structure Target where
  owner : String
  method : String
deriving Repr, DecidableEq

namespace Target

/-- The descriptor of every method that takes arguments. -/
def descriptor : String :=
  "(Ljava/lang/String;Ljava/lang/String;Ljava/lang/String;[Ljava/lang/Object;)V"

/-- The method of the class that the agent defines. -/
def collector : Target := ⟨"argcov/runtime/Collector", "record"⟩

end Target

/-- The internal name of the class of array elements. -/
def objectClass : String := "java/lang/Object"

/-- Pool indices of the constants of a capture. -/
structure CaptureRefs where
  owner : UInt16
  member : UInt16
  signature : UInt16
  elementClass : UInt16
  record : UInt16
  /-- The boxing methods, by primitive type. -/
  valueOf : List (Primitive × UInt16)
deriving Repr, DecidableEq

namespace CaptureRefs

open ConstantPool

/-- The primitive types among the parameters, in the order of their first occurrence. -/
def kindsOf (params : List FieldType) : List Primitive :=
  (params.filterMap FieldType.primitive?).eraseDups

def internValueOf : List Primitive → Interning (List (Primitive × UInt16))
  | [] => return []
  | kind :: rest => do
    let index ← internMethodref kind.boxClass "valueOf" kind.valueOfDescriptor
    return (kind, index) :: (← internValueOf rest)

/-- Interns everything that the capture of the parameters refers to. -/
def intern (key : MemberKey) (descriptor : String) (params : List FieldType) (target : Target) :
    Interning CaptureRefs := do
  let valueOf ← internValueOf (kindsOf params)
  let owner ← internString key.owner
  let member ← internString key.member
  let signature ← internString descriptor
  let elementClass ← internClass objectClass
  let record ← internMethodref target.owner target.method Target.descriptor
  return { owner, member, signature, elementClass, record, valueOf }

def valueOf? (refs : CaptureRefs) (kind : Primitive) : Option UInt16 :=
  refs.valueOf.lookup kind

/-- How a call of the method at an index changes the depth of the operand stack. -/
def callEffect (refs : CaptureRefs) (index : UInt16) : Int :=
  if index = refs.record then -4
  else
    match refs.valueOf.find? (·.2 = index) with
    | some (kind, _) => if kind.isWide then -1 else 0
    | none => 0

end CaptureRefs

end ValueCoverage
