import ValueCoverage.ClassFile.ConstantPool
import ValueCoverage.ClassFile.Frame
import ValueCoverage.Member

/-!
# Class files

The parts of a class file that hold code or places in code have types of their own; every other
attribute is kept byte for byte. So a class file that is read and written again keeps its bytes.
-/

namespace ValueCoverage

/-- A range of code whose exceptions a handler catches. -/
structure ExceptionRange where
  start : UInt16
  stop : UInt16
  handler : UInt16
  catchType : UInt16
deriving Repr, DecidableEq

/-- The line of the source from a place in code on. -/
structure LineEntry where
  start : UInt16
  line : UInt16
deriving Repr, DecidableEq

/-- A local variable and the range of code in which it lives; `type` is its descriptor or its
signature. -/
structure LocalEntry where
  start : UInt16
  length : UInt16
  name : UInt16
  type : UInt16
  slot : UInt16
deriving Repr, DecidableEq

/-- An attribute of a class, a member or code. Every one begins with the pool index of its name. -/
inductive Attribute where
  | code (name maxStack maxLocals : UInt16) (code : Bytes) (handlers : List ExceptionRange)
      (attributes : List Attribute)
  | stackMapTable (name : UInt16) (frames : List Frame)
  | exceptions (name : UInt16) (classes : List UInt16)
  | lineNumberTable (name : UInt16) (entries : List LineEntry)
  | localVariableTable (name : UInt16) (entries : List LocalEntry)
  | localVariableTypeTable (name : UInt16) (entries : List LocalEntry)
  /-- Any other attribute, byte for byte. -/
  | raw (name : UInt16) (info : Bytes)
deriving Repr

namespace Attribute

def name : Attribute → UInt16
  | .code n _ _ _ _ _ | .stackMapTable n _ | .exceptions n _ | .lineNumberTable n _
  | .localVariableTable n _ | .localVariableTypeTable n _ | .raw n _ => n

end Attribute

structure Code where
  name : UInt16
  maxStack : UInt16
  maxLocals : UInt16
  bytes : Bytes
  handlers : List ExceptionRange
  attributes : List Attribute
deriving Repr

namespace Code

def toAttribute (c : Code) : Attribute :=
  .code c.name c.maxStack c.maxLocals c.bytes c.handlers c.attributes

/-- The code that an attribute holds, if it holds code. -/
def ofAttribute? : Attribute → Option Code
  | .code name maxStack maxLocals bytes handlers attributes =>
    some ⟨name, maxStack, maxLocals, bytes, handlers, attributes⟩
  | _ => none

end Code

/-- A field or a method of a class file. -/
structure ClassMember where
  access : AccessFlags
  name : UInt16
  descriptor : UInt16
  attributes : List Attribute
deriving Repr

namespace ClassMember

/-- The code of the first attribute that holds code. -/
def code? (m : ClassMember) : Option Code :=
  m.attributes.findSome? Code.ofAttribute?

/-- Replaces the first attribute that holds code. -/
def replaceCode (c : Code) : List Attribute → List Attribute
  | [] => []
  | a :: rest =>
    if (Code.ofAttribute? a).isSome then c.toAttribute :: rest else a :: replaceCode c rest

/-- The member with other code in the place of its code. -/
def withCode (m : ClassMember) (c : Code) : ClassMember :=
  { m with attributes := replaceCode c m.attributes }

end ClassMember

structure ClassFile where
  minor : UInt16
  major : UInt16
  pool : ConstantPool
  access : AccessFlags
  thisClass : UInt16
  superClass : UInt16
  interfaces : List UInt16
  fields : List ClassMember
  methods : List ClassMember
  attributes : List Attribute
deriving Repr

namespace ClassFile

/-- The first four bytes of every class file. -/
def magic : UInt32 := 0xCAFEBABE

def name (c : ClassFile) : Except ClassFileError String :=
  c.pool.className c.thisClass

/-- An empty class that extends another, in the format of version 52. -/
def newClass (name parent : String) (access : AccessFlags) : Except ClassFileError ClassFile :=
  let made : ConstantPool.Interning (UInt16 × UInt16) := do
    let this ← ConstantPool.internClass name
    let parent ← ConstantPool.internClass parent
    return (this, parent)
  match made.on .empty with
  | (.error e, _) => .error e
  | (.ok (this, parent), pool) =>
    .ok { minor := 0, major := 52, pool, access, thisClass := this, superClass := parent
          interfaces := [], fields := [], methods := [], attributes := [] }

/-- Adds a method without code; the caller sets its flags. -/
def addMethod (c : ClassFile) (access : AccessFlags) (name descriptor : String) :
    Except ClassFileError ClassFile :=
  let made : ConstantPool.Interning (UInt16 × UInt16) := do
    let n ← ConstantPool.internUtf8 name
    let d ← ConstantPool.internUtf8 descriptor
    return (n, d)
  match made.on c.pool with
  | (.error e, _) => .error e
  | (.ok (n, d), pool) => .ok { c with pool, methods := c.methods ++ [⟨access, n, d, []⟩] }

end ClassFile

end ValueCoverage
