import ValueCoverage.ClassFile.Basic

/-!
# Writing class files

Each part is written as it is read. Lengths and counts are words of fixed width: of one that does
not fit, the low bits are written.
-/

namespace ValueCoverage

def putCount (n : Nat) : Bytes := Bytes.put16 (UInt16.ofNat n)

/-- A count and as many things. -/
def putTable {α : Type} (item : α → Bytes) (items : List α) : Bytes :=
  putCount items.length ++ items.flatMap item

/-- The byte that tells the kind of a constant. -/
def Constant.tag : Constant → UInt8
  | .utf8 _ => 1
  | .integer _ => 3
  | .float _ => 4
  | .long _ => 5
  | .double _ => 6
  | .classRef _ => 7
  | .string _ => 8
  | .fieldref _ _ => 9
  | .methodref _ _ => 10
  | .interfaceMethodref _ _ => 11
  | .nameAndType _ _ => 12
  | .methodHandle _ _ => 15
  | .methodType _ => 16
  | .dynamic _ _ => 17
  | .invokeDynamic _ _ => 18
  | .moduleRef _ => 19
  | .packageRef _ => 20

open Bytes in
def Constant.body : Constant → Bytes
  | .utf8 bytes => putCount bytes.length ++ bytes
  | .integer n => put32 n.toUInt32
  | .float bits => put32 bits
  | .long n => put64 n.toUInt64
  | .double bits => put64 bits
  | .classRef a | .string a | .methodType a | .moduleRef a | .packageRef a => put16 a
  | .fieldref a b | .methodref a b | .interfaceMethodref a b | .nameAndType a b
  | .dynamic a b | .invokeDynamic a b => put16 a ++ put16 b
  | .methodHandle kind reference => kind :: put16 reference

def Constant.bytes (c : Constant) : Bytes := c.tag :: c.body

def ConstantPool.bytes (p : ConstantPool) : Bytes :=
  Bytes.put16 p.count ++ (p.slots.toList.filterMap id).flatMap Constant.bytes

def VerificationType.bytes : VerificationType → Bytes
  | .top => [0]
  | .integer => [1]
  | .float => [2]
  | .double => [3]
  | .long => [4]
  | .null => [5]
  | .uninitializedThis => [6]
  | .object index => 7 :: Bytes.put16 index
  | .uninitialized offset => 8 :: Bytes.put16 offset

def Frame.bytes : Frame → Bytes
  | .same d => [d.toUInt8]
  | .sameItem d item => (64 + d.toUInt8) :: item.bytes
  | .sameItemExtended d item => 247 :: Bytes.put16 d ++ item.bytes
  | .chop d k => (251 - k) :: Bytes.put16 d
  | .sameExtended d => 251 :: Bytes.put16 d
  | .append d locals =>
    (251 + UInt8.ofNat locals.length) :: Bytes.put16 d ++ locals.flatMap VerificationType.bytes
  | .full d locals stack =>
    255 :: Bytes.put16 d ++ putTable VerificationType.bytes locals ++
      putTable VerificationType.bytes stack

def ExceptionRange.bytes (e : ExceptionRange) : Bytes :=
  Bytes.put16 e.start ++ Bytes.put16 e.stop ++ Bytes.put16 e.handler ++ Bytes.put16 e.catchType

def LineEntry.bytes (e : LineEntry) : Bytes :=
  Bytes.put16 e.start ++ Bytes.put16 e.line

def LocalEntry.bytes (e : LocalEntry) : Bytes :=
  Bytes.put16 e.start ++ Bytes.put16 e.length ++ Bytes.put16 e.name ++ Bytes.put16 e.type ++
    Bytes.put16 e.slot

/-- An attribute around its content. -/
def putAttribute (name : UInt16) (content : Bytes) : Bytes :=
  Bytes.put16 name ++ Bytes.put32 (UInt32.ofNat content.length) ++ content

namespace Attribute

mutual

def bytes : Attribute → Bytes
  | .code name maxStack maxLocals body handlers attributes =>
    putAttribute name (Bytes.put16 maxStack ++ Bytes.put16 maxLocals ++
      Bytes.put32 (UInt32.ofNat body.length) ++ body ++ putTable ExceptionRange.bytes handlers ++
      putCount attributes.length ++ listBytes attributes)
  | .stackMapTable name frames => putAttribute name (putTable Frame.bytes frames)
  | .exceptions name classes => putAttribute name (putTable Bytes.put16 classes)
  | .lineNumberTable name entries => putAttribute name (putTable LineEntry.bytes entries)
  | .localVariableTable name entries => putAttribute name (putTable LocalEntry.bytes entries)
  | .localVariableTypeTable name entries => putAttribute name (putTable LocalEntry.bytes entries)
  | .raw name info => putAttribute name info

def listBytes : List Attribute → Bytes
  | [] => []
  | a :: rest => a.bytes ++ listBytes rest

end

/-- A count and as many attributes. -/
def tableBytes (attributes : List Attribute) : Bytes :=
  putCount attributes.length ++ listBytes attributes

end Attribute

def ClassMember.bytes (m : ClassMember) : Bytes :=
  Bytes.put16 m.access ++ Bytes.put16 m.name ++ Bytes.put16 m.descriptor ++
    Attribute.tableBytes m.attributes

def ClassFile.bytes (c : ClassFile) : Bytes :=
  Bytes.put32 ClassFile.magic ++ Bytes.put16 c.minor ++ Bytes.put16 c.major ++ c.pool.bytes ++
    Bytes.put16 c.access ++ Bytes.put16 c.thisClass ++ Bytes.put16 c.superClass ++
    putTable Bytes.put16 c.interfaces ++ putTable ClassMember.bytes c.fields ++
    putTable ClassMember.bytes c.methods ++ Attribute.tableBytes c.attributes

end ValueCoverage
