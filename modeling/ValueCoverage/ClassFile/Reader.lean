import ValueCoverage.ClassFile.Basic

/-!
# Reading class files

Class files are read from the front. Attributes are told apart by their names and must use up the
bytes that belong to them; whatever follows the attributes of the class is not looked at.
-/

namespace ValueCoverage

/-- Takes something off the front of a class file. -/
abbrev ClassReader (α : Type) := Bytes → Except ClassFileError (α × Bytes)

namespace ClassReader

def orEnd {α : Type} : Option α → Except ClassFileError α
  | some a => .ok a
  | none => .error .unexpectedEnd

def u1 : ClassReader UInt8 := fun bytes => orEnd bytes.get8?

def u2 : ClassReader UInt16 := fun bytes => orEnd bytes.get16?

def u4 : ClassReader UInt32 := fun bytes => orEnd bytes.get32?

def take (n : Nat) : ClassReader Bytes := fun bytes => orEnd (bytes.split? n)

/-- Takes a count and as many things. -/
def table {α : Type} (item : ClassReader α) : ClassReader (List α) := fun bytes => do
  let (count, rest) ← u2 bytes
  Bytes.many item count.toNat [] rest

/-! ## The constant pool -/

def oneIndex (f : UInt16 → Constant) : ClassReader Constant := fun bytes => do
  let (a, rest) ← u2 bytes
  .ok (f a, rest)

def twoIndices (f : UInt16 → UInt16 → Constant) : ClassReader Constant := fun bytes => do
  let (a, rest) ← u2 bytes
  let (b, rest) ← u2 rest
  .ok (f a b, rest)

/-- Makes a constant of an eight-byte word. -/
def wide (f : UInt64 → Constant) : ClassReader Constant := fun bytes => do
  let (high, rest) ← u4 bytes
  let (low, rest) ← u4 rest
  .ok (f (UInt64.ofNat (high.toNat * 0x100000000 + low.toNat)), rest)

/-- Takes the body of a constant with the given tag. -/
def constantBody (tag : UInt8) : ClassReader Constant := fun bytes =>
  match tag.toNat with
  | 1 => do
    let (length, rest) ← u2 bytes
    let (text, rest) ← take length.toNat rest
    .ok (.utf8 text, rest)
  | 3 => do
    let (w, rest) ← u4 bytes
    .ok (.integer w.toInt32, rest)
  | 4 => do
    let (w, rest) ← u4 bytes
    .ok (.float w, rest)
  | 5 => wide (fun w => .long w.toInt64) bytes
  | 6 => wide .double bytes
  | 7 => oneIndex .classRef bytes
  | 8 => oneIndex .string bytes
  | 9 => twoIndices .fieldref bytes
  | 10 => twoIndices .methodref bytes
  | 11 => twoIndices .interfaceMethodref bytes
  | 12 => twoIndices .nameAndType bytes
  | 15 => do
    let (kind, rest) ← u1 bytes
    let (reference, rest) ← u2 rest
    .ok (.methodHandle kind reference, rest)
  | 16 => oneIndex .methodType bytes
  | 17 => twoIndices .dynamic bytes
  | 18 => twoIndices .invokeDynamic bytes
  | 19 => oneIndex .moduleRef bytes
  | 20 => oneIndex .packageRef bytes
  | _ => .error (.invalidPoolTag tag)

def constant : ClassReader Constant := fun bytes => do
  let (tag, rest) ← u1 bytes
  constantBody tag rest

/-- Takes constants until `count` slots are filled; every constant fills one, so `count` bounds the
loop. -/
def constants (count : Nat) :
    (bound : Nat) → Array (Option Constant) → ClassReader (Array (Option Constant))
  | 0, slots, bytes => .ok (slots, bytes)
  | bound + 1, slots, bytes =>
    if slots.size < count then
      match constant bytes with
      | .error e => .error e
      | .ok (c, rest) =>
        let slots := slots.push (some c)
        constants count bound (if c.isWide then slots.push none else slots) rest
    else .ok (slots, bytes)

/-- Takes a constant pool. A last constant of two slots must not leave the pool. -/
def pool : ClassReader ConstantPool := fun bytes => do
  let (count, rest) ← u2 bytes
  let (slots, rest) ← constants count.toNat count.toNat #[none] rest
  if slots.size = count.toNat then .ok (⟨slots⟩, rest) else .error (.invalidPoolIndex count)

/-! ## Frames -/

/-- The name of the attribute that holds frames. -/
def frameTableName : String := "StackMapTable"

def verificationType : ClassReader VerificationType := fun bytes => do
  let (tag, rest) ← u1 bytes
  match tag.toNat with
  | 0 => .ok (.top, rest)
  | 1 => .ok (.integer, rest)
  | 2 => .ok (.float, rest)
  | 3 => .ok (.double, rest)
  | 4 => .ok (.long, rest)
  | 5 => .ok (.null, rest)
  | 6 => .ok (.uninitializedThis, rest)
  | 7 => do
    let (index, rest) ← u2 rest
    .ok (.object index, rest)
  | 8 => do
    let (offset, rest) ← u2 rest
    .ok (.uninitialized offset, rest)
  | _ => .error (.invalidAttribute frameTableName)

/-- Takes what follows the byte that tells a frame's form. -/
def frameBody (form : Nat) : ClassReader Frame := fun bytes =>
  if form ≤ 63 then .ok (.same (UInt16.ofNat form), bytes)
  else if form ≤ 127 then do
    let (item, rest) ← verificationType bytes
    .ok (.sameItem (UInt16.ofNat (form - 64)) item, rest)
  else if form < 247 then .error (.invalidAttribute frameTableName)
  else do
    let (delta, rest) ← u2 bytes
    if form = 247 then
      let (item, rest) ← verificationType rest
      .ok (.sameItemExtended delta item, rest)
    else if form ≤ 250 then .ok (.chop delta (UInt8.ofNat (251 - form)), rest)
    else if form = 251 then .ok (.sameExtended delta, rest)
    else if form ≤ 254 then
      let (locals, rest) ← Bytes.many verificationType (form - 251) [] rest
      .ok (.append delta locals, rest)
    else
      let (locals, rest) ← table verificationType rest
      let (stack, rest) ← table verificationType rest
      .ok (.full delta locals stack, rest)

def frame : ClassReader Frame := fun bytes => do
  let (form, rest) ← u1 bytes
  frameBody form.toNat rest

/-! ## Attributes -/

def exceptionRange : ClassReader ExceptionRange := fun bytes => do
  let (start, rest) ← u2 bytes
  let (stop, rest) ← u2 rest
  let (handler, rest) ← u2 rest
  let (catchType, rest) ← u2 rest
  .ok (⟨start, stop, handler, catchType⟩, rest)

def lineEntry : ClassReader LineEntry := fun bytes => do
  let (start, rest) ← u2 bytes
  let (line, rest) ← u2 rest
  .ok (⟨start, line⟩, rest)

def localEntry : ClassReader LocalEntry := fun bytes => do
  let (start, rest) ← u2 bytes
  let (length, rest) ← u2 rest
  let (name, rest) ← u2 rest
  let (type, rest) ← u2 rest
  let (slot, rest) ← u2 rest
  .ok (⟨start, length, name, type, slot⟩, rest)

def codeBody (attributes : ClassReader (List Attribute)) (name : UInt16) : ClassReader Attribute :=
  fun bytes => do
    let (maxStack, rest) ← u2 bytes
    let (maxLocals, rest) ← u2 rest
    let (length, rest) ← u4 rest
    let (code, rest) ← take length.toNat rest
    let (handlers, rest) ← table exceptionRange rest
    let (inner, rest) ← attributes rest
    .ok (.code name maxStack maxLocals code handlers inner, rest)

/-- Makes an attribute of a table. -/
def tableOf {α : Type} (f : List α → Attribute) (item : ClassReader α) : ClassReader Attribute :=
  fun bytes => do
    let (entries, rest) ← table item bytes
    .ok (f entries, rest)

/-- Takes the content of an attribute called `title`. -/
def content (attributes : ClassReader (List Attribute)) (name : UInt16) (title : String) :
    ClassReader Attribute := fun info =>
  match title with
  | "Code" => codeBody attributes name info
  | "StackMapTable" => tableOf (.stackMapTable name) frame info
  | "Exceptions" => tableOf (.exceptions name) u2 info
  | "LineNumberTable" => tableOf (.lineNumberTable name) lineEntry info
  | "LocalVariableTable" => tableOf (.localVariableTable name) localEntry info
  | "LocalVariableTypeTable" => tableOf (.localVariableTypeTable name) localEntry info
  | _ => .ok (.raw name info, [])

/-- The name of an attribute; one that cannot be read is none of the known ones. -/
def titleOf (pool : ConstantPool) (name : UInt16) : String :=
  match pool.getUtf8 name with
  | .ok s => s
  | .error _ => ""

/-- Takes an attribute, which must use up its bytes; `attributes` reads those inside of code. -/
def oneAttribute (pool : ConstantPool) (attributes : ClassReader (List Attribute)) :
    ClassReader Attribute := fun bytes => do
  let (name, rest) ← u2 bytes
  let (length, rest) ← u4 rest
  let (info, rest) ← take length.toNat rest
  let title := titleOf pool name
  let (a, left) ← content attributes name title info
  if left.isEmpty then .ok (a, rest) else .error (.invalidAttribute title)

/-- Takes a list of attributes that are nested at most `depth` deep. -/
def attributes (pool : ConstantPool) : (depth : Nat) → ClassReader (List Attribute)
  | 0, _ => .error .unexpectedEnd
  | depth + 1, bytes => table (oneAttribute pool (attributes pool depth)) bytes

/-! ## Classes -/

def classMember (pool : ConstantPool) (depth : Nat) : ClassReader ClassMember := fun bytes => do
  let (access, rest) ← u2 bytes
  let (name, rest) ← u2 rest
  let (descriptor, rest) ← u2 rest
  let (inner, rest) ← attributes pool depth rest
  .ok (⟨access, name, descriptor, inner⟩, rest)

/-- Takes what follows the magic number of a class file whose attributes are nested at most `depth`
deep. -/
def classBody (depth : Nat) : ClassReader ClassFile := fun bytes => do
  let (minor, rest) ← u2 bytes
  let (major, rest) ← u2 rest
  let (pool, rest) ← pool rest
  let (access, rest) ← u2 rest
  let (thisClass, rest) ← u2 rest
  let (superClass, rest) ← u2 rest
  let (interfaces, rest) ← table u2 rest
  let (fields, rest) ← table (classMember pool depth) rest
  let (methods, rest) ← table (classMember pool depth) rest
  let (attributes, rest) ← attributes pool depth rest
  .ok ({ minor, major, pool, access, thisClass, superClass, interfaces, fields, methods,
         attributes }, rest)

/-- Takes a class file whose attributes are nested at most `depth` deep. -/
def classFileWithin (depth : Nat) : ClassReader ClassFile := fun bytes => do
  let (found, rest) ← u4 bytes
  if found ≠ ClassFile.magic then .error (.invalidMagic found) else classBody depth rest

/-- Takes a class file. An attribute inside of another is shorter than it, so the number of bytes
bounds how deep attributes are nested. -/
def classFile : ClassReader ClassFile := fun bytes => classFileWithin bytes.length bytes

end ClassReader

/-- Reads a class file; bytes after its end are not looked at. -/
def ClassFile.read (bytes : Bytes) : Except ClassFileError ClassFile :=
  (ClassReader.classFile bytes).map Prod.fst

end ValueCoverage
