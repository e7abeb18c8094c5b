import ValueCoverage.ClassFile.Error
import ValueCoverage.Text.ModifiedUtf8

/-!
# Constant pools

The constants that the rest of a class file refers to by index, counted from one. A `long` or
`double` takes two slots, the second of which is empty. Interning looks for an equal constant first
and only then adds one at the end, so constants never move.
-/

namespace ValueCoverage

/-- One constant; indices refer to other constants of the pool. -/
inductive Constant where
  /-- Text in modified UTF-8, kept byte for byte. -/
  | utf8 (bytes : Bytes)
  | integer (n : Int32)
  | float (bits : UInt32)
  | long (n : Int64)
  | double (bits : UInt64)
  | classRef (name : UInt16)
  | string (content : UInt16)
  | fieldref (owner nameAndType : UInt16)
  | methodref (owner nameAndType : UInt16)
  | interfaceMethodref (owner nameAndType : UInt16)
  | nameAndType (name descriptor : UInt16)
  | methodHandle (kind : UInt8) (reference : UInt16)
  | methodType (descriptor : UInt16)
  | dynamic (bootstrap nameAndType : UInt16)
  | invokeDynamic (bootstrap nameAndType : UInt16)
  | moduleRef (name : UInt16)
  | packageRef (name : UInt16)
deriving Repr, DecidableEq

def Constant.isWide : Constant → Bool
  | .long _ | .double _ => true
  | _ => false

/-- The name of this kind of constant. -/
def Constant.kind : Constant → String
  | .utf8 _ => "Utf8"
  | .integer _ => "Integer"
  | .float _ => "Float"
  | .long _ => "Long"
  | .double _ => "Double"
  | .classRef _ => "Class"
  | .string _ => "String"
  | .fieldref _ _ => "Fieldref"
  | .methodref _ _ => "Methodref"
  | .interfaceMethodref _ _ => "InterfaceMethodref"
  | .nameAndType _ _ => "NameAndType"
  | .methodHandle _ _ => "MethodHandle"
  | .methodType _ => "MethodType"
  | .dynamic _ _ => "Dynamic"
  | .invokeDynamic _ _ => "InvokeDynamic"
  | .moduleRef _ => "Module"
  | .packageRef _ => "Package"

/-- The indices that a constant holds, in the order in which it is written. -/
def Constant.references : Constant → List UInt16
  | .classRef a | .string a | .methodType a | .moduleRef a | .packageRef a | .methodHandle _ a =>
    [a]
  | .fieldref a b | .methodref a b | .interfaceMethodref a b | .nameAndType a b
  | .dynamic a b | .invokeDynamic a b => [a, b]
  | .utf8 _ | .integer _ | .float _ | .long _ | .double _ => []

/-- The slots of a pool; the first one is never used. -/
structure ConstantPool where
  slots : Array (Option Constant)
deriving Repr, DecidableEq

namespace ConstantPool

def empty : ConstantPool := ⟨#[none]⟩

/-- How many slots there are, the unused first one included, as a class file says it. -/
def count (p : ConstantPool) : UInt16 := UInt16.ofNat p.slots.size

/-- The most slots that a pool may have. -/
def capacity : Nat := 0xFFFF

/-- The constant in a slot, if there is one. -/
def get? (p : ConstantPool) (index : Nat) : Option Constant :=
  if index = 0 then none else (p.slots[index]?).join

def constantAt (p : ConstantPool) (index : UInt16) : Except ClassFileError Constant :=
  match p.get? index.toNat with
  | some c => .ok c
  | none => .error (.invalidPoolIndex index)

/-- The text that bytes spell: as UTF-8 if they are that, as modified UTF-8 if not. -/
def readText (bytes : Bytes) : Option String :=
  match Text.Utf8.decode? bytes with
  | some s => some s
  | none => Text.ModifiedUtf8.decode? bytes

/-- The text at an index. -/
def getUtf8 (p : ConstantPool) (index : UInt16) : Except ClassFileError String := do
  match ← p.constantAt index with
  | .utf8 bytes =>
    match readText bytes with
    | some s => .ok s
    | none => .error (.invalidUtf8 index)
  | _ => .error (.invalidPoolIndex index)

def className (p : ConstantPool) (index : UInt16) : Except ClassFileError String := do
  match ← p.constantAt index with
  | .classRef name => p.getUtf8 name
  | _ => .error (.invalidPoolIndex index)

/-! ## Interning -/

/-- The first slot that holds the constant. -/
def find? (p : ConstantPool) (c : Constant) : Option Nat :=
  p.slots.findIdx? (· == some c)

/-- A computation that adds constants to a pool; what was added before a failure stays. -/
abbrev Interning (α : Type) := ExceptT ClassFileError (StateM ConstantPool) α

/-- The index of the constant, which is added if it is missing. -/
def intern (c : Constant) : Interning UInt16 :=
  ExceptT.mk fun p =>
    match p.find? c with
    | some i => (.ok (UInt16.ofNat i), p)
    | none =>
      if capacity ≤ p.slots.size then (.error .poolFull, p)
      else (.ok (UInt16.ofNat p.slots.size), ⟨p.slots.push (some c)⟩)

def internUtf8 (s : String) : Interning UInt16 :=
  intern (.utf8 (Text.ModifiedUtf8.encode s))

def internClass (name : String) : Interning UInt16 := do
  intern (.classRef (← internUtf8 name))

def internString (s : String) : Interning UInt16 := do
  intern (.string (← internUtf8 s))

def internNameAndType (name descriptor : String) : Interning UInt16 := do
  let n ← internUtf8 name
  let d ← internUtf8 descriptor
  intern (.nameAndType n d)

def internMethodref (owner name descriptor : String) : Interning UInt16 := do
  let c ← internClass owner
  let n ← internNameAndType name descriptor
  intern (.methodref c n)

def Interning.on {α : Type} (m : Interning α) (p : ConstantPool) :
    Except ClassFileError α × ConstantPool :=
  (m.run).run p

end ConstantPool

end ValueCoverage
