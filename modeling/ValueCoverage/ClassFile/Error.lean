/-!
# Faults of class files
-/

namespace ValueCoverage

/-- What is wrong with a class file. -/
inductive ClassFileError where
  | unexpectedEnd
  | invalidMagic (found : UInt32)
  | invalidPoolIndex (index : UInt16)
  | invalidPoolTag (tag : UInt8)
  | invalidUtf8 (index : UInt16)
  | invalidAttribute (name : String)
  | poolFull
deriving Repr, DecidableEq

def ClassFileError.kind : ClassFileError → String
  | .unexpectedEnd => "UnexpectedEof"
  | .invalidMagic _ => "InvalidMagic"
  | .invalidPoolIndex _ => "InvalidConstantPoolIndex"
  | .invalidPoolTag _ => "InvalidConstantPoolTag"
  | .invalidUtf8 _ => "InvalidUtf8"
  | .invalidAttribute _ => "InvalidAttribute"
  | .poolFull => "ConstantPoolOverflow"

def ClassFileError.message : ClassFileError → String
  | .unexpectedEnd => "unexpected end of class data"
  | .invalidMagic found => "invalid magic: 0x" ++ String.ofList (Nat.toDigits 16 found.toNat)
  | .invalidPoolIndex index => s!"invalid constant pool index: {index.toNat}"
  | .invalidPoolTag tag => s!"invalid constant pool tag: {tag.toNat}"
  | .invalidUtf8 index => s!"constant pool entry {index.toNat} is not valid modified UTF-8"
  | .invalidAttribute name => s!"invalid attribute: {name}"
  | .poolFull => "constant pool is full"

end ValueCoverage
