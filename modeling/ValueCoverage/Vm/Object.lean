import ValueCoverage.Bytes
import ValueCoverage.Descriptor.Basic
import ValueCoverage.Observation.Value

/-!
# Objects of a virtual machine

What the arguments of an observed method can be, as far as it shows: the class, what `toString`
does, and what unboxing yields. The code behind `toString` may itself call observed methods.
-/

namespace ValueCoverage

mutual

/-- An object, or no object. -/
inductive JavaObject where
  | null
  /-- A string; its characters are in modified UTF-8, or cannot be had. -/
  | string (chars : Option Bytes)
  /-- An array of objects; it may claim another length, and fail when some elements are read. -/
  | array (elements : List JavaObject) (length : Int) (failsAt : List Nat)
  /-- A wrapper around the bits of a primitive value. -/
  | box (kind : Primitive) (bits : UInt64) (text : Option Bytes) (throws : Bool)
    (unboxThrows : Bool)
  /-- Any other object. Its `toString` first makes the calls. -/
  | instance (className : String) (text : Option Bytes) (charsMissing : Bool) (throws : Bool)
      (calls : List ObservedCall)

/-- A call of the native method that takes arguments. -/
inductive ObservedCall where
  | mk (owner member signature args : JavaObject)

end

namespace JavaObject

instance : Inhabited JavaObject := ⟨null⟩

/-- Whether there is no object. -/
def isNull : JavaObject → Bool
  | null => true
  | _ => false

/-- The internal name of the class, for objects that have one of interest. -/
def className? : JavaObject → Option String
  | box kind _ _ _ _ => some kind.boxClass
  | .instance name _ _ _ _ => some name
  | _ => none

/-- The characters of a string, as a native buffer holds them: up to the first zero. -/
def chars? : JavaObject → Option Bytes
  | string chars => chars.map (·.takeWhile (· ≠ 0))
  | _ => none

/-- The length that an array claims. -/
def length : JavaObject → Int
  | array _ length _ => length
  | _ => 0

/-- A string, or nothing. -/
def ofText : Option Bytes → JavaObject
  | some chars => string (some chars)
  | none => null

end JavaObject

/-- The value of a kind in a slot of 64 bits, of which it takes the lowest. -/
def Primitive.ofBits (bits : UInt64) : Primitive → Value
  | .boolean => .boolean (bits.toUInt8 ≠ 0)
  | .byte => .byte bits.toUInt8.toInt8
  | .char => .char bits.toUInt16
  | .short => .short bits.toUInt16.toInt16
  | .int => .int bits.toUInt32.toInt32
  | .long => .long bits.toInt64
  | .float => .float bits.toUInt32
  | .double => .double bits

/-- The slot that holds a value; objects and texts are not held in bits. -/
def Value.bits : Value → UInt64
  | .boolean b => b.toUInt64
  | .byte n => n.toUInt8.toUInt64
  | .char u => u.toUInt64
  | .short n => n.toUInt16.toUInt64
  | .int n => n.toUInt32.toUInt64
  | .long n => n.toUInt64
  | .float b => b.toUInt64
  | .double b => b
  | .null | .text _ => 0

/-- What is written to a field: a primitive value or an object. -/
inductive SlotValue where
  | bits (bits : UInt64)
  | object (o : JavaObject)

end ValueCoverage
