import ValueCoverage.Number.FloatText
import ValueCoverage.Text.Utf8

/-!
# Observed values

A value is what a parameter or a field held: nothing, a primitive, or the text of an object.
Floating point values are their bits, so two of them are equal exactly if their bits are, whatever
they mean as numbers. An observation is the values of one call, or the one value written to a field.
-/

namespace ValueCoverage

/-- One observed value. -/
inductive Value where
  | null
  | boolean (b : Bool)
  | byte (n : Int8)
  /-- One 16-bit unit, which may be half of a character. -/
  | char (unit : UInt16)
  | short (n : Int16)
  | int (n : Int32)
  | long (n : Int64)
  | float (bits : UInt32)
  | double (bits : UInt64)
  | text (s : String)
deriving Repr, DecidableEq, Inhabited

/-- The values of one call, or the one value written to a field. -/
abbrev Observation := List Value

namespace Value

/-- The text of a 16-bit unit; half a character is replaced. -/
def unitText (u : UInt16) : String :=
  let c := if 0xD800 ≤ u.toNat ∧ u.toNat ≤ 0xDFFF then Text.replacement else Char.ofNat u.toNat
  c.toString

/-- The words for values without digits, as the observed program writes them. -/
def floatWords : Number.Words := ⟨"Infinity", "NaN"⟩

/-- The text of a truth value. -/
def boolText (b : Bool) : String := if b then "true" else "false"

/-- The text of a value, as the observed program would write it. -/
def display : Value → String
  | .null => "null"
  | .boolean b => boolText b
  | .byte n => toString n.toInt
  | .char unit => unitText unit
  | .short n => toString n.toInt
  | .int n => toString n.toInt
  | .long n => toString n.toInt
  | .float bits => Number.floatText .single floatWords bits.toNat
  | .double bits => Number.floatText .double floatWords bits.toNat
  | .text s => s

end Value

end ValueCoverage
