import ValueCoverage.Number.Integer
import ValueCoverage.Observation.ItemList
import ValueCoverage.Observation.Value
import ValueCoverage.Text.Quoted

/-!
# Codecs

A codec writes an observation as one line of text and reads it back. `plain` keeps the texts of the
values, `truncate` their first characters, and `typed` keeps everything. The canonical form of an
observation is what it reads back as; storing canonical forms only lets a file be read in again
without gaining observations.
-/

namespace ValueCoverage

/-- Why an observation cannot be read. -/
inductive MalformedReason where
  | list (fault : ItemList.Fault)
  | noTypeTag (item : String)
  | badLiteral (tag literal : String)
  | unknownTypeTag (tag : String)
  /-- A reason of a codec's own. -/
  | stated (reason : String)
deriving Repr, DecidableEq

/-- Why a codec specification is rejected. -/
inductive UnresolvedReason where
  | emptyOrUnbalanced
  | notClosed
  | noName
  | unknownCodec (name : String)
  /-- What the factory says of its arguments. -/
  | rejected (reason : String)
deriving Repr, DecidableEq

/-- Why a codec is not found, or a text not read. -/
inductive CodecError where
  | unresolved (spec : String) (reason : UnresolvedReason)
  | malformed (text : String) (reason : MalformedReason)
deriving Repr, DecidableEq

open Text (quoted)

def MalformedReason.message : MalformedReason → String
  | .list .noBrackets => "expected [...]"
  | .list .danglingEscape => "dangling escape"
  | .noTypeTag item => s!"item {quoted item} has no type tag"
  | .badLiteral tag literal => s!"bad {tag} literal {quoted literal}"
  | .unknownTypeTag tag => s!"unknown type tag {quoted tag}"
  | .stated reason => reason

def UnresolvedReason.message : UnresolvedReason → String
  | .emptyOrUnbalanced => "empty or unbalanced name"
  | .notClosed => "missing ')'"
  | .noName => "missing codec name"
  | .unknownCodec name => s!"unknown codec {quoted name}"
  | .rejected reason => reason

def CodecError.kind : CodecError → String
  | .unresolved _ _ => "Resolution"
  | .malformed _ _ => "Malformed"

def CodecError.message : CodecError → String
  | .unresolved spec reason => s!"cannot resolve codec {quoted spec}: {reason.message}"
  | .malformed text reason => s!"malformed observation {quoted text}: {reason.message}"

/-- A way to write observations and to read them back. -/
structure Codec where
  name : String
  write : Observation → String
  read : String → Except CodecError Observation
  /-- The form in which an observation reads back. -/
  canonical : Observation → Observation

namespace Codec

/-- What the observation reads back as; it stays as it is if it cannot be read back. -/
def readBack (write : Observation → String) (read : String → Except CodecError Observation)
    (o : Observation) : Observation :=
  match read (write o) with
  | .ok o' => o'
  | .error _ => o

/-- The codec whose canonical form is found by reading back. -/
def ofPair (name : String) (write : Observation → String)
    (read : String → Except CodecError Observation) : Codec :=
  ⟨name, write, read, readBack write read⟩

/-- Writes the values one by one. -/
def writeItems (item : Value → List Char) (o : Observation) : String :=
  String.ofList (ItemList.bracket (o.map item))

/-- The items of a line. -/
def readItems (text : String) : Except CodecError (List String) :=
  match ItemList.split text.toList with
  | .ok items => .ok (items.map String.ofList)
  | .error fault => .error (.malformed text (.list fault))

/-- A value of which only the text is known. -/
def plainValue (item : String) : Value :=
  if item = "null" then .null else .text item

/-- Reads every item as text. -/
def readPlain (text : String) : Except CodecError Observation :=
  (readItems text).map (·.map plainValue)

/-- The first characters of a value's text, escaped. -/
def clipped (limit : Nat) (v : Value) : List Char :=
  ItemList.escape (v.display.toList.take limit)

/-- Keeps the texts of the values. -/
def plain : Codec :=
  .ofPair "plain" (writeItems fun v => ItemList.escape v.display.toList) readPlain

/-- Keeps the first `limit` characters of the texts of the values. -/
def truncate (limit : Nat) : Codec :=
  .ofPair "truncate" (writeItems (clipped limit)) readPlain

/-- The words of the typed form for values without digits. -/
def typedWords : Number.Words := ⟨"inf", "NaN"⟩

/-- A value with the letter of its type. -/
def typedItem : Value → String
  | .null => "N"
  | .boolean b => "Z:" ++ Value.boolText b
  | .byte n => "B:" ++ toString n.toInt
  | .char unit => "C:" ++ toString unit.toNat
  | .short n => "S:" ++ toString n.toInt
  | .int n => "I:" ++ toString n.toInt
  | .long n => "J:" ++ toString n.toInt
  | .float bits => "F:" ++ Number.floatText .single typedWords bits.toNat
  | .double bits => "D:" ++ Number.floatText .double typedWords bits.toNat
  | .text s => "T:" ++ String.ofList (ItemList.escape s.toList)

/-- Reads the words for truth values. -/
def readBool (s : String) : Option Bool :=
  if s = "true" then some true else if s = "false" then some false else none

/-- The literal of a type, `none` if it is none; the outer level is `none` for an unknown type. -/
def readLiteral? (tag literal : String) : Option (Option Value) :=
  let signed (limit : Nat) : Option Int := (Number.readSigned limit literal).toOption
  match tag with
  | "Z" => some ((readBool literal).map .boolean)
  | "B" => some ((signed 0x7F).map fun n => .byte (Int8.ofInt n))
  | "C" => some ((Number.readNatural 0xFFFF literal).toOption.map fun n => .char (UInt16.ofNat n))
  | "S" => some ((signed 0x7FFF).map fun n => .short (Int16.ofInt n))
  | "I" => some ((signed 0x7FFFFFFF).map fun n => .int (Int32.ofInt n))
  | "J" => some ((signed 0x7FFFFFFFFFFFFFFF).map fun n => .long (Int64.ofInt n))
  | "F" => some ((Number.readFloat .single literal).map fun n => .float (UInt32.ofNat n))
  | "D" => some ((Number.readFloat .double literal).map fun n => .double (UInt64.ofNat n))
  | "T" => some (some (.text literal))
  | _ => none

/-- Reads one item of the typed form. -/
def readTypedItem (item : String) : Except MalformedReason Value :=
  if item = "N" then .ok .null
  else
    match Text.splitFirst ':' item.toList with
    | none => .error (.noTypeTag item)
    | some (tag, literal) =>
      let tag := String.ofList tag
      let literal := String.ofList literal
      match readLiteral? tag literal with
      | none => .error (.unknownTypeTag tag)
      | some none => .error (.badLiteral tag literal)
      | some (some v) => .ok v

/-- Reads a line of the typed form. -/
def readTyped (text : String) : Except CodecError Observation := do
  let items ← readItems text
  (items.mapM readTypedItem).mapError (.malformed text)

/-- Keeps the values with their types; every observation is canonical. -/
def typed : Codec where
  name := "typed"
  write := writeItems fun v => (typedItem v).toList
  read := readTyped
  canonical := id

end Codec

end ValueCoverage
