import ValueCoverage.Descriptor.Basic
import ValueCoverage.Text.Utf8

/-!
# Reading descriptors

A method descriptor is a list of parameter types in parentheses and a result type or `V`; a field
descriptor is one type. Reading goes from left to right and reports the first fault; places in a
descriptor count the bytes of its UTF-8 form.
-/

namespace ValueCoverage

/-- What is wrong with a descriptor. -/
inductive DescriptorFault where
  | noParameterList
  | unclosedParameterList
  | unknownTypeCode (code : Char) (offset : Nat)
  | unclosedClassName (offset : Nat)
  | noResultType
  | trailing (offset : Nat)
deriving Repr, DecidableEq

def DescriptorFault.kind : DescriptorFault → String
  | .noParameterList => "MissingParameterList"
  | .unclosedParameterList => "UnterminatedParameterList"
  | .unknownTypeCode _ _ => "UnknownTypeCode"
  | .unclosedClassName _ => "UnterminatedClassName"
  | .noResultType => "MissingReturnType"
  | .trailing _ => "TrailingCharacters"

/-- A rejected descriptor and the reason. -/
structure DescriptorError where
  descriptor : String
  fault : DescriptorFault
deriving Repr, DecidableEq

namespace DescriptorError

open Text in
def message (e : DescriptorError) : String :=
  let shown := quoted e.descriptor
  match e.fault with
  | .noParameterList => s!"descriptor {shown} does not start with '('"
  | .unclosedParameterList => s!"descriptor {shown} has no closing ')'"
  | .unknownTypeCode code offset =>
    s!"unknown type code {quotedChar code} at offset {offset} in {shown}"
  | .unclosedClassName offset => s!"class name starting at offset {offset} in {shown} has no ';'"
  | .noResultType => s!"descriptor {shown} has no return type"
  | .trailing offset => s!"unexpected characters after offset {offset} in {shown}"

end DescriptorError

namespace Descriptor

/-- What stands behind a piece of a descriptor, and where it starts. -/
structure Rest where
  chars : List Char
  offset : Nat

/-- The first byte of a character, read as a code point. -/
def leadingByte (c : Char) : Char :=
  match String.utf8EncodeChar c with
  | [] => c
  | b :: _ => Char.ofNat b.toNat

/-- Reads the base type at the front. -/
def readBase (r : Rest) : Except DescriptorFault (BaseType × Rest) :=
  match r.chars with
  | [] => .error .unclosedParameterList
  | c :: cs =>
    if c = 'L' then
      let name := cs.takeWhile (· != ';')
      match cs.dropWhile (· != ';') with
      | [] => .error (.unclosedClassName r.offset)
      | _ :: rest =>
        .ok (.object (String.ofList name), ⟨rest, r.offset + 1 + Text.byteLength name + 1⟩)
    else
      match Primitive.ofTag? c with
      | some kind => .ok (.primitive kind, ⟨cs, r.offset + 1⟩)
      | none => .error (.unknownTypeCode (leadingByte c) r.offset)

/-- Reads the type at the front, brackets first. -/
def readType (r : Rest) : Except DescriptorFault (FieldType × Rest) :=
  let dims := (r.chars.takeWhile (· = '[')).length
  match readBase ⟨r.chars.dropWhile (· = '['), r.offset + dims⟩ with
  | .error fault => .error fault
  | .ok (base, rest) => .ok (⟨dims, base⟩, rest)

/-- Reads types up to the closing parenthesis. The text bounds how many there are, so it serves as
the bound of the loop. -/
def readParams :
    (bound : Nat) → Rest → List FieldType → Except DescriptorFault (List FieldType × Rest)
  | 0, _, _ => .error .unclosedParameterList
  | bound + 1, r, done =>
    match r.chars with
    | [] => .error .unclosedParameterList
    | ')' :: cs => .ok (done.reverse, ⟨cs, r.offset + 1⟩)
    | _ =>
      match readType r with
      | .error fault => .error fault
      | .ok (t, rest) => readParams bound rest (t :: done)

/-- Reads the result type, `none` for `V`. -/
def readResult (r : Rest) : Except DescriptorFault (Option FieldType × Rest) :=
  match r.chars with
  | [] => .error .noResultType
  | 'V' :: cs => .ok (none, ⟨cs, r.offset + 1⟩)
  | _ =>
    match readType r with
    | .error fault => .error fault
    | .ok (t, rest) => .ok (some t, rest)

/-- Nothing may follow. -/
def finish {α : Type} (value : α) (r : Rest) : Except DescriptorFault α :=
  if r.chars.isEmpty then .ok value else .error (.trailing r.offset)

/-- Reads all of a method descriptor. -/
def readMethodChars (cs : List Char) : Except DescriptorFault MethodType :=
  match cs with
  | '(' :: rest => do
    let (params, r) ← readParams (rest.length + 1) ⟨rest, 1⟩ []
    let (result, r) ← readResult r
    finish ⟨params, result⟩ r
  | _ => .error .noParameterList

/-- Reads all of a field descriptor. -/
def readFieldChars (cs : List Char) : Except DescriptorFault FieldType :=
  if cs.isEmpty then .error .noResultType
  else do
    let (t, r) ← readType ⟨cs, 0⟩
    finish t r

/-- Reads a method descriptor. -/
def readMethod (s : String) : Except DescriptorError MethodType :=
  (readMethodChars s.toList).mapError (DescriptorError.mk s)

/-- Reads a field descriptor. -/
def readField (s : String) : Except DescriptorError FieldType :=
  (readFieldChars s.toList).mapError (DescriptorError.mk s)

end Descriptor

end ValueCoverage
