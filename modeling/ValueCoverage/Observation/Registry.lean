import ValueCoverage.Observation.Codec
import ValueCoverage.Ordered.OrderedMap
import ValueCoverage.Text.Blank

/-!
# Codec specifications

Codecs are made by name: `plain`, or with arguments `truncate(40)`. A registry maps names to
factories; registering a name again replaces its factory and keeps its place.
-/

namespace ValueCoverage

/-- Makes a codec from arguments, or says what is wrong with them. -/
abbrev CodecFactory := List String → Except String Codec

/-- Factories by name, in order of registration. -/
structure CodecRegistry where
  factories : OrderedMap String CodecFactory

/-- A codec specification taken apart. -/
structure CodecSpec where
  name : String
  args : List String
deriving Repr, DecidableEq

namespace CodecSpec

/-- The arguments between the parentheses. -/
def readArgs (inner : List Char) : List String :=
  if (Text.trimChars inner).isEmpty then []
  else (Text.splitOn ',' inner).map fun arg => String.ofList (Text.trimChars arg)

/-- Takes a specification apart: a name, and arguments from the first opening parenthesis to the
closing one at the end. -/
def read (spec : String) : Except UnresolvedReason CodecSpec :=
  let cs := Text.trimChars spec.toList
  match Text.splitFirst '(' cs with
  | none =>
    if cs.isEmpty || cs.contains ')' then .error .emptyOrUnbalanced
    else .ok ⟨String.ofList cs, []⟩
  | some (name, rest) =>
    match Text.dropSuffix? [')'] rest with
    | none => .error .notClosed
    | some inner =>
      let name := Text.trimChars name
      if name.isEmpty then .error .noName else .ok ⟨String.ofList name, readArgs inner⟩

end CodecSpec

namespace CodecRegistry

/-- No codecs. -/
def empty : CodecRegistry := ⟨.empty⟩

/-- Adds the factory of a name or replaces it. -/
def register (r : CodecRegistry) (name : String) (factory : CodecFactory) : CodecRegistry :=
  ⟨r.factories.insert name factory⟩

/-- The names, in order of registration. -/
def names (r : CodecRegistry) : List String := r.factories.keys

/-- The factory of a codec without arguments. -/
def constant (codec : Codec) : CodecFactory
  | [] => .ok codec
  | _ => .error "takes no arguments"

/-- The largest length that a limit may ask for. -/
def greatestLimit : Nat := 0xFFFFFFFFFFFFFFFF

/-- The factory of `truncate`. -/
def truncateFactory : CodecFactory
  | [limit] =>
    match Number.readNatural greatestLimit limit with
    | .ok n => .ok (.truncate n)
    | .error e => .error s!"limit {Text.quoted limit}: {e.message}"
  | args => .error s!"expected one argument, got {args.length}"

/-- The codecs that are always there. -/
def standard : CodecRegistry :=
  ((empty.register "plain" (constant .plain)).register "typed" (constant .typed)).register
    "truncate" truncateFactory

/-- The codec that a specification asks for. -/
def resolve (r : CodecRegistry) (spec : String) : Except CodecError Codec :=
  let found : Except UnresolvedReason Codec := do
    let s ← CodecSpec.read spec
    match r.factories.get? s.name with
    | none => .error (.unknownCodec s.name)
    | some factory => (factory s.args).mapError .rejected
  found.mapError (.unresolved spec)

/-- The names as a message shows them. -/
def shown (r : CodecRegistry) : String :=
  "CodecRegistry \x7b names: [" ++ ", ".intercalate (r.names.map Text.quoted) ++ "] \x7d"

end CodecRegistry

end ValueCoverage
