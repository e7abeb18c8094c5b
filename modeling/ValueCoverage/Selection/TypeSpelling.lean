import ValueCoverage.Descriptor.Reader
import ValueCoverage.Text.Blank
import ValueCoverage.Text.Split

/-!
# Spellings of types

A rule may name a type as source code does, `int` or `java.lang.String[]`, or as descriptors do.
Both spellings of a type give the same descriptor: brackets at the end become dimensions, a keyword
its letter, a well-formed descriptor stays, and any other name is taken for a class.
-/

namespace ValueCoverage.TypeSpelling

/-- Takes pairs of brackets, and blanks around them, off the end of a text given back to front. -/
def takeBrackets : List Char → (dims : Nat) → Nat × List Char
  | [], dims => (dims, [])
  | c :: rest, dims =>
    if Text.isBlank c then takeBrackets rest dims
    else
      match c, rest with
      | ']', '[' :: more => takeBrackets more (dims + 1)
      | _, _ => (dims, c :: rest)

/-- The descriptor of a spelling without brackets at its end. -/
def baseDescriptor (name : String) : List Char :=
  match Primitive.ofKeyword? name with
  | some kind => [kind.tag]
  | none =>
    match Descriptor.readField name with
    | .ok _ => name.toList
    | .error _ => 'L' :: (Text.replaceChar '.' '/' name).toList ++ [';']

/-- The descriptor of the type that a spelling names. -/
def descriptor (spelling : String) : String :=
  let (dims, rest) := takeBrackets (Text.trimChars spelling.toList).reverse 0
  String.ofList (List.replicate dims '[' ++ baseDescriptor (String.ofList rest.reverse))

end ValueCoverage.TypeSpelling
