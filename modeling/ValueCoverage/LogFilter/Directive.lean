import ValueCoverage.LogFilter.Level
import ValueCoverage.LogFilter.Pattern
import ValueCoverage.Number.FloatText
import ValueCoverage.Text.Utf8

/-!
# Log directives

A directive is a level, a target, or a target and a level with `=` between them. In brackets behind
the target it can speak of a span by name, or in braces of a field that an event must have, or of a
value that a field must have.
-/

namespace ValueCoverage

/-- A field that a directive asks for. -/
structure LogField where
  name : String
  /-- Whether it asks for a value too. -/
  hasValue : Bool
deriving Repr, DecidableEq

namespace LogField

/-- Reads a field: a name, and behind `=` a number, a truth value or a pattern. -/
def read? (s : String) : Option LogField :=
  match Text.splitOn '=' s.toList with
  | name :: value :: _ =>
    if (Number.readFloat .double (String.ofList value)).isSome || LogPattern.isPattern value then
      some ⟨String.ofList name, true⟩
    else none
  | _ => some ⟨s, false⟩

end LogField

/-- What is logged of some events. -/
structure LogDirective where
  /-- The start of the targets of the events; without it events of all targets are meant. -/
  target : Option String
  level : LogLevel
  /-- The span that the events are in. -/
  span : Option String
  field : Option LogField
deriving Repr, DecidableEq

namespace LogDirective

/-- Speaks of all events. -/
def ofLevel (level : LogLevel) : LogDirective := ⟨none, level, none, none⟩

/-- Whether the directive speaks of events outside all spans. -/
def isStatic (d : LogDirective) : Bool :=
  d.span.isNone && !d.field.any (·.hasValue)

/-- Whether the directive speaks of an event outside all spans. -/
def applies (d : LogDirective) (e : LogEvent) : Bool :=
  d.isStatic && d.target.all (Text.startsWith · e.target) && d.field.all (e.fields.contains ·.name)

/-- Whether a directive yields to a later one that speaks of the same event: to one with a target as
long or longer, to one with a field, and of two with a field to the greater name. -/
def yieldsTo (a b : LogDirective) : Bool :=
  let rank (d : LogDirective) : Nat := d.target.elim 0 (·.length + 1)
  if rank a = rank b then
    match a.field, b.field with
    | none, _ => true
    | some _, none => false
    | some f, some g => decide (f.name ≤ g.name)
  else decide (rank a < rank b)

/-! ## Reading -/

/-- Where the reading of a directive is. Names start at a place that is counted in bytes. -/
inductive Place where
  | beginning
  | levelOrTarget (start : Nat)
  | span (start : Nat)
  | field (start : Nat)
  | afterField
  | afterSpan
  | level (start : Nat)
deriving Repr, DecidableEq

/-- The characters that a directive can start with, a bracket apart. -/
def canStart (c : Char) : Bool := Text.isAlphanumeric c || ['-', ':', '_'].contains c

/-- A level that can be left out; then everything is logged. -/
def readLevel (s : String) : Option LogLevel :=
  if s.isEmpty then some .trace else LogLevel.ofString? s

/-- What of a text is in front of `stop` from `start` on; nothing if characters are cut apart. -/
def cut (text : Bytes) (start stop : Nat) : Option String :=
  Text.Utf8.decode? ((text.take stop).drop start)

/-- Reads the character at a place. -/
def readChar (text : Bytes) (s : Place × LogDirective) (position : Nat × Char) :
    Option (Place × LogDirective) :=
  let (place, d) := s
  let (i, c) := position
  match place with
  | .beginning =>
    if c = '[' then some (.span (i + 1), d)
    else if canStart c then some (.levelOrTarget i, d)
    else none
  | .levelOrTarget start =>
    if c = '=' then (cut text start i).map fun target => (.level (i + 1), { d with target })
    else if c = '[' then (cut text start i).map fun target => (.span (i + 1), { d with target })
    else some s
  | .span start =>
    if c = ']' then (cut text start i).map fun span => (.afterSpan, { d with span })
    else if c = '\x7b' then
      (cut text start i).map fun span =>
        (.field (i + 1), { d with span := if span.isEmpty then none else some span })
    else some s
  | .field start =>
    if c = '\x7d' then
      match cut text start i with
      | none | some "" => none
      | some field => (LogField.read? field).map fun field => (.afterField, { d with field })
    else some s
  | .afterField => if c = ']' then some (.afterSpan, d) else none
  | .afterSpan => if c = '=' then some (.level (i + 1), d) else none
  | .level _ => some s

/-- Reads what is left at the end of a directive. -/
def readRest (text : Bytes) (place : Place) (d : LogDirective) : Option LogDirective :=
  match place with
  | .levelOrTarget start =>
    (cut text start text.length).map fun s =>
      match LogLevel.ofString? s with
      | some level => { d with level }
      | none => { d with target := s, level := .trace }
  | .level start =>
    (cut text start text.length).bind fun s => (readLevel s).map fun level => { d with level }
  | .afterSpan => some d
  | .beginning | .span _ | .field _ | .afterField => none

/-- Characters with the places where they start. -/
def withPlaces : Nat → List Char → List (Nat × Char)
  | _, [] => []
  | start, c :: cs => (start, c) :: withPlaces (start + c.utf8Size) cs

/-- Reads a directive. The signs in it are looked for between the blanks around it, and places are
counted from there; what stands between two places is taken from the whole text, so that every
blank in front moves it by one. -/
def read? (cs : List Char) : Option LogDirective :=
  let text := Text.Utf8.encode (String.ofList cs)
  ((withPlaces 0 (Text.trimChars cs)).foldlM (readChar text) (.beginning, .ofLevel .trace)).bind
    fun (place, d) => readRest text place d

end LogDirective

end ValueCoverage
