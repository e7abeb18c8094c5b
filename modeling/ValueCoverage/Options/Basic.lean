import ValueCoverage.Options.Error
import ValueCoverage.Text.Blank
import ValueCoverage.Text.Split

/-!
# Options

What a run is told: where to write and read coverage, with which codecs, in which mode, which
members to observe. Options come from the environment, one variable for each key, and from an
option string, which is applied on top. In an option string the rules of all `include` options
count, and the first of them drops the rules that were there before.
-/

namespace ValueCoverage

/-- Whether values are kept or members are only declared. -/
inductive Mode where
  | coverage
  | template
deriving Repr, DecidableEq

/-- What a run is told. -/
structure Options where
  output : Option String
  input : Option String
  serializer : String
  deserializer : String
  mode : Mode
  rules : List String
  fields : Bool
  log : String
deriving Repr, DecidableEq

namespace Options

/-- What holds if nothing is said. -/
def standard : Options :=
  { output := none, input := none, serializer := "plain", deserializer := "plain"
    mode := .coverage, rules := [], fields := false, log := "argcov=info" }

/-- The keys, in the order in which the environment is asked for them. -/
def keys : List String :=
  ["output", "input", "serializer", "deserializer", "mode", "include", "fields", "log"]

/-- A text without the blanks around it, if anything is left. -/
def nonBlank (s : String) : Option String :=
  let s := Text.trim s
  if s.isEmpty then none else some s

/-- Reads a mode, in capitals or not. -/
def readMode (s : String) : Option Mode :=
  match Text.lowerAscii s with
  | "coverage" => some .coverage
  | "template" => some .template
  | _ => none

/-- Reads a switch, in capitals or not. -/
def readSwitch (s : String) : Option Bool :=
  match Text.lowerAscii s with
  | "true" | "yes" | "on" | "1" => some true
  | "false" | "no" | "off" | "0" => some false
  | _ => none

/-- The rules of one setting, which stand between semicolons. -/
def readRules (s : String) : List String :=
  (Text.splitOn ';' s.toList).filterMap fun rule => nonBlank (String.ofList rule)

/-- Gives a key a value. -/
def set (o : Options) (key value : String) : Except OptionError Options :=
  let need {α : Type} (found : Option α) (use : α → Options) : Except OptionError Options :=
    match found with
    | some a => .ok (use a)
    | none => .error (.invalidValue key value)
  match key with
  | "output" => .ok { o with output := nonBlank value }
  | "input" => .ok { o with input := nonBlank value }
  | "serializer" => need (nonBlank value) fun s => { o with serializer := s }
  | "deserializer" => need (nonBlank value) fun s => { o with deserializer := s }
  | "mode" => need (readMode value) fun m => { o with mode := m }
  | "include" => .ok { o with rules := o.rules ++ readRules value }
  | "fields" => need (readSwitch value) fun b => { o with fields := b }
  | "log" => .ok { o with log := value }
  | _ => .error (.unknownKey key)

/-- Sets every key that the look-up knows, in order. -/
def ofLookup (lookup : String → Option String) : Except OptionError Options :=
  keys.foldlM (fun o key =>
    match lookup key with
    | some value => o.set key value
    | none => .ok o) standard

/-- The environment variable of a key. -/
def variableName (key : String) : String :=
  "ARGCOV_" ++ String.ofList (key.toList.map Char.toUpper)

/-- The options that the environment gives. -/
def ofEnvironment (env : String → Option String) : Except OptionError Options :=
  ofLookup fun key => env (variableName key)

/-! ## Option strings -/

/-- Cuts at the commas outside parentheses; `none` if the parentheses do not match. The current
piece and the finished ones are kept back to front. -/
def splitOutside : List Char → (depth : Nat) → (piece : List Char) → (done : List (List Char)) →
    Option (List (List Char))
  | [], depth, piece, done => if depth = 0 then some (piece.reverse :: done).reverse else none
  | c :: rest, depth, piece, done =>
    if c = '(' then splitOutside rest (depth + 1) (c :: piece) done
    else if c = ')' then
      if depth = 0 then none else splitOutside rest (depth - 1) (c :: piece) done
    else if c = ',' ∧ depth = 0 then splitOutside rest depth [] (piece.reverse :: done)
    else splitOutside rest depth (c :: piece) done

/-- The single options of an option string; blank ones are left out. -/
def split (s : String) : Except OptionError (List String) :=
  match splitOutside s.toList 0 [] [] with
  | none => .error (.unbalanced s)
  | some pieces => .ok (pieces.filterMap fun piece => nonBlank (String.ofList piece))

/-- What applying an option string has come to: the options, whether an `include` was seen, and the
error that stopped it. -/
structure Applied where
  options : Options
  seen : Bool
  error : Option OptionError

/-- Applies one option, unless an error came before. -/
def Applied.step (a : Applied) (option : String) : Applied :=
  if a.error.isSome then a
  else
    match Text.splitFirst '=' option.toList with
    | none => { a with error := some (.missingValue option) }
    | some (key, value) =>
      let key := Text.trim (String.ofList key)
      let first := key = "include" ∧ !a.seen
      let options := if first then { a.options with rules := [] } else a.options
      match options.set key (Text.trim (String.ofList value)) with
      | .ok options => ⟨options, a.seen || first, none⟩
      | .error e => ⟨options, a.seen || first, some e⟩

/-- Applies an option string. Options before one that fails stay applied. -/
def applyAll (o : Options) (s : String) : Options × Option OptionError :=
  match split s with
  | .error e => (o, some e)
  | .ok options =>
    let a := options.foldl Applied.step ⟨o, false, none⟩
    (a.options, a.error)

/-- The options after an option string, if all of it applies. -/
def apply (o : Options) (s : String) : Except OptionError Options :=
  match o.applyAll s with
  | (o, none) => .ok o
  | (_, some e) => .error e

/-- The options of an option string alone. -/
def ofString (s : String) : Except OptionError Options :=
  standard.apply s

/-- The environment first, then an option string on top. -/
def load (env : String → Option String) (s : String) : Except OptionError Options := do
  let o ← ofEnvironment env
  o.apply s

end Options

end ValueCoverage
