import ValueCoverage.Member
import ValueCoverage.Selection.TypeSpelling

/-!
# Selections of members

A selection says which methods and fields are observed. `accepts` is its meaning; `ask` answers the
same question and remembers, for each list of parameter types, the answers by descriptor.
-/

namespace ValueCoverage

/-- The descriptors of wanted types, and answers already worked out. -/
structure TypeFilter where
  types : List String
  known : List (String × Bool)
deriving Repr, DecidableEq

namespace TypeFilter

/-- A filter for the types that the spellings name. -/
def ofSpellings (spellings : List String) : TypeFilter :=
  ⟨spellings.map TypeSpelling.descriptor, []⟩

/-- The types that a descriptor lists: the parameters of a method, or the type of a field. -/
def listed (descriptor : String) : List FieldType :=
  if Member.isMethodDescriptor descriptor then
    match Descriptor.readMethod descriptor with
    | .ok m => m.params
    | .error _ => []
  else
    match Descriptor.readField descriptor with
    | .ok t => [t]
    | .error _ => []

/-- Whether some listed type is wanted. -/
def meets (types : List String) (descriptor : String) : Bool :=
  (listed descriptor).any fun t => types.contains t.descriptor

/-- Answers from memory, or works the answer out and remembers it. -/
def ask (f : TypeFilter) (descriptor : String) : Bool × TypeFilter :=
  match f.known.lookup descriptor with
  | some answer => (answer, f)
  | none =>
    let answer := meets f.types descriptor
    (answer, { f with known := (descriptor, answer) :: f.known })

end TypeFilter

/-- Which members are observed. -/
inductive Selection where
  | any
  | ownerIs (owner : String)
  | ownerPrefix (start : String)
  /-- Turns away owners that begin with one of these. -/
  | notUnder (starts : List String)
  | nameIs (name : String)
  /-- Turns away synthetic members and bridge methods. -/
  | written
  /-- Takes members with a parameter, or a field type, among these. -/
  | withType (filter : TypeFilter)
  | isStatic
  | isField
  | both (a b : Selection)
  | either (a b : Selection)
  | negate (a : Selection)
deriving Repr, DecidableEq

namespace Selection

/-- Platform packages and the classes that observe. -/
def platformPrefixes : List String :=
  ["java.", "javax.", "jdk.", "sun.", "com.sun.", "argcov."]

/-- Turns away platform classes and the classes that observe. -/
def notPlatform : Selection := .notUnder platformPrefixes

/-- Takes what all of them take. -/
def allOf : List Selection → Selection
  | [] => .any
  | s :: rest => .both s (allOf rest)

/-- Whether the owner begins with one of the texts. -/
def isUnder (starts : List String) (owner : String) : Bool :=
  starts.any fun start => Text.startsWith start owner

/-- Whether the source has the member: it is not synthetic and, if a method, no bridge. -/
def isWritten (m : Member) : Bool :=
  !m.access.has .syntheticBit && !(m.isMethod && m.access.has .bridgeBit)

/-- Whether the selection takes the member. -/
def accepts : Selection → Member → Bool
  | .any, _ => true
  | .ownerIs owner, m => m.owner = owner
  | .ownerPrefix start, m => Text.startsWith start m.owner
  | .notUnder starts, m => !isUnder starts m.owner
  | .nameIs name, m => m.name = name
  | .written, m => isWritten m
  | .withType filter, m => TypeFilter.meets filter.types m.descriptor
  | .isStatic, m => m.access.has .staticBit
  | .isField, m => !m.isMethod
  | .both a b, m => a.accepts m && b.accepts m
  | .either a b, m => a.accepts m || b.accepts m
  | .negate a, m => !a.accepts m

/-- Answers as `accepts` does and remembers the answers of its type filters. The second part of a
pair is asked only if the first leaves the answer open. -/
def ask : Selection → Member → Bool × Selection
  | .withType filter, m =>
    let (answer, filter) := filter.ask m.descriptor
    (answer, .withType filter)
  | .both a b, m =>
    match a.ask m with
    | (false, a) => (false, .both a b)
    | (true, a) => let (answer, b) := b.ask m; (answer, .both a b)
  | .either a b, m =>
    match a.ask m with
    | (true, a) => (true, .either a b)
    | (false, a) => let (answer, b) := b.ask m; (answer, .either a b)
  | .negate a, m => let (answer, a) := a.ask m; (!answer, .negate a)
  | s, m => (s.accepts m, s)

/-- Asks about one member after the other. -/
def askAll : Selection → List Member → List Bool
  | _, [] => []
  | s, m :: rest => let (answer, s) := s.ask m; answer :: s.askAll rest

end Selection

end ValueCoverage
