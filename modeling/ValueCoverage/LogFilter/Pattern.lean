import ValueCoverage.Text.Alphanumeric
import ValueCoverage.Text.Blank

/-!
# Patterns

A log directive can ask for the values of a field by a regular expression. No event is ever compared
with one here, so all there is to know of a text is whether it is a pattern. Patterns have groups,
alternatives, classes, repetitions and flags. Where characters are matched, which is usual, patterns
have no classes by property, no word edges and no matching in either case; where a flag turns to
bytes, they have none that a byte outside ASCII could match.
-/

namespace ValueCoverage.LogPattern

/-- The flags on which it depends what is a pattern. -/
structure Flags where
  /-- Letters of either case match. -/
  anyCase : Bool
  /-- Characters are matched, not bytes. -/
  byCharacter : Bool
  /-- Blanks and comments in the pattern are passed over. -/
  spaced : Bool
deriving Repr, DecidableEq

namespace Flags

/-- What holds at the start of a pattern. -/
def standard : Flags := ⟨false, true, false⟩

/-- The letters of all flags. -/
def letters : List Char := ['i', 'm', 's', 'U', 'u', 'R', 'x']

/-- Turns a flag on or off. -/
def set (f : Flags) (letter : Char) (on : Bool) : Flags :=
  match letter with
  | 'i' => { f with anyCase := on }
  | 'u' => { f with byCharacter := on }
  | 'x' => { f with spaced := on }
  | _ => f

/-- Reads flags, up to the colon or the bracket that ends them. A minus turns off what follows it.
Nothing is said twice, and something follows the minus. -/
def read : Flags → (said : List Char) → List Char → Option (Flags × List Char × List Char)
  | _, _, [] => none
  | f, said, c :: cs =>
    if c = ':' ∨ c = ')' then
      if said.head? = some '-' then none else some (f, said, c :: cs)
    else if said.contains c then none
    else if c = '-' then read f (c :: said) cs
    else if letters.contains c then read (f.set c (!said.contains '-')) (c :: said) cs
    else none

end Flags

/-- Passes over blanks and over comments, which end with their line. -/
def dropBlanks : (inComment : Bool) → List Char → List Char
  | _, [] => []
  | true, c :: cs => dropBlanks (c != '\n') cs
  | false, c :: cs =>
    if Text.isBlank c then dropBlanks false cs
    else if c = '#' then dropBlanks true cs
    else c :: cs

/-- Passes over what the flags say is no part of the pattern. -/
def Flags.skip (f : Flags) (cs : List Char) : List Char :=
  if f.spaced then dropBlanks false cs else cs

/-! ## Single elements -/

/-- An element without parts. -/
inductive Atom where
  /-- One character. -/
  | char (code : Nat)
  /-- One character, or one byte where bytes are matched, by two digits. -/
  | byte (code : Nat)
  /-- A digit, a blank or a letter, or anything else. -/
  | shorthand (negated : Bool)
  /-- An end of the text or of a line. -/
  | edge
  /-- An end of a word, or anything else. -/
  | wordEdge
  /-- Any character but the end of a line. -/
  | any
deriving Repr, DecidableEq

namespace Atom

/-- Whether the element can stand by itself. -/
def isSupported (f : Flags) : Atom → Bool
  | .char _ => !(f.anyCase && f.byCharacter)
  | .byte code => if f.byCharacter then !f.anyCase else decide (code < 0x80)
  | .shorthand negated => !f.byCharacter && !negated
  | .edge => true
  | .wordEdge => !f.byCharacter
  | .any => f.byCharacter

/-- Whether the element can stand in a class. -/
def isMember (f : Flags) : Atom → Bool
  | .char code | .byte code => f.byCharacter || decide (code < 0x80)
  | .shorthand negated => !f.byCharacter && !negated
  | .edge | .wordEdge | .any => false

/-- The character that the element stands for. -/
def code? : Atom → Option Nat
  | .char code | .byte code => some code
  | .shorthand _ | .edge | .wordEdge | .any => none

end Atom

/-- The value of a hexadecimal digit. -/
def hexDigit? (c : Char) : Option Nat :=
  if c.isDigit then some (c.toNat - '0'.toNat)
  else if 'a' ≤ c.toLower ∧ c.toLower ≤ 'f' then some (c.toLower.toNat - 'a'.toNat + 10)
  else none

/-- Reads a number of hexadecimal digits. -/
def readHex (f : Flags) : (count value : Nat) → List Char → Option (Nat × List Char)
  | 0, value, cs => some (value, cs)
  | count + 1, value, cs =>
    match f.skip cs with
    | [] => none
    | c :: rest => (hexDigit? c).bind fun digit => readHex f count (value * 16 + digit) rest

/-- Control characters by the letter that stands for them. -/
def controls : List (Char × Nat) :=
  [('a', 0x7), ('t', 0x9), ('n', 0xA), ('v', 0xB), ('f', 0xC), ('r', 0xD)]

/-- Reads a code point of a number of digits. -/
def readCode (f : Flags) (digits : Nat) (cs : List Char) : Option (Atom × List Char) :=
  (readHex f digits 0 cs).bind fun (code, rest) =>
    if code.isValidChar then some (.char code, rest) else none

/-- Reads what follows a backslash. Every ASCII character stands for itself there but for letters,
digits and angle brackets. -/
def readEscape (f : Flags) : List Char → Option (Atom × List Char)
  | [] => none
  | 'x' :: cs => (readHex f 2 0 cs).map fun (code, rest) => (.byte code, rest)
  | 'u' :: cs => readCode f 4 cs
  | 'U' :: cs => readCode f 8 cs
  | c :: cs =>
    if ['d', 's', 'w', 'D', 'S', 'W'].contains c then some (.shorthand c.isUpper, cs)
    else if ['A', 'z'].contains c then some (.edge, cs)
    else if ['b', 'B', '<', '>'].contains c then some (.wordEdge, cs)
    else
      match controls.lookup c with
      | some code => some (.char code, cs)
      | none =>
        if decide (c.toNat < 0x80) && !c.isAlphanum then some (.char c.toNat, cs) else none

/-- Reads an element without parts that starts with `c`. -/
def readAtom (f : Flags) (c : Char) (cs : List Char) : Option (Atom × List Char) :=
  match c with
  | '\\' => readEscape f cs
  | '.' => some (.any, cs)
  | '^' | '$' => some (.edge, cs)
  | _ => some (.char c.toNat, cs)

/-! ## Elements in a row -/

/-- Elements that follow each other: how many there are, how deep they nest, and whether the last
can be repeated. -/
structure Row where
  count : Nat
  /-- How deep the elements in front of the last nest. -/
  inner : Nat
  /-- How deep the last one nests. -/
  last : Nat
  canRepeat : Bool
deriving Repr, DecidableEq

namespace Row

def empty : Row := ⟨0, 0, 0, false⟩

/-- Puts an element at the end. -/
def push (r : Row) (depth : Nat) (canRepeat : Bool) : Row :=
  ⟨r.count + 1, max r.inner r.last, depth, canRepeat⟩

/-- Repeats the last element. -/
def repeatLast? (r : Row) : Option Row :=
  if r.canRepeat then some { r with last := r.last + 1 } else none

/-- How deep the row nests. One element by itself makes no row. -/
def depth (r : Row) : Nat :=
  max r.inner r.last + if r.count < 2 then 0 else 1

end Row

/-! ## Classes -/

/-- A class that is being read. -/
structure OpenClass where
  /-- What stands behind the last operator. -/
  items : Row
  /-- How deep what stands in front of the last operator nests, if there is one. -/
  left : Option Nat
deriving Repr, DecidableEq

namespace OpenClass

/-- Puts a member at the end. -/
def push (s : OpenClass) (depth : Nat) : OpenClass := { s with items := s.items.push depth false }

/-- How deep the members nest. -/
def depth (s : OpenClass) : Nat :=
  match s.left with
  | none => s.items.depth
  | some left => max left s.items.depth + 1

/-- What follows an operator is a side of its own. -/
def operate (s : OpenClass) : OpenClass := ⟨.empty, some s.depth⟩

/-- Reads minus signs that stand for themselves. -/
def readMinuses (f : Flags) : (fuel : Nat) → Row → List Char → Row × List Char
  | fuel + 1, items, '-' :: cs => readMinuses f fuel (items.push 0 false) (f.skip cs)
  | _, items, cs => (items, cs)

/-- Reads the start of a class, behind its bracket. A minus, or else a closing bracket, stands for
itself there. A class of bytes that is turned into its opposite holds bytes outside ASCII. -/
def start (f : Flags) (cs : List Char) : Option (OpenClass × List Char) :=
  let cs := f.skip cs
  let (negated, cs) :=
    match cs with
    | '^' :: cs => (true, f.skip cs)
    | cs => (false, cs)
  if negated && !f.byCharacter then none
  else
    match readMinuses f cs.length .empty cs with
    | (items, ']' :: cs) =>
      if items.count = 0 then some (⟨items.push 0 false, none⟩, f.skip cs)
      else some (⟨items, none⟩, ']' :: cs)
    | (items, cs) => some (⟨items, none⟩, cs)

end OpenClass

/-- The names of classes. -/
def classNames : List String :=
  ["alnum", "alpha", "ascii", "blank", "cntrl", "digit", "graph", "lower", "print", "punct",
    "space", "upper", "word", "xdigit"]

/-- Reads a named class behind its bracket; says whether it is its opposite. -/
def readNamed : List Char → Option (Bool × List Char)
  | ':' :: cs =>
    let (negated, cs) :=
      match cs with
      | '^' :: cs => (true, cs)
      | cs => (false, cs)
    match cs.dropWhile (· != ':') with
    | ':' :: ']' :: rest =>
      if classNames.contains (String.ofList (cs.takeWhile (· != ':'))) then some (negated, rest)
      else none
    | _ => none
  | _ => none

/-- Reads an end of a range in a class. -/
def readEnd (f : Flags) : List Char → Option (Atom × List Char)
  | [] => none
  | '\\' :: cs => readEscape f cs
  | c :: cs => some (.char c.toNat, cs)

/-- Reads a member of a class: an element or a range of characters. -/
def readMember (f : Flags) (cs : List Char) : Option (List Char) :=
  (readEnd f cs).bind fun (first, rest) =>
    if !first.isMember f then none
    else
      let single := f.skip rest
      match single with
      | '-' :: more =>
        match f.skip more with
        | ']' :: _ | '-' :: _ => some single
        | more =>
          (readEnd f more).bind fun (second, rest) =>
            match first.code?, second.code? with
            | some low, some high =>
              if second.isMember f && decide (low ≤ high) then some rest else none
            | _, _ => none
      | _ => some single

/-- Reads members up to the bracket that closes the outermost class; tells how deep it nests. -/
def readMembers (f : Flags) : (fuel : Nat) → OpenClass → (outer : List OpenClass) → List Char →
    Option (Nat × List Char)
  | 0, _, _, _ => none
  | fuel + 1, s, outer, cs =>
    match f.skip cs with
    | [] => none
    | '[' :: cs =>
      match readNamed cs with
      | some (negated, rest) =>
        if negated && !f.byCharacter then none else readMembers f fuel (s.push 0) outer rest
      | none => (OpenClass.start f cs).bind fun (inner, rest) =>
        readMembers f fuel inner (s :: outer) rest
    | ']' :: cs =>
      match outer with
      | [] => some (s.depth + 1, cs)
      | parent :: outer => readMembers f fuel (parent.push (s.depth + 1)) outer cs
    | '&' :: '&' :: cs | '-' :: '-' :: cs | '~' :: '~' :: cs =>
      readMembers f fuel s.operate outer cs
    | cs => (readMember f cs).bind fun rest => readMembers f fuel (s.push 0) outer rest

/-- Reads a class behind its bracket; tells how deep it nests. -/
def readClass (f : Flags) (cs : List Char) : Option (Nat × List Char) :=
  if f.anyCase && f.byCharacter then none
  else (OpenClass.start f cs).bind fun (s, rest) => readMembers f (rest.length + 1) s [] rest

/-! ## Groups -/

/-- A group that is being read, or the whole pattern. -/
structure Group where
  row : Row
  /-- How deep the alternatives in front nest, if there are any. -/
  alternatives : Option Nat
  /-- What holds behind the group. -/
  flagsAfter : Flags
deriving Repr, DecidableEq

namespace Group

/-- A group without elements. -/
def empty (flagsAfter : Flags) : Group := ⟨.empty, none, flagsAfter⟩

/-- How deep the group nests. -/
def depth (g : Group) : Nat :=
  match g.alternatives with
  | none => g.row.depth
  | some d => max d g.row.depth + 1

/-- Begins another alternative. -/
def alternate (g : Group) : Group :=
  { g with row := .empty, alternatives := some (max (g.alternatives.getD 0) g.row.depth) }

/-- Puts an element at the end. -/
def push (g : Group) (depth : Nat) (canRepeat : Bool) : Group :=
  { g with row := g.row.push depth canRepeat }

end Group

/-- A pattern that is being read. -/
structure Reading where
  flags : Flags
  /-- The names of groups so far. -/
  names : List (List Char)
  group : Group
  outer : List Group
deriving Repr, DecidableEq

/-- Patterns nest at most this deep. -/
def depthLimit : Nat := 250

/-- Whether a text can be the name of a group. -/
def isGroupName : List Char → Bool
  | [] => false
  | c :: cs =>
    let isLetter (c : Char) : Bool := c == '_' || Text.isAlphanumeric c
    isLetter c && !c.isDigit && cs.all fun c => isLetter c || ['.', '[', ']'].contains c

namespace Reading

/-- The start of every pattern. -/
def start : Reading := ⟨.standard, [], .empty .standard, []⟩

/-- Begins a group with its own flags. -/
def enter (r : Reading) (flags : Flags) : Reading :=
  { r with flags, group := .empty r.flags, outer := r.group :: r.outer }

/-- Ends a group. -/
def leave? (r : Reading) : Option Reading :=
  match r.outer with
  | [] => none
  | parent :: outer =>
    some { r with
      flags := r.group.flagsAfter
      group := parent.push (r.group.depth + 1) true
      outer }

/-- Begins a group with a name that no other has. -/
def enterNamed (r : Reading) (cs : List Char) : Option (Reading × List Char) :=
  let name := cs.takeWhile (· != '>')
  match cs.dropWhile (· != '>') with
  | [] => none
  | _ :: rest =>
    if isGroupName name && !r.names.contains name then
      some ({ r with names := name :: r.names }.enter r.flags, rest)
    else none

/-- Reads what follows an opening bracket: a name, flags for the group or for what follows in the
group around it, or nothing. -/
def openGroup (r : Reading) (cs : List Char) : Option (Reading × List Char) :=
  match r.flags.skip cs with
  | '?' :: 'P' :: '<' :: rest => r.enterNamed rest
  | '?' :: '<' :: rest => r.enterNamed rest
  | '?' :: rest =>
    match Flags.read r.flags [] rest with
    | some (flags, _, ':' :: rest) => some (r.enter flags, rest)
    | some (flags, _ :: _, _ :: rest) =>
      some ({ r with flags, group := r.group.push 0 false }, rest)
    | _ => none
  | rest => some (r.enter r.flags, rest)

/-- Reads an element, or a sign between elements, that starts with `c`. Counted repetition is not
supported. -/
def next (r : Reading) (c : Char) (cs : List Char) : Option (Reading × List Char) :=
  match c with
  | '(' => r.openGroup cs
  | ')' => r.leave?.map fun r => (r, cs)
  | '|' => some ({ r with group := r.group.alternate }, cs)
  | '[' => (readClass r.flags cs).map fun (depth, rest) =>
    ({ r with group := r.group.push depth true }, rest)
  | '{' => none
  | '?' | '*' | '+' =>
    r.group.row.repeatLast?.map fun row =>
      ({ r with group := { r.group with row } }, match cs with | '?' :: rest => rest | _ => cs)
  | _ =>
    (readAtom r.flags c cs).bind fun (atom, rest) =>
      if atom.isSupported r.flags then some ({ r with group := r.group.push 0 true }, rest)
      else none

/-- Reads a pattern to its end. -/
def finishes : (fuel : Nat) → Reading → List Char → Bool
  | 0, _, _ => false
  | fuel + 1, r, cs =>
    match r.flags.skip cs with
    | [] => r.outer.isEmpty && decide (r.group.depth ≤ depthLimit)
    | c :: cs =>
      match r.next c cs with
      | none => false
      | some (r, rest) => r.finishes fuel rest

end Reading

/-- Whether a text is a pattern. -/
def isPattern (cs : List Char) : Bool :=
  Reading.start.finishes (cs.length + 1) cs

end ValueCoverage.LogPattern
