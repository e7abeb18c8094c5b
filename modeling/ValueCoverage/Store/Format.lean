import ValueCoverage.Store.Basic
import ValueCoverage.Text.Blank
import ValueCoverage.Text.Utf8

/-!
# Coverage files

A coverage file has a header line for each member, `owner#member`, and below it a line for each of
its observations, an arrow and the text that a codec made. A header without observations is a member
that was declared and never observed. Readers skip blank lines and count them; the first line that
does not fit is reported with its number.
-/

namespace ValueCoverage

/-- Why a line of a coverage file does not fit. -/
inductive LineFault where
  | orphanObservation
  | codec (error : CodecError)
  | noSeparator
  | emptyPart
  /-- A fault that somebody else found. -/
  | stated (message : String)
deriving Repr, DecidableEq

def LineFault.message : LineFault → String
  | .orphanObservation => "observation before any member header"
  | .codec error => error.message
  | .noSeparator => s!"header has no '{MemberKey.separator}' separator"
  | .emptyPart => "empty owner or member"
  | .stated message => message

/-- Why a coverage file is not read. -/
inductive ReadFault where
  /-- A line is not UTF-8. -/
  | notText
  | line (number : Nat) (fault : LineFault)
deriving Repr, DecidableEq

namespace CoverageFile

/-- Starts the line of an observation. -/
def arrow : String := " -> "

/-- A line of a coverage file. -/
inductive Line where
  | header (key : MemberKey)
  | observed (o : Observation)
deriving Repr, DecidableEq

/-- The lines of a store. -/
def linesOf (s : Store) : List Line :=
  s.entries.flatMap fun e => .header e.key :: e.observations.items.map .observed

/-- A line as it is written, its end included. -/
def Line.text (codec : Codec) : Line → String
  | .header key => key.text ++ "\n"
  | .observed o => arrow ++ codec.write o ++ "\n"

/-- The text of a store. -/
def write (codec : Codec) (s : Store) : String :=
  String.join ((linesOf s).map (Line.text codec))

/-! ## Reading -/

/-- A carriage return before the end of a line belongs to the end. -/
def dropReturn (line : Bytes) : Bytes :=
  match line.reverse with
  | 13 :: rest => rest.reverse
  | _ => line

/-- The lines of a file, without their ends; the last line may lack its end. -/
def rawLines : Bytes → (line : Bytes) → (done : List Bytes) → List Bytes
  | [], [], done => done.reverse
  | [], line, done => (line.reverse :: done).reverse
  | b :: rest, line, done =>
    if b = 10 then rawLines rest [] (dropReturn line.reverse :: done)
    else rawLines rest (b :: line) done

/-- What has been read so far: the member of the last header and the store. -/
structure Progress where
  current : Option MemberKey
  store : Store

/-- Takes one line in. -/
def Progress.step (codec : Codec) (p : Progress) (line : List Char) : Except LineFault Progress :=
  if Text.isBlankLine line then .ok p
  else
    match Text.dropPrefix? arrow.toList line with
    | some text =>
      match p.current with
      | none => .error .orphanObservation
      | some key =>
        match codec.read (String.ofList text) with
        | .error e => .error (.codec e)
        | .ok o => .ok { p with store := p.store.add key o }
    | none =>
      match Text.splitFirst MemberKey.separator line with
      | none => .error .noSeparator
      | some (owner, member) =>
        if owner.isEmpty || member.isEmpty then .error .emptyPart
        else
          let key : MemberKey := ⟨String.ofList owner, String.ofList member⟩
          .ok ⟨some key, p.store.declare key⟩

/-- Takes line after line in; `number` is the number of the first. -/
def readLines (codec : Codec) : List Bytes → (number : Nat) → Progress → Except ReadFault Store
  | [], _, p => .ok p.store
  | line :: rest, number, p =>
    match Text.Utf8.decode? line with
    | none => .error .notText
    | some text =>
      match p.step codec text.toList with
      | .error fault => .error (.line number fault)
      | .ok p => readLines codec rest (number + 1) p

/-- Reads a coverage file. -/
def read (codec : Codec) (bytes : Bytes) : Except ReadFault Store :=
  readLines codec (rawLines bytes [] []) 1 ⟨none, .empty⟩

end CoverageFile

end ValueCoverage
