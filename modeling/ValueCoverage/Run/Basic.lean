import ValueCoverage.Capture.Instrumenter
import ValueCoverage.Collector.Basic
import ValueCoverage.Observation.Registry
import ValueCoverage.Run.Files
import ValueCoverage.Selection.Rule

/-!
# Runs

A run goes from options to a coverage file. The input file is read when it is first needed, and put
in front of what the run observes. If it is there and cannot be read, nothing is written, so that
what it held is not lost.
-/

namespace ValueCoverage

/-- The coverage that a run starts from. -/
structure InputFile where
  path : String
  codec : Codec

/-- Puts the coverage of the input file into a collector. A file that is not there has none. -/
def InputFile.mergeInto (fs : Files) (i : InputFile) (c : Collector InputFile) :
    Except CoverageError Unit × Collector InputFile :=
  match CoverageFile.load fs i.path i.codec with
  | .ok previous => (.ok (), c.merge previous)
  | .error (.io .notFound) => (.ok (), c)
  | .error e => (.error e, c)

/-- One run. -/
structure CoverageRun where
  options : Options
  /-- Writes the output file and says how observations are kept. -/
  serializer : Codec
  /-- Reads the input file. -/
  deserializer : Codec
  instrumenter : Instrumenter
  collector : Collector InputFile
  /-- Whether the output file has been written. -/
  saved : Bool

namespace CoverageRun

/-- Starts a run. Of several things that are wrong with the options, the first in this order is
told. -/
def start (codecs : CodecRegistry) (options : Options) : Except CoverageError CoverageRun := do
  let serializer ← (codecs.resolve options.serializer).mapError CoverageError.codec
  let deserializer ← (codecs.resolve options.deserializer).mapError CoverageError.codec
  let rules ← (Selection.ofRules options.rules).mapError CoverageError.options
  let collector : Collector InputFile := .new .empty options.mode (some serializer)
  return {
    options, serializer, deserializer
    instrumenter := ⟨(Selection.both rules .notPlatform).accepts, .collector, options.fields⟩
    collector := match options.input with
      | some path => collector.setInitializer ⟨path, deserializer⟩
      | none => collector
    saved := false }

/-- Reads the input file if that is due. -/
def ensureReady (r : CoverageRun) (fs : Files) : Except CoverageError Unit × CoverageRun :=
  let (result, collector) := r.collector.ensureReady (InputFile.mergeInto fs)
  (result, { r with collector })

/-- Takes in one observation on a thread that is not collecting. -/
def record (r : CoverageRun) (fs : Files) (key : MemberKey) (o : Observation) :
    Outcome × CoverageRun :=
  let (outcome, collector) := r.collector.record (InputFile.mergeInto fs) .free key o
  (outcome, { r with collector })

/-- Declares a member; says whether it is new. -/
def declare (r : CoverageRun) (key : MemberKey) : Bool × CoverageRun :=
  let (isNew, collector) := r.collector.declare .nobody key
  (isNew, { r with collector })

/-- Puts another store in the place of what has been collected, which is given back. -/
def replace (r : CoverageRun) (other : Store) : Store × CoverageRun :=
  let (old, collector) := r.collector.replace other
  (old, { r with collector })

/-- Forgets what has been collected. -/
def reset (r : CoverageRun) : CoverageRun := { r with collector := r.collector.reset }

/-- Instruments a class and declares its members. -/
def instrument (r : CoverageRun) (bytes : Bytes) :
    Except CoverageError ClassOutcome × CoverageRun :=
  r.instrumenter.instrumentInto (fun r d => (r.declare d.key).2) r bytes

/-- Writes what has been collected. -/
def saveAs (r : CoverageRun) (fs : Files) (path : String) : Except CoverageError Files :=
  (fs.write path
    (Text.Utf8.encode (CoverageFile.write r.serializer r.collector.store))).mapError .io

/-- Writes the output file, if there is to be one, and tells its path. An input file that was not
needed still has to reach the output. -/
def save (r : CoverageRun) (fs : Files) :
    Except CoverageError (Option String) × CoverageRun × Files :=
  match r.options.output with
  | none => (.ok none, r, fs)
  | some path =>
    match r.ensureReady fs with
    | (.error e, r) => (.error e, r, fs)
    | (.ok _, r) =>
      match r.saveAs fs path with
      | .error e => (.error e, r, fs)
      | .ok fs => (.ok (some path), { r with saved := true }, fs)

/-- Reads a coverage file with the codec of the input. -/
def load (r : CoverageRun) (fs : Files) (path : String) : Except CoverageError Store :=
  CoverageFile.load fs path r.deserializer

end CoverageRun

/-- A run from its start to the file at its end. Finishing it saves; if it is given up unfinished,
it saves, too, but nobody is told what went wrong. -/
structure Session where
  finished : Bool
deriving Repr, DecidableEq

namespace Session

/-- A session that was just begun. -/
def opened : Session := ⟨false⟩

/-- Gives a session up; one that is not finished saves. -/
def drop (s : Session) (r : CoverageRun) (fs : Files) : CoverageRun × Files :=
  if s.finished then (r, fs) else (r.save fs).2

/-- Saves, and gives the session up. -/
def finish (s : Session) (r : CoverageRun) (fs : Files) :
    Except CoverageError (Option String) × CoverageRun × Files :=
  let (result, r, fs) := r.save fs
  (result, ({ s with finished := true } : Session).drop r fs)

theorem finish_eq_save (s : Session) (r : CoverageRun) (fs : Files) :
    s.finish r fs = r.save fs := rfl

end Session

/-- How an instrumenter is shown. -/
def Instrumenter.shown (i : Instrumenter) : String :=
  "Instrumenter \x7b collector_owner: " ++ Text.quoted i.target.owner ++ ", collector_method: " ++
    Text.quoted i.target.method ++ ", field_coverage: " ++ toString i.fields ++ ", .. \x7d"

end ValueCoverage
