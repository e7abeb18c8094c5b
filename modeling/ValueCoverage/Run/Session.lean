import ValueCoverage.Run.Basic

/-!
# Runs and their sessions

What a run is asked by those who hold it and the sessions on it, and what it answers, as data.
-/

namespace ValueCoverage

/-- What can be asked of a run on which sessions are open. -/
inductive SessionCall where
  | record (key : MemberKey) (o : Observation)
  | declare (key : MemberKey)
  /-- Reads the input file if that is due. -/
  | ready
  | reset
  | replace (other : Store)
  | save
  /-- Finishes one of the sessions. -/
  | finish
  /-- Gives up one of the sessions, which is not finished. -/
  | drop

/-- What a run answers. -/
inductive SessionAnswer where
  | nothing
  | outcome (o : Outcome)
  | isNew (b : Bool)
  | ready (result : Except CoverageError Unit)
  | store (old : Store)
  | saved (result : Except CoverageError (Option String))

namespace CoverageRun

/-- Answers one call. -/
def respond (r : CoverageRun) (fs : Files) : SessionCall → SessionAnswer × CoverageRun × Files
  | .record key o => let (outcome, r) := r.record fs key o; (.outcome outcome, r, fs)
  | .declare key => let (isNew, r) := r.declare key; (.isNew isNew, r, fs)
  | .ready => let (result, r) := r.ensureReady fs; (.ready result, r, fs)
  | .reset => (.nothing, r.reset, fs)
  | .replace other => let (old, r) := r.replace other; (.store old, r, fs)
  | .save => let (result, r, fs) := r.save fs; (.saved result, r, fs)
  | .finish => let (result, r, fs) := Session.opened.finish r fs; (.saved result, r, fs)
  | .drop => (.nothing, Session.opened.drop r fs)

/-- Answers one call after the other. -/
def respondAll (r : CoverageRun) (fs : Files) :
    List SessionCall → List SessionAnswer × CoverageRun × Files
  | [] => ([], r, fs)
  | call :: rest =>
    let (answer, r, fs) := r.respond fs call
    let (answers, last) := r.respondAll fs rest
    (answer :: answers, last)

end CoverageRun

end ValueCoverage
