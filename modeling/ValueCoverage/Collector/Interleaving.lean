import ValueCoverage.Collector.Basic

/-!
# Records on several threads

Threads record on one collector, each with a guard of its own and whenever it is their turn. A
record takes several steps, and other threads may make theirs in between: the values are captured
and brought into the form in which they are kept while nobody holds the store. Only what is done to
the store is one step.
-/

namespace ValueCoverage

/-- A record that a thread is to make. -/
structure RecordCall where
  key : MemberKey
  values : Observation
deriving Repr, DecidableEq

/-- What a thread was told of one of its records. -/
structure Report where
  call : RecordCall
  outcome : Outcome
deriving Repr, DecidableEq

/-- How far a thread is with a record. -/
inductive Stage where
  /-- It makes none. -/
  | between
  /-- It holds its guard. -/
  | entered (call : RecordCall)
  /-- The values are captured, in the form in which they are kept. -/
  | captured (call : RecordCall) (form : Observation)
  /-- The store has answered; the guard is still held. -/
  | answered (report : Report)
deriving Repr, DecidableEq

/-- A thread, the records that it has still to make, and what it was told of the others. -/
structure Recorder where
  guard : Guard
  stage : Stage
  todo : List RecordCall
  reports : List Report
deriving Repr, DecidableEq

/-- The next step of a thread, on an initialized collector; there is none when all is done. -/
def Recorder.step {ι : Type} (t : Recorder) (c : Collector ι) : Option (Recorder × Collector ι) :=
  match t.stage with
  | .between =>
    match t.todo with
    | [] => none
    | call :: todo =>
      match t.guard.enter? with
      | none => some ({ t with todo, reports := t.reports ++ [⟨call, .reentrant⟩] }, c)
      | some guard => some ({ t with guard, todo, stage := .entered call }, c)
  | .entered call =>
    match c.mode with
    | .template =>
      let (outcome, c) := c.change .nobody (Collector.note call.key)
      some ({ t with stage := .answered ⟨call, outcome⟩ }, c)
    | .coverage => some ({ t with stage := .captured call (c.canonicalForm call.values) }, c)
  | .captured call form =>
    let (outcome, c) := c.change .nobody (Collector.insert call.key form)
    some ({ t with stage := .answered ⟨call, outcome⟩ }, c)
  | .answered report =>
    some ({ t with guard := t.guard.exit, stage := .between, reports := t.reports ++ [report] }, c)

/-- Threads and the collector on which they record. -/
structure Crowd (ι : Type) where
  recorders : List Recorder
  collector : Collector ι

namespace Crowd

variable {ι : Type}

/-- Threads that have their records still to make. -/
def start (c : Collector ι) (calls : List (List RecordCall)) : Crowd ι :=
  ⟨calls.map fun todo => ⟨.free, .between, todo, []⟩, c⟩

/-- The next step of one of the threads. -/
def step (cr : Crowd ι) (i : Nat) : Option (Crowd ι) := do
  let t ← cr.recorders[i]?
  let (t', collector) ← t.step cr.collector
  return ⟨cr.recorders.set i t', collector⟩

/-- Step after step, of one thread or another. -/
def run (cr : Crowd ι) (schedule : List Nat) : Option (Crowd ι) := schedule.foldlM step cr

/-- What the threads were told, thread by thread. -/
def reports (cr : Crowd ι) : List Report := cr.recorders.flatMap Recorder.reports

/-- Whether every thread has made all its records. -/
def Finished (cr : Crowd ι) : Prop := ∀ t ∈ cr.recorders, t.stage = .between ∧ t.todo = []

instance (cr : Crowd ι) : Decidable cr.Finished :=
  inferInstanceAs (Decidable (∀ t ∈ cr.recorders, t.stage = .between ∧ t.todo = []))

end Crowd

end ValueCoverage
