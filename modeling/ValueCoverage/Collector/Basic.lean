import ValueCoverage.Collector.Guard
import ValueCoverage.Error
import ValueCoverage.Options.Basic
import ValueCoverage.Text.Quoted

/-!
# Collectors

A collector takes in the observations of a run. Before the first record it runs its initializer, at
most once. It keeps observations in the form in which its codec reads them back. While the store is
written or read further up the same thread, nothing is recorded.
-/

namespace ValueCoverage

/-- What a record did. -/
inductive Outcome where
  /-- The observation is new. -/
  | recorded
  /-- The observation was there already. -/
  | duplicate
  /-- The member was declared; values are not kept. -/
  | declared
  /-- The thread was collecting. -/
  | reentrant
  /-- The store was being written. -/
  | serializing
  /-- The store was being read further up the thread. -/
  | busy
deriving Repr, DecidableEq

/-- The name of an outcome. -/
def Outcome.name : Outcome → String
  | .recorded => "Recorded"
  | .duplicate => "Duplicate"
  | .declared => "Declared"
  | .reentrant => "Reentrant"
  | .serializing => "Serializing"
  | .busy => "Busy"

/-- Who holds the store, as a thread sees it. -/
inductive Hold where
  | nobody
  /-- This thread, further up. -/
  | own
  /-- A thread that waits for this one. -/
  | other
deriving Repr, DecidableEq

/-- How far a collector is with its initialization. -/
inductive Readiness (ι : Type) where
  /-- Not yet over; the initializer, unless it has been taken. -/
  | waiting (initializer : Option ι)
  /-- Over; what went wrong, if anything. -/
  | done (failure : Option String)
deriving Repr, DecidableEq

/-- What a collector keeps of its initialization. Nothing has gone wrong before it is over. -/
structure Startup (ι : Type) where
  /-- The initializer, until it is taken. -/
  slot : Option ι
  initialized : Bool
  failure : Option String
  unfailed : initialized = false → failure = none

namespace Startup

variable {ι : Type}

/-- Before an initializer is set. -/
def new : Startup ι := ⟨none, false, none, fun _ => rfl⟩

/-- Puts an initializer into the slot; what an earlier one did no longer counts. -/
def set (_ : Startup ι) (initializer : ι) : Startup ι :=
  ⟨some initializer, false, none, fun _ => rfl⟩

/-- Empties the slot. -/
def take (s : Startup ι) : Startup ι := { s with slot := none }

/-- Notes that the initialization is over, and its error if it has one. -/
def finish (s : Startup ι) (result : Except CoverageError Unit) : Startup ι where
  slot := s.slot
  initialized := true
  failure :=
    match result with
    | .ok _ => s.failure
    | .error e => some e.message
  unfailed := fun h => absurd h (by decide)

/-- What a call sees that asks for the initialization. -/
def readiness (s : Startup ι) : Readiness ι :=
  if s.initialized then .done s.failure else .waiting s.slot

end Startup

/-- Takes in the observations of a run; `ι` describes initializers. -/
structure Collector (ι : Type) where
  store : Store
  mode : Mode
  canonical : Option Codec
  /-- Whether the store is being written. -/
  writing : Bool
  startup : Startup ι

namespace Collector

variable {ι : Type}

/-- A collector that starts with the store and has no initializer. -/
def new (store : Store) (mode : Mode) (canonical : Option Codec) : Collector ι :=
  ⟨store, mode, canonical, false, .new⟩

/-! ## The initializer -/

/-- Whether initialization is over, well or badly. -/
def isInitialized (c : Collector ι) : Bool := c.startup.initialized

def readiness (c : Collector ι) : Readiness ι := c.startup.readiness

def setInitializer (c : Collector ι) (initializer : ι) : Collector ι :=
  { c with startup := c.startup.set initializer }

/-- What every later call is told of an initialization. -/
def earlierResult : (failure : Option String) → Except CoverageError Unit
  | none => .ok ()
  | some message => .error (.initialization message)

/-- The initializer has been taken and has not come back. -/
def claimed (c : Collector ι) : Collector ι := { c with startup := c.startup.take }

/-- Notes how the initialization ended. -/
def settle (c : Collector ι) (result : Except CoverageError Unit) : Collector ι :=
  { c with startup := c.startup.finish result }

/-- Runs the initializer if that is due. The call that runs it is told its own result. -/
def ensureReady (run : ι → Collector ι → Except CoverageError Unit × Collector ι)
    (c : Collector ι) : Except CoverageError Unit × Collector ι :=
  match c.readiness with
  | .done failure => (earlierResult failure, c)
  | .waiting none => (.ok (), c.settle (.ok ()))
  | .waiting (some initializer) =>
    let (result, c) := run initializer c.claimed
    (result, c.settle result)

/-! ## The store -/

/-- The form in which an observation is kept. -/
def canonicalForm (c : Collector ι) (o : Observation) : Observation :=
  match c.canonical with
  | some codec => codec.canonical o
  | none => o

/-- Changes the store unless it is being written or read. -/
def change (c : Collector ι) (hold : Hold) (f : Store → Outcome × Store) : Outcome × Collector ι :=
  if c.writing then (.serializing, c)
  else if hold = .nobody then
    let (outcome, store) := f c.store
    (outcome, { c with store })
  else (.busy, c)

/-- Keeps the observation if it is new. -/
def insert (key : MemberKey) (o : Observation) (s : Store) : Outcome × Store :=
  (if s.holds key o then .duplicate else .recorded, s.add key o)

/-- Keeps the member alone. -/
def note (key : MemberKey) (s : Store) : Outcome × Store := (.declared, s.declare key)

/-- Declares a member; says whether it is new. -/
def declare (c : Collector ι) (hold : Hold) (key : MemberKey) : Bool × Collector ι :=
  if hold = .nobody then (!c.store.contains key, { c with store := c.store.declare key })
  else (false, c)

/-- Puts another store behind the own one, in canonical form. -/
def merge (c : Collector ι) (other : Store) : Collector ι :=
  let other := match c.canonical with
    | some codec => other.canonicalize codec
    | none => other
  { c with store := c.store.merge other }

/-- Puts another store in the place of the own one, which is given back. -/
def replace (c : Collector ι) (other : Store) : Store × Collector ι :=
  (c.store, { c with store := other })

/-- Forgets all that was declared and observed. -/
def reset (c : Collector ι) : Collector ι := (c.replace .empty).2

/-- Takes in one observation at the top of a thread whose guard is `g`. -/
def record (run : ι → Collector ι → Except CoverageError Unit × Collector ι) (g : Guard)
    (c : Collector ι) (key : MemberKey) (o : Observation) : Outcome × Collector ι :=
  let c := (c.ensureReady run).2
  match g.enter?, c.mode with
  | none, _ => (.reentrant, c)
  | some _, .template => c.change .nobody (note key)
  | some _, .coverage => c.change .nobody (insert key (c.canonicalForm o))

/-- How the collector is shown. -/
def shown (c : Collector ι) : String :=
  let mode := match c.mode with
    | .coverage => "Coverage"
    | .template => "Template"
  let canonical := match c.canonical with
    | some codec => "Some(" ++ Text.quoted codec.name ++ ")"
    | none => "None"
  "Collector \x7b mode: " ++ mode ++ ", serializing: " ++ toString c.writing ++ ", initialized: " ++
    toString c.isInitialized ++ ", canonical: " ++ canonical ++ ", .. \x7d"

end Collector

end ValueCoverage
