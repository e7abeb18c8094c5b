import ValueCoverage.Collector.Thread
import ValueCoverage.Text.Utf8

/-!
# Scripts of calls on a collector

What a thread does with a collector, as data: calls, and for those that run code of others, the
calls that this code makes.

Initializers are scripts, too. While one runs, the lock of its slot is held, so that a call that
needs the slot never returns.
-/

namespace ValueCoverage.Script

/-- What takes bytes. -/
structure Device where
  /-- How many of `more` bytes it takes and why it takes no more, unless it takes them all.
  `reached` has gone before, the last byte first. -/
  refuses? : (reached more : Bytes) → Option (Nat × IoFault)
  /-- What goes wrong when the bytes that have reached it are brought to their end. -/
  flush? : (reached : Bytes) → Option IoFault

/-- A device with room for so many bytes. -/
def Device.withRoom (room : Option Nat) : Device where
  refuses? reached more :=
    match room with
    | none => none
    | some room =>
      if reached.length + more.length ≤ room then none
      else some (room - reached.length, .stated "disk full")
  flush? _ := none

/-- A call and the calls that are made during it. -/
inductive Call where
  /-- The values are at hand. -/
  | record (key : MemberKey) (values : Observation)
  /-- The values come from code that makes calls. -/
  | recordWith (key : MemberKey) (values : Observation) (during : List Call)
  | declare (key : MemberKey)
  /-- Declares a member for an instrumenter, which does not ask whether it is new. -/
  | announce (key : MemberKey)
  | merge (other : Store)
  | reset
  | replace (other : Store)
  | snapshot
  | mode
  | isInitialized
  | depth
  | shown
  /-- Reads the store while the calls are made. -/
  | withStore (during : List Call)
  | enter
  | exit
  /-- Holds the guard while the calls are made. -/
  | guarded (during : List Call)
  /-- Makes the calls on a new thread and waits for it. -/
  | onThread (during : List Call)
  | setInitializer (during : List Call) (failure : Option CoverageError)
  /-- Gives and forgets what the initializers answered. -/
  | initLog
  | ensureReady
  /-- Writes the store to a device; the codec makes the calls at each observation, of which it
  counts the earlier ones. -/
  | write (codec : Codec) (device : Device) (during : Option (Nat → List Call))
  | unwind
  /-- Makes the calls; if one of them unwinds, that is caught. -/
  | attempt (during : List Call)

/-- What a call answers. -/
inductive Answer where
  | nothing
  | ok
  | flag (b : Bool)
  | number (n : Nat)
  | text (s : String)
  | mode (m : Mode)
  | store (s : Store)
  | failed (error : CoverageError)
  | outcome (o : Outcome)
  /-- The answers of the calls that produced the values, if these were wanted. -/
  | captured (o : Outcome) (during : Option (List Answer))
  | read (members : Nat) (during : List Answer)
  /-- The answers under the guard, if it was free. -/
  | guarded (during : Option (List Answer))
  | list (answers : List Answer)
  | log (answers : List (List Answer))
  /-- What reached the device, what went wrong, and the answers at each observation. -/
  | written (reached : Bytes) (failure : Option CoverageError)
    (during : Option (List (List Answer)))
  | thrown

/-- What an initializer does. -/
structure Initializer where
  during : List Call
  failure : Option CoverageError

/-- What calls change. -/
structure World where
  collector : Collector Initializer
  /-- The guard of the running thread. -/
  guard : Guard
  /-- The answers of the initializers that came to their end. -/
  initLog : List (List Answer)

/-- Where the thread finds its guard and the collector. -/
def World.site : Site World Initializer where
  guard := ⟨World.guard, fun guard w => { w with guard },
    fun _ _ => rfl, fun _ => rfl, fun _ _ _ => rfl⟩
  collector := ⟨World.collector, fun collector w => { w with collector },
    fun _ _ => rfl, fun _ => rfl, fun _ _ _ => rfl⟩
  guard_collector _ _ := rfl
  collector_guard _ _ := rfl

/-- What a call does to the world, and its answer unless it breaks off. -/
abbrev Run (α : Type) := ThreadM World α

namespace Run

variable {α : Type}

/-- What `f` answers of the collector, and what it makes of it. -/
def onCollector (f : Collector Initializer → α × Collector Initializer) : Run α :=
  World.site.onCollector f

/-- Before the text of an observation is made, `atObservation` runs; it is told how many have been
before. -/
def beforeLine (atObservation : Nat → Run α) : CoverageFile.Line → List α → Run (List α)
  | .header _, done => return done
  | .observed _, done => (· :: done) <$> atObservation done.length

/-- Sends line after line; `reached` has gone to the device before, the last byte first. -/
def writeLines (codec : Codec) (device : Device) (atObservation : Nat → Run α) :
    List CoverageFile.Line → (reached : Bytes) → List α → Run (Bytes × Option IoFault × List α)
  | [], reached, done => return (reached, device.flush? reached, done.reverse)
  | line :: rest, reached, done => do
    let done ← beforeLine atObservation line done
    let more := Text.Utf8.encode (line.text codec)
    match device.refuses? reached more with
    | none => writeLines codec device atObservation rest (more.reverse ++ reached) done
    | some (taken, fault) =>
      return ((more.take taken).reverse ++ reached, some fault, done.reverse)

/-- Writes the store; while that goes on, the store counts as being written. -/
def write (hold : Hold) (codec : Codec) (device : Device) (atObservation : Nat → Run α) :
    Run (Bytes × Option CoverageError × List α) := do
  ThreadM.lock hold
  onCollector fun c => ((), { c with writing := true })
  let lines := CoverageFile.linesOf (← get).collector.store
  let (reached, fault, answers) ← (writeLines codec device atObservation lines [] []).andThen
    fun w => { w with collector := { w.collector with writing := false } }
  return (reached.reverse, fault.map .io, answers)

end Run

mutual

/-- What a call does on a thread that sees the store as `hold` says. -/
def Call.run (start : Option (Starter World Initializer)) (hold : Hold) : Call → Run Answer
  | .record key values => do
    return .outcome (← World.site.record start hold key values (pure ())).1
  | .recordWith key values during => do
    let (outcome, answers) ← World.site.record start hold key values (runAll start hold during)
    return .captured outcome answers
  | .declare key => do
    ThreadM.lock hold
    return .flag (← Run.onCollector (·.declare hold key))
  | .announce key => do
    ThreadM.lock hold
    let _ ← Run.onCollector (·.declare hold key)
    return .nothing
  | .merge other => do
    ThreadM.exclusive hold
    Run.onCollector fun c => (.nothing, c.merge other)
  | .reset => do
    ThreadM.exclusive hold
    Run.onCollector fun c => (.nothing, c.reset)
  | .replace other => do
    ThreadM.exclusive hold
    Run.onCollector fun c => (.store (c.replace other).1, (c.replace other).2)
  | .snapshot => do
    ThreadM.lock hold
    return .store (← get).collector.store
  | .mode => return .mode (← get).collector.mode
  | .isInitialized => return .flag (← get).collector.isInitialized
  | .depth => return .number (← get).guard.depth
  | .shown => return .text (← get).collector.shown
  | .withStore during => do
    ThreadM.lock hold
    let members := (← get).collector.store.memberCount
    return .read members (← runAll start .own during)
  | .enter => do
    let w ← get
    match w.guard.enter? with
    | none => return .flag false
    | some guard =>
      set { w with guard }
      return .flag true
  | .exit => do
    modify fun w => { w with guard := w.guard.exit }
    return .nothing
  | .guarded during => do
    return .guarded (← World.site.underGuard (runAll start hold during))
  | .onThread during => do
    let seen := if hold = .nobody then Hold.nobody else .other
    return .list (← World.site.onThread (runAll start seen during))
  | .setInitializer during failure => do
    if start.isNone then throw .stuck
    Run.onCollector fun c => (.nothing, c.setInitializer ⟨during, failure⟩)
  | .initLog => do
    let w ← get
    set { w with initLog := [] }
    return .log w.initLog
  | .ensureReady => do
    match ← World.site.ensureReady start hold with
    | .ok _ => return .ok
    | .error e => return .failed e
  | .write codec device none => do
    let (reached, failure, _) ← Run.write hold codec device fun _ => pure ()
    return .written reached failure none
  | .write codec device (some during) => do
    let (reached, failure, answers) ← Run.write hold codec device fun n =>
      runAll start .own (during n)
    return .written reached failure (some answers)
  | .unwind => throw .unwound
  | .attempt during => ExceptT.mk do
    match ← (runAll start hold during).run with
    | .ok answers => return .ok (.list answers)
    | .error .unwound => return .ok .thrown
    | .error e => return .error e

/-- What calls do one after the other. -/
def runAll (start : Option (Starter World Initializer)) (hold : Hold) :
    List Call → Run (List Answer)
  | [] => return []
  | call :: rest => do
    let answer ← call.run start hold
    return answer :: (← runAll start hold rest)

end

/-- Runs an initializer; the slot is locked meanwhile. -/
def Initializer.start : Starter World Initializer := fun hold i => do
  let answers ← runAll none hold i.during
  modify fun w => { w with initLog := w.initLog ++ [answers] }
  match i.failure with
  | none => return .ok ()
  | some e => return .error e

/-- What a new thread does with a collector, and the collector after it. -/
def run (collector : Collector Initializer) (calls : List Call) :
    Except Abrupt (List Answer) × Collector Initializer :=
  let (answers, w) := (runAll (some Initializer.start) .nobody calls).run.run ⟨collector, .free, []⟩
  (answers, w.collector)

end ValueCoverage.Script
