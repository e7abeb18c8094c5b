import ValueCoverage.Collector.Basic

/-!
# Records on a thread

A thread has one guard and may reach several collectors. What it sees is a state in which the guard
and each of the collectors have their place. A record changes the state at the guard's place and at
the place of its collector; what else it changes is what the code does that yields its values.

Calls may unwind, and what they hold is then given back. They may also wait for a lock that is never
free, because their own thread, or one that waits for it, holds the lock.
-/

namespace ValueCoverage

/-- Why a call gives no answer. -/
inductive Abrupt where
  /-- It unwinds until it is caught. -/
  | unwound
  /-- It would change a store that its own thread reads. It unwinds and is not caught. -/
  | conflict
  /-- It waits for a lock for ever. -/
  | stuck
deriving Repr, DecidableEq

/-- What a call does to what its thread sees, and its answer unless it breaks off. -/
abbrev ThreadM (σ α : Type) := ExceptT Abrupt (StateM σ) α

/-- A part of a state: what it is, and the state with something else in its place. -/
structure StatePart (σ α : Type) where
  get : σ → α
  put : α → σ → σ
  get_put : ∀ a s, get (put a s) = a
  put_get : ∀ s, put (get s) s = s
  put_put : ∀ a b s, put a (put b s) = put a s

/-- Where a thread finds its guard and a collector. -/
structure Site (σ ι : Type) where
  guard : StatePart σ Guard
  collector : StatePart σ (Collector ι)
  guard_collector : ∀ c s, guard.get (collector.put c s) = guard.get s
  collector_guard : ∀ g s, collector.get (guard.put g s) = collector.get s

/-- How an initializer is run by a thread that sees the store like this. -/
abbrev Starter (σ ι : Type) := Hold → ι → ThreadM σ (Except CoverageError Unit)

namespace ThreadM

variable {σ α : Type}

/-- Runs `f` afterwards, come what may. -/
def andThen (x : ThreadM σ α) (f : σ → σ) : ThreadM σ α :=
  ExceptT.mk do
    let r ← x.run
    modify f
    return r

/-- Waits for ever if a thread that waits for this one holds the store. -/
def lock : Hold → ThreadM σ Unit
  | .other => throw .stuck
  | _ => return ()

/-- What changes the store must find it unread. -/
def exclusive : Hold → ThreadM σ Unit
  | .nobody => return ()
  | .own => throw .conflict
  | .other => throw .stuck

end ThreadM

namespace Site

variable {σ ι α : Type} (site : Site σ ι)

/-- What `f` answers of the collector, and what it makes of it. -/
def onCollector (f : Collector ι → α × Collector ι) : ThreadM σ α := do
  let s ← get
  let (a, collector) := f (site.collector.get s)
  set (site.collector.put collector s)
  return a

/-- Holds the guard during `x`, if it is free. -/
def underGuard (x : ThreadM σ α) : ThreadM σ (Option α) := do
  let s ← get
  match (site.guard.get s).enter? with
  | none => return none
  | some guard =>
    set (site.guard.put guard s)
    some <$> x.andThen fun s => site.guard.put (site.guard.get s).exit s

/-- Runs `x` on a new thread. -/
def onThread (x : ThreadM σ α) : ThreadM σ α := do
  let s ← get
  set (site.guard.put Guard.free s)
  x.andThen fun s' => site.guard.put (site.guard.get s) s'

/-- Runs the initializer if that is due; without a starter the slot is locked. -/
def ensureReady (start : Option (Starter σ ι)) (hold : Hold) :
    ThreadM σ (Except CoverageError Unit) := do
  match (site.collector.get (← get)).readiness, start with
  | .done failure, _ => return Collector.earlierResult failure
  | .waiting _, none => throw .stuck
  | .waiting initializer, some start =>
    site.onCollector fun c => ((), c.claimed)
    let result ← match initializer with
      | none => pure (.ok ())
      | some initializer => start hold initializer
    site.onCollector fun c => (result, c.settle result)

/-- Takes in what `capture` yields, which runs outside the store; where values are not kept, it does
not run. -/
def observe (hold : Hold) (key : MemberKey) (values : Observation) (capture : ThreadM σ α) :
    ThreadM σ (Outcome × Option α) := do
  match (site.collector.get (← get)).mode with
  | .template =>
    ThreadM.lock hold
    return (← site.onCollector (·.change hold (Collector.note key)), none)
  | .coverage =>
    let a ← capture
    ThreadM.lock hold
    return (← site.onCollector fun c =>
      c.change hold (Collector.insert key (c.canonicalForm values)), some a)

/-- Records what `capture` yields, under the guard, unless the thread holds it. -/
def record (start : Option (Starter σ ι)) (hold : Hold) (key : MemberKey) (values : Observation)
    (capture : ThreadM σ α) : ThreadM σ (Outcome × Option α) := do
  let _ ← site.ensureReady start hold
  return (← site.underGuard (site.observe hold key values capture)).getD (.reentrant, none)

end Site

end ValueCoverage
