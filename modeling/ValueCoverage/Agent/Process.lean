import ValueCoverage.LogFilter.Basic
import ValueCoverage.Run.Basic
import ValueCoverage.Vm.Native
import ValueCoverage.Vm.Tool

/-!
# The process of an agent

The machine, the files, the run if one has been installed, and what the agent keeps. All threads of
the process share them; only the guard is the running thread's own.
-/

namespace ValueCoverage

/-- A field whose writes are observed. -/
structure WatchedField where
  key : MemberKey
  descriptor : String
deriving Repr, DecidableEq

/-- What an agent keeps. -/
structure AgentState where
  /-- The tool interface, once the agent has started. -/
  tool : Option Tool
  /-- Whether the class that takes arguments is there, so that classes can be instrumented. -/
  ready : Bool
  /-- The watched fields by identity. -/
  watched : OrderedMap Nat WatchedField

/-- An agent that has not started. -/
def AgentState.new : AgentState := ⟨none, false, .empty⟩

/-- The process. -/
structure AgentProcess where
  machine : Machine
  guard : Guard
  files : Files
  /-- The run that everything is recorded in. -/
  run : Option CoverageRun
  /-- The agent that the machine calls. -/
  agent : Option AgentState
  /-- Whether the methods that convert values have been looked up. -/
  methodsKnown : Bool
  /-- What is logged, once that is settled. -/
  log : Option LogFilter

/-- A process in which nothing has happened. -/
def AgentProcess.new (machine : Machine) (files : Files) : AgentProcess :=
  ⟨machine, .free, files, none, none, false, none⟩

/-- What a call does to the process. -/
abbrev ProcM := StateM AgentProcess

/-- What a call does to the process, and how it fails. -/
abbrev Attempt (α : Type) := ExceptT CoverageError ProcM α

namespace ProcM

variable {α : Type}

/-- A call into the machine. -/
def onMachine (x : VmM α) : ProcM α := do
  let p ← get
  let (a, machine) := x.run p.machine
  set { p with machine }
  return a

/-- A call into the machine that can fail. -/
def tryOnMachine (x : ExceptT CoverageError VmM α) : Attempt α :=
  ExceptT.mk (onMachine x.run)

/-- A change of the run, if there is one. -/
def onRun (f : Files → CoverageRun → α × CoverageRun) : ProcM (Option α) := do
  let p ← get
  match p.run with
  | none => return none
  | some r =>
    let (a, r) := f p.files r
    set { p with run := some r }
    return some a

/-- A change of what the agent keeps, if there is an agent. -/
def onAgent (f : AgentState → AgentState) : ProcM Unit :=
  modify fun p => { p with agent := p.agent.map f }

/-- Clears a pending exception; says whether there was one. -/
def takeException : ProcM Bool := onMachine Native.takeException

/-- Settles what is logged, unless that is settled. -/
def settleLog (filter : LogFilter) : ProcM Unit :=
  modify fun p => { p with log := p.log.getD filter }

/-- Whether an event is logged. -/
def logs (e : LogEvent) : ProcM Bool :=
  return (← get).log.any fun filter => filter.logs e

/-- Installs the run of the process. There is one at most. -/
def install (r : CoverageRun) : Attempt Unit := do
  let p ← get
  if p.run.isSome then throw .alreadyInstalled
  set { p with run := some r }

/-- Records what `capture` yields, unless the thread is collecting. `capture` runs under the
guard. -/
def record (key : MemberKey) (capture : ProcM Observation) : ProcM (Option Outcome) := do
  let _ ← onRun fun fs r => r.ensureReady fs
  let p ← get
  match p.run, p.guard.enter? with
  | none, _ => return none
  | some _, none => return some .reentrant
  | some r, some guard =>
    set { p with guard }
    let change ← match r.collector.mode with
      | .template => pure fun (c : Collector InputFile) => c.change .nobody (Collector.note key)
      | .coverage => do
        let o ← capture
        pure fun c => c.change .nobody (Collector.insert key (c.canonicalForm o))
    let outcome ← onRun fun _ r =>
      let (outcome, collector) := change r.collector
      (outcome, { r with collector })
    modify fun p => { p with guard := p.guard.exit }
    return outcome

end ProcM

end ValueCoverage
