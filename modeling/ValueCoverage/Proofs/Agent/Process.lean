import ValueCoverage.Agent.Process
import ValueCoverage.Proofs.Collector
import ValueCoverage.Proofs.Vm.Machine

/-!
# What calls do to a process

Calls one after the other, calls into the machine, and records. A thread that is collecting holds
its guard; a record that it makes meanwhile is dropped. Calls that leave everything but the machine
alone on such a thread are quiet, and quiet calls in a row are quiet. What is captured for a record
is captured by quiet calls, so a record does to the run what it would do if its observation were
there before.
-/

namespace ValueCoverage

/-- The two processes differ at most in what the machine owes and is owed, and in whether the
methods that convert values are known. -/
def AgentProcess.Alike (p q : AgentProcess) : Prop :=
  ∃ machine methodsKnown, p.machine.Alike machine ∧ q = { p with machine, methodsKnown }

namespace AgentProcess.Alike

variable {p q s : AgentProcess}

theorem refl (p : AgentProcess) : p.Alike p := ⟨p.machine, p.methodsKnown, .refl _, rfl⟩

theorem trans (h : p.Alike q) (h' : q.Alike s) : p.Alike s := by
  obtain ⟨m, known, hm, rfl⟩ := h
  obtain ⟨m', known', hm', rfl⟩ := h'
  exact ⟨m', known', hm.trans hm', rfl⟩

theorem guard_eq (h : p.Alike q) : q.guard = p.guard := by
  obtain ⟨m, known, -, rfl⟩ := h
  rfl

theorem run_eq (h : p.Alike q) : q.run = p.run := by
  obtain ⟨m, known, -, rfl⟩ := h
  rfl

end AgentProcess.Alike

/-- The thread holds its guard, and the run has read its input file. -/
structure AgentProcess.Collecting (p : AgentProcess) : Prop where
  held : p.guard.enter? = none
  ready : ∀ r, p.run = some r → ∃ failure, r.collector.readiness = .done failure

theorem AgentProcess.Collecting.alike {p q : AgentProcess} (h : p.Collecting) (hq : p.Alike q) :
    q.Collecting :=
  ⟨by rw [hq.guard_eq]; exact h.held, by rw [hq.run_eq]; exact h.ready⟩

namespace CoverageRun

variable {r : CoverageRun} {failure : Option String} {fs : Files}

theorem ensureReady_of_done (h : r.collector.readiness = .done failure) :
    (r.ensureReady fs).2 = r := by
  simp only [ensureReady, Collector.ensureReady_of_done h]

theorem readiness_ensureReady (r : CoverageRun) (fs : Files) :
    ∃ failure, (r.ensureReady fs).2.collector.readiness = .done failure :=
  Collector.readiness_ensureReady (InputFile.mergeInto fs) r.collector

end CoverageRun

namespace ProcM

variable {α β : Type} {p : AgentProcess} {r : CoverageRun} {key : MemberKey}
  {capture : ProcM Observation}

/-! ## Calls in a row -/

theorem run_bind (x : ProcM α) (f : α → ProcM β) (p : AgentProcess) :
    (x >>= f).run p = (f (x.run p).1).run (x.run p).2 := rfl

theorem run_pure (a : α) (p : AgentProcess) : (pure a : ProcM α).run p = (a, p) := rfl

theorem run_get (p : AgentProcess) : (get : ProcM AgentProcess).run p = (p, p) := rfl

theorem run_set (q p : AgentProcess) : (set q : ProcM PUnit).run p = (⟨⟩, q) := rfl

theorem run_modify (f : AgentProcess → AgentProcess) (p : AgentProcess) :
    (modify f : ProcM PUnit).run p = (⟨⟩, f p) := rfl

theorem run_onMachine (x : VmM α) (p : AgentProcess) :
    (onMachine x).run p = ((x.run p.machine).1, { p with machine := (x.run p.machine).2 }) := rfl

theorem run_onRun (f : Files → CoverageRun → α × CoverageRun) (h : p.run = some r) :
    (onRun f).run p = (some (f p.files r).1, { p with run := some (f p.files r).2 }) := by
  simp only [onRun, run_bind, run_get, h, run_pure, run_set]

theorem run_tryOnMachine (x : ExceptT CoverageError VmM α) (p : AgentProcess) :
    (tryOnMachine x).run.run p =
      ((x.run.run p.machine).1, { p with machine := (x.run.run p.machine).2 }) := rfl

/-! ## Quiet calls -/

/-- While the thread is collecting, the call leaves everything but the machine alone. -/
def Quiet (x : ProcM α) : Prop := ∀ p : AgentProcess, p.Collecting → p.Alike (x.run p).2

theorem Quiet.pure (a : α) : Quiet (pure a) := by
  intro p _
  exact .refl p

theorem Quiet.bind {x : ProcM α} {f : α → ProcM β} (hx : Quiet x) (hf : ∀ a, Quiet (f a)) :
    Quiet (x >>= f) := by
  intro p hp
  have hfirst := hx p hp
  exact hfirst.trans (hf (x.run p).1 (x.run p).2 (hp.alike hfirst))

theorem Quiet.get : Quiet get := fun p _ => .refl p

theorem Quiet.onMachine {x : VmM α} (hx : Machine.Steady x) : Quiet (onMachine x) := by
  intro p _
  exact ⟨_, p.methodsKnown, hx p.machine, rfl⟩

theorem Quiet.takeException : Quiet takeException := .onMachine .takeException

theorem Quiet.ite {c : Prop} [Decidable c] {x y : ProcM α} (hx : Quiet x) (hy : Quiet y) :
    Quiet (if c then x else y) := by
  split
  · exact hx
  · exact hy

theorem Quiet.tryOnMachine {x : ExceptT CoverageError VmM α} (hx : Machine.SteadyCall x) :
    Quiet (tryOnMachine x).run :=
  .onMachine hx

theorem Quiet.lift {x : ProcM α} (hx : Quiet x) : Quiet (liftM x : Attempt α).run :=
  .bind hx fun a => .pure (Except.ok a)

theorem Quiet.bindAttempt {x : Attempt α} {f : α → Attempt β} (hx : Quiet x.run)
    (hf : ∀ a, Quiet (f a).run) : Quiet (x >>= f).run := by
  show Quiet (x.run >>= ExceptT.bindCont f)
  refine .bind hx ?_
  intro result
  cases result with
  | ok a => exact hf a
  | error e => exact .pure _

/-! ## Records -/

theorem run_record_of_none (h : p.run = none) : (record key capture).run p = (none, p) := by
  simp only [record, run_bind, onRun, run_get, h, run_pure]

/-- A record made while the thread is collecting is dropped, and nothing is captured for it. -/
theorem run_record_of_held (h : p.run = some r) (hg : p.guard.enter? = none) :
    (record key capture).run p =
      (some .reentrant, { p with run := some (r.ensureReady p.files).2 }) := by
  simp only [record, run_bind, run_onRun _ h, run_get, hg, run_pure]

theorem Quiet.record (key : MemberKey) (capture : ProcM Observation) :
    Quiet (record key capture) := by
  intro p hp
  cases hrun : p.run with
  | none =>
    rw [run_record_of_none hrun]
    exact .refl p
  | some r =>
    obtain ⟨failure, hdone⟩ := hp.ready r hrun
    rw [run_record_of_held hrun hp.held, CoverageRun.ensureReady_of_done hdone, ← hrun]
    exact .refl p

end ProcM

/-- The process while it captures the values for a record. -/
def AgentProcess.capturing (p : AgentProcess) (r : CoverageRun) : AgentProcess :=
  { p with run := some (r.ensureReady p.files).2, guard := ⟨1⟩ }

theorem AgentProcess.capturing_collecting (p : AgentProcess) (r : CoverageRun) :
    (p.capturing r).Collecting where
  held := rfl
  ready r' hr' := by
    rw [← Option.some.inj hr']
    exact r.readiness_ensureReady p.files

namespace ProcM

variable {p : AgentProcess} {r : CoverageRun} {key : MemberKey} {capture : ProcM Observation}

/-- A record does to the run what a record of the captured observation does. -/
theorem run_record (hrun : p.run = some r) (hg : p.guard = .free) (hcapture : Quiet capture) :
    { p with run := some (r.record p.files key (capture.run (p.capturing r)).1).2 }.Alike
      ((record key capture).run p).2 := by
  obtain ⟨m, known, hm, hcaptured⟩ := hcapture (p.capturing r) (p.capturing_collecting r)
  obtain ⟨failure, hdone⟩ := r.readiness_ensureReady p.files
  have henter : p.guard.enter? = some ⟨1⟩ := by
    rw [hg]
    rfl
  -- values are captured once the input file has been read, so let the record begin there, too
  rw [← CoverageRun.record_ensureReady]
  simp only [CoverageRun.record, Collector.record, Collector.ensureReady_of_done hdone]
  simp only [record, run_bind, run_onRun _ hrun, run_get, henter, run_set]
  cases hmode : (r.ensureReady p.files).2.collector.mode with
  | template =>
    simp only [run_bind, run_pure, run_modify]
    rw [run_onRun _ rfl]
    refine ⟨p.machine, p.methodsKnown, .refl _, ?_⟩
    rw [hg]
    rfl
  | coverage =>
    simp only [run_bind, run_pure, run_modify]
    rw [AgentProcess.capturing] at hcaptured
    rw [hcaptured, run_onRun _ rfl]
    refine ⟨m, known, hm, ?_⟩
    rw [hg]
    rfl

end ProcM

end ValueCoverage
