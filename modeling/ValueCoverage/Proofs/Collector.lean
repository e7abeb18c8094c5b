import ValueCoverage.Proofs.Store.Update
import ValueCoverage.Run.Basic

/-!
# What a record does

A record makes its collector ready and then adds one observation to one member, in the form that is
kept. If the observation is there already, the collector stays as it is.

How far the initialization is, a call sees from three cells. What is done to the cells is one move
of what is seen, and the proofs about initializers follow these moves.
-/

namespace ValueCoverage

/-! ## How far the initialization is -/

namespace Readiness

variable {ι : Type}

/-- The initializer has been taken. -/
def taken : Readiness ι → Readiness ι
  | .waiting _ => .waiting none
  | .done failure => .done failure

/-- What has gone wrong once an initialization has ended so; an earlier failure is not forgotten. -/
def failureAfter (earlier : Option String) : Except CoverageError Unit → Option String
  | .ok _ => earlier
  | .error e => some e.message

/-- The initialization is over and has ended so. -/
def finished (result : Except CoverageError Unit) : Readiness ι → Readiness ι
  | .waiting _ => .done (failureAfter none result)
  | .done failure => .done (failureAfter failure result)

end Readiness

namespace Startup

variable {ι : Type} {s : Startup ι} {pending : Option ι} {failure : Option String}

theorem readiness_eq_waiting_iff :
    s.readiness = .waiting pending ↔ s.initialized = false ∧ s.slot = pending := by
  unfold readiness
  cases hinit : s.initialized <;> simp

theorem readiness_eq_done_iff :
    s.readiness = .done failure ↔ s.initialized = true ∧ s.failure = failure := by
  unfold readiness
  cases hinit : s.initialized <;> simp

@[simp] theorem readiness_new : (new : Startup ι).readiness = .waiting none := rfl

@[simp] theorem readiness_set (s : Startup ι) (initializer : ι) :
    (s.set initializer).readiness = .waiting (some initializer) := rfl

@[simp] theorem readiness_take (s : Startup ι) : s.take.readiness = s.readiness.taken := by
  cases hready : s.readiness with
  | waiting pending =>
    obtain ⟨hinit, -⟩ := readiness_eq_waiting_iff.1 hready
    exact readiness_eq_waiting_iff.2 ⟨hinit, rfl⟩
  | done failure =>
    obtain ⟨hinit, hfailure⟩ := readiness_eq_done_iff.1 hready
    exact readiness_eq_done_iff.2 ⟨hinit, hfailure⟩

/-- What a collector keeps of an initialization that is so far. -/
def ofReadiness : Readiness ι → Startup ι
  | .waiting pending => { (new : Startup ι) with slot := pending }
  | .done failure => ⟨none, true, failure, fun h => absurd h (by decide)⟩

@[simp] theorem readiness_ofReadiness (readiness : Readiness ι) :
    (ofReadiness readiness).readiness = readiness := by
  cases readiness <;> rfl

/-- A failure of an earlier initialization is not among what is noted, since it was forgotten when
the initializer was set. -/
@[simp] theorem readiness_finish (s : Startup ι) (result : Except CoverageError Unit) :
    (s.finish result).readiness = s.readiness.finished result := by
  refine (readiness_eq_done_iff.2 ⟨rfl, rfl⟩).trans ?_
  cases hready : s.readiness with
  | waiting pending =>
    have hnone := s.unfailed (readiness_eq_waiting_iff.1 hready).1
    cases result with
    | ok _ => exact congrArg Readiness.done hnone
    | error e => rfl
  | done failure =>
    obtain ⟨-, rfl⟩ := readiness_eq_done_iff.1 hready
    cases result <;> rfl

end Startup

namespace Collector

variable {ι : Type} {run : ι → Collector ι → Except CoverageError Unit × Collector ι}
  {c : Collector ι} {mode : Mode} {codec : Codec} {key : MemberKey} {o : Observation}

/-- A collector in the mode that keeps observations as the codec reads them back. -/
structure Accepts (mode : Mode) (codec : Codec) (c : Collector ι) : Prop where
  mode_eq : c.mode = mode
  canonical_eq : c.canonical = some codec
  idle : c.writing = false

theorem isInitialized_iff : c.isInitialized = true ↔ ∃ failure, c.readiness = .done failure := by
  constructor
  · exact fun h => ⟨_, Startup.readiness_eq_done_iff.2 ⟨h, rfl⟩⟩
  · rintro ⟨failure, h⟩
    exact (Startup.readiness_eq_done_iff.1 h).1

theorem ensureReady_of_done {failure : Option String} (h : c.readiness = .done failure) :
    c.ensureReady run = (earlierResult failure, c) := by
  simp only [ensureReady, h]

theorem ensureReady_of_none (h : c.readiness = .waiting none) :
    c.ensureReady run = (.ok (), c.settle (.ok ())) := by
  simp only [ensureReady, h]

theorem ensureReady_of_some {initializer : ι} (h : c.readiness = .waiting (some initializer)) :
    c.ensureReady run = ((run initializer c.claimed).1,
      (run initializer c.claimed).2.settle (run initializer c.claimed).1) := by
  simp only [ensureReady, h]

theorem readiness_claimed {pending : Option ι} (h : c.readiness = .waiting pending) :
    c.claimed.readiness = .waiting none := by
  refine c.startup.readiness_take.trans ?_
  rw [show c.startup.readiness = _ from h]
  rfl

theorem readiness_settle {pending : Option ι} (h : c.readiness = .waiting pending)
    (result : Except CoverageError Unit) :
    (c.settle result).readiness = .done (Readiness.failureAfter none result) := by
  refine (c.startup.readiness_finish result).trans ?_
  rw [show c.startup.readiness = _ from h]
  rfl

variable (run)

theorem readiness_ensureReady (c : Collector ι) :
    ∃ failure, (c.ensureReady run).2.readiness = .done failure := by
  unfold ensureReady
  cases h : c.readiness with
  | waiting initializer => cases initializer <;> exact ⟨_, rfl⟩
  | done failure => exact ⟨failure, h⟩

/-- A record begins by making the collector ready. -/
theorem record_ensureReady (g : Guard) :
    (c.ensureReady run).2.record run g key o = c.record run g key o := by
  obtain ⟨failure, h⟩ := readiness_ensureReady run c
  unfold record
  rw [ensureReady_of_done h]

theorem record_of_done {failure : Option String} (h : c.readiness = .done failure)
    (hc : c.Accepts .coverage codec) :
    c.record run .free key o =
      (if c.store.holds key (codec.canonical o) then .duplicate else .recorded,
        { c with store := c.store.add key (codec.canonical o) }) := by
  have hform : c.canonicalForm o = codec.canonical o := by
    rw [canonicalForm, hc.canonical_eq]
  unfold record
  rw [ensureReady_of_done h]
  simp only [hc.mode_eq, hform, change, hc.idle]
  rfl

/-- What a record is told that repeats an earlier one. -/
def repeated : Mode → Outcome
  | .coverage => .duplicate
  | .template => .declared

/-- A record that repeats an earlier one changes nothing. -/
theorem record_repeated {failure : Option String} (h : c.readiness = .done failure)
    (hc : c.Accepts mode codec) (hkey : c.store.contains key = true)
    (ho : c.store.holds key (codec.canonical o) = true) :
    c.record run .free key o = (repeated mode, c) := by
  cases mode with
  | coverage =>
    have hadd : c.store.add key (codec.canonical o) = c.store := by
      rw [Store.add_eq_addAll, Store.addAll_eq_self hkey (by simpa using ho)]
    rw [record_of_done run h hc, if_pos ho, hadd]
    rfl
  | template =>
    have hdeclare : c.store.declare key = c.store := by
      rw [Store.declare_eq_addAll, Store.addAll_eq_self hkey (by simp)]
    have hmode := hc.mode_eq
    have hidle := hc.idle
    unfold record
    rw [ensureReady_of_done h]
    simp only [hmode, change, hidle, note, hdeclare]
    cases c
    cases hmode
    cases hidle
    rfl

end Collector

namespace CoverageRun

variable {r : CoverageRun} {fs : Files}

/-- A record begins by reading the input file if that is due. -/
theorem record_ensureReady (key : MemberKey) (o : Observation) :
    (r.ensureReady fs).2.record fs key o = r.record fs key o := by
  unfold record ensureReady
  rw [Collector.record_ensureReady]

/-- Reading the input file takes nothing away. -/
theorem contains_ensureReady (fs : Files) {k : MemberKey}
    (h : r.collector.store.contains k = true) :
    (r.ensureReady fs).2.collector.store.contains k = true := by
  unfold ensureReady Collector.ensureReady
  cases r.collector.readiness with
  | done failure => exact h
  | waiting initializer =>
    cases initializer with
    | none => exact h
    | some input =>
      simp only [InputFile.mergeInto]
      split
      · exact Store.contains_merge.2 (.inl h)
      · exact h
      · exact h

/-- A record adds at most to its own member. -/
theorem store_record (r : CoverageRun) (fs : Files) (key : MemberKey) (o : Observation) :
    (r.record fs key o).2.collector.store = (r.ensureReady fs).2.collector.store ∨
      ∃ os, (r.record fs key o).2.collector.store =
        (r.ensureReady fs).2.collector.store.addAll key os := by
  have hready : (r.ensureReady fs).2.collector =
      (r.collector.ensureReady (InputFile.mergeInto fs)).2 := rfl
  rw [hready]
  unfold record Collector.record Collector.change
  generalize (r.collector.ensureReady (InputFile.mergeInto fs)).2 = ready
  obtain ⟨store, mode, canonical, writing, startup⟩ := ready
  cases writing with
  | true =>
    refine .inl ?_
    cases mode <;> rfl
  | false =>
    refine .inr ?_
    cases mode with
    | template => exact ⟨[], rfl⟩
    | coverage =>
      let ready : Collector InputFile := ⟨store, .coverage, canonical, false, startup⟩
      exact ⟨[ready.canonicalForm o], rfl⟩

theorem lookup_record_of_ne (fs : Files) {key k : MemberKey} (o : Observation) (h : k ≠ key) :
    (r.record fs key o).2.collector.store.lookup k =
      (r.ensureReady fs).2.collector.store.lookup k := by
  rcases r.store_record fs key o with hstore | ⟨os, hstore⟩
  · rw [hstore]
  · rw [hstore, Store.addAll, Store.lookup_update, if_neg h]

/-- A record takes nothing away. -/
theorem contains_record (fs : Files) (key : MemberKey) (o : Observation) {k : MemberKey}
    (h : r.collector.store.contains k = true) :
    (r.record fs key o).2.collector.store.contains k = true := by
  have hready := contains_ensureReady fs h
  rcases r.store_record fs key o with hstore | ⟨os, hstore⟩
  · rwa [hstore]
  · rw [hstore]
    exact Store.contains_addAll.2 (.inl hready)

end CoverageRun

end ValueCoverage
