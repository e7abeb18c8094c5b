import ValueCoverage.Collector.Thread
import ValueCoverage.Proofs.Collector
import ValueCoverage.Proofs.Steps

/-!
# What a record does on its thread

While a thread holds its guard, a record on an initialized collector changes nothing and its values
are not captured. If the guard is free, the values are captured under it, and the collector is then
changed as it is left by the capture; afterwards the guard is given back.
-/

namespace ValueCoverage

namespace Collector

variable {ι : Type}

/-- A collector whose initialization is over and whose store is not being written. -/
structure AtRest (c : Collector ι) : Prop where
  initialized : c.isInitialized = true
  idle : c.writing = false

/-- A store that is not being written is changed; nothing else is. -/
theorem change_of_idle {c : Collector ι} (h : c.writing = false) (s : Store)
    (f : Store → Outcome × Store) :
    ({ c with store := s } : Collector ι).change .nobody f =
      ((f s).1, { c with store := (f s).2 }) := by
  rw [change, h]
  rfl

/-- A change of the store is none of the initialization. -/
theorem isInitialized_change (c : Collector ι) (hold : Hold) (f : Store → Outcome × Store) :
    (c.change hold f).2.isInitialized = c.isInitialized := by
  unfold change
  by_cases hwriting : c.writing = true
  · rw [if_pos hwriting]
  · rw [if_neg hwriting]
    by_cases hhold : hold = .nobody
    · rw [if_pos hhold]
      rfl
    · rw [if_neg hhold]

theorem isInitialized_declare (c : Collector ι) (hold : Hold) (key : MemberKey) :
    (c.declare hold key).2.isInitialized = c.isInitialized := by
  unfold declare
  by_cases hhold : hold = .nobody
  · rw [if_pos hhold]
    rfl
  · rw [if_neg hhold]

/-- Only the guard turns a record away as made while the thread is collecting. -/
theorem change_ne_reentrant {c : Collector ι} {hold : Hold} {f : Store → Outcome × Store}
    (hf : (f c.store).1 ≠ .reentrant) : (c.change hold f).1 ≠ .reentrant := by
  unfold change
  by_cases hwriting : c.writing = true
  · simp [hwriting]
  · by_cases hhold : hold = .nobody
    · simpa [hwriting, hhold] using hf
    · simp [hwriting, hhold]

theorem insert_ne_reentrant (key : MemberKey) (o : Observation) (s : Store) :
    (insert key o s).1 ≠ .reentrant := by
  unfold insert
  by_cases h : s.holds key o = true <;> simp [h]

end Collector

theorem Hold.nobody_ne_other : Hold.nobody ≠ .other := by decide

theorem Hold.own_ne_other : Hold.own ≠ .other := by decide

namespace Guard

theorem enter?_free : free.enter? = some ⟨1⟩ := rfl

theorem enter?_eq_none_iff {g : Guard} : g.enter? = none ↔ 0 < g.depth := by
  unfold enter?
  by_cases h : g.depth = 0
  · simp [h]
  · simp [h, Nat.pos_of_ne_zero h]

end Guard

namespace ThreadM

variable {σ α β : Type}

theorem run_pure (a : α) (s : σ) : (pure a : ThreadM σ α).run.run s = (.ok a, s) := rfl

theorem run_get (s : σ) : (get : ThreadM σ σ).run.run s = (.ok s, s) := rfl

theorem run_set (s s' : σ) : (set s' : ThreadM σ PUnit).run.run s = (.ok ⟨⟩, s') := rfl

theorem run_bind_of_ok {x : ThreadM σ α} {f : α → ThreadM σ β} {s s' : σ} {a : α}
    (h : x.run.run s = (.ok a, s')) : (x >>= f).run.run s = (f a).run.run s' := by
  rw [run_bind_fallible, h]

theorem run_map_of_ok {x : ThreadM σ α} (f : α → β) {s s' : σ} {a : α}
    (h : x.run.run s = (.ok a, s')) : (f <$> x).run.run s = (.ok (f a), s') := by
  rw [map_eq_pure_bind, run_bind_of_ok h, run_pure]

/-- No lock is waited for unless another thread holds the store. -/
theorem run_lock {hold : Hold} (h : hold ≠ .other) (s : σ) :
    (lock hold : ThreadM σ Unit).run.run s = (.ok (), s) := by
  cases hold with
  | nobody => rfl
  | own => rfl
  | other => exact absurd rfl h

theorem run_andThen (x : ThreadM σ α) (f : σ → σ) (s : σ) :
    (x.andThen f).run.run s = ((x.run.run s).1, f (x.run.run s).2) := rfl

end ThreadM

open ThreadM

namespace Site

variable {σ ι α : Type} {site : Site σ ι} {start : Option (Starter σ ι)} {hold : Hold}
  {key : MemberKey} {values : Observation} {capture : ThreadM σ α} {s s' : σ} {a : α}

theorem run_onCollector (f : Collector ι → α × Collector ι) (s : σ) :
    (site.onCollector f).run.run s =
      (.ok (f (site.collector.get s)).1, site.collector.put (f (site.collector.get s)).2 s) := rfl

theorem run_ensureReady_of_initialized (start : Option (Starter σ ι)) (hold : Hold)
    (h : (site.collector.get s).isInitialized = true) :
    ∃ result, (site.ensureReady start hold).run.run s = (.ok result, s) := by
  obtain ⟨failure, hdone⟩ := Collector.isInitialized_iff.1 h
  refine ⟨Collector.earlierResult failure, ?_⟩
  rw [ensureReady, run_bind_of_ok (run_get s), hdone]
  rfl

theorem run_underGuard_of_held (x : ThreadM σ α) (h : (site.guard.get s).enter? = none) :
    (site.underGuard x).run.run s = (.ok none, s) := by
  rw [underGuard, run_bind_of_ok (run_get s), h]
  rfl

theorem run_underGuard_of_free {x : ThreadM σ α} (h : site.guard.get s = .free)
    (hx : x.run.run (site.guard.put ⟨1⟩ s) = (.ok a, s')) :
    (site.underGuard x).run.run s =
      (.ok (some a), site.guard.put (site.guard.get s').exit s') := by
  rw [underGuard, run_bind_of_ok (run_get s), h, Guard.enter?_free, run_bind_of_ok (run_set s _)]
  refine run_map_of_ok some ?_
  rw [run_andThen, hx]

theorem run_observe_coverage (hhold : hold ≠ .other)
    (hmode : (site.collector.get s).mode = .coverage) (hcapture : capture.run.run s = (.ok a, s')) :
    (site.observe hold key values capture).run.run s =
      let c := site.collector.get s'
      let changed := c.change hold (Collector.insert key (c.canonicalForm values))
      (.ok (changed.1, some a), site.collector.put changed.2 s') := by
  rw [observe, run_bind_of_ok (run_get s), hmode]
  simp only
  rw [run_bind_of_ok hcapture, run_bind_of_ok (run_lock hhold s')]
  rfl

theorem run_observe_template (hhold : hold ≠ .other)
    (hmode : (site.collector.get s).mode = .template) :
    (site.observe hold key values capture).run.run s =
      let changed := (site.collector.get s).change hold (Collector.note key)
      (.ok (changed.1, none), site.collector.put changed.2 s) := by
  rw [observe, run_bind_of_ok (run_get s), hmode]
  simp only
  rw [run_bind_of_ok (run_lock hhold s)]
  rfl

/-- While the guard is held, a record changes nothing and does not capture its values. -/
theorem run_record_of_held (hold : Hold) (hinit : (site.collector.get s).isInitialized = true)
    (hheld : (site.guard.get s).enter? = none) :
    (site.record start hold key values capture).run.run s = (.ok (.reentrant, none), s) := by
  obtain ⟨result, hready⟩ := run_ensureReady_of_initialized start hold hinit
  rw [record, run_bind_of_ok hready, run_bind_of_ok (run_underGuard_of_held _ hheld)]
  rfl

/-- If the guard is free, a record takes it for as long as it observes. -/
theorem run_record_of_free {observed : Outcome × Option α}
    (hinit : (site.collector.get s).isInitialized = true) (hfree : site.guard.get s = .free)
    (hobserve : (site.observe hold key values capture).run.run (site.guard.put ⟨1⟩ s) =
      (.ok observed, s')) :
    (site.record start hold key values capture).run.run s =
      (.ok observed, site.guard.put (site.guard.get s').exit s') := by
  obtain ⟨result, hready⟩ := run_ensureReady_of_initialized start hold hinit
  rw [record, run_bind_of_ok hready, run_bind_of_ok (run_underGuard_of_free hfree hobserve)]
  rfl

/-- Where values are not kept, a record declares its member and captures nothing. -/
theorem run_record_template (hhold : hold ≠ .other)
    (hinit : (site.collector.get s).isInitialized = true) (hfree : site.guard.get s = .free)
    (hmode : (site.collector.get s).mode = .template) :
    (site.record start hold key values capture).run.run s =
      let changed := (site.collector.get s).change hold (Collector.note key)
      (.ok (changed.1, none),
        site.guard.put .free (site.collector.put changed.2 (site.guard.put ⟨1⟩ s))) := by
  have hobserve : (site.observe hold key values capture).run.run (site.guard.put ⟨1⟩ s) = _ :=
    run_observe_template hhold (by rw [site.collector_guard, hmode])
  rw [run_record_of_free hinit hfree hobserve, site.guard_collector, site.guard.get_put,
    site.collector_guard]
  rfl

/-- A record captures its values under the guard, adds them to what the capture has left, and gives
the guard back. -/
theorem run_record_coverage (hhold : hold ≠ .other)
    (hinit : (site.collector.get s).isInitialized = true) (hfree : site.guard.get s = .free)
    (hmode : (site.collector.get s).mode = .coverage)
    (hcapture : capture.run.run (site.guard.put ⟨1⟩ s) = (.ok a, s')) :
    (site.record start hold key values capture).run.run s =
      let c := site.collector.get s'
      let changed := c.change hold (Collector.insert key (c.canonicalForm values))
      (.ok (changed.1, some a),
        site.guard.put (site.guard.get s').exit (site.collector.put changed.2 s')) := by
  have hobserve : (site.observe hold key values capture).run.run (site.guard.put ⟨1⟩ s) = _ :=
    run_observe_coverage hhold (by rw [site.collector_guard, hmode]) hcapture
  rw [run_record_of_free hinit hfree hobserve, site.guard_collector]

end Site

end ValueCoverage
