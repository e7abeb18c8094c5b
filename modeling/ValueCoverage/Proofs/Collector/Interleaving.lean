import Mathlib.Data.List.Perm.Basic
import ValueCoverage.Proofs.Collector.InTurn
import ValueCoverage.Proofs.Collector.Thread

/-!
# Whatever the order of the threads

Threads record on one initialized collector that keeps values, in any interleaving. What they are
told, and what they leave, is what records in turn would be told and leave, in the order in which
they came to the store. So the store that they leave depends on the order only in how it is
arranged, and an observation that was not there at first is reported as new by one record of all.
-/

namespace ValueCoverage

/-! ## One entry of a list -/

section Set

variable {α β : Type} {f : α → List β} {w : α → Nat} {xs : List α} {i : Nat} {a b : α}

theorem map_set_of_eq {g : α → β} (h : xs[i]? = some a) (hg : g b = g a) :
    (xs.set i b).map g = xs.map g := by
  induction xs generalizing i with
  | nil => cases h
  | cons x xs ih =>
    cases i with
    | zero =>
      cases h
      rw [List.set_cons_zero, List.map_cons, List.map_cons, hg]
    | succ i => rw [List.set_cons_succ, List.map_cons, List.map_cons, ih h]

theorem flatMap_set_of_append {r : β} (h : xs[i]? = some a) (hf : f b = f a ++ [r]) :
    ((xs.set i b).flatMap f).Perm (xs.flatMap f ++ [r]) := by
  induction xs generalizing i with
  | nil => cases h
  | cons x xs ih =>
    cases i with
    | zero =>
      cases h
      rw [List.set_cons_zero, List.flatMap_cons, List.flatMap_cons, hf, List.append_assoc,
        List.append_assoc]
      exact List.perm_append_comm.append_left _
    | succ i =>
      rw [List.set_cons_succ, List.flatMap_cons, List.flatMap_cons, List.append_assoc]
      exact (ih h).append_left (f x)

theorem foldr_set (h : xs[i]? = some a) :
    (xs.set i b).foldr (fun x n => w x + n) 0 + w a = xs.foldr (fun x n => w x + n) 0 + w b := by
  induction xs generalizing i with
  | nil => cases h
  | cons x xs ih =>
    cases i with
    | zero =>
      cases h
      rw [List.set_cons_zero, List.foldr_cons, List.foldr_cons]
      omega
    | succ i =>
      have hrest := ih h
      rw [List.set_cons_succ, List.foldr_cons, List.foldr_cons]
      omega

end Set

/-! ## One thread -/

variable {ι : Type} {c : Collector ι}

namespace Stage

/-- The record that is being made. -/
def calls : Stage → List RecordCall
  | between => []
  | entered call | captured call _ => [call]
  | answered report => [report.call]

/-- What the thread knows already of the record that is being made. -/
def told : Stage → List Report
  | answered report => [report]
  | between | entered _ | captured .. => []

/-- How many steps are left of the record. -/
def left : Stage → Nat
  | between => 0
  | entered _ => 3
  | captured .. => 2
  | answered _ => 1

end Stage

namespace Recorder

/-- All records of a thread: those that were made, the one that is being made, and the others. -/
def calls (t : Recorder) : List RecordCall := t.reports.map Report.call ++ t.stage.calls ++ t.todo

/-- What the store has told the thread. -/
def told (t : Recorder) : List Report := t.reports ++ t.stage.told

/-- How many steps are left. -/
def work (t : Recorder) : Nat := t.stage.left + 4 * t.todo.length

/-- A thread that holds its guard during a record, and whose captured observation is in the form in
which the collector keeps it. -/
structure Sound (form : Observation → Observation) (t : Recorder) : Prop where
  guard_eq : t.guard = if t.stage = .between then .free else ⟨1⟩
  form_eq : ∀ call o, t.stage = .captured call o → o = form call.values

/-- What a step of a thread can do: it comes to the store with an observation, and is told what
became of it, or it leaves the store alone. -/
structure StepSpec (c : Collector ι) (t t' : Recorder) (c' : Collector ι) : Prop where
  sound : t'.Sound c.canonicalForm
  calls_eq : t'.calls = t.calls
  work_eq : t'.work + 1 = t.work
  store : c' = c ∧ t'.told = t.told ∨
    ∃ call, c' = { c with
        store := (Collector.insert call.key (c.canonicalForm call.values) c.store).2 } ∧
      t'.told = t.told ++
        [⟨call, (Collector.insert call.key (c.canonicalForm call.values) c.store).1⟩]

theorem Sound.step {t t' : Recorder} {c' : Collector ι} (hidle : c.writing = false)
    (hmode : c.mode = .coverage) (h : t.Sound c.canonicalForm)
    (hstep : t.step c = some (t', c')) : StepSpec c t t' c' := by
  obtain ⟨guard, stage, todo, reports⟩ := t
  obtain ⟨hguard, hform⟩ := h
  cases stage with
  | between =>
    simp only [reduceIte] at hguard
    subst hguard
    cases todo with
    | nil => cases hstep
    | cons call todo =>
      cases hstep
      exact {
        sound := ⟨rfl, by simp⟩
        calls_eq := by simp [calls, Stage.calls]
        work_eq := by simp [work, Stage.left]; omega
        store := .inl ⟨rfl, rfl⟩ }
  | entered call =>
    simp only [Recorder.step, hmode, Option.some.injEq, Prod.mk.injEq] at hstep
    obtain ⟨rfl, rfl⟩ := hstep
    exact {
      sound := ⟨by simpa using hguard, by rintro _ _ ⟨⟩; rfl⟩
      calls_eq := rfl
      work_eq := by simp [work, Stage.left]; omega
      store := .inl ⟨rfl, rfl⟩ }
  | captured call o =>
    -- the one step that comes to the store
    obtain rfl := hform call o rfl
    have hchange : c.change .nobody (Collector.insert call.key (c.canonicalForm call.values)) =
        ((Collector.insert call.key (c.canonicalForm call.values) c.store).1, { c with
          store := (Collector.insert call.key (c.canonicalForm call.values) c.store).2 }) :=
      Collector.change_of_idle hidle c.store _
    simp only [Recorder.step, hchange, Option.some.injEq, Prod.mk.injEq] at hstep
    obtain ⟨rfl, rfl⟩ := hstep
    exact {
      sound := ⟨by simpa using hguard, by simp⟩
      calls_eq := rfl
      work_eq := by simp [work, Stage.left]; omega
      store := .inr ⟨call, rfl, by simp [told, Stage.told]⟩ }
  | answered report =>
    cases hstep
    have hheld : guard = ⟨1⟩ := by simpa using hguard
    have hfree : guard.exit = .free := by rw [hheld, Guard.exit_enter]
    exact {
      sound := ⟨by simpa using hfree, by simp⟩
      calls_eq := by simp [calls, Stage.calls]
      work_eq := by simp [work, Stage.left]; omega
      store := .inl ⟨rfl, by simp [told, Stage.told]⟩ }

/-- A thread that has something left to do can do it. -/
theorem Sound.exists_step {form : Observation → Observation} {t : Recorder} (h : t.Sound form)
    (c : Collector ι) (hleft : ¬(t.stage = .between ∧ t.todo = [])) :
    ∃ next, t.step c = some next := by
  obtain ⟨guard, stage, todo, reports⟩ := t
  obtain ⟨hguard, -⟩ := h
  cases stage with
  | between =>
    simp only [reduceIte] at hguard
    subst hguard
    cases todo with
    | nil => exact absurd ⟨rfl, rfl⟩ hleft
    | cons call todo => exact ⟨_, rfl⟩
  | entered call =>
    cases hmode : c.mode with
    | coverage => exact ⟨_, by simp only [Recorder.step, hmode]; rfl⟩
    | template => exact ⟨_, by simp only [Recorder.step, hmode]; rfl⟩
  | captured call o => exact ⟨_, rfl⟩
  | answered report => exact ⟨_, rfl⟩

end Recorder

/-! ## All threads -/

namespace Crowd

variable {lists : List (List RecordCall)} {order : List RecordCall} {cr next : Crowd ι}

/-- How many steps are left. -/
def work (cr : Crowd ι) : Nat := cr.recorders.foldr (fun t n => t.work + n) 0

/-- What the store has told the threads, and what it holds, is what records in turn would be told
and leave, in the order in which the threads came to the store. -/
structure Linear (c : Collector ι) (lists : List (List RecordCall)) (order : List RecordCall)
    (cr : Crowd ι) : Prop where
  collector_eq : cr.collector = { c with store := (inTurn c.canonicalForm c.store order).2 }
  told_perm : (cr.recorders.flatMap Recorder.told).Perm (inTurn c.canonicalForm c.store order).1
  calls_eq : cr.recorders.map Recorder.calls = lists
  sound : ∀ t ∈ cr.recorders, t.Sound c.canonicalForm

theorem linear_start (c : Collector ι) (lists : List (List RecordCall)) :
    (start c lists).Linear c lists [] where
  collector_eq := rfl
  told_perm := by
    have hnone : (start c lists).recorders.flatMap Recorder.told = [] := by
      rw [List.flatMap_eq_nil_iff]
      intro t ht
      obtain ⟨todo, -, rfl⟩ := List.mem_map.1 ht
      rfl
    rw [hnone]
    exact List.Perm.nil
  calls_eq := by
    rw [start, List.map_map]
    exact List.map_id lists
  sound := by
    intro t ht
    obtain ⟨todo, -, rfl⟩ := List.mem_map.1 ht
    exact ⟨rfl, by simp⟩

theorem work_start (c : Collector ι) (lists : List (List RecordCall)) :
    (start c lists).work = 4 * lists.flatten.length := by
  have hwork : ∀ todo : List RecordCall,
      Recorder.work ⟨.free, .between, todo, []⟩ = 4 * todo.length := by
    intro todo
    exact Nat.zero_add _
  rw [work, start]
  induction lists with
  | nil => rfl
  | cons todo lists ih =>
    rw [List.map_cons, List.foldr_cons, ih, hwork, List.flatten_cons, List.length_append]
    omega

theorem step_of_get? {i : Nat} {t t' : Recorder} {collector : Collector ι}
    (ht : cr.recorders[i]? = some t) (hstep : t.step cr.collector = some (t', collector)) :
    cr.step i = some ⟨cr.recorders.set i t', collector⟩ := by
  rw [Crowd.step, ht]
  simp only [Option.bind_eq_bind, Option.bind_some, hstep]
  rfl

/-- A record that no other thread interrupts is a record at the top of a thread. -/
theorem run_uninterrupted (hrest : c.AtRest) (hmode : c.mode = .coverage)
    (run : ι → Collector ι → Except CoverageError Unit × Collector ι) {recorders : List Recorder}
    {i : Nat} {call : RecordCall} {todo : List RecordCall} {reports : List Report}
    (hi : recorders[i]? = some ⟨.free, .between, call :: todo, reports⟩) :
    Crowd.run ⟨recorders, c⟩ [i, i, i, i] =
      let answer := c.record run .free call.key call.values
      some ⟨recorders.set i ⟨.free, .between, todo, reports ++ [⟨call, answer.1⟩]⟩, answer.2⟩ := by
  have hset : ∀ t, (recorders.set i t)[i]? = some t := by
    intro t
    exact List.getElem?_set_self (List.getElem?_eq_some_iff.1 hi).1
  have hinit : c.startup.initialized = true := hrest.initialized
  have hidle := hrest.idle
  obtain ⟨store, mode, canonical, writing, ⟨slot, initialized, failure, unfailed⟩⟩ := c
  simp only at hmode hidle hinit
  subst hmode hidle hinit
  simp only [Crowd.run, List.foldlM_cons, Option.bind_eq_bind]
  rw [step_of_get? hi rfl, Option.bind_some, step_of_get? (hset _) rfl, Option.bind_some,
    List.set_set, step_of_get? (hset _) rfl, Option.bind_some, List.set_set,
    step_of_get? (hset _) rfl, Option.bind_some, List.set_set]
  rfl

theorem step_eq_some {i : Nat} (h : cr.step i = some next) :
    ∃ t t' collector, cr.recorders[i]? = some t ∧ t.step cr.collector = some (t', collector) ∧
      next = ⟨cr.recorders.set i t', collector⟩ := by
  obtain ⟨t, ht, h⟩ := Option.bind_eq_some_iff.1 h
  obtain ⟨⟨t', collector⟩, hstep, h⟩ := Option.bind_eq_some_iff.1 h
  exact ⟨t, t', collector, ht, hstep, (Option.some.inj h).symm⟩

theorem Linear.step (hidle : c.writing = false) (hmode : c.mode = .coverage)
    (h : cr.Linear c lists order) {i : Nat} (hstep : cr.step i = some next) :
    (∃ order', next.Linear c lists order') ∧ next.work + 1 = cr.work := by
  obtain ⟨t, t', collector, ht, htstep, rfl⟩ := step_eq_some hstep
  obtain ⟨recorders, old⟩ := cr
  obtain ⟨hcollector, htold, hcalls, hsound⟩ := h
  simp only at ht htstep hcollector htold hcalls hsound
  subst hcollector
  have hspec := Recorder.Sound.step
    (c := { c with store := (inTurn c.canonicalForm c.store order).2 }) hidle hmode
    (hsound t (List.mem_of_getElem? ht)) htstep
  have hcalls' : (recorders.set i t').map Recorder.calls = lists := by
    rw [map_set_of_eq ht hspec.calls_eq, hcalls]
  have hsound' : ∀ u ∈ recorders.set i t', u.Sound c.canonicalForm := by
    intro u hu
    rcases List.mem_or_eq_of_mem_set hu with hu | rfl
    · exact hsound u hu
    · exact hspec.sound
  have hwork : (recorders.set i t').foldr (fun t n => t.work + n) 0 + 1 =
      recorders.foldr (fun t n => t.work + n) 0 := by
    have hsum := foldr_set (w := Recorder.work) (b := t') ht
    have hone := hspec.work_eq
    omega
  refine ⟨?_, hwork⟩
  rcases hspec.store with ⟨rfl, hsame⟩ | ⟨call, rfl, hmore⟩
  · refine ⟨order, rfl, ?_, hcalls', hsound'⟩
    rwa [List.flatMap_def, map_set_of_eq ht hsame, ← List.flatMap_def]
  · -- the thread comes to the store, behind those that were there before
    refine ⟨order ++ [call], ?_, ?_, hcalls', hsound'⟩
    · rw [inTurn_concat]
      rfl
    · rw [inTurn_concat]
      exact (flatMap_set_of_append ht hmore).trans (htold.append_right _)

theorem Linear.run (hidle : c.writing = false) (hmode : c.mode = .coverage)
    (h : cr.Linear c lists order) {schedule : List Nat} {last : Crowd ι}
    (hrun : cr.run schedule = some last) :
    (∃ order', last.Linear c lists order') ∧ schedule.length + last.work = cr.work := by
  induction schedule generalizing cr order with
  | nil =>
    cases hrun
    exact ⟨⟨order, h⟩, Nat.zero_add _⟩
  | cons i schedule ih =>
    obtain ⟨next, hstep, hrest⟩ := Option.bind_eq_some_iff.1 hrun
    obtain ⟨⟨order', hnext⟩, hwork⟩ := h.step hidle hmode hstep
    obtain ⟨hlast, hlastwork⟩ := ih hnext hrest
    refine ⟨hlast, ?_⟩
    rw [List.length_cons]
    omega

/-- As long as there is something left to do, some thread can do it. -/
theorem Linear.progress (h : cr.Linear c lists order) :
    cr.Finished ∨ ∃ i next, cr.step i = some next := by
  by_cases hfinished : cr.Finished
  · exact .inl hfinished
  · refine .inr ?_
    obtain ⟨t, ht⟩ := not_forall.1 hfinished
    obtain ⟨hmem, hleft⟩ := Classical.not_imp.1 ht
    obtain ⟨i, hi⟩ := List.mem_iff_getElem?.1 hmem
    obtain ⟨⟨t', collector⟩, hstep⟩ := (h.sound t hmem).exists_step cr.collector hleft
    exact ⟨i, _, step_of_get? hi hstep⟩

/-! ## When all is done -/

/-- What the threads were told is all that the store has told them. -/
theorem Finished.told_eq (h : cr.Finished) :
    cr.recorders.flatMap Recorder.told = cr.reports := by
  refine List.flatMap_congr ?_
  intro t ht
  rw [Recorder.told, (h t ht).1]
  exact List.append_nil _

theorem Finished.calls_eq (h : cr.Finished) :
    cr.recorders.map Recorder.calls =
      cr.recorders.map fun t => t.reports.map Report.call := by
  refine List.map_congr_left ?_
  intro t ht
  rw [Recorder.calls, (h t ht).1, (h t ht).2]
  rw [Stage.calls, List.append_nil, List.append_nil]

/-- The order in which the threads came to the store is one of all their records. -/
theorem Linear.order_perm (h : cr.Linear c lists order) (hfinished : cr.Finished) :
    order.Perm lists.flatten := by
  have hperm := h.told_perm.map Report.call
  rw [map_call_inTurn, hfinished.told_eq, reports, List.map_flatMap] at hperm
  have hcalls := h.calls_eq
  rw [hfinished.calls_eq] at hcalls
  rw [← hcalls]
  exact hperm.symm

/-- **No interleaving loses an observation, and none reports one twice.** Threads make records on an
initialized collector that keeps values. Whatever the order of their steps, some thread can go on
until all is done. Then every record was told that its observation is new or that it was there
already; the collector holds what it held at first and what was recorded, and no matter in which
order that was done, the stores agree. An observation that was not there at first was new to one
record of all, one that was there to none, and the number of observations grew by the number of the
records to which theirs was new. -/
theorem run_linear (hrest : c.AtRest) (hmode : c.mode = .coverage)
    (lists : List (List RecordCall)) {schedule : List Nat}
    (hrun : (start c lists).run schedule = some cr) :
    (schedule.length ≤ 4 * lists.flatten.length ∧
      (cr.Finished ∨ ∃ i next, cr.step i = some next)) ∧
    (cr.Finished →
      (cr.recorders.map fun t => t.reports.map Report.call) = lists ∧
      (∀ r ∈ cr.reports, r.outcome = .recorded ∨ r.outcome = .duplicate) ∧
      cr.collector = { c with store := cr.collector.store } ∧
      (∀ key, cr.collector.store.contains key = true ↔
        c.store.contains key = true ∨ ∃ call ∈ lists.flatten, call.key = key) ∧
      (∀ key o, cr.collector.store.holds key o = true ↔ c.store.holds key o = true ∨
        ∃ call ∈ lists.flatten, call.key = key ∧ c.canonicalForm call.values = o) ∧
      (∀ key o, c.store.holds key o = true →
        cr.reports.countP (Report.tells c.canonicalForm key o) = 0) ∧
      (∀ key o, ¬c.store.holds key o = true →
        (∃ call ∈ lists.flatten, call.key = key ∧ c.canonicalForm call.values = o) →
        cr.reports.countP (Report.tells c.canonicalForm key o) = 1) ∧
      cr.collector.store.observationCount =
        c.store.observationCount + cr.reports.countP Report.isNew ∧
      ∀ schedule' cr', (start c lists).run schedule' = some cr' → cr'.Finished →
        cr.collector.store.agrees cr'.collector.store = true) := by
  obtain ⟨⟨order, hlinear⟩, hlength⟩ := (linear_start c lists).run hrest.idle hmode hrun
  rw [work_start] at hlength
  refine ⟨⟨by omega, hlinear.progress⟩, ?_⟩
  intro hfinished
  have horder := hlinear.order_perm hfinished
  have hreports := hlinear.told_perm
  rw [hfinished.told_eq] at hreports
  have hstore : cr.collector.store = (inTurn c.canonicalForm c.store order).2 := by
    rw [hlinear.collector_eq]
  -- `order` is known only up to a permutation, and nothing below depends on more
  have hmem : ∀ {p : RecordCall → Prop},
      (∃ call ∈ order, p call) ↔ ∃ call ∈ lists.flatten, p call := by
    intro p
    simp only [horder.mem_iff]
  refine ⟨?_, ?_, ?_, ?_, ?_, ?_, ?_, ?_, ?_⟩
  · rw [← hfinished.calls_eq, hlinear.calls_eq]
  · intro r hr
    exact outcome_of_mem_inTurn (hreports.mem_iff.1 hr)
  · rw [hstore, hlinear.collector_eq]
  · intro key
    rw [hstore, contains_inTurn, hmem]
  · intro key o
    rw [hstore, holds_inTurn, hmem]
  · intro key o hholds
    rw [hreports.countP_eq, countP_tells_of_holds hholds]
  · intro key o hholds hcalls
    rw [hreports.countP_eq, countP_tells_of_not_holds hholds (hmem.2 hcalls)]
  · rw [hstore, observationCount_inTurn, hreports.countP_eq]
  · intro schedule' cr' hrun' hfinished'
    obtain ⟨⟨order', hlinear'⟩, -⟩ := (linear_start c lists).run hrest.idle hmode hrun'
    have hsame : ∀ call, call ∈ order ↔ call ∈ order' := by
      intro call
      rw [horder.mem_iff, (hlinear'.order_perm hfinished').mem_iff]
    have hstore' : cr'.collector.store = (inTurn c.canonicalForm c.store order').2 := by
      rw [hlinear'.collector_eq]
    rw [hstore, hstore']
    refine Store.agrees_of_keys ?_ ?_ ?_
    · intro owner
      simp only [mem_keys_inTurn, hsame]
    · intro key
      rw [Bool.eq_iff_iff]
      simp only [contains_inTurn, hsame]
    · intro key o
      rw [Bool.eq_iff_iff]
      simp only [holds_inTurn, hsame]

/-! ### Two threads -/

/-- One thread records a number and the other its text, which is the form that is kept. -/
def twoThreads : List (List RecordCall) :=
  [[⟨⟨"a.B", "m(I)V"⟩, [.int 5]⟩, ⟨⟨"a.B", "n()V"⟩, []⟩], [⟨⟨"a.B", "m(I)V"⟩, [.text "5"]⟩]]

/-- A collector that keeps plain texts. -/
def keepsTexts : Collector Unit := (Collector.new .empty .coverage (some .plain)).settle (.ok ())

/-- Both threads capture their values before one of them comes to the store. -/
def alternating : List Nat := [0, 1, 0, 1, 1, 0, 0, 1, 0, 0, 0, 0]

theorem run_linear_twoThreads :
    (keepsTexts.AtRest ∧ keepsTexts.mode = .coverage) ∧
      ∃ cr, (start keepsTexts twoThreads).run alternating = some cr ∧ cr.Finished ∧
        (cr.recorders.map fun t => t.reports.map Report.call) = twoThreads ∧
        (∀ r ∈ cr.reports, r.outcome = .recorded ∨ r.outcome = .duplicate) ∧
        cr.collector.store.observationCount = 0 + cr.reports.countP Report.isNew ∧
        cr.reports.countP
          (Report.tells keepsTexts.canonicalForm ⟨"a.B", "m(I)V"⟩ [.text "5"]) = 1 := by
  have hrest : keepsTexts.AtRest := ⟨rfl, rfl⟩
  -- evaluated to a `Bool` alone; the threads as they are at the end need not be written out
  have hdone : ((start keepsTexts twoThreads).run alternating).any (fun cr => decide cr.Finished) =
      true := by
    decide +kernel
  obtain ⟨cr, hrun, hfinished⟩ := (Option.any_eq_true _ _).1 hdone
  have hfinished' : cr.Finished := of_decide_eq_true hfinished
  obtain ⟨-, hall⟩ := run_linear hrest rfl twoThreads hrun
  obtain ⟨hcalls, houtcomes, -, -, -, -, hnew, hcount, -⟩ := hall hfinished'
  refine ⟨⟨hrest, rfl⟩, cr, hrun, hfinished', hcalls, houtcomes, hcount, ?_⟩
  exact hnew ⟨"a.B", "m(I)V"⟩ [.text "5"] (by decide)
    ⟨⟨⟨"a.B", "m(I)V"⟩, [.text "5"]⟩, by simp [twoThreads], rfl, rfl⟩

end Crowd

end ValueCoverage
