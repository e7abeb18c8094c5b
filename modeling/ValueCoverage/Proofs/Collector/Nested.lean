import ValueCoverage.Collector.Several
import ValueCoverage.Proofs.Collector.Thread

/-!
# Calls made during a capture

A thread reaches several initialized collectors, and the code that captures the values of a record
records and declares on any of them. What is recorded there is turned away, whatever it is and
wherever: it could as well be left out. What is declared there is kept. No call, and no sequence of
calls on the guard itself, ever has it held twice.
-/

namespace ValueCoverage

open Script (Answer)
open ThreadM

variable {κ ι : Type} [DecidableEq κ] {r : Reach κ ι}

namespace Reach

/-- All collectors are initialized. -/
def Initialized (r : Reach κ ι) : Prop := ∀ k, (r.collectors k).isInitialized = true

/-- The thread captures values: it holds its guard, once. -/
structure Collecting (r : Reach κ ι) : Prop where
  initialized : r.Initialized
  depth_eq : r.guard.depth = 1

theorem Initialized.put (h : r.Initialized) {on : κ} {c : Collector ι}
    (hc : c.isInitialized = true) : (r.put on c).Initialized := by
  intro k
  rw [collectors_put]
  by_cases hk : k = on
  · rwa [if_pos hk]
  · rw [if_neg hk]
    exact h k

/-- What a call leaves that is made while the thread holds its guard. -/
def noteCall (r : Reach κ ι) : SharedCall κ → Reach κ ι
  | .record .. | .depth => r
  | .declare on key => r.put on ((r.collectors on).declare .nobody key).2

/-- What such calls leave, one after the other. -/
def noteCalls (r : Reach κ ι) (calls : List (SharedCall κ)) : Reach κ ι :=
  calls.foldl noteCall r

theorem Initialized.noteCall (h : r.Initialized) (call : SharedCall κ) :
    (r.noteCall call).Initialized := by
  cases call with
  | record on key values during => exact h
  | declare on key =>
    refine h.put ?_
    rw [Collector.isInitialized_declare]
    exact h on
  | depth => exact h

theorem Collecting.noteCall (h : r.Collecting) (call : SharedCall κ) :
    (r.noteCall call).Collecting := by
  refine ⟨h.initialized.noteCall call, ?_⟩
  cases call <;> exact h.depth_eq

theorem Initialized.noteCalls (h : r.Initialized) (calls : List (SharedCall κ)) :
    (r.noteCalls calls).Initialized := by
  induction calls generalizing r with
  | nil => exact h
  | cons call rest ih => exact ih (h.noteCall call)

theorem Collecting.noteCalls (h : r.Collecting) (calls : List (SharedCall κ)) :
    (r.noteCalls calls).Collecting := by
  induction calls generalizing r with
  | nil => exact h
  | cons call rest ih => exact ih (h.noteCall call)

end Reach

namespace SharedCall

/-- Whether a call records. -/
def isRecord : SharedCall κ → Bool
  | .record .. => true
  | .declare .. | .depth => false

/-- The call without the records that are made while its values are captured. -/
def withoutNested : SharedCall κ → SharedCall κ
  | .record on key values during => .record on key values (during.filter (!·.isRecord))
  | .declare on key => .declare on key
  | .depth => .depth

/-- What a call is told that is made during a capture: a record, that the thread is collecting, and
its own values are not captured; the guard is held once. -/
def ToldDuring : SharedCall κ → Answer → Prop
  | .record .., answer => answer = .captured .reentrant none
  | .declare .., answer => ∃ isNew, answer = .flag isNew
  | .depth, answer => answer = .number 1

/-- What a call is told that is made during no capture; the guard is free. -/
def Told : SharedCall κ → Answer → Prop
  | .record _ _ _ during, answer => ∃ outcome captured, answer = .captured outcome captured ∧
      outcome ≠ .reentrant ∧
      ∀ answers, captured = some answers → List.Forall₂ ToldDuring during answers
  | .declare .., answer => ∃ isNew, answer = .flag isNew
  | .depth, answer => answer = .number 0

/-- An answer without those that the calls got that were made meanwhile. -/
def ownAnswer : Answer → Answer
  | .captured outcome captured => .captured outcome (captured.map fun _ => [])
  | answer => answer

theorem ownAnswer_captured (outcome : Outcome) {captured captured' : Option (List Answer)}
    (h : captured.isSome ↔ captured'.isSome) :
    ownAnswer (.captured outcome captured) = ownAnswer (.captured outcome captured') := by
  cases captured with
  | none =>
    cases captured' with
    | none => rfl
    | some answers => simp at h
  | some answers =>
    cases captured' with
    | none => simp at h
    | some answers' => rfl

variable (start : κ → Option (Starter (Reach κ ι) ι))

/-! ## During a capture -/

theorem run_collecting (h : r.Collecting) (call : SharedCall κ) :
    ∃ answer, (call.run start).run.run r = (.ok answer, r.noteCall call) ∧
      call.ToldDuring answer := by
  cases call with
  | record on key values during =>
    have hheld : r.guard.enter? = none := by
      rw [Guard.enter?_eq_none_iff, h.depth_eq]
      exact Nat.one_pos
    refine ⟨_, ?_, rfl⟩
    rw [SharedCall.run, run_bind_of_ok (Site.run_record_of_held .nobody (h.initialized on) hheld)]
    rfl
  | declare on key => exact ⟨_, rfl, _, rfl⟩
  | depth => exact ⟨_, rfl, congrArg Answer.number h.depth_eq⟩

theorem runAll_collecting (h : r.Collecting) (calls : List (SharedCall κ)) :
    ∃ answers, (runAll start calls).run.run r = (.ok answers, r.noteCalls calls) ∧
      List.Forall₂ ToldDuring calls answers := by
  -- no induction on the depth: an inner record is turned away, whatever its own capture would do
  induction calls generalizing r with
  | nil => exact ⟨[], rfl, .nil⟩
  | cons call rest ih =>
    obtain ⟨answer, hcall, hanswer⟩ := run_collecting start h call
    obtain ⟨answers, hrest, hanswers⟩ := ih (h.noteCall call)
    refine ⟨answer :: answers, ?_, .cons hanswer hanswers⟩
    rw [runAll, run_bind_of_ok hcall, run_bind_of_ok hrest]
    rfl

/-- Records leave nothing behind during a capture. -/
theorem noteCalls_filter (r : Reach κ ι) (calls : List (SharedCall κ)) :
    r.noteCalls (calls.filter (!·.isRecord)) = r.noteCalls calls := by
  induction calls generalizing r with
  | nil => rfl
  | cons call rest ih =>
    cases call with
    | record on key values during => exact ih r
    | declare on key => exact ih _
    | depth => exact ih r

/-- What is noted in the collectors does not depend on the guard, which stays as it is. -/
theorem noteCalls_mk (collectors : κ → Collector ι) (guard guard' : Guard)
    (calls : List (SharedCall κ)) :
    Reach.noteCalls ⟨collectors, guard⟩ calls =
      ⟨(Reach.noteCalls ⟨collectors, guard'⟩ calls).collectors, guard⟩ := by
  induction calls generalizing collectors with
  | nil => rfl
  | cons call rest ih =>
    cases call with
    | record on key values during => exact ih collectors
    | declare on key => exact ih _
    | depth => exact ih collectors

/-! ## During no capture -/

/-- What a record is told, and what it leaves, that is made while the guard is free. -/
def recordOn (r : Reach κ ι) (on : κ) (key : MemberKey) (values : Observation)
    (during : List (SharedCall κ)) : Outcome × Reach κ ι :=
  if (r.collectors on).mode = .template then
    let changed := (r.collectors on).change .nobody (Collector.note key)
    (changed.1, r.put on changed.2)
  else
    let c := (r.noteCalls during).collectors on
    let changed := c.change .nobody (Collector.insert key (c.canonicalForm values))
    (changed.1, (r.noteCalls during).put on changed.2)

theorem recordOn_filter (r : Reach κ ι) (on : κ) (key : MemberKey) (values : Observation)
    (during : List (SharedCall κ)) :
    recordOn r on key values (during.filter (!·.isRecord)) = recordOn r on key values during := by
  unfold recordOn
  rw [noteCalls_filter]

theorem recordOn_ne_reentrant (r : Reach κ ι) (on : κ) (key : MemberKey) (values : Observation)
    (during : List (SharedCall κ)) : (recordOn r on key values during).1 ≠ .reentrant := by
  unfold recordOn
  by_cases hmode : (r.collectors on).mode = .template
  · rw [if_pos hmode]
    exact Collector.change_ne_reentrant (by simp [Collector.note])
  · rw [if_neg hmode]
    exact Collector.change_ne_reentrant (Collector.insert_ne_reentrant _ _ _)

theorem initialized_recordOn (hinit : r.Initialized) (on : κ) (key : MemberKey)
    (values : Observation) (during : List (SharedCall κ)) :
    (recordOn r on key values during).2.Initialized := by
  unfold recordOn
  by_cases hmode : (r.collectors on).mode = .template
  · rw [if_pos hmode]
    refine hinit.put ?_
    rw [Collector.isInitialized_change]
    exact hinit on
  · rw [if_neg hmode]
    have hnoted := hinit.noteCalls during
    refine hnoted.put ?_
    rw [Collector.isInitialized_change]
    exact hnoted on

theorem guard_recordOn (r : Reach κ ι) (on : κ) (key : MemberKey) (values : Observation)
    (during : List (SharedCall κ)) : (recordOn r on key values during).2.guard = r.guard := by
  unfold recordOn
  by_cases hmode : (r.collectors on).mode = .template
  · rw [if_pos hmode]
    rfl
  · rw [if_neg hmode]
    show (r.noteCalls during).guard = r.guard
    rw [noteCalls_mk r.collectors r.guard r.guard]

theorem run_record_of_free (hinit : r.Initialized) (hfree : r.guard = .free) (on : κ)
    (key : MemberKey) (values : Observation) (during : List (SharedCall κ)) :
    ∃ captured, ((record on key values during).run start).run.run r =
        (.ok (.captured (recordOn r on key values during).1 captured),
          (recordOn r on key values during).2) ∧
      (captured.isSome ↔ (r.collectors on).mode ≠ .template) ∧
      ∀ answers, captured = some answers → List.Forall₂ ToldDuring during answers := by
  obtain ⟨collectors, guard⟩ := r
  subst hfree
  have hon : (collectors on).isInitialized = true := hinit on
  cases hmode : (collectors on).mode with
  | template =>
    refine ⟨none, ?_, by simp, by simp⟩
    rw [run, run_bind_of_ok (Site.run_record_template Hold.nobody_ne_other hon rfl hmode), recordOn,
      if_pos hmode]
    rfl
  | coverage =>
    have hcollecting : Reach.Collecting ⟨collectors, ⟨1⟩⟩ := ⟨hinit, rfl⟩
    obtain ⟨answers, hduring, hanswers⟩ := runAll_collecting start hcollecting during
    refine ⟨some answers, ?_, by simp, by simpa using hanswers⟩
    rw [run,
      run_bind_of_ok (Site.run_record_coverage Hold.nobody_ne_other hon rfl hmode hduring),
      recordOn, if_neg (by simp [hmode])]
    -- the capture ran under the guard, and `recordOn` speaks of the free one
    rw [noteCalls_mk collectors ⟨1⟩ .free, noteCalls_mk collectors .free .free]
    rfl

/-- A call that no capture makes is told what it would be told if its own capture recorded nothing,
and leaves what it would leave. -/
theorem run_of_free (hinit : r.Initialized) (hfree : r.guard = .free) (call : SharedCall κ) :
    ∃ answer answer' r', (call.run start).run.run r = (.ok answer, r') ∧
      (call.withoutNested.run start).run.run r = (.ok answer', r') ∧
      ownAnswer answer = ownAnswer answer' ∧ call.Told answer ∧ r'.Initialized ∧
      r'.guard = .free := by
  cases call with
  | record on key values during =>
    obtain ⟨captured, hrun, hcaptured, htold⟩ :=
      run_record_of_free start hinit hfree on key values during
    obtain ⟨captured', hrun', hcaptured', -⟩ :=
      run_record_of_free start hinit hfree on key values (during.filter (!·.isRecord))
    rw [recordOn_filter] at hrun'
    have houtcome := recordOn_ne_reentrant r on key values during
    refine ⟨_, _, _, hrun, hrun', ?_, ⟨_, _, rfl, houtcome, htold⟩,
      initialized_recordOn hinit on key values during, ?_⟩
    · -- the mode alone decides whether values are captured
      exact ownAnswer_captured _ (hcaptured.trans hcaptured'.symm)
    · rw [guard_recordOn, hfree]
  | declare on key =>
    exact ⟨_, _, _, rfl, rfl, rfl, ⟨_, rfl⟩, hinit.noteCall (.declare on key), hfree⟩
  | depth => exact ⟨_, _, _, rfl, rfl, rfl, by rw [hfree]; rfl, hinit, hfree⟩

theorem runAll_of_free (hinit : r.Initialized) (hfree : r.guard = .free)
    (calls : List (SharedCall κ)) :
    ∃ answers answers' r', (runAll start calls).run.run r = (.ok answers, r') ∧
      (runAll start (calls.map withoutNested)).run.run r = (.ok answers', r') ∧
      answers.map ownAnswer = answers'.map ownAnswer ∧ List.Forall₂ Told calls answers ∧
      r'.Initialized ∧ r'.guard = .free := by
  induction calls generalizing r with
  | nil => exact ⟨[], [], r, rfl, rfl, rfl, .nil, hinit, hfree⟩
  | cons call rest ih =>
    obtain ⟨answer, answer', r', hcall, hcall', hsame, htold, hinit', hfree'⟩ :=
      run_of_free start hinit hfree call
    obtain ⟨answers, answers', last, hrest, hrest', hsames, htolds, hlast⟩ := ih hinit' hfree'
    refine ⟨answer :: answers, answer' :: answers', last, ?_, ?_, ?_, .cons htold htolds, hlast⟩
    · rw [runAll, run_bind_of_ok hcall, run_bind_of_ok hrest]
      rfl
    · rw [List.map_cons, runAll, run_bind_of_ok hcall', run_bind_of_ok hrest']
      rfl
    · rw [List.map_cons, List.map_cons, hsame, hsames]

/-! ## The guard by hand -/

section ByHand

variable (begin : Option (Starter Script.World Script.Initializer)) (hold : Hold)
  {w : Script.World}

/-- The guard is taken if it is free, and is then held once, as it was before otherwise. -/
theorem run_enter (h : w.guard.depth ≤ 1) :
    (Script.Call.enter.run begin hold).run.run w =
      (.ok (.flag (w.guard.depth = 0)), { w with guard := ⟨1⟩ }) := by
  obtain ⟨collector, ⟨depth⟩, initLog⟩ := w
  have hdepth : depth = 0 ∨ depth = 1 := by
    simp only at h
    omega
  rcases hdepth with rfl | rfl <;> rfl

theorem run_exit (w : Script.World) :
    (Script.Call.exit.run begin hold).run.run w =
      (.ok .nothing, { w with guard := w.guard.exit }) := rfl

/-- However the guard is taken and given back, it is held once or not at all. -/
theorem runAll_byHand (h : w.guard.depth ≤ 1) {calls : List Script.Call}
    (hcalls : ∀ call ∈ calls, call = .enter ∨ call = .exit) :
    ∃ answers guard, (Script.runAll begin hold calls).run.run w =
        (.ok answers, { w with guard }) ∧ guard.depth ≤ 1 := by
  induction calls generalizing w with
  | nil => exact ⟨[], w.guard, rfl, h⟩
  | cons call rest ih =>
    obtain ⟨answer, guard, hcall, hguard⟩ : ∃ answer guard,
        (call.run begin hold).run.run w = (.ok answer, { w with guard }) ∧ guard.depth ≤ 1 := by
      rcases hcalls call (by simp) with rfl | rfl
      · exact ⟨_, _, run_enter begin hold h, Nat.le_refl 1⟩
      · exact ⟨_, _, run_exit begin hold w, Nat.le_trans (Nat.sub_le _ _) h⟩
    obtain ⟨answers, last, hrest, hlast⟩ :=
      ih (w := { w with guard }) hguard fun call' hcall' => hcalls call' (by simp [hcall'])
    refine ⟨answer :: answers, last, ?_, hlast⟩
    rw [Script.runAll, run_bind_of_ok hcall, run_bind_of_ok hrest]
    rfl

end ByHand

/-- **Only the outermost record counts.** A thread that is collecting nothing makes calls, and the
code that captures values makes calls in turn, to any depth and on any of the collectors. Every such
inner record is told that the thread is collecting, captures nothing and changes nothing; the outer
calls are told what they would be told without the inner records, and leave what they would leave.
The guard is held once during a capture and is free after every outer call. Taken and given back by
hand in whatever order, it is held at most once, and can be taken just when it is free. -/
theorem nested_turned_away (hinit : r.Initialized) (hfree : r.guard = .free)
    (calls : List (SharedCall κ)) :
    (∃ answers answers' r', (runAll start calls).run.run r = (.ok answers, r') ∧
      (runAll start (calls.map withoutNested)).run.run r = (.ok answers', r') ∧
      answers.map ownAnswer = answers'.map ownAnswer ∧ List.Forall₂ Told calls answers ∧
      r'.guard = .free) ∧
    (∀ (s : Reach κ ι) (before : List (SharedCall κ)), s.Collecting →
      ∃ answers s', (runAll start before).run.run s = (.ok answers, s') ∧
        List.Forall₂ ToldDuring before answers ∧ s'.guard.depth = 1 ∧
        ∀ on key values during, ((record on key values during).run start).run.run s' =
          (.ok (.captured .reentrant none), s')) ∧
    ∀ (begin : Option (Starter Script.World Script.Initializer)) (hold : Hold) (w : Script.World)
      (byHand : List Script.Call), w.guard = .free →
      (∀ call ∈ byHand, call = .enter ∨ call = .exit) →
      ∃ answers guard, (Script.runAll begin hold byHand).run.run w =
          (.ok answers, { w with guard }) ∧ guard.depth ≤ 1 ∧
        (Script.Call.enter.run begin hold).run.run { w with guard } =
          (.ok (.flag (guard.depth = 0)), { w with guard := ⟨1⟩ }) := by
  refine ⟨?_, ?_, ?_⟩
  · obtain ⟨answers, answers', r', hrun, hrun', hsame, htold, -, hfree'⟩ :=
      runAll_of_free start hinit hfree calls
    exact ⟨answers, answers', r', hrun, hrun', hsame, htold, hfree'⟩
  · intro s before hcollecting
    obtain ⟨answers, hrun, htold⟩ := runAll_collecting start hcollecting before
    have hcollecting' := hcollecting.noteCalls before
    refine ⟨answers, s.noteCalls before, hrun, htold, hcollecting'.depth_eq, ?_⟩
    intro on key values during
    obtain ⟨answer, hcall, rfl⟩ := run_collecting start hcollecting' (record on key values during)
    exact hcall
  · intro begin hold w byHand hw hbyHand
    obtain ⟨answers, guard, hrun, hguard⟩ :=
      runAll_byHand begin hold (by rw [hw]; exact Nat.zero_le 1) hbyHand
    exact ⟨answers, guard, hrun, hguard, run_enter begin hold hguard⟩

/-! ### Two collectors -/

/-- Collectors without initializers; the one keeps values, the other only members. -/
def twoCollectors : Reach Bool Unit where
  collectors keeps :=
    (Collector.new .empty (if keeps then .coverage else .template) none).settle (.ok ())
  guard := .free

/-- A record whose capture declares a member and records on both collectors, and within that. -/
def nestedCalls : List (SharedCall Bool) :=
  [.record true ⟨"a.B", "m(I)V"⟩ [.int 5]
      [.declare false ⟨"a.B", "f:I"⟩, .record true ⟨"a.B", "n()V"⟩ [] [],
        .record false ⟨"a.B", "n()V"⟩ [] [.record true ⟨"a.B", "m(I)V"⟩ [.int 6] []], .depth],
    .depth]

/-- The guard is taken twice and given back three times. -/
def byHand : List Script.Call := [.enter, .enter, .exit, .exit, .exit]

theorem nested_turned_away_twoCollectors :
    (twoCollectors.Initialized ∧ twoCollectors.guard = .free) ∧
      (∃ answers answers' r',
        (runAll (fun _ => none) nestedCalls).run.run twoCollectors = (.ok answers, r') ∧
        (runAll (fun _ => none) (nestedCalls.map withoutNested)).run.run twoCollectors =
          (.ok answers', r') ∧
        answers.map ownAnswer = answers'.map ownAnswer ∧ List.Forall₂ Told nestedCalls answers ∧
        r'.guard = .free) ∧
      (∃ answers s', (runAll (fun _ => none) nestedCalls).run.run
          { twoCollectors with guard := ⟨1⟩ } = (.ok answers, s') ∧
        List.Forall₂ ToldDuring nestedCalls answers ∧ s'.guard.depth = 1 ∧
        ∀ on key values during, ((record on key values during).run fun _ => none).run.run s' =
          (.ok (.captured .reentrant none), s')) ∧
      ∃ answers guard, (Script.runAll none .nobody byHand).run.run
          ⟨.new .empty .coverage none, .free, []⟩ =
            (.ok answers, ⟨.new .empty .coverage none, guard, []⟩) ∧ guard.depth ≤ 1 ∧
        (Script.Call.enter.run none .nobody).run.run ⟨.new .empty .coverage none, guard, []⟩ =
          (.ok (.flag (guard.depth = 0)), ⟨.new .empty .coverage none, ⟨1⟩, []⟩) := by
  have hinit : twoCollectors.Initialized := fun _ => rfl
  obtain ⟨houter, hinner, hraw⟩ := nested_turned_away (fun _ => none) hinit rfl nestedCalls
  refine ⟨⟨hinit, rfl⟩, houter, hinner _ nestedCalls ⟨hinit, rfl⟩, ?_⟩
  exact hraw none .nobody _ byHand rfl (by simp [byHand])

end SharedCall

end ValueCoverage
