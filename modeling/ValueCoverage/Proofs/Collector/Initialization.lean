import ValueCoverage.Proofs.Collector.Throughout

/-!
# Initializers

An initializer is set, waits, and is run by the first call that asks for the initialization. Nothing
else runs it, and nothing runs it again: apart from that one time, the calls do the same whatever it
means to run an initializer. What it leaves in the store stays in front of all that is recorded, and
every later call is told how the initialization ended.
-/

namespace ValueCoverage

open ThreadM

/-- The initializer that waits to be run. -/
def Readiness.pending {ι : Type} : Readiness ι → Option ι
  | .waiting initializer => initializer
  | .done _ => none

namespace Script

variable {α : Type} {w : World} {hold : Hold} {i : Initializer}

/-! ## Asking for the initialization -/

namespace World

/-- The world with another startup. -/
def withStartup (w : World) (startup : Startup Initializer) : World :=
  { w with collector := { w.collector with startup } }

/-- The world in which the initialization is so far. -/
def withReadiness (w : World) (readiness : Readiness Initializer) : World :=
  w.withStartup (.ofReadiness readiness)

/-- The world in which the initializer has been taken. -/
def claimed (w : World) : World := { w with collector := w.collector.claimed }

/-- The world in which the initialization has ended so. -/
def settled (w : World) (result : Except CoverageError Unit) : World :=
  { w with collector := w.collector.settle result }

end World

theorem collector_get (w : World) : World.site.collector.get w = w.collector := rfl

theorem readiness_claimed {pending : Option Initializer}
    (h : w.collector.readiness = .waiting pending) :
    w.claimed.collector.readiness = .waiting none :=
  Collector.readiness_claimed h

theorem readiness_settled {pending : Option Initializer}
    (h : w.collector.readiness = .waiting pending) (result : Except CoverageError Unit) :
    (w.settled result).collector.readiness = .done (Readiness.failureAfter none result) :=
  Collector.readiness_settle h result

theorem run_ensureReady_of_done (start : Option (Starter World Initializer)) (hold : Hold)
    {failure : Option String} (h : w.collector.readiness = .done failure) :
    (World.site.ensureReady start hold).run.run w =
      (.ok (Collector.earlierResult failure), w) := by
  rw [Site.ensureReady, run_bind_of_ok (run_get w)]
  simp only [collector_get, h]
  rfl

/-- No initializer is waiting, and none is run. -/
theorem run_ensureReady_of_none (start : Starter World Initializer) (hold : Hold)
    (h : w.collector.readiness = .waiting none) :
    (World.site.ensureReady (some start) hold).run.run w =
      (.ok (.ok ()), w.claimed.settled (.ok ())) := by
  rw [Site.ensureReady, run_bind_of_ok (run_get w)]
  simp only [collector_get, h]
  rfl

/-- Takes the initializer, runs it and notes how it ended. -/
def runOnce (start : Starter World Initializer) (hold : Hold) (i : Initializer) :
    Run (Except CoverageError Unit) := do
  World.site.onCollector fun c => ((), c.claimed)
  let result ← start hold i
  World.site.onCollector fun c => (result, c.settle result)

theorem run_ensureReady_of_some (start : Starter World Initializer) (hold : Hold)
    (h : w.collector.readiness = .waiting (some i)) :
    (World.site.ensureReady (some start) hold).run.run w = (runOnce start hold i).run.run w := by
  rw [Site.ensureReady, run_bind_of_ok (run_get w)]
  simp only [collector_get, h]
  rfl

theorem run_runOnce_of_ok {start : Starter World Initializer} {result : Except CoverageError Unit}
    {w' : World} (h : (start hold i).run.run w.claimed = (.ok result, w')) :
    (runOnce start hold i).run.run w = (.ok result, w'.settled result) := by
  have hclaim : (World.site.onCollector fun c => ((), c.claimed)).run.run w =
      (.ok (), w.claimed) := rfl
  rw [runOnce, run_bind_of_ok hclaim, run_bind_of_ok h]
  rfl

theorem run_runOnce_of_error {start : Starter World Initializer} {e : Abrupt} {w' : World}
    (h : (start hold i).run.run w.claimed = (.error e, w')) :
    (runOnce start hold i).run.run w = (.error e, w') := by
  have hclaim : (World.site.onCollector fun c => ((), c.claimed)).run.run w =
      (.ok (), w.claimed) := rfl
  rw [runOnce, run_bind_of_ok hclaim, run_bind_fallible, h]

/-! ## What calls keep -/

/-- With the slot locked, asking changes nothing: it is answered, or waits for ever. -/
theorem agreeOn_ensureReady_none (inv : World → Prop) (hold : Hold) :
    AgreeOn inv (World.site.ensureReady none hold) (World.site.ensureReady none hold) := by
  refine .get_bind fun w hw => ?_
  cases (World.site.collector.get w).readiness with
  | waiting initializer => exact ⟨rfl, hw⟩
  | done failure => exact ⟨rfl, hw⟩

/-- What every initializer keeps, and what does not depend on how far the initialization is. -/
theorem agreeOn_ensureReady {inv : World → Prop} {start : Starter World Initializer}
    (hready : ∀ (w : World) (startup : Startup Initializer), inv w → inv (w.withStartup startup))
    (hstart : ∀ i, AgreeOn inv (start hold i) (start hold i)) :
    AgreeOn inv (World.site.ensureReady (some start) hold)
      (World.site.ensureReady (some start) hold) := by
  have hclaim : AgreeOn inv (World.site.onCollector fun c => ((), c.claimed))
      (World.site.onCollector fun c => ((), c.claimed)) :=
    .onCollector fun w hw => hready w w.collector.startup.take hw
  have hsettle : ∀ result : Except CoverageError Unit,
      AgreeOn inv (World.site.onCollector fun c => (result, c.settle result))
        (World.site.onCollector fun c => (result, c.settle result)) :=
    fun result => .onCollector fun w hw => hready w (w.collector.startup.finish result) hw
  refine .get_bind fun w hw => ?_
  cases (World.site.collector.get w).readiness with
  | done failure => exact ⟨rfl, hw⟩
  | waiting pending =>
    cases pending with
    | none => exact hclaim.bind (fun _ => (AgreeOn.pure (Except.ok ())).bind hsettle) w hw
    | some i => exact hclaim.bind (fun _ => (hstart i).bind hsettle) w hw

/-- Where nobody asks, the initialization stays where it is, however initializers are run. -/
theorem upheld_quiet (readiness : Readiness Initializer)
    (start start' : Option (Starter World Initializer)) :
    Upheld (fun w => w.collector.readiness = readiness) start start' True
      fun call => call.asks = false ∧ call.setsUp = false where
  guard _ hw := hw
  mark _ hw := hw
  grow _ _ _ hw _ := hw
  ready hcall hasks := by
    rw [hcall.1] at hasks
    cases hasks
  setUp hcall hsets := by
    rw [hcall.2] at hsets
    cases hsets

/-- The initialization has ended so, and what the store held then is still there, in front. -/
structure World.Since (failure : Option String) (store : Store) (w : World) : Prop where
  readiness_eq : w.collector.readiness = .done failure
  grows : store.Grows w.collector.store

/-- Once the initialization is over, no initializer is run and nothing is taken away. -/
theorem upheld_since (failure : Option String) (store : Store)
    (start start' : Option (Starter World Initializer)) :
    Upheld (World.Since failure store) start start' True fun call => call.setsUp = false where
  guard _ hw := ⟨hw.readiness_eq, hw.grows⟩
  mark _ hw := ⟨hw.readiness_eq, hw.grows⟩
  grow _ _ _ hw hgrows := ⟨hw.readiness_eq, hw.grows.trans hgrows⟩
  ready _ _ hold _ := by
    intro w hw
    rw [run_ensureReady_of_done start hold hw.readiness_eq,
      run_ensureReady_of_done start' hold hw.readiness_eq]
    exact ⟨rfl, hw⟩
  setUp hcall hsets := by
    rw [hcall] at hsets
    cases hsets

/-- An initializer that has been taken is never there again. -/
theorem upheld_taken (start start' : Starter World Initializer) :
    Upheld (fun w => ∀ i, w.collector.readiness ≠ .waiting (some i)) (some start) (some start') True
      fun call => call.setsUp = false where
  guard _ hw := hw
  mark _ hw := hw
  grow _ _ _ hw _ := hw
  ready _ _ hold _ := by
    intro w hw
    cases hready : w.collector.readiness with
    | waiting initializer =>
      cases initializer with
      | none =>
        rw [run_ensureReady_of_none start hold hready, run_ensureReady_of_none start' hold hready]
        exact ⟨rfl, fun i hi => by cases hi⟩
      | some i => exact absurd hready (hw i)
    | done failure =>
      rw [run_ensureReady_of_done _ hold hready, run_ensureReady_of_done _ hold hready]
      exact ⟨rfl, hw⟩
  setUp hcall hsets := by
    rw [hcall] at hsets
    cases hsets

/-- With the slot locked, nothing changes the initialization. -/
theorem upheld_locked (readiness : Readiness Initializer) :
    Upheld (fun w => w.collector.readiness = readiness) none none True fun _ => True where
  guard _ hw := hw
  mark _ hw := hw
  grow _ _ _ hw _ := hw
  ready _ _ hold _ := agreeOn_ensureReady_none _ hold
  setUp {call} _ hsets hold _ := by
    cases call with
    | reset | replace other =>
      cases hold with
      | nobody => exact fun w hw => ⟨rfl, hw⟩
      | own => exact .throw .conflict
      | other => exact .throw .stuck
    | setInitializer during failure => exact .throw .stuck
    | initLog => exact fun w hw => ⟨rfl, hw⟩
    | _ => cases hsets

/-- Beyond its calls, an initializer only notes their answers. -/
theorem agreeOn_start {inv : World → Prop}
    (hcalls : AgreeOn inv (runAll none hold i.during) (runAll none hold i.during))
    (hlog : ∀ (w : World) (initLog : List (List Answer)), inv w → inv { w with initLog }) :
    AgreeOn inv (Initializer.start hold i) (Initializer.start hold i) := by
  refine hcalls.bind fun answers => ?_
  refine AgreeOn.bind (x := modify _) (fun w hw => ⟨rfl, hlog w _ hw⟩) fun _ => ?_
  cases i.failure with
  | none => exact .pure _
  | some e => exact .pure _

/-- An initializer does not change how far the initialization is: its slot is locked. -/
theorem readiness_start (hold : Hold) (i : Initializer) (w : World) :
    ((Initializer.start hold i).run.run w).2.collector.readiness = w.collector.readiness := by
  have hcalls : AgreeOn (fun w' => w'.collector.readiness = w.collector.readiness)
      (runAll none hold i.during) (runAll none hold i.during) :=
    (upheld_locked w.collector.readiness).runAll
      (fun call _ => call.throughout_of_forall fun _ => trivial) hold fun _ => trivial
  exact (agreeOn_start hcalls (fun _ _ hw' => hw') w rfl).2

/-! ## The call that asks -/

/-- What the call that runs the initializer is told of it. -/
def Answer.told : Except CoverageError Unit → Answer
  | .ok _ => .ok
  | .error e => .failed e

/-- What every later call is told of it. -/
def Answer.toldLater : Except CoverageError Unit → Answer
  | .ok _ => .ok
  | .error e => .failed (.initialization e.message)

/-- What a call does that has run the initializer. -/
def Call.afterwards (idle : Starter World Initializer) (result : Except CoverageError Unit) :
    Call → Run Answer
  | .ensureReady => return .told result
  | call => call.run (some idle) .nobody

section Asking

variable {start idle : Starter World Initializer} {call : Call} {result : Except CoverageError Unit}
  {w' : World}

theorem run_bind_congr {β : Type} {x y : Run α} {f g : α → Run β}
    (hx : x.run.run w = y.run.run w')
    (hf : ∀ a left, y.run.run w' = (.ok a, left) → (f a).run.run left = (g a).run.run left) :
    (x >>= f).run.run w = (y >>= g).run.run w' := by
  rw [run_bind_fallible, run_bind_fallible, hx]
  generalize hfound : y.run.run w' = found at hf
  obtain ⟨found, left⟩ := found
  cases found with
  | error e => rfl
  | ok a => exact hf a left rfl

/-- A record goes on as it does where the initialization has ended. -/
theorem run_record_settled (hready : (World.site.ensureReady (some start) hold).run.run w =
      (.ok result, w'.settled result)) (key : MemberKey) (values : Observation) (x : Run α) :
    (World.site.record (some start) hold key values x).run.run w =
      (World.site.record (some start) hold key values x).run.run (w'.settled result) := by
  have hagain := run_ensureReady_of_done (w := w'.settled result) (some start) hold rfl
  rw [Site.record, run_bind_of_ok hready, run_bind_of_ok hagain]

/-- A call that asks first runs the initializer, and then no other. -/
theorem run_asking (idle : Starter World Initializer) (hasks : call.asks = true)
    (hcall : call.Throughout fun inner => inner.setsUp = false)
    (hw : w.collector.readiness = .waiting (some i))
    (hfound : (start .nobody i).run.run w.claimed = (.ok result, w')) :
    (call.run (some start) .nobody).run.run w =
      (call.afterwards idle result).run.run (w'.settled result) := by
  have hready : (World.site.ensureReady (some start) .nobody).run.run w =
      (.ok result, w'.settled result) :=
    (run_ensureReady_of_some start .nobody hw).trans (run_runOnce_of_ok hfound)
  have hsince : (w'.settled result).Since _ w'.collector.store := ⟨rfl, .refl _⟩
  have hidle : (call.run (some start) .nobody).run.run (w'.settled result) =
      (call.run (some idle) .nobody).run.run (w'.settled result) :=
    ((upheld_since _ _ (some idle) (some start)).run hcall .nobody (fun _ => trivial) _ hsince).1
  cases call with
  | record key values =>
    refine Eq.trans ?_ hidle
    rw [Call.run, run_bind_fallible, run_bind_fallible, run_record_settled hready]
  | recordWith key values during =>
    refine Eq.trans ?_ hidle
    rw [Call.run, run_bind_fallible, run_bind_fallible, run_record_settled hready]
  | ensureReady =>
    rw [Call.run, run_bind_of_ok hready]
    cases result <;> rfl
  | _ => cases hasks

/-- If the initializer breaks off, so does the call that runs it. -/
theorem run_asking_of_error (hasks : call.asks = true) {e : Abrupt}
    (hw : w.collector.readiness = .waiting (some i))
    (hfound : (start hold i).run.run w.claimed = (.error e, w')) :
    (call.run (some start) hold).run.run w = (.error e, w') := by
  have hready : (World.site.ensureReady (some start) hold).run.run w = (.error e, w') :=
    (run_ensureReady_of_some start hold hw).trans (run_runOnce_of_error hfound)
  have hrecord : ∀ {α : Type} (key : MemberKey) (values : Observation) (x : Run α),
      (World.site.record (some start) hold key values x).run.run w = (.error e, w') := by
    intro α key values x
    rw [Site.record, run_bind_fallible, hready]
  cases call with
  | record key values => rw [Call.run, run_bind_fallible, hrecord]
  | recordWith key values during => rw [Call.run, run_bind_fallible, hrecord]
  | ensureReady => rw [Call.run, run_bind_fallible, hready]
  | _ => cases hasks

/-- What the initializer has left is kept by the call that has run it. -/
theorem agreeOn_afterwards {failure : Option String} {store : Store}
    (idle : Starter World Initializer) (result : Except CoverageError Unit)
    (hcall : call.Throughout fun inner => inner.setsUp = false) :
    AgreeOn (World.Since failure store) (call.afterwards idle result)
      (call.afterwards idle result) := by
  have u := upheld_since failure store (some idle) (some idle)
  cases call with
  | ensureReady => exact .pure _
  | _ => exact u.run hcall .nobody fun _ => trivial

theorem run_ensureReady_settled (start : Option (Starter World Initializer)) (hold : Hold)
    (h : w.collector.readiness = .done (Readiness.failureAfter none result)) :
    (Call.ensureReady.run start hold).run.run w = (.ok (.toldLater result), w) := by
  rw [Call.run, run_bind_of_ok (run_ensureReady_of_done start hold h)]
  cases result with
  | ok _ => rfl
  | error e => rfl

end Asking

/-! ## Every run -/

/-- The initializer that waits to be run. -/
def World.pending (w : World) : Option Initializer := w.collector.readiness.pending

/-- A call as it is made at the top: it sets an initializer, or it asks, or nothing during it does.
During none of them anything is set up. -/
inductive Call.AtTop : Call → Prop
  | setInitializer (during : List Call) (failure : Option CoverageError) :
      AtTop (.setInitializer during failure)
  | asking {call : Call} (hasks : call.asks = true)
      (h : call.Throughout fun inner => inner.setsUp = false) : AtTop call
  | quiet {call : Call}
      (h : call.Throughout fun inner => inner.asks = false ∧ inner.setsUp = false) : AtTop call

/-- The initializer that waits after a call. -/
def Call.pendingAfter (pending : Option Initializer) : Call → Option Initializer
  | .setInitializer during failure => some ⟨during, failure⟩
  | call => if call.asks then none else pending

/-- What a call does that runs the waiting initializer first if it asks, and no other. -/
def Call.runOncePending (start idle : Starter World Initializer) (pending : Option Initializer)
    (call : Call) : Run Answer :=
  match pending, call.asks with
  | some i, true => do call.afterwards idle (← runOnce start .nobody i)
  | _, _ => call.run (some idle) .nobody

/-- What calls do of which each runs the waiting initializer first if it asks. From then on none
waits, until another is set. -/
def onceEach (start idle : Starter World Initializer) :
    Option Initializer → List Call → Run (List Answer)
  | _, [] => return []
  | pending, call :: rest => do
    let answer ← call.runOncePending start idle pending
    return answer :: (← onceEach start idle (call.pendingAfter pending) rest)

section Every

variable {start idle : Starter World Initializer} {call : Call}

theorem pending_eq_some_iff : w.pending = some i ↔ w.collector.readiness = .waiting (some i) := by
  unfold World.pending
  cases w.collector.readiness with
  | waiting initializer => simp [Readiness.pending]
  | done failure => simp [Readiness.pending]

theorem pending_eq_none_iff :
    w.pending = none ↔ ∀ i, w.collector.readiness ≠ .waiting (some i) := by
  rw [Option.eq_none_iff_forall_ne_some]
  exact forall_congr' fun i => not_congr pending_eq_some_iff

theorem pendingAfter_of_not_setsUp (h : call.setsUp = false) (pending : Option Initializer) :
    call.pendingAfter pending = if call.asks then none else pending := by
  cases call with
  | setInitializer during failure => cases h
  | _ => rfl

theorem runOncePending_of_not_asks (h : call.asks = false) (pending : Option Initializer) :
    call.runOncePending start idle pending = call.run (some idle) .nobody := by
  unfold Call.runOncePending
  rw [h]
  cases pending <;> rfl

theorem runOncePending_of_asks (h : call.asks = true) (i : Initializer) :
    call.runOncePending start idle (some i) =
      runOnce start .nobody i >>= call.afterwards idle := by
  unfold Call.runOncePending
  rw [h]

/-- A call at the top runs the initializer that waits if it asks, and no other. -/
theorem run_atTop (start idle : Starter World Initializer) (hcall : call.AtTop) (w : World) :
    (call.run (some start) .nobody).run.run w =
        (call.runOncePending start idle w.pending).run.run w ∧
      ∀ answer left, (call.run (some start) .nobody).run.run w = (.ok answer, left) →
        left.pending = call.pendingAfter w.pending := by
  cases hcall with
  | setInitializer during failure =>
    rw [runOncePending_of_not_asks rfl]
    refine ⟨rfl, fun answer left hrun => ?_⟩
    cases hrun
    rfl
  | quiet h =>
    obtain ⟨hasks, hsets⟩ := h.here
    obtain ⟨hrun, hready⟩ := (upheld_quiet w.collector.readiness (some idle) (some start)).run
      h .nobody (fun _ => trivial) w rfl
    rw [runOncePending_of_not_asks hasks, pendingAfter_of_not_setsUp hsets, hasks]
    refine ⟨hrun, fun answer left hleft => ?_⟩
    rw [← hrun, hleft] at hready
    exact congrArg Readiness.pending hready
  | asking hasks h =>
    rw [pendingAfter_of_not_setsUp h.here, if_pos hasks]
    cases hpending : w.pending with
    | none =>
      obtain ⟨hrun, htaken⟩ := (upheld_taken idle start).run h .nobody (fun _ => trivial)
        w (pending_eq_none_iff.1 hpending)
      refine ⟨hrun, fun answer left hleft => ?_⟩
      rw [← hrun, hleft] at htaken
      exact pending_eq_none_iff.2 htaken
    | some i =>
      -- the initializer breaks off, and the call with it, or the call goes on where it has ended
      have hready := pending_eq_some_iff.1 hpending
      rw [runOncePending_of_asks hasks]
      generalize hfound : (start .nobody i).run.run w.claimed = found
      obtain ⟨result, w'⟩ := found
      cases result with
      | error e =>
        rw [run_asking_of_error hasks hready hfound, run_bind_fallible,
          run_runOnce_of_error hfound]
        exact ⟨rfl, fun answer left hleft => by cases hleft⟩
      | ok result =>
        have hsince : (w'.settled result).Since _ w'.collector.store := ⟨rfl, .refl _⟩
        obtain ⟨-, hkept⟩ := agreeOn_afterwards idle result h _ hsince
        rw [run_asking idle hasks h hready hfound,
          run_bind_of_ok (run_runOnce_of_ok hfound)]
        refine ⟨rfl, fun answer left hleft => ?_⟩
        rw [hleft] at hkept
        exact congrArg Readiness.pending hkept.readiness_eq

/-- Calls at the top run each initializer once, if a call asks before the next is set. -/
theorem runAll_atTop {calls : List Call} (hcalls : ∀ call ∈ calls, call.AtTop) (w : World) :
    (runAll (some start) .nobody calls).run.run w =
      (onceEach start idle w.pending calls).run.run w := by
  induction calls generalizing w with
  | nil => rfl
  | cons call rest ih =>
    obtain ⟨hcall, hrest⟩ := List.forall_mem_cons.1 hcalls
    obtain ⟨hrun, hpending⟩ := run_atTop start idle hcall w
    rw [runAll, onceEach]
    refine run_bind_congr hrun fun answer left hleft => ?_
    rw [← hpending answer left (hrun.trans hleft)]
    exact run_bind_congr (ih hrest left) fun answers last _ => rfl

/-- What the initializer has left is kept by the calls from the one on that has run it. -/
theorem since_runAll {first : Call} {rest : List Call} {result : Except CoverageError Unit}
    {w' : World} (hasks : first.asks = true)
    (hcalls : ∀ call ∈ first :: rest, call.Throughout fun inner => inner.setsUp = false)
    (hw : w.collector.readiness = .waiting (some i))
    (hfound : (start .nobody i).run.run w.claimed = (.ok result, w')) :
    let left := ((runAll (some start) .nobody (first :: rest)).run.run w).2
    left.collector.readiness = (w'.settled result).collector.readiness ∧
      w'.collector.store.Grows left.collector.store := by
  obtain ⟨hfirst, hrest⟩ := List.forall_mem_cons.1 hcalls
  obtain ⟨failure, hsince⟩ : ∃ failure, (w'.settled result).Since failure w'.collector.store :=
    ⟨_, rfl, .refl _⟩
  have hafter : AgreeOn (World.Since failure w'.collector.store)
      (do
        let answer ← first.afterwards start result
        return answer :: (← runAll (some start) .nobody rest))
      (do
        let answer ← first.afterwards start result
        return answer :: (← runAll (some start) .nobody rest)) :=
    (agreeOn_afterwards start result hfirst).bind fun answer =>
      ((upheld_since _ _ _ _).runAll hrest .nobody fun _ => trivial).bind fun answers => .pure _
  obtain ⟨-, hreadiness, hgrows⟩ := hafter _ hsince
  rw [runAll, run_bind_congr (run_asking start hasks hfirst hw hfound) fun _ _ _ => rfl]
  exact ⟨hreadiness.trans hsince.readiness_eq.symm, hgrows⟩

end Every

/-- **Each initializer is run once, by the first call that asks.** Calls at the top do what they do
when the initializer that waits is run by the first call that asks, before anything else that this
call does, and none is run at any other time, whatever else it may mean to run one. A call that asks
for nothing else is told the result. From then on, until another is set, what the initializer has
left in the store stays in front of all that is added, and who asks is told that it succeeded, or
the text of its error. To set another forgets how the earlier one ended. An initializer that breaks
off does not wait any more. -/
theorem initializer_run_once (start : Starter World Initializer)
    (hstart : ∀ hold i w,
      ((start hold i).run.run w).2.collector.readiness = w.collector.readiness) :
    (∀ (idle : Starter World Initializer) (w : World) (calls : List Call),
      (∀ call ∈ calls, call.AtTop) → (runAll (some start) .nobody calls).run.run w =
        (onceEach start idle w.pending calls).run.run w) ∧
    (∀ (w : World) (during : List Call) (failure : Option CoverageError),
      ((Call.setInitializer during failure).run (some start) .nobody).run.run w =
        (.ok .nothing, w.withReadiness (.waiting (some ⟨during, failure⟩)))) ∧
    ∀ (w : World) (i : Initializer) (first : Call) (rest : List Call), w.pending = some i →
      first.asks = true →
      (∀ call ∈ first :: rest, call.Throughout fun inner => inner.setsUp = false) →
      (∀ result w', (start .nobody i).run.run w.claimed = (.ok result, w') →
        ∀ answers left,
          (runAll (some start) .nobody (first :: rest)).run.run w = (answers, left) →
          w'.collector.store.Grows left.collector.store ∧
          ∀ start', (Call.ensureReady.run start' .nobody).run.run left =
            (.ok (.toldLater result), left)) ∧
      ∀ e w', (start .nobody i).run.run w.claimed = (.error e, w') →
        (runAll (some start) .nobody (first :: rest)).run.run w = (.error e, w') ∧
          w'.pending = none := by
  refine ⟨fun idle w calls hcalls => runAll_atTop hcalls w, fun _ _ _ => rfl, ?_⟩
  intro w i first rest hpending hasks hcalls
  have hw := pending_eq_some_iff.1 hpending
  -- the initializer leaves the slot empty, however it ends
  have hkept (ending : Except Abrupt (Except CoverageError Unit)) (w' : World)
      (hfound : (start .nobody i).run.run w.claimed = (ending, w')) :
      w'.collector.readiness = .waiting none := by
    have hsame := hstart .nobody i w.claimed
    rw [hfound, readiness_claimed hw] at hsame
    exact hsame
  refine ⟨fun result w' hfound answers left hleft => ?_, fun e w' hfound => ⟨?_, ?_⟩⟩
  · obtain ⟨hreadiness, hgrows⟩ := since_runAll hasks hcalls hw hfound
    rw [hleft] at hreadiness hgrows
    rw [readiness_settled (hkept (.ok result) w' hfound)] at hreadiness
    exact ⟨hgrows, fun start' => run_ensureReady_settled start' .nobody hreadiness⟩
  · rw [runAll, run_bind_fallible, run_asking_of_error hasks hw hfound]
  · exact congrArg Readiness.pending (hkept (.error e) w' hfound)

/-- Merges what an earlier run has seen, and then fails. -/
def failingMerge : Initializer :=
  ⟨[.merge (Store.empty.add ⟨"a.B", "m(I)V"⟩ [.int 0])], some (.line 1 .orphanObservation)⟩

/-- A collector whose initializer merges and fails. -/
def waitingWorld : World :=
  ⟨(Collector.new .empty .coverage none).setInitializer failingMerge, .free, []⟩

/-- Records the same member twice, and asks in between. -/
def recordingCalls : List Call :=
  [.record ⟨"a.B", "m(I)V"⟩ [.int 1], .ensureReady,
    .recordWith ⟨"a.B", "m(I)V"⟩ [.int 2] [.declare ⟨"a.B", "f:I"⟩]]

/-- What does not ask comes first, and at the end an initializer is set that succeeds. -/
def callsAround : List Call :=
  [.declare ⟨"c.D", "n()V"⟩, .write .plain (.withRoom (some 12)) none] ++ recordingCalls ++
    [.setInitializer [] none, .merge .empty, .ensureReady]

theorem initializer_run_once_failingMerge :
    ((∀ hold i w, ((Initializer.start hold i).run.run w).2.collector.readiness =
        w.collector.readiness) ∧ (∀ call ∈ callsAround, call.AtTop) ∧
      waitingWorld.pending = some failingMerge) ∧
    (∀ idle, (runAll (some Initializer.start) .nobody callsAround).run.run waitingWorld =
      (onceEach Initializer.start idle (some failingMerge) callsAround).run.run waitingWorld) ∧
    ∃ w' answers left, (Initializer.start .nobody failingMerge).run.run waitingWorld.claimed =
        (.ok (.error (.line 1 .orphanObservation)), w') ∧
      (runAll (some Initializer.start) .nobody recordingCalls).run.run waitingWorld =
        (answers, left) ∧
      w'.collector.store.Grows left.collector.store ∧
      ∀ start', (Call.ensureReady.run start' .nobody).run.run left =
        (.ok (.failed (.initialization
          (CoverageError.line 1 .orphanObservation).message)), left) := by
  have hsetsUp : ∀ call ∈ recordingCalls, call.Throughout fun inner => inner.setsUp = false := by
    intro call hcall
    simp only [recordingCalls, List.mem_cons, List.not_mem_nil, or_false] at hcall
    rcases hcall with rfl | rfl | rfl
    · exact .alone rfl fun _ => id
    · exact .alone rfl fun _ => id
    · refine .intro rfl fun inner hinner => ?_
      obtain rfl := List.mem_singleton.1 hinner
      exact .alone rfl fun _ => id
  have htop : ∀ call ∈ callsAround, call.AtTop := by
    intro call hcall
    simp only [callsAround, List.mem_append, List.mem_cons, List.not_mem_nil, or_false] at hcall
    rcases hcall with ((rfl | rfl) | hcall) | rfl | rfl | rfl
    · exact .quiet (.alone ⟨rfl, rfl⟩ fun _ => id)
    · exact .quiet (.alone ⟨rfl, rfl⟩ fun _ ⟨_, hnone, _⟩ => by cases hnone)
    · refine .asking ?_ (hsetsUp call hcall)
      simp only [recordingCalls, List.mem_cons, List.not_mem_nil, or_false] at hcall
      rcases hcall with rfl | rfl | rfl <;> rfl
    · exact .setInitializer [] none
    · exact .quiet (.alone ⟨rfl, rfl⟩ fun _ => id)
    · exact .asking rfl (.alone rfl fun _ => id)
  obtain ⟨hevery, -, hsince⟩ := initializer_run_once Initializer.start readiness_start
  have hfound : (Initializer.start .nobody failingMerge).run.run waitingWorld.claimed =
      (.ok (.error (.line 1 .orphanObservation)),
        ((Initializer.start .nobody failingMerge).run.run waitingWorld.claimed).2) :=
    Prod.ext rfl rfl
  obtain ⟨hgrows, hlater⟩ :=
    (hsince waitingWorld failingMerge _ _ rfl rfl hsetsUp).1 _ _ hfound _ _ rfl
  exact ⟨⟨readiness_start, htop, rfl⟩, fun idle => hevery idle _ _ htop,
    _, _, _, hfound, rfl, hgrows, hlater⟩

end Script

end ValueCoverage
