import ValueCoverage.Proofs.Collector.Held
import ValueCoverage.Proofs.Collector.Initialization

/-!
# Records on a store that is held

A thread that holds the store of a collector records and declares on it. The store stays as it is.
A declaration is told that nothing is new, and a record that it is turned away, unless it is the
first call that asks for the initialization: then the initializer is run, and where that merges, it
breaks off, since it cannot have the store for itself. It has been taken and is not run again.
-/

namespace ValueCoverage

open ThreadM

namespace Script

/-! ## The store stays as it is -/

/-- What sets something up cannot have a store for itself that is held. -/
theorem agreeOn_setUp_held {start : Option (Starter World Initializer)} {hold : Hold}
    (hhold : hold ≠ .nobody) (store : Store) {call : Call} (hsets : call.setsUp = true) :
    AgreeOn (fun w => w.collector.store = store) (call.run start hold) (call.run start hold) := by
  cases call with
  | reset | replace other =>
    cases hold with
    | nobody => exact absurd rfl hhold
    | own => exact .throw .conflict
    | other => exact .throw .stuck
  | setInitializer during failure =>
    cases start with
    | none => exact .throw .stuck
    | some start => exact fun w hw => ⟨rfl, hw⟩
  | initLog => exact fun w hw => ⟨rfl, hw⟩
  | _ => cases hsets

theorem upheld_store_locked (store : Store) :
    Upheld (fun w => w.collector.store = store) none none False fun _ => True where
  guard _ hw := hw
  mark _ hw := hw
  grow hfree := hfree.elim
  ready _ _ hold _ := agreeOn_ensureReady_none _ hold
  setUp _ hsets _ hhold := agreeOn_setUp_held hhold store hsets

/-- Nothing that is called while the store is held changes it, nor does any initializer. -/
theorem upheld_store (store : Store) :
    Upheld (fun w => w.collector.store = store) (some Initializer.start) (some Initializer.start)
      False fun _ => True where
  guard _ hw := hw
  mark _ hw := hw
  grow hfree := hfree.elim
  setUp _ hsets _ hhold := agreeOn_setUp_held hhold store hsets
  ready _ _ hold hhold := agreeOn_ensureReady (fun _ _ hw => hw) fun _ =>
    agreeOn_start ((upheld_store_locked store).runAll
      (fun call _ => call.throughout_of_forall fun _ => trivial) hold hhold) fun _ _ hw => hw

/-! ## Initializers that change nothing -/

/-- A call that changes no store and does not ask for the initialization. -/
def Call.Harmless (call : Call) : Prop :=
  call.FromCodec True ∧ call.Throughout fun inner => inner.asks = false

/-- How the initialization stands once it has come to its end. -/
def ended : Readiness Initializer → Readiness Initializer
  | .waiting none => .done none
  | .waiting (some i) => .done (i.failure.map CoverageError.message)
  | .done failure => .done failure

/-- What calls leave that are made while the store is held. The initialization stands as before, or
if they may ask for it, it has come to its end. -/
structure World.Left (mayAsk : Prop) (w w' : World) : Prop where
  store_eq : w'.collector.store = w.collector.store
  mode_eq : w'.collector.mode = w.collector.mode
  canonical_eq : w'.collector.canonical = w.collector.canonical
  guard_eq : w'.guard = w.guard
  idle : w.collector.writing = false → w'.collector.writing = false
  readiness : w'.collector.readiness = w.collector.readiness ∨
    mayAsk ∧ w'.collector.readiness = ended w.collector.readiness

section Left

variable {mayAsk : Prop} {w w' w'' : World}

theorem ended_ended (readiness : Readiness Initializer) :
    ended (ended readiness) = ended readiness := by
  cases readiness with
  | waiting pending => cases pending <;> rfl
  | done failure => rfl

theorem World.Left.refl (w : World) : w.Left mayAsk w := ⟨rfl, rfl, rfl, rfl, id, .inl rfl⟩

theorem World.Left.trans (h : w.Left mayAsk w') (h' : w'.Left mayAsk w'') :
    w.Left mayAsk w'' where
  store_eq := h'.store_eq.trans h.store_eq
  mode_eq := h'.mode_eq.trans h.mode_eq
  canonical_eq := h'.canonical_eq.trans h.canonical_eq
  guard_eq := h'.guard_eq.trans h.guard_eq
  idle hidle := h'.idle (h.idle hidle)
  readiness := by
    rcases h.readiness with hsame | ⟨hask, hended⟩
    · rw [← hsame]
      exact h'.readiness
    · rcases h'.readiness with hsame' | ⟨-, hended'⟩
      · exact .inr ⟨hask, hsame'.trans hended⟩
      · exact .inr ⟨hask, by rw [hended', hended, ended_ended]⟩

theorem World.Left.readiness_eq (h : w.Left False w') :
    w'.collector.readiness = w.collector.readiness :=
  h.readiness.resolve_right fun hended => hended.1

theorem World.Left.unguarded (hfree : w.guard = .free)
    (h : World.Left mayAsk { w with guard := ⟨1⟩ } w') :
    w.Left mayAsk { w' with guard := w'.guard.exit } where
  store_eq := h.store_eq
  mode_eq := h.mode_eq
  canonical_eq := h.canonical_eq
  guard_eq := by
    rw [hfree]
    exact congrArg Guard.exit h.guard_eq
  idle := h.idle
  readiness := h.readiness

theorem World.Left.lowered (h : (w.mark true).Left mayAsk w') :
    w.Left mayAsk (w'.mark false) where
  store_eq := h.store_eq
  mode_eq := h.mode_eq
  canonical_eq := h.canonical_eq
  guard_eq := h.guard_eq
  idle _ := rfl
  readiness := h.readiness

end Left

/-- Calls that do not ask leave the initialization as it stands. -/
theorem upkeep_harmless (start : Option (Starter World Initializer)) (store : Store) :
    Upkeep False True start store (fun w => w.collector.store = store) (World.Left False) where
  store_eq hw := hw
  refl := .refl
  trans := .trans
  kept hw h := h.store_eq.trans hw
  guarded hw := hw
  unguarded := .unguarded
  raised hw := hw
  lowered _ _ _ h := World.Left.lowered h
  ready hask := hask.elim

/-- Such a call is turned away without an initializer. -/
theorem harmless_turnedAway {call : Call} (h : call.Harmless) {w : World} {store : Store}
    (hw : w.collector.store = store) :
    EndsWell (World.Left False) (call.run none .own) w (TurnedAway store call) :=
  (upkeep_harmless none store).turnedAway h.1
    (h.2.mono fun inner hinner hasks => by simp [hinner] at hasks) hw

/-- An initializer that changes no store comes to its end while the store is held. -/
theorem run_start_harmless {i : Initializer} (hi : ∀ call ∈ i.during, call.Harmless) {w : World}
    (hw : w.collector.readiness = .waiting none) :
    ∃ result w', (Initializer.start .own i).run.run w = (.ok result, w') ∧ w.Left False w' ∧
      (w'.settled result).collector.readiness = ended (.waiting (some i)) := by
  obtain ⟨answers, w', hrun, hleft, -⟩ := (upkeep_harmless none w.collector.store).runAll
    (fun call hcall _ => harmless_turnedAway (hi call hcall)) rfl
  have hlogged : w.Left False { w' with initLog := w'.initLog ++ [answers] } :=
    ⟨hleft.store_eq, hleft.mode_eq, hleft.canonical_eq, hleft.guard_eq, hleft.idle,
      hleft.readiness⟩
  have hsettled (result : Except CoverageError Unit) :=
    readiness_settled (hlogged.readiness_eq.trans hw) result
  rw [Initializer.start, run_bind_of_ok hrun]
  cases hfailure : i.failure with
  | none => exact ⟨.ok (), _, rfl, hlogged, by rw [ended, hfailure]; exact hsettled _⟩
  | some e => exact ⟨.error e, _, rfl, hlogged, by rw [ended, hfailure]; exact hsettled _⟩

/-- The initializer that waits, if there is one, changes no store. -/
def World.Unburdened (w : World) : Prop :=
  ∀ i, w.pending = some i → ∀ call ∈ i.during, call.Harmless

theorem ensureReady_harmless {w : World} (hw : w.Unburdened) :
    EndsWell (World.Left True) (World.site.ensureReady (some Initializer.start) .own) w
      fun _ => True := by
  cases hready : w.collector.readiness with
  | done failure =>
    exact ⟨_, w, run_ensureReady_of_done _ .own hready, .refl w, trivial⟩
  | waiting pending =>
    cases pending with
    | none =>
      have hended : (w.claimed.settled (.ok ())).collector.readiness =
          ended w.collector.readiness := by
        rw [hready]
        exact readiness_settled (readiness_claimed hready) (.ok ())
      refine ⟨_, _, run_ensureReady_of_none _ .own hready, ?_, trivial⟩
      exact ⟨rfl, rfl, rfl, rfl, id, .inr ⟨trivial, hended⟩⟩
    | some i =>
      obtain ⟨result, w', hrun, hleft, hended⟩ :=
        run_start_harmless (hw i (pending_eq_some_iff.2 hready)) (readiness_claimed hready)
      refine ⟨_, _, (run_ensureReady_of_some _ .own hready).trans (run_runOnce_of_ok hrun), ?_,
        trivial⟩
      exact ⟨hleft.store_eq, hleft.mode_eq, hleft.canonical_eq, hleft.guard_eq, hleft.idle,
        .inr ⟨trivial, by rw [hready, hended]⟩⟩

theorem upkeep_unburdened (store : Store) :
    Upkeep True True (some Initializer.start) store
      (fun w => w.collector.store = store ∧ w.Unburdened) (World.Left True) where
  store_eq hw := hw.1
  refl := .refl
  trans := .trans
  kept {w w'} hw h := by
    refine ⟨h.store_eq.trans hw.1, fun i hi => ?_⟩
    have hready := pending_eq_some_iff.1 hi
    rcases h.readiness with hsame | ⟨-, hended⟩
    · exact hw.2 i (pending_eq_some_iff.2 (hsame.symm.trans hready))
    · -- an initialization that has come to its end does not wait
      rw [hready] at hended
      cases hbefore : w.collector.readiness with
      | waiting pending => cases pending <;> simp [hbefore, ended] at hended
      | done failure => simp [hbefore, ended] at hended
  guarded hw := hw
  unguarded := .unguarded
  raised hw := hw
  lowered _ _ _ h := World.Left.lowered h
  ready _ _ hw := ensureReady_harmless hw.2

/-! ## Initializers that merge -/

theorem runAll_append (start : Option (Starter World Initializer)) (hold : Hold)
    (calls more : List Call) :
    runAll start hold (calls ++ more) = do
      let before ← runAll start hold calls
      let after ← runAll start hold more
      return before ++ after := by
  induction calls with
  | nil => simp [runAll]
  | cons call rest ih => simp [runAll, ih]

/-- The first merge breaks off, since its thread holds the store. -/
theorem run_start_of_merge {before : List Call} (hbefore : ∀ call ∈ before, call.Harmless)
    (other : Store) (after : List Call) (failure : Option CoverageError) (w : World) :
    ∃ w', (Initializer.start .own ⟨before ++ .merge other :: after, failure⟩).run.run w =
      (.error .conflict, w') := by
  obtain ⟨answers, w', hrun, -, -⟩ := (upkeep_harmless none w.collector.store).runAll
    (fun call hcall _ => harmless_turnedAway (hbefore call hcall)) rfl
  have hmerge : (runAll none .own (Call.merge other :: after)).run.run w' =
      (.error .conflict, w') := rfl
  refine ⟨w', ?_⟩
  rw [Initializer.start, run_bind_fallible, runAll_append, run_bind_of_ok hrun, run_bind_fallible,
    hmerge]

/-- **What is called while the store is held changes nothing in it.** A declaration is told that
nothing is new, and nothing else happens. If the initializer that waits changes no store, or none
waits, then all records, declarations, looks and writes, in any depth, end well and are turned away,
whether the store is read or written; the initialization stands as before or has come to its end.
But an initializer that merges breaks off, with the call that asks for it, and waits no more. -/
theorem turned_away_while_held (w : World) :
    (∀ call : Call, ((call.run (some Initializer.start) .own).run.run w).2.collector.store =
      w.collector.store) ∧
    (∀ key, ((Call.declare key).run (some Initializer.start) .own).run.run w =
      (.ok (.flag false), w)) ∧
    (w.Unburdened →
      (∀ call : Call, call.FromCodec True → ∃ answer w',
        (call.run (some Initializer.start) .own).run.run w = (.ok answer, w') ∧
          TurnedAway w.collector.store call answer ∧ w.Left True w') ∧
      (∀ during : List Call, (∀ call ∈ during, call.FromCodec True) → ∃ answers w',
        ((Call.withStore during).run (some Initializer.start) .nobody).run.run w =
            (.ok (.read w.collector.store.memberCount answers), w') ∧
          List.Forall₂ (TurnedAway w.collector.store) during answers ∧ w.Left True w') ∧
      ∀ (codec : Codec) (device : Device) (during : Nat → List Call),
        (∀ n, ∀ call ∈ during n, call.FromCodec True) → ∃ reached fault answers w',
          ((Call.write codec device (some during)).run (some Initializer.start)
              .nobody).run.run w = (.ok (.written reached fault (some answers)), w') ∧
            (∀ n found, answers[n]? = some found →
              List.Forall₂ (TurnedAway w.collector.store) (during n) found) ∧ w.Left True w') ∧
    ∀ (before : List Call) (other : Store) (after : List Call) (failure : Option CoverageError),
      w.pending = some ⟨before ++ .merge other :: after, failure⟩ →
      (∀ call ∈ before, call.Harmless) → ∀ call : Call, call.asks = true →
        ∃ w', (call.run (some Initializer.start) .own).run.run w = (.error .conflict, w') ∧
          w'.pending = none := by
  have u := upkeep_unburdened w.collector.store
  have haway : ∀ call : Call, call.FromCodec True → ∀ w' : World,
      w'.collector.store = w.collector.store ∧ w'.Unburdened →
        EndsWell (World.Left True) (call.run (some Initializer.start) .own) w'
          (TurnedAway w.collector.store call) := fun call hcall w' hw' =>
    u.turnedAway hcall (call.throughout_of_forall fun _ _ => trivial) hw'
  refine ⟨fun call => ?_, fun key => rfl, fun hw => ⟨fun call hcall => ?_, fun during hduring => ?_,
    fun codec device during hduring => ?_⟩, ?_⟩
  · exact ((upheld_store w.collector.store).run (call.throughout_of_forall fun _ => trivial) .own
      (fun hown => by cases hown) w rfl).2
  · obtain ⟨answer, w', hrun, hleft, hanswer⟩ := haway call hcall w ⟨rfl, hw⟩
    exact ⟨answer, w', hrun, hanswer, hleft⟩
  · obtain ⟨answers, w', hrun, hleft, hanswers⟩ :=
      u.runAll (fun call hcall => haway call (hduring call hcall)) ⟨rfl, hw⟩
    refine ⟨answers, w', ?_, hanswers, hleft⟩
    rw [Call.run, run_bind_of_ok (run_lock Hold.nobody_ne_other w), run_bind_of_ok (run_get w),
      run_bind_of_ok hrun]
    rfl
  · obtain ⟨reached, fault, answers, w', hrun, hleft, -, -, hanswers⟩ :=
      u.write Hold.nobody_ne_other codec device (fun n w' hw' =>
        u.runAll (fun call hcall => haway call (hduring n call hcall)) hw') ⟨rfl, hw⟩
    refine ⟨reached, Option.map .io fault, answers, w'.mark false, ?_, hanswers, .lowered hleft⟩
    rw [Call.run, run_bind_of_ok hrun]
    rfl
  · intro before other after failure hpending hbefore call hasks
    obtain ⟨w', hfound⟩ := run_start_of_merge hbefore other after failure w.claimed
    have hready := pending_eq_some_iff.1 hpending
    refine ⟨w', run_asking_of_error hasks hready hfound, ?_⟩
    have hsame := readiness_start .own ⟨before ++ .merge other :: after, failure⟩ w.claimed
    rw [hfound, readiness_claimed hready] at hsame
    exact congrArg Readiness.pending hsame

/-- A collector whose initializer declares a member. -/
def declaringWorld : World :=
  ⟨(Collector.new .empty .coverage none).setInitializer ⟨[.declare ⟨"c.D", "n()V"⟩], none⟩,
    .free, []⟩

/-- A record during which another is made, and a write during which one is made. -/
def callsOnHeld : List Call :=
  [.recordWith ⟨"a.B", "m(I)V"⟩ [.int 1] [.record ⟨"a.B", "n()V"⟩ []],
    .write .plain (.withRoom none) (some fun _ => [.declare ⟨"a.B", "f:I"⟩])]

theorem turned_away_while_held_declaringWorld :
    (declaringWorld.Unburdened ∧ ∀ call ∈ callsOnHeld, call.FromCodec True) ∧
    (∃ answers w', ((Call.withStore callsOnHeld).run (some Initializer.start)
        .nobody).run.run declaringWorld = (.ok (.read 0 answers), w') ∧
      List.Forall₂ (TurnedAway .empty) callsOnHeld answers ∧ declaringWorld.Left True w') ∧
    ∃ w', ((Call.record ⟨"a.B", "m(I)V"⟩ []).run (some Initializer.start) .own).run.run
        (declaringWorld.withReadiness (.waiting (some ⟨[.merge .empty], none⟩))) =
          (.error .conflict, w') ∧ w'.pending = none := by
  have hcalls : ∀ call ∈ callsOnHeld, call.FromCodec True := by
    intro call hcall
    simp only [callsOnHeld, List.mem_cons, List.not_mem_nil, or_false] at hcall
    rcases hcall with rfl | rfl
    · refine .recordWith _ _ fun call hcall => ?_
      obtain rfl := List.mem_singleton.1 hcall
      exact .record _ _
    · refine .write trivial _ _ ?_
      rintro _ ⟨⟩ n call hcall
      obtain rfl := List.mem_singleton.1 hcall
      exact .declare _
  have hunburdened : declaringWorld.Unburdened := by
    rintro i ⟨⟩ call hcall
    obtain rfl := List.mem_singleton.1 hcall
    exact ⟨.declare _, .alone rfl fun _ => id⟩
  obtain ⟨-, -, haway, -⟩ := turned_away_while_held declaringWorld
  obtain ⟨-, -, -, hmerge⟩ := turned_away_while_held
    (declaringWorld.withReadiness (.waiting (some ⟨[.merge .empty], none⟩)))
  exact ⟨⟨hunburdened, hcalls⟩, (haway hunburdened).2.1 callsOnHeld hcalls,
    hmerge [] .empty [] none rfl (by simp) (.record _ _) rfl⟩

/-- An initializer merges what an earlier run has seen. The first record is made while the store is
read. -/
def callsOnRead : List Call :=
  [.setInitializer [.merge (Store.empty.add ⟨"a.B", "m(I)V"⟩ [.int 0])] none,
    .withStore [.record ⟨"a.B", "m(I)V"⟩ [.int 1]]]

/-- What they leave. -/
def collectorAfterRead : Collector Initializer :=
  (Script.run (.new .empty .coverage none) callsOnRead).2

/-- The first record breaks off. The initializer is gone with it: the next record finds an empty
store, and what was to be merged is never there. -/
theorem merge_lost_while_held :
    (Script.run (.new .empty .coverage none) callsOnRead).1 = .error .conflict ∧
      collectorAfterRead.readiness = .waiting none ∧ collectorAfterRead.store = .empty ∧
      (Script.run collectorAfterRead [.record ⟨"a.B", "m(I)V"⟩ [.int 2]]).1 =
        .ok [.outcome .recorded] ∧
      (Script.run collectorAfterRead [.record ⟨"a.B", "m(I)V"⟩ [.int 2]]).2.store.observationsOf
        ⟨"a.B", "m(I)V"⟩ = [[.int 2]] :=
  ⟨rfl, rfl, rfl, rfl, rfl⟩

end Script

end ValueCoverage
