import ValueCoverage.Proofs.Collector.Held
import ValueCoverage.Proofs.Collector.History

/-!
# What is called during a write

While a collector writes its store, its thread holds the store and the codec may call the collector
again, in any depth: it records and declares, looks at the store and writes it somewhere else. All
that would add to the store is turned away. A write that is made during a write takes back too early
that the store is being written, and then the hold on the store turns away what follows. So the text
is that of the store that the write began with, and the write leaves the collector as it was.
-/

namespace ValueCoverage

open ThreadM

namespace Script

/-! ## What stays as it is -/

namespace World

/-- Nothing has changed, but that after a write the store no longer counts as being written. -/
def Lowered (mayWrite : Prop) (w w' : World) : Prop := w' = w ∨ mayWrite ∧ w' = w.mark false

/-- The collector is initialized and has this store. -/
structure Shows (w : World) (store : Store) : Prop where
  initialized : w.collector.isInitialized = true
  store_eq : w.collector.store = store

variable {mayWrite : Prop} {w w' w'' : World} {store : Store}

theorem Lowered.refl (w : World) : w.Lowered mayWrite w := .inl rfl

theorem Lowered.trans (h : w.Lowered mayWrite w') (h' : w'.Lowered mayWrite w'') :
    w.Lowered mayWrite w'' := by
  rcases h with rfl | ⟨hwrite, rfl⟩
  · exact h'
  · rcases h' with rfl | ⟨-, rfl⟩
    · exact .inr ⟨hwrite, rfl⟩
    · exact .inr ⟨hwrite, rfl⟩

theorem Lowered.shows (h : w.Lowered mayWrite w') (hw : w.Shows store) : w'.Shows store := by
  rcases h with rfl | ⟨-, rfl⟩
  · exact hw
  · exact ⟨hw.initialized, hw.store_eq⟩

/-- The guard that was taken is given back. -/
theorem Lowered.unguarded (hfree : w.guard = .free)
    (h : Lowered mayWrite { w with guard := ⟨1⟩ } w') :
    w.Lowered mayWrite { w' with guard := w'.guard.exit } := by
  have hguard : ({ w with guard := .free } : World) = w := by rw [← hfree]
  rcases h with rfl | ⟨hwrite, rfl⟩
  · exact .inl hguard
  · exact .inr ⟨hwrite, congrArg (mark false) hguard⟩

theorem Lowered.mark (h : (w.mark true).Lowered mayWrite w') : w'.mark false = w.mark false := by
  rcases h with rfl | ⟨-, rfl⟩ <;> rfl

end World

section Held

variable {mayWrite : Prop} {α : Type} {start : Option (Starter World Initializer)} {store : Store}
  {w : World}

/-- On an initialized collector, nothing changes while the store is held. -/
theorem upkeep_lowered (mayWrite : Prop) (start : Option (Starter World Initializer))
    (store : Store) :
    Upkeep True mayWrite start store (World.Shows · store) (World.Lowered mayWrite) where
  store_eq hw := hw.store_eq
  refl := .refl
  trans := .trans
  kept hw h := World.Lowered.shows h hw
  guarded hw := ⟨hw.initialized, hw.store_eq⟩
  unguarded := .unguarded
  raised hw := ⟨hw.initialized, hw.store_eq⟩
  lowered hwrite _ _ h := .inr ⟨hwrite, World.Lowered.mark h⟩
  ready _ w hw := by
    obtain ⟨result, hready⟩ : ∃ result,
        (World.site.ensureReady start .own).run.run w = (.ok result, w) :=
      Site.run_ensureReady_of_initialized start .own hw.initialized
    exact ⟨result, w, hready, .refl w, trivial⟩

/-- The computation ends well; it changes nothing, but that after a write the store no longer counts
as being written. -/
def Spares (mayWrite : Prop) (x : Run α) (w : World) (post : α → Prop) : Prop :=
  EndsWell (World.Lowered mayWrite) x w post

/-- A call that changes nothing in a store that this thread holds, and is answered so. -/
def Call.Spared (mayWrite : Prop) (start : Option (Starter World Initializer)) (store : Store)
    (call : Call) : Prop :=
  ∀ w : World, w.Shows store → Spares mayWrite (call.run start .own) w (TurnedAway store call)

theorem runAll_spares {calls : List Call}
    (hcalls : ∀ call ∈ calls, call.Spared mayWrite start store) (hw : w.Shows store) :
    Spares mayWrite (runAll start .own calls) w (List.Forall₂ (TurnedAway store) calls) :=
  (upkeep_lowered mayWrite start store).runAll hcalls hw

/-- A write that begins on a store writes it, and leaves it. -/
theorem write_spares {hold : Hold} (hhold : hold ≠ .other) (codec : Codec) (device : Device)
    {atObservation : Nat → Run α} {post : Nat → α → Prop}
    (hcalls : ∀ n w, w.Shows store → Spares mayWrite (atObservation n) w (post n))
    (hw : w.Shows store) :
    ∃ reached fault answers, (Run.write hold codec device atObservation).run.run w =
        (.ok (reached, Option.map .io fault, answers), w.mark false) ∧
      device.Emits (Text.Utf8.encode (CoverageFile.write codec store)) reached fault ∧
      (fault = none → answers.length = store.observationCount) ∧
      ∀ n a, answers[n]? = some a → post n a := by
  obtain ⟨reached, fault, answers, w', hrun, hlow, hwritten⟩ :=
    (upkeep_lowered mayWrite none store).write hhold codec device hcalls hw
  exact ⟨reached, fault, answers, hlow.mark ▸ hrun, hwritten⟩

/-- Whatever a codec calls is turned away. -/
theorem Call.FromCodec.spared {call : Call} (h : call.FromCodec mayWrite) :
    call.Spared mayWrite start store := by
  have hasks : call.Throughout fun inner => inner.asks = true → True :=
    throughout_of_forall (fun _ _ => trivial) call
  exact fun w hw => (upkeep_lowered mayWrite start store).turnedAway h hasks hw

end Held

/-! ## A write at the top -/

/-- **A write leaves the collector as it found it.** An initialized collector writes its store to
any device with any codec, and the codec calls the collector in any depth. Then all of the text of
the store reaches the device, or the front of it and the fault of the device is told. Whatever the
codec calls, on the way or through writes of its own, is turned away and changes nothing; only if it
has written is the mark of a write taken back. Afterwards, with a fault or without, that mark alone
has been taken back, so that the next record at the top is told the truth. -/
theorem write_leaves_collector (start : Option (Starter World Initializer)) {hold : Hold}
    (hhold : hold ≠ .other) {w : World} (hinit : w.collector.isInitialized = true) (codec : Codec)
    (device : Device) {during : Nat → List Call}
    (hduring : ∀ n, ∀ call ∈ during n, call.FromCodec True) :
    (∃ reached fault answers,
      ((Call.write codec device (some during)).run start hold).run.run w =
        (.ok (.written reached (Option.map .io fault) (some answers)), w.mark false) ∧
      device.Emits (Text.Utf8.encode (CoverageFile.write codec w.collector.store)) reached fault ∧
      reached <+: Text.Utf8.encode (CoverageFile.write codec w.collector.store) ∧
      (fault = none → reached = Text.Utf8.encode (CoverageFile.write codec w.collector.store) ∧
        answers.length = w.collector.store.observationCount) ∧
      ∀ n found, answers[n]? = some found →
        List.Forall₂ (TurnedAway w.collector.store) (during n) found) ∧
    (∀ (mayWrite : Prop) (call : Call), call.FromCodec mayWrite →
      ∀ w' : World, w'.collector.isInitialized = true →
        ∃ answer w'', (call.run start .own).run.run w' = (.ok answer, w'') ∧
          w'.Lowered mayWrite w'' ∧ TurnedAway w'.collector.store call answer) ∧
    (w.guard = .free → ∀ call : Call, call.Feeds → ∃ answer left,
      (call.run start .nobody).run.run (w.mark false) = (.ok answer,
        { w.mark false with collector := { (w.mark false).collector with store := left } }) ∧
      call.AnsweredTruly (w.mark false).collector w.collector.store left answer) := by
  have hw : w.Shows w.collector.store := ⟨hinit, rfl⟩
  have hcalls : ∀ n (w' : World), w'.Shows w.collector.store →
      Spares True (runAll start .own (during n)) w'
        (List.Forall₂ (TurnedAway w.collector.store) (during n)) :=
    fun n w' hw' => runAll_spares (fun call hcall => (hduring n call hcall).spared) hw'
  refine ⟨?_, fun mayWrite call hcall w' hinit' => hcall.spared w' ⟨hinit', rfl⟩,
    fun hfree call hcall => ?_⟩
  · obtain ⟨reached, fault, answers, hrun, hemits, hasked, hanswers⟩ :=
      write_spares hhold codec device hcalls hw
    refine ⟨reached, fault, answers, ?_, hemits, hemits.front.1,
      fun hnone => ⟨hemits.front.2 hnone, hasked hnone⟩, hanswers⟩
    rw [Call.run, run_bind_of_ok hrun]
    rfl
  · have hrest : (w.mark false).collector.AtRest := ⟨hinit, rfl⟩
    obtain ⟨answer, hrun, htruly⟩ := run_feeding start hrest hcall w.collector.store w.initLog
    have hworld : w.mark false = ⟨(w.mark false).collector, .free, w.initLog⟩ := by
      rw [← hfree]
      rfl
    refine ⟨answer, _, ?_, htruly⟩
    rw [hworld]
    exact hrun

/-- A collector that has recorded a call. -/
def recordedWorld : World :=
  ⟨{ plainCollector with store := Store.empty.add ⟨"a.B", "m(I)V"⟩ [.text "5"] }, .free, []⟩

/-- A write during the write, which records itself, and records behind it. -/
def callsOfCodec : List Call :=
  [.write .plain (.withRoom none) (some fun _ => [.declare ⟨"c.D", "f:I"⟩]),
    .recordWith ⟨"a.B", "m(I)V"⟩ [.int 7] [.record ⟨"c.D", "n()V"⟩ []]]

theorem write_leaves_recordedWorld :
    (recordedWorld.collector.isInitialized = true ∧
      (∀ call ∈ callsOfCodec, call.FromCodec True) ∧ recordedWorld.guard = .free ∧
      (Call.record ⟨"c.D", "n()V"⟩ []).Feeds) ∧
    (∃ (reached : Bytes) (fault : Option IoFault) (answers : List (List Answer)),
      ((Call.write .plain (.withRoom (some 12)) (some fun _ => callsOfCodec)).run none
        .nobody).run.run recordedWorld =
          (.ok (.written reached (Option.map .io fault) (some answers)),
            recordedWorld.mark false) ∧
      reached <+: Text.Utf8.encode (CoverageFile.write .plain recordedWorld.collector.store) ∧
      (fault = none → answers.length = recordedWorld.collector.store.observationCount) ∧
      ∀ (n : Nat) (found : List Answer), answers[n]? = some found →
        List.Forall₂ (TurnedAway recordedWorld.collector.store) callsOfCodec found) ∧
    (∃ answer, ((Call.record ⟨"c.D", "n()V"⟩ []).run none .own).run.run recordedWorld =
      (.ok answer, recordedWorld) ∧
        TurnedAway recordedWorld.collector.store (.record ⟨"c.D", "n()V"⟩ []) answer) ∧
    ∃ answer left, ((Call.record ⟨"c.D", "n()V"⟩ []).run none .nobody).run.run
        (recordedWorld.mark false) =
          (.ok answer, { recordedWorld.mark false with
            collector := { (recordedWorld.mark false).collector with store := left } }) ∧
      (Call.record ⟨"c.D", "n()V"⟩ []).AnsweredTruly (recordedWorld.mark false).collector
        recordedWorld.collector.store left answer := by
  have hcalls : ∀ call ∈ callsOfCodec, call.FromCodec True := by
    intro call hcall
    simp only [callsOfCodec, List.mem_cons, List.not_mem_nil, or_false] at hcall
    rcases hcall with rfl | rfl
    · refine .write trivial _ _ ?_
      rintro _ ⟨⟩ n call hcall
      obtain rfl := List.mem_singleton.1 hcall
      exact .declare _
    · refine .recordWith _ _ fun call hcall => ?_
      obtain rfl := List.mem_singleton.1 hcall
      exact .record _ _
  have hfeeds : (Call.record ⟨"c.D", "n()V"⟩ []).Feeds := .record _ _
  obtain ⟨⟨reached, fault, answers, hrun, -, hfront, hall, hanswers⟩, haway, hnext⟩ :=
    write_leaves_collector none Hold.nobody_ne_other (w := recordedWorld) rfl .plain
      (.withRoom (some 12)) fun _ => hcalls
  obtain ⟨answer, w', hrecord, hlow, hturned⟩ :=
    haway False (.record ⟨"c.D", "n()V"⟩ []) (.record _ _) recordedWorld rfl
  obtain rfl : w' = recordedWorld := hlow.resolve_right And.left
  exact ⟨⟨rfl, hcalls, rfl, hfeeds⟩,
    ⟨reached, fault, answers, hrun, hfront, fun hnone => (hall hnone).2, hanswers⟩,
    ⟨answer, hrecord, hturned⟩, hnext rfl _ hfeeds⟩

end Script

end ValueCoverage
