import ValueCoverage.Proofs.Collector.Throughout
import ValueCoverage.Proofs.Text.Utf8

/-!
# Calls while the store is held

A thread holds the store while it writes it or shows it to others, and what runs meanwhile may call
the collector, in any depth: it records and declares, looks at the store and writes it somewhere
else. Nothing is added to the store then. Every such call ends well as long as asking for the
initialization does, and what asking leaves as it is, all of them do.
-/

namespace ValueCoverage

open ThreadM

/-- The outcome of a record that has changed nothing. -/
def Outcome.IsTurnedAway (outcome : Outcome) : Prop :=
  outcome = .serializing ∨ outcome = .busy ∨ outcome = .reentrant

/-- Nothing is changed in a store that this thread holds. -/
theorem Collector.change_own {ι : Type} (c : Collector ι) (f : Store → Outcome × Store) :
    ∃ outcome : Outcome, outcome.IsTurnedAway ∧ c.change .own f = (outcome, c) := by
  cases hwriting : c.writing with
  | true => exact ⟨.serializing, .inl rfl, by simp [change, hwriting]⟩
  | false => exact ⟨.busy, .inr (.inl rfl), by simp [change, hwriting]⟩

namespace Script

/-! ## What reaches a device -/

/-- What reaches a device of a text, and what goes wrong: it takes the whole text, and may fail when
that is brought to its end, or it takes a part of the text and fails. -/
inductive Device.Emits (device : Device) (text : Bytes) : Bytes → Option IoFault → Prop
  | whole : Emits device text text (device.flush? text.reverse)
  | refused {before more after : Bytes} {taken : Nat} {fault : IoFault}
      (htext : text = before ++ more ++ after)
      (h : device.refuses? before.reverse more = some (taken, fault)) :
      Emits device text (before ++ more.take taken) (some fault)

/-- Without a fault all of the text has reached the device, and with one the front of it. -/
theorem Device.Emits.front {device : Device} {text reached : Bytes} {fault : Option IoFault}
    (h : device.Emits text reached fault) : reached <+: text ∧ (fault = none → reached = text) := by
  cases h with
  | whole => exact ⟨List.prefix_refl _, fun _ => rfl⟩
  | @refused before more after taken fault htext h =>
    refine ⟨?_, fun hnone => by cases hnone⟩
    rw [htext, List.append_assoc]
    exact (List.prefix_append_right_inj _).2
      ((List.take_prefix _ _).trans (List.prefix_append _ _))

/-- The text of a store is that of its lines. -/
theorem encode_write (codec : Codec) (store : Store) :
    Text.Utf8.encode (CoverageFile.write codec store) =
      (CoverageFile.linesOf store).flatMap fun line => Text.Utf8.encode (line.text codec) := by
  rw [CoverageFile.write, Text.Utf8.encode_join, List.flatMap_map]

/-- Whether a line is that of an observation. -/
def isObserved : CoverageFile.Line → Bool
  | .header _ => false
  | .observed _ => true

theorem countP_linesOf (store : Store) :
    (CoverageFile.linesOf store).countP isObserved = store.observationCount := by
  unfold CoverageFile.linesOf Store.observationCount
  induction store.entries with
  | nil => rfl
  | cons e rest ih =>
    have hall : (e.observations.items.map CoverageFile.Line.observed).countP isObserved =
        e.observations.items.length := by
      rw [List.countP_map]
      exact List.countP_eq_length.2 fun _ _ => rfl
    rw [List.flatMap_cons, List.countP_append, List.countP_cons_of_neg (by simp [isObserved]), hall,
      ih, List.foldr_cons]

/-! ## Calls of a codec -/

/-- Whether a call does no more than look. -/
def Call.isLook : Call → Bool
  | .snapshot | .mode | .isInitialized | .depth | .shown | .ensureReady => true
  | _ => false

/-- A call that a codec may make, and all calls during it: records and declarations, looks, calls
under the guard or with the store at hand, and if `mayWrite` also writes. -/
inductive Call.FromCodec (mayWrite : Prop) : Call → Prop
  | record (key : MemberKey) (values : Observation) : FromCodec mayWrite (.record key values)
  | recordWith (key : MemberKey) (values : Observation) {during : List Call}
      (h : ∀ call ∈ during, call.FromCodec mayWrite) :
      FromCodec mayWrite (.recordWith key values during)
  | declare (key : MemberKey) : FromCodec mayWrite (.declare key)
  | announce (key : MemberKey) : FromCodec mayWrite (.announce key)
  | write (hwrite : mayWrite) (codec : Codec) (device : Device) {during : Option (Nat → List Call)}
      (h : ∀ calls ∈ during, ∀ n, ∀ call ∈ calls n, call.FromCodec mayWrite) :
      FromCodec mayWrite (.write codec device during)
  | withStore {during : List Call} (h : ∀ call ∈ during, call.FromCodec mayWrite) :
      FromCodec mayWrite (.withStore during)
  | guarded {during : List Call} (h : ∀ call ∈ during, call.FromCodec mayWrite) :
      FromCodec mayWrite (.guarded during)
  | attempt {during : List Call} (h : ∀ call ∈ during, call.FromCodec mayWrite) :
      FromCodec mayWrite (.attempt during)
  | look {call : Call} (h : call.isLook = true) : FromCodec mayWrite call

/-- What such a call is answered while the store is held: a record, that it is turned away, a
declaration, that nothing is new; a write has written this very store. So are all calls that are
made during it. -/
inductive TurnedAway (store : Store) : Call → Answer → Prop
  | record (key : MemberKey) (values : Observation) {outcome : Outcome}
      (h : outcome.IsTurnedAway) : TurnedAway store (.record key values) (.outcome outcome)
  | recordWith (key : MemberKey) (values : Observation) {during : List Call} {outcome : Outcome}
      {captured : Option (List Answer)} (h : outcome.IsTurnedAway)
      (hduring : ∀ answers ∈ captured, List.Forall₂ (TurnedAway store) during answers) :
      TurnedAway store (.recordWith key values during) (.captured outcome captured)
  | declare (key : MemberKey) : TurnedAway store (.declare key) (.flag false)
  | announce (key : MemberKey) : TurnedAway store (.announce key) .nothing
  | writeAlone {codec : Codec} {device : Device} {reached : Bytes} {fault : Option IoFault}
      (h : device.Emits (Text.Utf8.encode (CoverageFile.write codec store)) reached fault) :
      TurnedAway store (.write codec device none) (.written reached (fault.map .io) none)
  | write {codec : Codec} {device : Device} {during : Nat → List Call} {reached : Bytes}
      {fault : Option IoFault} {answers : List (List Answer)}
      (h : device.Emits (Text.Utf8.encode (CoverageFile.write codec store)) reached fault)
      (hasked : fault = none → answers.length = store.observationCount)
      (hduring : ∀ n found, answers[n]? = some found →
        List.Forall₂ (TurnedAway store) (during n) found) :
      TurnedAway store (.write codec device (some during))
        (.written reached (fault.map .io) (some answers))
  | withStore {during : List Call} {answers : List Answer}
      (hduring : List.Forall₂ (TurnedAway store) during answers) :
      TurnedAway store (.withStore during) (.read store.memberCount answers)
  | guarded {during : List Call} {found : Option (List Answer)}
      (hduring : ∀ answers ∈ found, List.Forall₂ (TurnedAway store) during answers) :
      TurnedAway store (.guarded during) (.guarded found)
  | attempt {during : List Call} {answers : List Answer}
      (hduring : List.Forall₂ (TurnedAway store) during answers) :
      TurnedAway store (.attempt during) (.list answers)
  | look {call : Call} (h : call.isLook = true) (answer : Answer) : TurnedAway store call answer

/-! ## Ending well -/

/-- The computation ends well, in a world that stands in the relation to the one it began in. -/
def EndsWell {α : Type} (rel : World → World → Prop) (x : Run α) (w : World) (post : α → Prop) :
    Prop :=
  ∃ a w', x.run.run w = (.ok a, w') ∧ rel w w' ∧ post a

/-- What calls rely on that this thread makes while it holds the store: what holds before them, how
they may change the world, and that asking for the initialization ends well if they may ask. -/
structure Upkeep (mayAsk mayWrite : Prop) (start : Option (Starter World Initializer))
    (store : Store) (inv : World → Prop) (rel : World → World → Prop) : Prop where
  store_eq : ∀ {w : World}, inv w → w.collector.store = store
  refl : ∀ w : World, rel w w
  trans : ∀ {w w' w'' : World}, rel w w' → rel w' w'' → rel w w''
  kept : ∀ {w w' : World}, inv w → rel w w' → inv w'
  guarded : ∀ {w : World}, inv w → inv { w with guard := ⟨1⟩ }
  unguarded : ∀ {w w' : World}, w.guard = .free → rel { w with guard := ⟨1⟩ } w' →
    rel w { w' with guard := w'.guard.exit }
  raised : ∀ {w : World}, inv w → inv (w.mark true)
  lowered : mayWrite → ∀ {w w' : World}, rel (w.mark true) w' → rel w (w'.mark false)
  ready : mayAsk → ∀ {w : World}, inv w →
    EndsWell rel (World.site.ensureReady start .own) w fun _ => True

namespace Upkeep

variable {mayAsk mayWrite : Prop} {start : Option (Starter World Initializer)} {store : Store}
  {inv : World → Prop} {rel : World → World → Prop} {α β : Type} {x : Run α} {f : α → Run β}
  {w : World} {post : α → Prop} {post' : β → Prop}
  (u : Upkeep mayAsk mayWrite start store inv rel)

include u

theorem pure {a : α} (h : post a) : EndsWell rel (Pure.pure a) w post := ⟨a, w, rfl, u.refl w, h⟩

theorem bind (hw : inv w) (hx : EndsWell rel x w post)
    (hf : ∀ a w', inv w' → post a → EndsWell rel (f a) w' post') :
    EndsWell rel (x >>= f) w post' := by
  obtain ⟨a, w', hrun, hrel, ha⟩ := hx
  obtain ⟨b, w'', hrun', hrel', hb⟩ := hf a w' (u.kept hw hrel) ha
  exact ⟨b, w'', (run_bind_of_ok hrun).trans hrun', u.trans hrel hrel', hb⟩

theorem map {g : α → β} (hw : inv w) (hx : EndsWell rel x w post)
    (hg : ∀ a, post a → post' (g a)) : EndsWell rel (g <$> x) w post' := by
  rw [map_eq_pure_bind]
  exact u.bind hw hx fun a w' _ ha => u.pure (hg a ha)

theorem lock {hold : Hold} (h : hold ≠ .other) :
    EndsWell rel (ThreadM.lock hold) w fun _ => True :=
  ⟨(), w, run_lock h w, u.refl w, trivial⟩

/-- The guard is held for as long as the computation runs, if it is free. -/
theorem underGuard (hw : inv w) (hx : ∀ w', inv w' → EndsWell rel x w' post) :
    EndsWell rel (World.site.underGuard x) w fun found => ∀ a ∈ found, post a := by
  cases henter : w.guard.enter? with
  | none => exact ⟨none, w, Site.run_underGuard_of_held x henter, u.refl w, by simp⟩
  | some held =>
    obtain ⟨hfree, -⟩ := Guard.enter?_eq_some_iff.1 henter
    obtain ⟨a, w', hrun, hrel, ha⟩ := hx { w with guard := ⟨1⟩ } (u.guarded hw)
    exact ⟨some a, _, Site.run_underGuard_of_free hfree hrun, u.unguarded hfree hrel,
      by simpa using ha⟩

/-- A record on a store that this thread holds is turned away. -/
theorem observe (key : MemberKey) (values : Observation) (hw : inv w)
    (hx : ∀ w', inv w' → EndsWell rel x w' post) :
    EndsWell rel (World.site.observe .own key values x) w fun found =>
      found.1.IsTurnedAway ∧ ∀ a ∈ found.2, post a := by
  cases hmode : w.collector.mode with
  | template =>
    obtain ⟨outcome, haway, hchange⟩ := w.collector.change_own (Collector.note key)
    refine ⟨(outcome, none), w, ?_, u.refl w, haway, by simp⟩
    rw [Site.run_observe_template Hold.own_ne_other hmode]
    exact congrArg (fun changed : Outcome × Collector Initializer =>
      (Except.ok (changed.1, none), { w with collector := changed.2 })) hchange
  | coverage =>
    obtain ⟨a, w', hrun, hrel, ha⟩ := hx w hw
    obtain ⟨outcome, haway, hchange⟩ := w'.collector.change_own
      (Collector.insert key (w'.collector.canonicalForm values))
    refine ⟨(outcome, some a), w', ?_, hrel, haway, by simpa using ha⟩
    rw [Site.run_observe_coverage Hold.own_ne_other hmode hrun]
    exact congrArg (fun changed : Outcome × Collector Initializer =>
      (Except.ok (changed.1, some a), { w' with collector := changed.2 })) hchange

theorem record (hask : mayAsk) (key : MemberKey) (values : Observation) (hw : inv w)
    (hx : ∀ w', inv w' → EndsWell rel x w' post) :
    EndsWell rel (World.site.record start .own key values x) w fun found =>
      found.1.IsTurnedAway ∧ ∀ a ∈ found.2, post a := by
  refine u.bind hw (u.ready hask hw) fun _ w' hw' _ => ?_
  refine u.bind hw' (u.underGuard hw' fun w'' hw'' => u.observe key values hw'' hx)
    fun found w'' _ hfound => u.pure ?_
  cases found with
  | none => exact ⟨.inr (.inr rfl), by simp⟩
  | some observed => exact hfound observed rfl

theorem runAll {calls : List Call}
    (hcalls : ∀ call ∈ calls, ∀ w, inv w →
      EndsWell rel (call.run start .own) w (TurnedAway store call)) (hw : inv w) :
    EndsWell rel (Script.runAll start .own calls) w (List.Forall₂ (TurnedAway store) calls) := by
  induction calls generalizing w with
  | nil => exact u.pure .nil
  | cons call rest ih =>
    rw [Script.runAll]
    refine u.bind hw (hcalls call (by simp) w hw) fun answer w' hw' hanswer => ?_
    refine u.bind hw' (ih (fun call' hcall' => hcalls call' (by simp [hcall'])) hw')
      fun answers w'' _ hanswers => ?_
    exact u.pure (.cons hanswer hanswers)

/-- Line after line is sent behind what has been sent before. -/
theorem writeLines (codec : Codec) (device : Device) {atObservation : Nat → Run α}
    {post : Nat → α → Prop}
    (hcalls : ∀ n w, inv w → EndsWell rel (atObservation n) w (post n))
    (lines : List CoverageFile.Line) (before : Bytes) (done : List α)
    (hdone : ∀ n a, done.reverse[n]? = some a → post n a) (hw : inv w) :
    EndsWell rel (Run.writeLines codec device atObservation lines before.reverse done) w
      fun found =>
      device.Emits (before ++ lines.flatMap fun line => Text.Utf8.encode (line.text codec))
        found.1.reverse found.2.1 ∧
      (found.2.1 = none → found.2.2.length = done.length + lines.countP isObserved) ∧
      ∀ n a, found.2.2[n]? = some a → post n a := by
  induction lines generalizing w before done with
  | nil =>
    refine u.pure ⟨?_, fun _ => by simp, hdone⟩
    simp only [List.flatMap_nil, List.append_nil, List.reverse_reverse]
    exact .whole
  | cons line rest ih =>
    have hasked : EndsWell rel (Run.beforeLine atObservation line done) w fun done' =>
        done'.length + rest.countP isObserved = done.length + (line :: rest).countP isObserved ∧
        ∀ n a, done'.reverse[n]? = some a → post n a := by
      cases line with
      | header key => exact u.pure ⟨by simp [isObserved], hdone⟩
      | observed o =>
        refine u.map hw (hcalls done.length w hw) fun a ha => ⟨?_, fun n b hb => ?_⟩
        · rw [List.length_cons, List.countP_cons_of_pos rfl]
          omega
        · rw [List.reverse_cons] at hb
          by_cases hlast : n < done.reverse.length
          · rw [List.getElem?_append_left hlast] at hb
            exact hdone n b hb
          · have hn : n = done.length := by
              have hlt := (List.getElem?_eq_some_iff.1 hb).1
              simp at hlt hlast
              omega
            subst hn
            have hb : b = a := by simpa [eq_comm] using hb
            exact hb ▸ ha
    refine u.bind hw hasked fun done' w' hw' ⟨hcount, hdone'⟩ => ?_
    simp only
    cases hrefuses : device.refuses? before.reverse (Text.Utf8.encode (line.text codec)) with
    | none =>
      have hrest := ih (before ++ Text.Utf8.encode (line.text codec)) done' hdone' hw'
      rw [List.reverse_append, hcount] at hrest
      rwa [List.flatMap_cons, ← List.append_assoc]
    | some refusal =>
      obtain ⟨taken, fault⟩ := refusal
      refine u.pure ⟨?_, (fun hnone => by cases hnone), hdone'⟩
      simp only [List.reverse_append, List.reverse_reverse, List.flatMap_cons]
      exact .refused (List.append_assoc _ _ _).symm hrefuses

/-- A write that begins on a store writes it; what is called meanwhile begins on the world in which
the store counts as being written. -/
theorem write {hold : Hold} (hhold : hold ≠ .other) (codec : Codec) (device : Device)
    {atObservation : Nat → Run α} {post : Nat → α → Prop}
    (hcalls : ∀ n w, inv w → EndsWell rel (atObservation n) w (post n)) (hw : inv w) :
    ∃ reached fault answers w', (Run.write hold codec device atObservation).run.run w =
        (.ok (reached, Option.map .io fault, answers), w'.mark false) ∧ rel (w.mark true) w' ∧
      device.Emits (Text.Utf8.encode (CoverageFile.write codec store)) reached fault ∧
      (fault = none → answers.length = store.observationCount) ∧
      ∀ n a, answers[n]? = some a → post n a := by
  obtain rfl := u.store_eq hw
  obtain ⟨⟨reached, fault, answers⟩, w', hrun, hrel, hemits, hasked, hanswers⟩ :=
    u.writeLines codec device hcalls (CoverageFile.linesOf w.collector.store) [] []
      (by simp) (u.raised hw)
  refine ⟨reached.reverse, fault, answers, w', ?_, hrel, ?_, ?_, hanswers⟩
  · have hraise : (Run.onCollector fun c => ((), { c with writing := true })).run.run w =
        (.ok (), w.mark true) := rfl
    have hlower : ∀ f : World → World, ((Run.writeLines codec device atObservation
        (CoverageFile.linesOf w.collector.store) [] []).andThen f).run.run (w.mark true) =
          (.ok (reached, fault, answers), f w') := by
      intro f
      rw [run_andThen]
      exact congrArg (fun found => (found.1, f found.2)) hrun
    rw [Run.write, run_bind_of_ok (run_lock hhold w), run_bind_of_ok hraise,
      run_bind_of_ok (run_get _)]
    exact run_bind_of_ok (hlower _)
  · rw [encode_write]
    exact hemits
  · intro hnone
    rw [hasked hnone, countP_linesOf]
    exact Nat.zero_add _

theorem look {call : Call} (h : call.isLook = true) (hasks : call.asks = true → mayAsk)
    (hw : inv w) : EndsWell rel (call.run start .own) w (TurnedAway store call) := by
  cases call with
  | snapshot | mode | isInitialized | depth | shown => exact ⟨_, w, rfl, u.refl w, .look h _⟩
  | ensureReady =>
    rw [Call.run]
    refine u.bind hw (u.ready (hasks rfl) hw) fun result w' _ _ => ?_
    cases result with
    | ok _ => exact u.pure (.look h _)
    | error e => exact u.pure (.look h _)
  | _ => cases h

/-- Whatever is called meanwhile ends well and is turned away. -/
theorem turnedAway {call : Call} (h : call.FromCodec mayWrite)
    (hasks : call.Throughout fun inner => inner.asks = true → mayAsk) (hw : inv w) :
    EndsWell rel (call.run start .own) w (TurnedAway store call) := by
  induction h generalizing w with
  | record key values =>
    have hcapture : ∀ w' : World, inv w' →
        EndsWell rel (Pure.pure () : Run Unit) w' fun _ => True := fun w' _ => u.pure trivial
    rw [Call.run]
    refine u.bind hw (u.record (hasks.here rfl) key values hw hcapture)
      fun found w' _ hfound => u.pure ?_
    exact .record key values hfound.1
  | @recordWith key values during h ih =>
    have hcapture : ∀ w' : World, inv w' → EndsWell rel (Script.runAll start .own during) w'
        (List.Forall₂ (TurnedAway store) during) :=
      fun w' hw' => u.runAll (fun call hcall w hw => ih call hcall (hasks.during hcall) hw) hw'
    rw [Call.run]
    refine u.bind hw (u.record (hasks.here rfl) key values hw hcapture)
      fun found w' _ hfound => u.pure ?_
    exact .recordWith key values hfound.1 hfound.2
  | declare key =>
    rw [Call.run]
    refine u.bind hw (u.lock Hold.own_ne_other) fun _ w' _ _ => ?_
    exact ⟨.flag false, w', rfl, u.refl w', .declare key⟩
  | announce key =>
    rw [Call.run]
    refine u.bind hw (u.lock Hold.own_ne_other) fun _ w' _ _ => ?_
    exact ⟨.nothing, w', rfl, u.refl w', .announce key⟩
  | @write hwrite codec device during h ih =>
    cases during with
    | none =>
      have hcalls : ∀ n (w' : World), inv w' →
          EndsWell rel ((fun _ => Pure.pure () : Nat → Run Unit) n) w' fun _ => True :=
        fun n w' _ => u.pure trivial
      obtain ⟨reached, fault, answers, w', hrun, hrel, hemits, -, -⟩ :=
        u.write Hold.own_ne_other codec device hcalls hw
      refine ⟨_, w'.mark false, ?_, u.lowered hwrite hrel, .writeAlone hemits⟩
      rw [Call.run, run_bind_of_ok hrun]
      rfl
    | some calls =>
      have hcalls : ∀ n (w' : World), inv w' → EndsWell rel (Script.runAll start .own (calls n)) w'
          (List.Forall₂ (TurnedAway store) (calls n)) :=
        fun n w' hw' => u.runAll (fun call hcall w hw =>
          ih calls rfl n call hcall (hasks.during ⟨calls, rfl, n, hcall⟩) hw) hw'
      obtain ⟨reached, fault, answers, w', hrun, hrel, hemits, hasked, hanswers⟩ :=
        u.write Hold.own_ne_other codec device hcalls hw
      refine ⟨_, w'.mark false, ?_, u.lowered hwrite hrel, .write hemits hasked hanswers⟩
      rw [Call.run, run_bind_of_ok hrun]
      rfl
  | @withStore during h ih =>
    rw [Call.run]
    refine u.bind hw (u.lock Hold.own_ne_other) fun _ w' hw' _ => ?_
    have hget : EndsWell rel (get : Run World) w' fun found => found = w' :=
      ⟨w', w', rfl, u.refl w', rfl⟩
    refine u.bind hw' hget fun found w'' hw'' hfound => ?_
    refine u.bind hw'' (u.runAll (fun call hcall w hw =>
      ih call hcall (hasks.during hcall) hw) hw'') fun answers _ _ hanswers => u.pure ?_
    rw [hfound, u.store_eq hw']
    exact .withStore hanswers
  | @guarded during h ih =>
    rw [Call.run]
    refine u.bind hw (u.underGuard hw fun w' hw' => u.runAll (fun call hcall w hw =>
      ih call hcall (hasks.during hcall) hw) hw') fun found w' _ hfound => u.pure ?_
    exact .guarded hfound
  | @attempt during h ih =>
    obtain ⟨answers, w', hrun, hrel, hanswers⟩ := u.runAll (fun call hcall w hw =>
      ih call hcall (hasks.during hcall) hw) hw
    refine ⟨.list answers, w', ?_, hrel, .attempt hanswers⟩
    rw [Call.run, ExceptT.run_mk, StateT.run_bind, hrun]
    rfl
  | @look call h => exact u.look h hasks.here hw

end Upkeep

end Script

end ValueCoverage
