import ValueCoverage.Collector.Script
import ValueCoverage.Proofs.Collector.Thread
import ValueCoverage.Proofs.Observation.Canonical
import ValueCoverage.Proofs.Store.Merge

/-!
# The history of a collector

An initialized collector is told of members by records, declarations and merges. If it was empty at
first, it holds just that, in the order of first mention and with every observation in canonical
form, and every record is told what became of its observation.
-/

namespace ValueCoverage

open ThreadM

namespace Collector

variable {ι : Type} {c : Collector ι}

/-- What is merged is told in canonical form. -/
theorem merge_eq (c : Collector ι) (other : Store) :
    c.merge other = { c with
      store := c.store.mentions (other.asMentions.map (Mention.map c.canonicalForm)) } := by
  obtain ⟨store, mode, canonical, writing, startup⟩ := c
  cases canonical with
  | none =>
    have hform : canonicalForm ⟨store, mode, none, writing, startup⟩ = id := rfl
    rw [hform, Mention.map_id, List.map_id, ← Store.merge_eq_mentions]
    rfl
  | some codec =>
    have hmerge := Store.merge_mapObservations store other codec.canonical
    exact congrArg (fun s => Collector.mk s mode (some codec) writing startup) hmerge

end Collector

namespace Script

variable {c : Collector Initializer}

/-! ## What calls tell -/

/-- Whether a call records. -/
def Call.isRecord : Call → Bool
  | .record .. | .recordWith .. => true
  | _ => false

/-- Whether a call adds to the store without the guard, or at most looks at the collector. -/
def Call.isPlain : Call → Bool
  | .declare _ | .announce _ | .merge _ => true
  | .snapshot | .mode | .isInitialized | .depth | .shown => true
  | _ => false

/-- A call that captures may make. Whatever code captures the values of a record among them, it does
not run. -/
inductive Call.Aside : Call → Prop
  | record (key : MemberKey) (values : Observation) : Aside (.record key values)
  | recordWith (key : MemberKey) (values : Observation) (during : List Call) :
      Aside (.recordWith key values during)
  | plain {call : Call} (h : call.isPlain = true) : Aside call

/-- A call that feeds a collector. -/
inductive Call.Feeds : Call → Prop
  | record (key : MemberKey) (values : Observation) : Feeds (.record key values)
  | recordWith (key : MemberKey) (values : Observation) {during : List Call}
      (h : ∀ call ∈ during, call.Aside) : Feeds (.recordWith key values during)
  | plain {call : Call} (h : call.isPlain = true) : Feeds call

variable (c)

/-- What a plain call tells the store; a record that is turned away tells nothing. -/
def Call.tellsAside : Call → List Mention
  | .declare key | .announce key => [.member key []]
  | .merge other => other.asMentions.map (Mention.map c.canonicalForm)
  | _ => []

/-- What the store is told while values are captured; they are not where they are not kept. -/
def toldDuring (during : List Call) : List Mention :=
  if c.mode = .template then [] else during.flatMap (Call.tellsAside c)

/-- What is kept of observed values. -/
def kept (values : Observation) : List Observation :=
  if c.mode = .template then [] else [c.canonicalForm values]

/-- What a call tells the store. -/
def Call.tells : Call → List Mention
  | .record key values => [.member key (kept c values)]
  | .recordWith key values during => toldDuring c during ++ [.member key (kept c values)]
  | call => call.tellsAside c

theorem tells_of_plain {call : Call} (h : call.isPlain = true) :
    call.tells c = call.tellsAside c := by
  cases call with
  | record key values => cases h
  | recordWith key values during => cases h
  | _ => rfl

/-! ## What calls are told -/

/-- Whether the outcome of a record says what became of the values. The record found one store and
left another, and it captured the values or did not. -/
structure Truthful (found left : Store) (key : MemberKey) (values : Observation) (captured : Bool)
    (outcome : Outcome) : Prop where
  answered : outcome = .recorded ∨ outcome = .duplicate ∨ outcome = .declared
  recorded_iff : outcome = .recorded ↔ captured = true ∧
    left.observationsOf key = found.observationsOf key ++ [c.canonicalForm values]
  duplicate_iff : outcome = .duplicate ↔ captured = true ∧
    c.canonicalForm values ∈ found.observationsOf key ∧ left = found
  declared_iff : outcome = .declared ↔ captured = false ∧ left = found.declare key
  captured_iff : captured = true ↔ c.mode = .coverage
  elsewhere : ∀ k, k ≠ key → left.lookup k = found.lookup k

/-- Whether the answer to a call tells the truth about the store that the call found and the one it
left. What code that captures values has told is there when the values are taken in. -/
def Call.AnsweredTruly (found left : Store) : Call → Answer → Prop
  | .record key values, answer => ∃ outcome captured, answer = .outcome outcome ∧
      Truthful c found left key values captured outcome
  | .recordWith key values during, answer => ∃ outcome captured,
      answer = .captured outcome captured ∧
      Truthful c (found.mentions (toldDuring c during)) left key values captured.isSome outcome
  | .declare key, answer => answer = .flag (!found.contains key)
  | _, _ => True

variable {c}

theorem truthful_insert (hmode : c.mode = .coverage) (s : Store) (key : MemberKey)
    (values : Observation) :
    Truthful c s (s.add key (c.canonicalForm values)) key values true
      (Collector.insert key (c.canonicalForm values) s).1 := by
  have hleft : (s.add key (c.canonicalForm values)).observationsOf key =
      (((s.lookup key).getD .empty).insert (c.canonicalForm values)).items := by
    rw [Store.add_eq_addAll, Store.observationsOf_addAll, if_pos rfl]
    rfl
  have helsewhere : ∀ k, k ≠ key →
      (s.add key (c.canonicalForm values)).lookup k = s.lookup k := by
    intro k hk
    rw [Store.add, Store.lookup_update, if_neg hk]
  rw [DistinctList.items_insert] at hleft
  by_cases hholds : s.holds key (c.canonicalForm values) = true
  · -- the observation is there already, and so is its member
    have hmem := Store.holds_iff_mem.1 hholds
    obtain ⟨l, hl, -⟩ := Store.holds_iff.1 hholds
    have hself : s.add key (c.canonicalForm values) = s := by
      rw [Store.add_eq_addAll]
      exact Store.addAll_eq_self (Store.contains_iff.2 ⟨l, hl⟩) (by simpa using hholds)
    have houtcome : (Collector.insert key (c.canonicalForm values) s).1 = .duplicate := by
      rw [Collector.insert, if_pos hholds]
    rw [houtcome]
    exact {
      answered := .inr (.inl rfl)
      recorded_iff := by simp [hself]
      duplicate_iff := by simp [hmem, hself]
      declared_iff := by simp
      captured_iff := by simp [hmode]
      elsewhere := helsewhere }
  · have hnot : c.canonicalForm values ∉ s.observationsOf key := mt Store.holds_iff_mem.2 hholds
    have houtcome : (Collector.insert key (c.canonicalForm values) s).1 = .recorded := by
      rw [Collector.insert, if_neg hholds]
    have hgrown := hleft.trans (if_neg hnot)
    rw [houtcome]
    exact {
      answered := .inl rfl
      recorded_iff := by
        rw [hgrown]
        simp [Store.observationsOf]
      duplicate_iff := by simp [hnot]
      declared_iff := by simp
      captured_iff := by simp [hmode]
      elsewhere := helsewhere }

theorem truthful_note (hmode : c.mode = .template) (s : Store) (key : MemberKey)
    (values : Observation) : Truthful c s (s.declare key) key values false .declared where
  answered := .inr (.inr rfl)
  recorded_iff := by simp
  duplicate_iff := by simp
  declared_iff := by simp
  captured_iff := by simp [hmode]
  elsewhere k hk := by rw [Store.declare, Store.lookup_update, if_neg hk]

/-! ## What calls do -/

section Feeding

variable (start : Option (Starter World Initializer))

/-- A plain call does not ask for the guard. -/
theorem run_plain {call : Call} (hcall : call.isPlain = true) (s : Store) (guard : Guard)
    (log : List (List Answer)) :
    ∃ answer, (call.run start .nobody).run.run ⟨{ c with store := s }, guard, log⟩ =
        (.ok answer, ⟨{ c with store := s.mentions (call.tellsAside c) }, guard, log⟩) ∧
      call.AnsweredTruly c s (s.mentions (call.tellsAside c)) answer := by
  cases call with
  | declare key => exact ⟨_, rfl, rfl⟩
  | announce key => exact ⟨_, rfl, trivial⟩
  | merge other =>
    have hmerge := ({ c with store := s } : Collector Initializer).merge_eq other
    refine ⟨.nothing, ?_, trivial⟩
    show (Except.ok Answer.nothing, World.mk (({ c with store := s } : Collector _).merge other)
      guard log) = _
    rw [hmerge]
    rfl
  | snapshot => exact ⟨_, rfl, trivial⟩
  | mode => exact ⟨_, rfl, trivial⟩
  | isInitialized => exact ⟨_, rfl, trivial⟩
  | depth => exact ⟨_, rfl, trivial⟩
  | shown => exact ⟨_, rfl, trivial⟩
  | _ => cases hcall

/-- A call that is made during a capture. -/
theorem run_aside (h : c.AtRest) {call : Call} (hcall : call.Aside) (s : Store)
    (log : List (List Answer)) :
    ∃ answer, (call.run start .nobody).run.run ⟨{ c with store := s }, ⟨1⟩, log⟩ =
      (.ok answer, ⟨{ c with store := s.mentions (call.tellsAside c) }, ⟨1⟩, log⟩) := by
  have hheld : ∀ {α : Type} (key : MemberKey) (values : Observation) (capture : Run α),
      (World.site.record start .nobody key values capture).run.run
        ⟨{ c with store := s }, ⟨1⟩, log⟩ =
          (.ok (.reentrant, none), ⟨{ c with store := s }, ⟨1⟩, log⟩) := by
    intro α key values capture
    exact Site.run_record_of_held .nobody h.initialized rfl
  cases hcall with
  | record key values =>
    refine ⟨.outcome .reentrant, ?_⟩
    rw [Call.run, run_bind_of_ok (hheld key values _)]
    rfl
  | recordWith key values during =>
    refine ⟨.captured .reentrant none, ?_⟩
    rw [Call.run, run_bind_of_ok (hheld key values _)]
    rfl
  | plain hplain =>
    obtain ⟨answer, hrun, -⟩ := run_plain start hplain s ⟨1⟩ log
    exact ⟨answer, hrun⟩

theorem runAll_aside (h : c.AtRest) {calls : List Call} (hcalls : ∀ call ∈ calls, call.Aside)
    (s : Store) (log : List (List Answer)) :
    ∃ answers, (runAll start .nobody calls).run.run ⟨{ c with store := s }, ⟨1⟩, log⟩ =
      (.ok answers,
        ⟨{ c with store := s.mentions (calls.flatMap (Call.tellsAside c)) }, ⟨1⟩, log⟩) := by
  induction calls generalizing s with
  | nil => exact ⟨[], rfl⟩
  | cons call rest ih =>
    obtain ⟨answer, hcall⟩ := run_aside start h (hcalls call (by simp)) s log
    obtain ⟨answers, hrest⟩ := ih (fun call' hcall' => hcalls call' (by simp [hcall'])) _
    refine ⟨answer :: answers, ?_⟩
    rw [runAll, run_bind_of_ok hcall, run_bind_of_ok hrest, List.flatMap_cons,
      Store.mentions_append]
    rfl

/-- A record is told the truth, whatever code captures its values, if that code adds at most to the
store. -/
theorem run_record (h : c.AtRest) {α : Type} (key : MemberKey) (values : Observation)
    {capture : Run α} {during : List Call} {s : Store} {log : List (List Answer)} {a : α}
    (hcapture : capture.run.run ⟨{ c with store := s }, ⟨1⟩, log⟩ =
      (.ok a, ⟨{ c with store := s.mentions (during.flatMap (Call.tellsAside c)) }, ⟨1⟩, log⟩)) :
    ∃ outcome captured, (World.site.record start .nobody key values capture).run.run
        ⟨{ c with store := s }, .free, log⟩ =
          (.ok (outcome, captured), ⟨{ c with
            store := s.mentions (toldDuring c during ++ [.member key (kept c values)]) },
            .free, log⟩) ∧
      Truthful c (s.mentions (toldDuring c during))
        (s.mentions (toldDuring c during ++ [.member key (kept c values)])) key values
        captured.isSome outcome := by
  have hmodes : c.mode = .template ∨ c.mode = .coverage := by
    cases c.mode
    · exact .inr rfl
    · exact .inl rfl
  rcases hmodes with hmode | hmode
  · have htold : toldDuring c during = [] := by rw [toldDuring, if_pos hmode]
    have hkept : kept c values = [] := by rw [kept, if_pos hmode]
    have hchange := Collector.change_of_idle h.idle s (Collector.note key)
    -- the capture is not run, so that nothing is told meanwhile
    refine ⟨.declared, none, ?_, ?_⟩
    · rw [Site.run_record_template Hold.nobody_ne_other h.initialized rfl hmode, htold, hkept]
      exact congrArg (fun changed : Outcome × Collector Initializer =>
        (Except.ok (changed.1, none), World.mk changed.2 .free log)) hchange
    · rw [htold, hkept]
      exact truthful_note hmode s key values
  · have htold : toldDuring c during = during.flatMap (Call.tellsAside c) := by
      rw [toldDuring, if_neg (by simp [hmode])]
    have hkept : kept c values = [c.canonicalForm values] := by
      rw [kept, if_neg (by simp [hmode])]
    rw [htold, hkept, Store.mentions_append]
    -- the store that decides about the observation is the one that the capture has left
    refine ⟨_, some a, ?_, truthful_insert hmode _ key values⟩
    have hchange := Collector.change_of_idle h.idle
      (s.mentions (during.flatMap (Call.tellsAside c)))
      (Collector.insert key (c.canonicalForm values))
    rw [Site.run_record_coverage Hold.nobody_ne_other h.initialized rfl hmode hcapture]
    exact congrArg (fun changed : Outcome × Collector Initializer =>
      (Except.ok (changed.1, some a), World.mk changed.2 .free log)) hchange

/-- A call that feeds a collector. -/
theorem run_feeding (h : c.AtRest) {call : Call} (hcall : call.Feeds) (s : Store)
    (log : List (List Answer)) :
    ∃ answer, (call.run start .nobody).run.run ⟨{ c with store := s }, .free, log⟩ =
        (.ok answer, ⟨{ c with store := s.mentions (call.tells c) }, .free, log⟩) ∧
      call.AnsweredTruly c s (s.mentions (call.tells c)) answer := by
  cases hcall with
  | record key values =>
    have htold : toldDuring c [] = [] := by
      rw [toldDuring, List.flatMap_nil, ite_self]
    have hpure : (pure () : Run Unit).run.run ⟨{ c with store := s }, ⟨1⟩, log⟩ = (.ok (),
        ⟨{ c with store := s.mentions ([].flatMap (Call.tellsAside c)) }, ⟨1⟩, log⟩) := rfl
    obtain ⟨outcome, captured, hrun, htruthful⟩ := run_record start h key values hpure
    rw [htold] at hrun htruthful
    refine ⟨.outcome outcome, ?_, outcome, captured.isSome, rfl, htruthful⟩
    rw [Call.run, run_bind_of_ok hrun]
    rfl
  | recordWith key values hasides =>
    obtain ⟨answers, hduring⟩ := runAll_aside start h hasides s log
    obtain ⟨outcome, captured, hrun, htruthful⟩ := run_record start h key values hduring
    refine ⟨.captured outcome captured, ?_, outcome, captured, rfl, htruthful⟩
    rw [Call.run, run_bind_of_ok hrun]
    rfl
  | plain hplain =>
    rw [tells_of_plain c hplain]
    exact run_plain start hplain s .free log

theorem runAll_feeding (h : c.AtRest) {calls : List Call} (hcalls : ∀ call ∈ calls, call.Feeds)
    (s : Store) (log : List (List Answer)) :
    ∃ answers, (runAll start .nobody calls).run.run ⟨{ c with store := s }, .free, log⟩ =
        (.ok answers,
          ⟨{ c with store := s.mentions (calls.flatMap (Call.tells c)) }, .free, log⟩) ∧
      ∀ before call after, calls = before ++ call :: after →
        ∃ answer, answers[before.length]? = some answer ∧
          call.AnsweredTruly c (s.mentions (before.flatMap (Call.tells c)))
            (s.mentions ((before ++ [call]).flatMap (Call.tells c))) answer := by
  induction calls generalizing s with
  | nil => exact ⟨[], rfl, by simp⟩
  | cons first rest ih =>
    obtain ⟨answer, hfirst, htruly⟩ := run_feeding start h (hcalls first (by simp)) s log
    obtain ⟨answers, hrest, htrulies⟩ :=
      ih (fun call hcall => hcalls call (by simp [hcall])) (s.mentions (first.tells c))
    refine ⟨answer :: answers, ?_, forall_place_cons ?_ ?_⟩
    · rw [runAll, run_bind_of_ok hfirst, run_bind_of_ok hrest, List.flatMap_cons,
        Store.mentions_append]
      rfl
    · refine ⟨answer, rfl, ?_⟩
      rwa [List.nil_append, List.flatMap_cons, List.flatMap_nil, List.append_nil]
    · intro before call after heq
      obtain ⟨answer', hanswer', htruly'⟩ := htrulies before call after heq
      refine ⟨answer', hanswer', ?_⟩
      rwa [List.flatMap_cons, List.cons_append, List.flatMap_cons, Store.mentions_append,
        Store.mentions_append]

end Feeding

/-! ## The whole history -/

/-- Canonical forms are their own canonical forms. -/
def Settles (c : Collector Initializer) : Prop :=
  ∀ codec, c.canonical = some codec → ∀ o, codec.canonical (codec.canonical o) = codec.canonical o

theorem canonicalForm_canonicalForm (h : Settles c) (o : Observation) :
    c.canonicalForm (c.canonicalForm o) = c.canonicalForm o := by
  cases hcanonical : c.canonical with
  | none => simp only [Collector.canonicalForm, hcanonical]
  | some codec =>
    simp only [Collector.canonicalForm, hcanonical]
    exact h codec hcanonical o

/-- Whatever is told is in canonical form. -/
theorem exists_of_mem_tellsAside {call : Call} {m : Mention} (hm : m ∈ call.tellsAside c)
    {key : MemberKey} {o : Observation} (ho : o ∈ m.observationsOf key) :
    ∃ o', c.canonicalForm o' = o := by
  cases call with
  | declare key' =>
    rw [Call.tellsAside, List.mem_singleton] at hm
    simp [hm, Mention.observationsOf] at ho
  | announce key' =>
    rw [Call.tellsAside, List.mem_singleton] at hm
    simp [hm, Mention.observationsOf] at ho
  | merge other =>
    obtain ⟨m', -, rfl⟩ := List.mem_map.1 hm
    cases m' with
    | owner name => cases ho
    | member key' os =>
      simp only [Mention.map, Mention.observationsOf] at ho
      by_cases hkey : key' = key
      · rw [if_pos hkey] at ho
        obtain ⟨o', -, ho'⟩ := List.mem_map.1 ho
        exact ⟨o', ho'⟩
      · rw [if_neg hkey] at ho
        cases ho
  | _ => cases hm

theorem exists_of_mem_tells {call : Call} (hcall : call.Feeds) {m : Mention} (hm : m ∈ call.tells c)
    {key : MemberKey} {o : Observation} (ho : o ∈ m.observationsOf key) :
    ∃ o', c.canonicalForm o' = o := by
  have hkept : ∀ {key' : MemberKey} {values : Observation},
      o ∈ (Mention.member key' (kept c values)).observationsOf key →
        ∃ o', c.canonicalForm o' = o := by
    intro key' values ho
    have hmem : o ∈ kept c values := by
      by_cases hkey : key' = key
      · simpa only [Mention.observationsOf, if_pos hkey] using ho
      · simp [Mention.observationsOf, hkey] at ho
    by_cases hmode : c.mode = .template
    · rw [kept, if_pos hmode] at hmem
      cases hmem
    · rw [kept, if_neg hmode] at hmem
      exact ⟨values, (List.mem_singleton.1 hmem).symm⟩
  cases hcall with
  | record key' values =>
    rw [Call.tells, List.mem_singleton] at hm
    exact hkept (hm ▸ ho)
  | recordWith key' values hasides =>
    rcases List.mem_append.1 hm with hm | hm
    · by_cases hmode : c.mode = .template
      · rw [toldDuring, if_pos hmode] at hm
        cases hm
      · rw [toldDuring, if_neg hmode] at hm
        obtain ⟨call, -, hcall⟩ := List.mem_flatMap.1 hm
        exact exists_of_mem_tellsAside hcall ho
    · rw [List.mem_singleton] at hm
      exact hkept (hm ▸ ho)
  | plain hplain => exact exists_of_mem_tellsAside (tells_of_plain c hplain ▸ hm) ho

/-- Where values are not kept, records tell of members alone. -/
theorem observationsOf_tells (hmode : c.mode = .template) {call : Call}
    (hcall : call.isRecord = true) (key : MemberKey) :
    (call.tells c).flatMap (Mention.observationsOf key) = [] := by
  cases call with
  | record key' values => simp [Call.tells, kept, hmode, Mention.observationsOf]
  | recordWith key' values during =>
    simp [Call.tells, toldDuring, kept, hmode, Mention.observationsOf]
  | _ => cases hcall

/-- **A collector is its history.** An initialized collector with an empty store, whose canonical
forms are settled, is fed by records, declarations and merges. It then holds just what it was told:
classes and the members of each class in the order of first mention, the observations of each member
in canonical form in the order of first occurrence, nothing twice. All that it holds is in canonical
form, and every record is told the truth. Where values are not kept, records capture none and add
none. -/
theorem history_told (h : c.AtRest) (hempty : c.store = .empty) (hsettles : Settles c)
    {calls : List Call} (hcalls : ∀ call ∈ calls, call.Feeds) :
    ∃ answers store, Script.run c calls = (.ok answers, { c with store }) ∧
      (∀ s : Store, s.Tells (calls.flatMap (Call.tells c)) ↔ s = store) ∧
      (∀ key o, store.holds key o = true → c.canonicalForm o = o) ∧
      (∀ before call after, calls = before ++ call :: after →
        ∃ answer found left, answers[before.length]? = some answer ∧
          (Script.run c before).2 = { c with store := found } ∧
          (Script.run c (before ++ [call])).2 = { c with store := left } ∧
          call.AnsweredTruly c found left answer) ∧
      (c.mode = .template → (∀ call ∈ calls, call.isRecord = true) →
        ∀ key, store.observationsOf key = []) := by
  -- stated for any calls, since it is used for all of them and for those up to a point
  have hrun : ∀ {calls : List Call}, (∀ call ∈ calls, call.Feeds) →
      ∃ answers, Script.run c calls = (.ok answers,
          { c with store := Store.empty.mentions (calls.flatMap (Call.tells c)) }) ∧
        ∀ before call after, calls = before ++ call :: after →
          ∃ answer, answers[before.length]? = some answer ∧
            call.AnsweredTruly c (Store.empty.mentions (before.flatMap (Call.tells c)))
              (Store.empty.mentions ((before ++ [call]).flatMap (Call.tells c))) answer := by
    intro calls hcalls
    obtain ⟨answers, hrunAll, htruly⟩ :=
      runAll_feeding (some Initializer.start) h hcalls .empty []
    have hc : ({ c with store := .empty } : Collector Initializer) = c := by rw [← hempty]
    rw [hc] at hrunAll
    refine ⟨answers, ?_, htruly⟩
    rw [Script.run, hrunAll]
  obtain ⟨answers, hanswers, htruly⟩ := hrun hcalls
  have htells := Store.tells_mentions (calls.flatMap (Call.tells c))
  refine ⟨answers, _, hanswers, ?_, ?_, ?_, ?_⟩
  · intro s
    constructor
    · exact fun hs => hs.eq htells
    · rintro rfl
      exact htells
  · intro key o ho
    rw [Store.holds_iff_mem, htells.observations_eq, List.mem_eraseDups] at ho
    obtain ⟨m, hm, ho⟩ := List.mem_flatMap.1 ho
    obtain ⟨call, hcall, hm⟩ := List.mem_flatMap.1 hm
    obtain ⟨o', rfl⟩ := exists_of_mem_tells (hcalls call hcall) hm ho
    exact canonicalForm_canonicalForm hsettles o'
  · intro before call after heq
    obtain ⟨answer, hanswer, htruly'⟩ := htruly before call after heq
    have hthere : ∀ b ∈ before ++ [call], b.Feeds := by
      intro b hb
      refine hcalls b ?_
      rw [heq, List.append_cons]
      exact List.mem_append_left _ hb
    obtain ⟨_, hbefore, -⟩ := hrun fun b hb => hthere b (List.mem_append_left _ hb)
    obtain ⟨_, hwith, -⟩ := hrun hthere
    exact ⟨answer, _, _, hanswer, by rw [hbefore], by rw [hwith], htruly'⟩
  · intro hmode hrecords key
    have hnone : ((calls.flatMap (Call.tells c)).flatMap (Mention.observationsOf key)) = [] := by
      rw [List.flatMap_assoc, List.flatMap_eq_nil_iff]
      exact fun call hcall => observationsOf_tells hmode (hrecords call hcall) key
    rw [htells.observations_eq, hnone]
    rfl

/-! ### A method, a field and a merge -/

/-- An initialized collector that keeps plain texts. -/
def plainCollector : Collector Initializer :=
  (Collector.new .empty .coverage (some .plain)).settle (.ok ())

/-- A method is recorded; meanwhile a field is declared. The same is merged, and recorded again. -/
def feedingCalls : List Call :=
  [.recordWith ⟨"a.B", "m(I)V"⟩ [.int 5] [.declare ⟨"a.B", "f:I"⟩, .record ⟨"a.B", "n()V"⟩ []],
    .merge ((Store.empty.add ⟨"c.D", "n()V"⟩ []).add ⟨"a.B", "m(I)V"⟩ [.text "5"]),
    .recordWith ⟨"a.B", "m(I)V"⟩ [.long 5] []]

theorem history_told_plainCollector :
    (plainCollector.AtRest ∧ plainCollector.store = .empty ∧ Settles plainCollector ∧
      ∀ call ∈ feedingCalls, call.Feeds) ∧
      ∃ answers store, Script.run plainCollector feedingCalls =
          (.ok answers, { plainCollector with store }) ∧
        (∀ s : Store, s.Tells (feedingCalls.flatMap (Call.tells plainCollector)) ↔ s = store) ∧
        (∀ key o, store.holds key o = true → plainCollector.canonicalForm o = o) ∧
        ∀ before call after, feedingCalls = before ++ call :: after →
          ∃ answer found left, answers[before.length]? = some answer ∧
            (Script.run plainCollector before).2 = { plainCollector with store := found } ∧
            (Script.run plainCollector (before ++ [call])).2 =
              { plainCollector with store := left } ∧
            call.AnsweredTruly plainCollector found left answer := by
  have hrest : plainCollector.AtRest := ⟨rfl, rfl⟩
  have hsettles : Settles plainCollector := by
    intro codec hcodec o
    cases hcodec
    exact (Codec.stable_of_keeps (.inl rfl)).canonical_canonical o
  have hfeeds : ∀ call ∈ feedingCalls, call.Feeds := by
    intro call hcall
    simp only [feedingCalls, List.mem_cons, List.not_mem_nil, or_false] at hcall
    rcases hcall with rfl | rfl | rfl
    · refine .recordWith _ _ ?_
      intro call hcall
      simp only [List.mem_cons, List.not_mem_nil, or_false] at hcall
      rcases hcall with rfl | rfl
      · exact .plain rfl
      · exact .record _ _
    · exact .plain rfl
    · exact .recordWith _ _ (by simp)
  obtain ⟨answers, store, hrun, htells, hcanonical, htruly, -⟩ :=
    history_told hrest rfl hsettles hfeeds
  exact ⟨⟨hrest, rfl, hsettles, hfeeds⟩, answers, store, hrun, htells, hcanonical, htruly⟩

end Script

end ValueCoverage
