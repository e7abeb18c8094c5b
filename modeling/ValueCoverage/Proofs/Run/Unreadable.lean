import ValueCoverage.Proofs.Run.Replay
import ValueCoverage.Run.Session

/-!
# Runs whose input file cannot be read

If the input file is there and cannot be read, a run still takes in what it is told, but it never
writes: what the file held would be lost. The first call that needs the file is told what is wrong
with it, and every later one that this went wrong earlier, even if the first call kept it to itself.
-/

namespace ValueCoverage

/-- A coverage file that cannot be read is there, unless it is said that it is not. -/
theorem CoverageFile.load_ne_notFound {fs : Files} {path : String} {codec : Codec}
    {e : CoverageError} (hexists : fs.read path ≠ .error .notFound)
    (hload : CoverageFile.load fs path codec = .error e) : e ≠ .io .notFound := by
  rintro rfl
  unfold CoverageFile.load at hload
  cases hread : fs.read path with
  | error fault =>
    rw [hread] at hload
    cases hload
    exact hexists hread
  | ok bytes =>
    rw [hread] at hload
    simp only at hload
    cases hbytes : CoverageFile.read codec bytes with
    | ok s =>
      rw [hbytes] at hload
      cases hload
    | error fault =>
      rw [hbytes] at hload
      cases fault <;> cases hload

namespace Collector

variable {ι : Type} {c : Collector ι} {mode : Mode} {codec : Codec}

/-- What a record is told, and what it makes of the store. -/
def takeIn (mode : Mode) (codec : Codec) (key : MemberKey) (o : Observation) (s : Store) :
    Outcome × Store :=
  match mode with
  | .coverage => insert key (codec.canonical o) s
  | .template => note key s

theorem record_takeIn (run : ι → Collector ι → Except CoverageError Unit × Collector ι)
    {failure : Option String} (h : c.readiness = .done failure) (hc : c.Accepts mode codec)
    (key : MemberKey) (o : Observation) :
    c.record run .free key o =
      ((takeIn mode codec key o c.store).1,
        { c with store := (takeIn mode codec key o c.store).2 }) := by
  unfold record
  rw [ensureReady_of_done h]
  obtain ⟨store, mode', canonical, writing, startup⟩ := c
  obtain ⟨rfl, rfl, rfl⟩ := hc
  cases mode' <;> rfl

end Collector

/-! ## What is told and what is kept -/

namespace SessionCall

/-- Whether a call needs the input file. Without an output file, saving does not. -/
def needsInput (options : Options) : SessionCall → Bool
  | record .. | ready => true
  | save | finish | drop => options.output.isSome
  | declare _ | reset | replace _ => false

/-- What a call makes of the store, if the input file cannot be read. -/
def keeps (options : Options) (codec : Codec) (s : Store) : SessionCall → Store
  | record key o => (Collector.takeIn options.mode codec key o s).2
  | declare key => s.declare key
  | reset => .empty
  | replace other => other
  | ready | save | finish | drop => s

/-- What a call is told, if the input file cannot be read and those who need it are told
`failure`. -/
def told (options : Options) (codec : Codec) (failure : CoverageError) (s : Store) :
    SessionCall → SessionAnswer
  | record key o => .outcome (Collector.takeIn options.mode codec key o s).1
  | declare key => .isNew (!s.contains key)
  | ready => .ready (.error failure)
  | replace _ => .store s
  | save | finish => .saved (if options.output.isSome then .error failure else .ok none)
  | reset | drop => .nothing

end SessionCall

/-- How an input file that cannot be read is reported: once as it is, and then as an earlier
failure. -/
def reported (e : CoverageError) (before : Bool) : CoverageError :=
  if before then .initialization e.message else e

namespace CoverageRun

variable {options : Options} {codec : Codec} {input : InputFile} {e : CoverageError} {met : Bool}
  {r : CoverageRun} {fs : Files}

/-- A run whose input file cannot be read, as it has met already or will. -/
structure Blocked (options : Options) (codec : Codec) (input : InputFile) (e : CoverageError)
    (met : Bool) (r : CoverageRun) : Prop extends r.Keeps options codec where
  readiness_eq : r.collector.readiness =
    if met then .done (some e.message) else .waiting (some input)
  unsaved : r.saved = false

theorem Blocked.withStore (h : r.Blocked options codec input e met) (store : Store) :
    Blocked options codec input e met { r with collector := { r.collector with store } } :=
  ⟨h.toKeeps.withStore store r.collector.startup r.saved, h.readiness_eq, h.unsaved⟩

section Load

variable (hload : CoverageFile.load fs input.path input.codec = .error e)
  (hexists : e ≠ .io .notFound)

include hload hexists

/-- A file that is there and cannot be read changes nothing. -/
theorem mergeInto_of_unreadable (c : Collector InputFile) :
    InputFile.mergeInto fs input c = (.error e, c) := by
  unfold InputFile.mergeInto
  rw [hload]
  split
  · next heq => cases heq
  · next heq => exact absurd (Except.error.inj heq) hexists
  · next heq => rw [Except.error.inj heq]

/-- Whoever needs the input file is told; what the run holds stays. -/
theorem Blocked.ensureReady (h : r.Blocked options codec input e met) :
    ∃ r', r.ensureReady fs = (.error (reported e met), r') ∧
      r'.Blocked options codec input e true ∧ r'.collector.store = r.collector.store := by
  have hready := h.readiness_eq
  cases met with
  | true =>
    refine ⟨r, ?_, h, rfl⟩
    rw [if_pos rfl] at hready
    simp only [CoverageRun.ensureReady, Collector.ensureReady_of_done hready]
    rfl
  | false =>
    rw [if_neg (by simp)] at hready
    have hdone := Collector.readiness_settle (Collector.readiness_claimed hready) (.error e)
    refine ⟨{ r with collector := r.collector.claimed.settle (.error e) }, ?_,
      ⟨h.toKeeps.withStore r.collector.store _ r.saved, hdone, h.unsaved⟩, rfl⟩
    simp only [CoverageRun.ensureReady, Collector.ensureReady_of_some hready,
      mergeInto_of_unreadable hload hexists]
    rfl

/-- Nothing is written. -/
theorem Blocked.save (h : r.Blocked options codec input e met) :
    ∃ r', r.save fs =
        ((if options.output.isSome then .error (reported e met) else .ok none), r', fs) ∧
      r'.Blocked options codec input e (met || options.output.isSome) ∧
      r'.collector.store = r.collector.store := by
  have hoptions := h.options_eq
  cases hout : options.output with
  | none =>
    refine ⟨r, ?_, ?_, rfl⟩
    · rw [CoverageRun.save, hoptions, hout]
      rfl
    · rw [Option.isSome_none, Bool.or_false]
      exact h
  | some out =>
    obtain ⟨r', hready, hblocked, hstore⟩ := h.ensureReady hload hexists
    refine ⟨r', ?_, ?_, hstore⟩
    · rw [CoverageRun.save, hoptions, hout, hready]
      rfl
    · rw [Option.isSome_some, Bool.or_true]
      exact hblocked

theorem Blocked.record (h : r.Blocked options codec input e met) (key : MemberKey)
    (o : Observation) :
    ∃ r', r.record fs key o =
        ((Collector.takeIn options.mode codec key o r.collector.store).1, r') ∧
      r'.Blocked options codec input e true ∧
      r'.collector.store = (Collector.takeIn options.mode codec key o r.collector.store).2 := by
  obtain ⟨r', hready, hblocked, hstore⟩ := h.ensureReady hload hexists
  have hrecord := Collector.record_takeIn (InputFile.mergeInto fs) hblocked.readiness_eq
    hblocked.accepts key o
  rw [← record_ensureReady, hready, CoverageRun.record, hrecord, hstore]
  exact ⟨_, rfl, hblocked.withStore _, rfl⟩

/-- One call, whatever it is. -/
theorem Blocked.respond (h : r.Blocked options codec input e met) (call : SessionCall) :
    ∃ r', r.respond fs call =
        (call.told options codec (reported e met) r.collector.store, r', fs) ∧
      r'.Blocked options codec input e (met || call.needsInput options) ∧
      r'.collector.store = call.keeps options codec r.collector.store := by
  cases call with
  | record key o =>
    obtain ⟨r', hrecord, hblocked, hstore⟩ := h.record hload hexists key o
    refine ⟨r', ?_, ?_, hstore⟩
    · rw [CoverageRun.respond, hrecord]
      rfl
    · rw [SessionCall.needsInput, Bool.or_true]
      exact hblocked
  | ready =>
    obtain ⟨r', hready, hblocked, hstore⟩ := h.ensureReady hload hexists
    refine ⟨r', ?_, ?_, hstore⟩
    · rw [CoverageRun.respond, hready]
      rfl
    · rw [SessionCall.needsInput, Bool.or_true]
      exact hblocked
  | declare key =>
    refine ⟨_, rfl, ?_, rfl⟩
    rw [SessionCall.needsInput, Bool.or_false]
    exact h.withStore _
  | reset =>
    refine ⟨_, rfl, ?_, rfl⟩
    rw [SessionCall.needsInput, Bool.or_false]
    exact h.withStore _
  | replace other =>
    refine ⟨_, rfl, ?_, rfl⟩
    rw [SessionCall.needsInput, Bool.or_false]
    exact h.withStore _
  | save =>
    obtain ⟨r', hsave, hblocked, hstore⟩ := h.save hload hexists
    refine ⟨r', ?_, hblocked, hstore⟩
    rw [CoverageRun.respond, hsave]
    rfl
  | finish =>
    obtain ⟨r', hsave, hblocked, hstore⟩ := h.save hload hexists
    refine ⟨r', ?_, hblocked, hstore⟩
    rw [CoverageRun.respond, Session.finish_eq_save, hsave]
    rfl
  | drop =>
    obtain ⟨r', hsave, hblocked, hstore⟩ := h.save hload hexists
    refine ⟨r', ?_, hblocked, hstore⟩
    rw [CoverageRun.respond, Session.drop, hsave]
    rfl

/-- Call after call, the failure is kept in mind. -/
theorem Blocked.respondAll (h : r.Blocked options codec input e met) (calls : List SessionCall) :
    ∃ answers last, r.respondAll fs calls = (answers, last, fs) ∧
      (∃ met', last.Blocked options codec input e met') ∧
      last.collector.store = calls.foldl (SessionCall.keeps options codec) r.collector.store ∧
      ∀ before call after, calls = before ++ call :: after →
        answers[before.length]? = some (call.told options codec
          (reported e (met || before.any (SessionCall.needsInput options)))
          (before.foldl (SessionCall.keeps options codec) r.collector.store)) := by
  -- over every `met`: the failure may be met by any of the calls, and is met but once
  induction calls generalizing r met with
  | nil => exact ⟨[], r, rfl, ⟨met, h⟩, rfl, by simp⟩
  | cons first rest ih =>
    obtain ⟨r', hfirst, hblocked, hstore⟩ := h.respond hload hexists first
    obtain ⟨answers, last, hrest, hlast, hlaststore, htold⟩ := ih hblocked
    rw [hstore] at hlaststore htold
    refine ⟨first.told options codec (reported e met) r.collector.store :: answers, last, ?_, hlast,
      hlaststore, forall_place_cons ?_ ?_⟩
    · rw [CoverageRun.respondAll, hfirst]
      simp only [hrest]
    · rw [List.any_nil, Bool.or_false]
      rfl
    · intro before call after heq
      rw [List.any_cons, ← Bool.or_assoc]
      exact htold before call after heq

end Load

theorem saved_start {registry : CodecRegistry} (h : start registry options = .ok r) :
    r.saved = false := by
  unfold start at h
  obtain ⟨serializer, -, h⟩ := bind_eq_ok.1 h
  obtain ⟨deserializer, -, h⟩ := bind_eq_ok.1 h
  obtain ⟨rules, -, h⟩ := bind_eq_ok.1 h
  cases h
  rfl

/-- **An input file that cannot be read is not written over.** A run is started whose input file is
there but cannot be read. Whatever is asked of it, no file changes and the run does not count as
saved. The first call that needs the input file is told what is wrong with it, and every later one
that this went wrong earlier; a record needs the file, but keeps the failure to itself. What is
recorded and declared is kept, and told of, as if there were no input file. -/
theorem unreadable_kept {registry : CodecRegistry} (hstart : start registry options = .ok r)
    {path : String} (hinput : options.input = some path) (hthere : fs.read path ≠ .error .notFound)
    (hload : CoverageFile.load fs path r.deserializer = .error e) (calls : List SessionCall) :
    ∃ answers last, r.respondAll fs calls = (answers, last, fs) ∧ last.saved = false ∧
      last.collector.store =
        calls.foldl (SessionCall.keeps options r.serializer) .empty ∧
      ∀ before call after, calls = before ++ call :: after →
        answers[before.length]? = some (call.told options r.serializer
          (reported e (before.any (SessionCall.needsInput options)))
          (before.foldl (SessionCall.keeps options r.serializer) .empty)) := by
  obtain ⟨hkeeps, hempty, hreadiness⟩ := start_eq_ok hstart
  rw [hinput, Option.map_some] at hreadiness
  let input : InputFile := ⟨path, r.deserializer⟩
  have hblocked : r.Blocked options r.serializer input e false :=
    ⟨hkeeps, hreadiness, saved_start hstart⟩
  have hne := CoverageFile.load_ne_notFound hthere hload
  have hload : CoverageFile.load fs input.path input.codec = .error e := hload
  obtain ⟨answers, last, hrun, ⟨met, hlast⟩, hstore, htold⟩ := hblocked.respondAll hload hne calls
  rw [hempty] at hstore htold
  refine ⟨answers, last, hrun, hlast.unsaved, hstore, ?_⟩
  intro before call after heq
  rw [htold before call after heq, Bool.false_or]

/-! ### An observation without a member -/

/-- A coverage file whose first line belongs to no member, and nothing else. -/
def orphaned : Files :=
  ⟨[], OrderedMap.empty.insert ["f"] (Text.Utf8.encode " -> [orphan]\na.B#m(I)V\n -> [1]\n")⟩

/-- A call is recorded and saved, twice. -/
def recordedTwice : List SessionCall :=
  [.record ⟨"c.D", "n(I)V"⟩ [.int 2], .save, .reset, .record ⟨"c.D", "n(I)V"⟩ [.int 2], .drop]

theorem unreadable_kept_orphaned :
    let options := Recording.between (some "/f") "/f" .coverage
    (start .standard options = .ok (Recording.plainRun options) ∧ options.input = some "/f" ∧
      orphaned.read "/f" ≠ .error .notFound ∧
      CoverageFile.load orphaned "/f" .plain = .error (.line 1 .orphanObservation)) ∧
    ∃ answers last, (Recording.plainRun options).respondAll orphaned recordedTwice =
        (answers, last, orphaned) ∧ last.saved = false ∧
      last.collector.store =
        recordedTwice.foldl (SessionCall.keeps options .plain) .empty ∧
      ∀ before call after, recordedTwice = before ++ call :: after →
        answers[before.length]? = some (call.told options .plain
          (reported (.line 1 .orphanObservation) (before.any (SessionCall.needsInput options)))
          (before.foldl (SessionCall.keeps options .plain) .empty)) := by
  intro options
  have hstart := Recording.start_between (some "/f") "/f" .coverage
  have hload : CoverageFile.load orphaned "/f" .plain = .error (.line 1 .orphanObservation) := by
    rfl
  have hthere : orphaned.read "/f" ≠ .error .notFound := by
    intro h
    have hsome : (orphaned.read "/f").toOption.isSome = true := by decide +kernel
    rw [h] at hsome
    cases hsome
  exact ⟨⟨hstart, rfl, hthere, hload⟩, unreadable_kept hstart rfl hthere hload recordedTwice⟩

end CoverageRun

end ValueCoverage
