import ValueCoverage.Proofs.Collector
import ValueCoverage.Proofs.Steps
import ValueCoverage.Proofs.Store.Format

/-!
# What a run is told

A run is asked to record, to declare, to read its input file and to save, in any order. A run in
coverage mode that has no input file keeps just what it is told, member by member, and what it saves
is the file of its store.
-/

namespace ValueCoverage

/-- What can be asked of a run. -/
inductive RunCall where
  | record (key : MemberKey) (o : Observation)
  | declare (key : MemberKey)
  /-- Reads the input file if that is due. -/
  | ready
  | save
deriving DecidableEq

namespace RunCall

/-- The member that a call is about. -/
def key? : RunCall → Option MemberKey
  | record key _ | declare key => some key
  | ready | save => none

/-- What a call adds to a store, by a codec that says in which form. -/
def added (codec : Codec) : RunCall → List (MemberKey × List Observation)
  | record key o => [(key, [codec.canonical o])]
  | declare key => [(key, [])]
  | ready | save => []

end RunCall

namespace CoverageRun

/-- Does what a call asks for; a record has an outcome. -/
def call (r : CoverageRun) (fs : Files) : RunCall → Option Outcome × CoverageRun × Files
  | .record key o => let (outcome, r) := r.record fs key o; (some outcome, r, fs)
  | .declare key => (none, (r.declare key).2, fs)
  | .ready => (none, (r.ensureReady fs).2, fs)
  | .save => (none, (r.save fs).2)

/-- Does what the calls ask for, one after the other; the outcomes are those of the records. -/
def calls (r : CoverageRun) (fs : Files) : List RunCall → List Outcome × CoverageRun × Files
  | [] => ([], r, fs)
  | c :: rest =>
    let (outcome, r, fs) := r.call fs c
    let (outcomes, last) := r.calls fs rest
    (outcome.toList ++ outcomes, last)

end CoverageRun

namespace CoverageRun

variable {options : Options} {codec : Codec} {mode : Mode} {r : CoverageRun} {fs : Files}

/-- A run with the options that writes with the codec and keeps what the codec reads back. -/
structure Keeps (options : Options) (codec : Codec) (r : CoverageRun) : Prop where
  options_eq : r.options = options
  serializer_eq : r.serializer = codec
  accepts : r.collector.Accepts options.mode codec

/-! ## The first run -/

/-- A run in coverage mode that has no input file left to read. -/
structure Records (options : Options) (codec : Codec) (r : CoverageRun) : Prop extends
    r.Keeps options codec where
  mode_eq : options.mode = .coverage
  ready : r.collector.readiness = .waiting none ∨ ∃ failure, r.collector.readiness = .done failure

/-- A change of what a collector holds is none of its form. -/
theorem Keeps.withStore (h : r.Keeps options codec) (store : Store)
    (startup : Startup InputFile) (saved : Bool) :
    Keeps options codec { r with collector := { r.collector with store, startup }, saved } :=
  ⟨h.options_eq, h.serializer_eq, h.accepts.mode_eq, h.accepts.canonical_eq, h.accepts.idle⟩

theorem Records.withStore (h : r.Records options codec) (store : Store) (saved : Bool) :
    Records options codec { r with collector := { r.collector with store }, saved } :=
  ⟨h.toKeeps.withStore store r.collector.startup saved, h.mode_eq, h.ready⟩

theorem Records.ensureReady (h : r.Records options codec) (fs : Files) :
    (r.ensureReady fs).2.Records options codec ∧
      (r.ensureReady fs).2.collector.store = r.collector.store ∧
      ∃ failure, (r.ensureReady fs).2.collector.readiness = .done failure := by
  rcases h.ready with hready | ⟨failure, hready⟩
  · have heq : r.ensureReady fs =
        (.ok (), { r with collector := r.collector.settle (.ok ()) }) := by
      simp only [CoverageRun.ensureReady, Collector.ensureReady_of_none hready]
    have hdone := Collector.readiness_settle hready (.ok ())
    rw [heq]
    exact ⟨⟨h.toKeeps.withStore _ _ r.saved, h.mode_eq, .inr ⟨_, hdone⟩⟩, rfl, _, hdone⟩
  · have heq : (r.ensureReady fs).2 = r := by
      simp only [CoverageRun.ensureReady, Collector.ensureReady_of_done hready]
    rw [heq]
    exact ⟨h, rfl, failure, hready⟩

theorem Records.save (h : r.Records options codec) (fs : Files) :
    (r.save fs).2.1.Records options codec ∧
      (r.save fs).2.1.collector.store = r.collector.store := by
  obtain ⟨hready, hstore, -⟩ := h.ensureReady fs
  unfold CoverageRun.save
  split
  · exact ⟨h, rfl⟩
  generalize r.ensureReady fs = ensured at hready hstore
  obtain ⟨result, r'⟩ := ensured
  cases result with
  | error e => exact ⟨hready, hstore⟩
  | ok _ =>
    simp only
    split
    · exact ⟨hready, hstore⟩
    · exact ⟨hready.withStore _ true, hstore⟩

/-- A call adds to the store what it tells. -/
theorem Records.call (h : r.Records options codec) (fs : Files) (c : RunCall) :
    (r.call fs c).2.1.Records options codec ∧
      (r.call fs c).2.1.collector.store = r.collector.store.addEntries (c.added codec) := by
  cases c with
  | record key o =>
    obtain ⟨hready, hstore, failure, hdone⟩ := h.ensureReady fs
    have haccepts := hready.accepts
    rw [h.mode_eq] at haccepts
    simp only [CoverageRun.call, ← record_ensureReady (r := r)]
    unfold CoverageRun.record
    rw [Collector.record_of_done _ hdone haccepts, ← hstore]
    exact ⟨hready.withStore _ _, rfl⟩
  | declare key => exact ⟨h.withStore _ _, rfl⟩
  | ready =>
    obtain ⟨hready, hstore, -⟩ := h.ensureReady fs
    exact ⟨hready, hstore⟩
  | save => exact h.save fs

theorem Records.calls (h : r.Records options codec) (fs : Files) (cs : List RunCall) :
    (r.calls fs cs).2.1.Records options codec ∧
      (r.calls fs cs).2.1.collector.store =
        r.collector.store.addEntries (cs.flatMap (RunCall.added codec)) := by
  induction cs generalizing r fs with
  | nil => exact ⟨h, rfl⟩
  | cons c rest ih =>
    obtain ⟨hcall, hstore⟩ := h.call fs c
    obtain ⟨hrest, hstore'⟩ := ih hcall (r.call fs c).2.2
    refine ⟨hrest, ?_⟩
    rw [List.flatMap_cons, Store.addEntries_append, ← hstore]
    exact hstore'

/-! ## From the start to the file -/

theorem start_eq_ok {registry : CodecRegistry} (h : start registry options = .ok r) :
    r.Keeps options r.serializer ∧ r.collector.store = .empty ∧
      r.collector.readiness =
        .waiting (options.input.map fun path => ⟨path, r.deserializer⟩) := by
  unfold start at h
  obtain ⟨serializer, hserializer, h⟩ := bind_eq_ok.1 h
  obtain ⟨deserializer, hdeserializer, h⟩ := bind_eq_ok.1 h
  obtain ⟨rules, hrules, h⟩ := bind_eq_ok.1 h
  cases h
  cases options.input <;> exact ⟨⟨rfl, rfl, rfl, rfl, rfl⟩, rfl, rfl⟩

/-- A ready run whose output can be written writes it, and the file is that of its store. -/
theorem save_eq_ok {out : String} {place : Location} {r' : CoverageRun}
    (hout : r.options.output = some out) (hplace : fs.target out = .ok place)
    (hready : r.ensureReady fs = (.ok (), r')) :
    ∃ fs', r.save fs = (.ok (some out), { r' with saved := true }, fs') ∧
      fs'.read out = .ok (CoverageFile.bytesOf r'.serializer r'.collector.store) := by
  have hwrite : ∃ fs', fs.write out (CoverageFile.bytesOf r'.serializer r'.collector.store) =
      .ok fs' := by
    simp only [Files.write, hplace]
    exact ⟨_, rfl⟩
  obtain ⟨fs', hfs'⟩ := hwrite
  have hsave : r'.saveAs fs out = .ok fs' := mapError_eq_ok.2 hfs'
  refine ⟨fs', ?_, Files.read_write hfs'⟩
  simp only [CoverageRun.save, hout, hready, hsave]

/-- A run that was saved wrote its store. -/
theorem read_of_save {last : CoverageRun} {fs' : Files} {out : String}
    (h : r.save fs = (.ok (some out), last, fs')) :
    fs'.read out = .ok (CoverageFile.bytesOf last.serializer last.collector.store) := by
  unfold save at h
  split at h
  · cases h
  split at h
  · cases h
  split at h
  · cases h
  · next hsave =>
    cases h
    exact Files.read_write (mapError_eq_ok.1 hsave)

end CoverageRun

end ValueCoverage
