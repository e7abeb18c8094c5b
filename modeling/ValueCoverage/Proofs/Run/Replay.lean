import ValueCoverage.Proofs.Run.Calls

/-!
# Runs that repeat an earlier run

A run without an input file keeps what it is told, member by member. A second run whose input is the
file of the first one, and which is told nothing that the first one was not told, ends with the same
store, however often and in whatever order things are repeated: once its input has been read,
nothing changes any more.
-/

namespace ValueCoverage

/-- Whether a call tells a run nothing that the earlier calls have not told. -/
def RunCall.Repeats (earlier : List RunCall) : RunCall → Prop
  | record key o => record key o ∈ earlier
  | declare key => declare key ∈ earlier ∨ ∃ o, record key o ∈ earlier
  | ready => True
  | save => False

namespace CoverageRun

variable {options : Options} {codec : Codec} {mode : Mode} {r : CoverageRun} {fs : Files}

/-! ## The second run -/

section Second

variable {known : Store} {path : String}

/-- A run that has not read its input file yet, and has been told only what is known. -/
structure Pending (options : Options) (codec : Codec) (path : String) (known : Store)
    (r : CoverageRun) : Prop extends r.Keeps options codec where
  readiness_eq : r.collector.readiness = .waiting (some ⟨path, codec⟩)
  within : r.collector.store.Within known

/-- A run that holds exactly what is known. -/
structure Settled (options : Options) (codec : Codec) (known : Store) (r : CoverageRun) : Prop
    extends r.Keeps options codec where
  readiness_eq : r.collector.readiness = .done none
  within : r.collector.store.Within known
  covers : known.Within r.collector.store

/-- What a call is told that repeats what is known. -/
def answer (mode : Mode) : RunCall → Option Outcome
  | .record _ _ => some (Collector.repeated mode)
  | .declare _ | .ready | .save => none

/-- Whether a call tells only what is known. -/
def Knows (codec : Codec) (known : Store) (c : RunCall) : Prop :=
  c ≠ .save ∧ ∀ e ∈ c.added codec, known.contains e.1 = true ∧ ∀ o ∈ e.2, known.holds e.1 o = true

/-- Nothing that is known changes a settled run. -/
theorem Settled.call (h : r.Settled options codec known) (fs : Files) {c : RunCall}
    (hc : Knows codec known c) : r.call fs c = (answer options.mode c, r, fs) := by
  cases c with
  | record key o =>
    obtain ⟨hkey, ho⟩ := hc.2 (key, [codec.canonical o]) (by simp [RunCall.added])
    have heq := Collector.record_repeated (InputFile.mergeInto fs) h.readiness_eq h.accepts
      (h.covers.contains key hkey) (h.covers.holds key _ (ho (codec.canonical o) (by simp)))
    simp only [CoverageRun.call, CoverageRun.record, heq]
    rfl
  | declare key =>
    obtain ⟨hkey, -⟩ := hc.2 (key, []) (by simp [RunCall.added])
    have hdeclare : r.collector.store.declare key = r.collector.store := by
      rw [Store.declare_eq_addAll, Store.addAll_eq_self (h.covers.contains key hkey) (by simp)]
    simp only [CoverageRun.call, CoverageRun.declare, Collector.declare, hdeclare]
    rfl
  | ready =>
    simp only [CoverageRun.call, CoverageRun.ensureReady,
      Collector.ensureReady_of_done h.readiness_eq]
    rfl
  | save => exact absurd rfl hc.1

theorem Settled.calls (h : r.Settled options codec known) (fs : Files) {cs : List RunCall}
    (hcs : ∀ c ∈ cs, Knows codec known c) :
    r.calls fs cs = (cs.filterMap (answer options.mode), r, fs) := by
  induction cs with
  | nil => rfl
  | cons c rest ih =>
    simp only [CoverageRun.calls, h.call fs (hcs c (by simp)),
      ih fun c' hc' => hcs c' (by simp [hc']), List.filterMap_cons]
    cases answer options.mode c <;> rfl

/-- The input file is put behind what the run has been told. -/
theorem Pending.ensureReady (h : r.Pending options codec path known)
    (hload : CoverageFile.load fs path codec = .ok known) (hknown : known.Writable codec) :
    ∃ r', r.ensureReady fs = (.ok (), r') ∧ r'.Settled options codec known ∧
      r'.collector.store = r.collector.store.merge known := by
  have hmerge : InputFile.mergeInto fs ⟨path, codec⟩ r.collector.claimed =
      (.ok (), { r.collector.claimed with store := r.collector.store.merge known }) := by
    have hcanonical : r.collector.claimed.canonical = some codec := h.accepts.canonical_eq
    simp only [InputFile.mergeInto, hload, Collector.merge, hcanonical,
      hknown.canonicalize_eq_self]
    rfl
  have hclaimed := Collector.readiness_claimed h.readiness_eq
  have hdone : ({ r.collector.claimed with store := r.collector.store.merge known }.settle
      (.ok ())).readiness = .done none := Collector.readiness_settle hclaimed (.ok ())
  refine ⟨{ r with collector := _ }, ?_, ⟨h.toKeeps.withStore _ _ r.saved, hdone,
    h.within.merge hknown.full, Store.within_merge hknown.full⟩, rfl⟩
  simp only [CoverageRun.ensureReady, Collector.ensureReady_of_some h.readiness_eq, hmerge]
  rfl

/-- The first call that needs the input file reads it; a declaration does not need it. -/
theorem Pending.call (h : r.Pending options codec path known)
    (hload : CoverageFile.load fs path codec = .ok known) (hknown : known.Writable codec)
    {c : RunCall} (hc : Knows codec known c) :
    ∃ r', r.call fs c = (answer options.mode c, r', fs) ∧
      ((∃ key, c = .declare key) ∧ r'.Pending options codec path known ∨
        r'.Settled options codec known ∧
          r'.collector.store = r.collector.store.merge known) := by
  obtain ⟨r', heq, hsettled, hstore⟩ := h.ensureReady hload hknown
  have heq' : (r.ensureReady fs).2 = r' := by rw [heq]
  cases c with
  | record key o =>
    have hcall := hsettled.call fs hc
    simp only [CoverageRun.call] at hcall ⊢
    rw [← record_ensureReady, heq']
    exact ⟨r', hcall, .inr ⟨hsettled, hstore⟩⟩
  | declare key =>
    obtain ⟨hkey, -⟩ := hc.2 (key, []) (by simp [RunCall.added])
    exact ⟨_, rfl, .inl ⟨⟨key, rfl⟩, h.toKeeps.withStore _ _ r.saved, h.readiness_eq,
      h.within.declare hkey⟩⟩
  | ready =>
    refine ⟨r', ?_, .inr ⟨hsettled, hstore⟩⟩
    rw [← heq']
    rfl
  | save => exact absurd rfl hc.1

theorem Pending.calls (h : r.Pending options codec path known)
    (hload : CoverageFile.load fs path codec = .ok known) (hknown : known.Writable codec)
    {cs : List RunCall} (hcs : ∀ c ∈ cs, Knows codec known c) :
    ∃ r', r.calls fs cs = (cs.filterMap (answer options.mode), r', fs) ∧
      (r'.Pending options codec path known ∨ r'.Settled options codec known) := by
  induction cs generalizing r with
  | nil => exact ⟨r, rfl, .inl h⟩
  | cons c rest ih =>
    have hrest : ∀ c' ∈ rest, Knows codec known c' := by
      intro c' hc'
      exact hcs c' (by simp [hc'])
    obtain ⟨r', hcall, ⟨-, hpending⟩ | ⟨hsettled, -⟩⟩ := h.call hload hknown (hcs c (by simp))
    · obtain ⟨last, heq, hlast⟩ := ih hpending hrest
      refine ⟨last, ?_, hlast⟩
      simp only [CoverageRun.calls, hcall, heq, List.filterMap_cons]
      cases answer options.mode c <;> rfl
    · refine ⟨r', ?_, .inr hsettled⟩
      simp only [CoverageRun.calls, hcall, hsettled.calls fs hrest, List.filterMap_cons]
      cases answer options.mode c <;> rfl

theorem Settled.ensureReady (h : r.Settled options codec known) (fs : Files) :
    r.ensureReady fs = (.ok (), r) := by
  simp only [CoverageRun.ensureReady, Collector.ensureReady_of_done h.readiness_eq]
  rfl

/-- If the input file is read first, it is all that the run holds. -/
theorem Pending.calls_of_head (h : r.Pending options codec path known)
    (hload : CoverageFile.load fs path codec = .ok known) (hknown : known.Writable codec)
    (hempty : r.collector.store = .empty) {cs : List RunCall}
    (hcs : ∀ c ∈ cs, Knows codec known c) (hhead : ∀ key, cs.head? ≠ some (.declare key)) :
    ∃ last, ((r.calls fs cs).2.1.ensureReady fs) = (.ok (), last) ∧
      last.collector.store = known := by
  cases cs with
  | nil =>
    obtain ⟨last, heq, -, hstore⟩ := h.ensureReady hload hknown
    exact ⟨last, heq, by rw [hstore, hempty, Store.empty_merge]⟩
  | cons c rest =>
    obtain ⟨last, hcall, ⟨⟨key, rfl⟩, -⟩ | ⟨hsettled, hstore⟩⟩ :=
      h.call hload hknown (hcs c (by simp))
    · exact absurd rfl (hhead key)
    · have hrest : last.calls fs rest = (rest.filterMap (answer options.mode), last, fs) :=
        hsettled.calls fs fun c' hc' => hcs c' (by simp [hc'])
      have hlast : (r.calls fs (c :: rest)).2.1 = last := by
        simp only [CoverageRun.calls, hcall, hrest]
      rw [hlast]
      exact ⟨last, hsettled.ensureReady fs, by rw [hstore, hempty, Store.empty_merge]⟩

end Second

end CoverageRun

/-! ## Both runs -/

/-- A run in coverage mode that starts without an input file, is told of some members, and saves
its file. -/
structure Recording (codec : Codec) where
  registry : CodecRegistry
  options : Options
  files : Files
  first : CoverageRun
  start_eq : CoverageRun.start registry options = .ok first
  mode_eq : options.mode = .coverage
  input_eq : options.input = none
  serializer_eq : first.serializer = codec
  deserializer_eq : first.deserializer = codec
  calls : List RunCall
  headed : ∀ c ∈ calls, ∀ key, c.key? = some key → key.Headed
  path : String
  last : CoverageRun
  saved : Files
  save_eq : (first.calls files calls).2.1.save (first.calls files calls).2.2 =
    (.ok (some path), last, saved)
  file : Bytes
  read_eq : saved.read path = .ok file

namespace Recording

variable {codec : Codec} (a : Recording codec)

theorem records_last : a.last.Records a.options codec ∧
    a.last.collector.store = Store.empty.addEntries (a.calls.flatMap (RunCall.added codec)) := by
  obtain ⟨hkeeps, hstore, hready⟩ := CoverageRun.start_eq_ok a.start_eq
  rw [a.serializer_eq] at hkeeps
  rw [a.input_eq, Option.map_none] at hready
  have hfirst : a.first.Records a.options codec := ⟨hkeeps, a.mode_eq, .inl hready⟩
  obtain ⟨hcalls, hcalled⟩ := hfirst.calls a.files a.calls
  obtain ⟨hlast, hkept⟩ := hcalls.save (a.first.calls a.files a.calls).2.2
  rw [a.save_eq] at hlast hkept
  exact ⟨hlast, by rw [hkept, hcalled, hstore]⟩

theorem file_eq : a.file = CoverageFile.bytesOf codec a.last.collector.store := by
  have hread := CoverageRun.read_of_save a.save_eq
  rw [a.read_eq, a.records_last.1.serializer_eq] at hread
  exact Except.ok.inj hread

theorem added_of_mem {c : RunCall} {e : MemberKey × List Observation} (hc : c ∈ a.calls)
    (he : e ∈ c.added codec) :
    a.last.collector.store.contains e.1 = true ∧
      ∀ o ∈ e.2, a.last.collector.store.holds e.1 o = true := by
  have hmem : e ∈ a.calls.flatMap (RunCall.added codec) := List.mem_flatMap.2 ⟨c, hc, he⟩
  rw [a.records_last.2]
  exact ⟨Store.contains_addEntries.2 (.inr ⟨e, hmem, rfl⟩),
    fun o ho => Store.holds_addEntries.2 (.inr ⟨e, hmem, rfl, ho⟩)⟩

theorem knows_of_repeats {c : RunCall} (h : c.Repeats a.calls) :
    CoverageRun.Knows codec a.last.collector.store c := by
  cases c with
  | record key o =>
    refine ⟨by simp, ?_⟩
    intro e he
    exact a.added_of_mem h he
  | declare key =>
    refine ⟨by simp, ?_⟩
    intro e he
    rw [RunCall.added, List.mem_singleton] at he
    subst he
    refine ⟨?_, by simp⟩
    rcases h with h | ⟨o, h⟩
    · exact (a.added_of_mem h (List.mem_singleton.2 rfl)).1
    · exact (a.added_of_mem (e := (key, [codec.canonical o])) h (List.mem_singleton.2 rfl)).1
  | ready => exact ⟨by simp, by simp [RunCall.added]⟩
  | save => exact absurd h id

theorem writable_last (hcodec : codec.Stable) : a.last.collector.store.Writable codec := by
  rw [a.records_last.2]
  refine (Store.writable_empty codec).addEntries ?_
  intro e he
  obtain ⟨c, hc, he⟩ := List.mem_flatMap.1 he
  cases c with
  | record key o =>
    rw [RunCall.added, List.mem_singleton] at he
    subst he
    refine ⟨a.headed _ hc key rfl, ?_⟩
    intro o' ho'
    rw [List.mem_singleton] at ho'
    rw [ho', hcodec.canonical_canonical]
  | declare key =>
    rw [RunCall.added, List.mem_singleton] at he
    subst he
    exact ⟨a.headed _ hc key rfl, by simp⟩
  | ready => cases he
  | save => cases he

theorem load_eq (hcodec : codec.Stable) {fs : Files} {path : String}
    (h : fs.read path = .ok a.file) :
    CoverageFile.load fs path codec = .ok a.last.collector.store := by
  rw [CoverageFile.load, h, a.file_eq]
  exact mapError_eq_ok.2 ((a.writable_last hcodec).read_write hcodec)

/-- **A run that repeats another adds nothing to its file.** Whatever it repeats, in whatever order,
it is told that nothing is new, and it ends with the store of the first run. If it has read the file
of the first run before it declares anything, it writes that file again. -/
theorem replay (hcodec : codec = .plain ∨ ∃ limit, codec = .truncate limit)
    {registry : CodecRegistry} {options : Options} {second : CoverageRun} {fs : Files}
    {input : String} {cs : List RunCall} (hstart : CoverageRun.start registry options = .ok second)
    (hserializer : second.serializer = codec) (hdeserializer : second.deserializer = codec)
    (hinput : options.input = some input) (hfile : fs.read input = .ok a.file)
    (hcs : ∀ c ∈ cs, c.Repeats a.calls) :
    (∀ outcome ∈ (second.calls fs cs).1, outcome = Collector.repeated options.mode) ∧
      ∀ out place, options.output = some out → fs.target out = .ok place →
        ∃ last fs', (second.calls fs cs).2.1.save (second.calls fs cs).2.2 =
            (.ok (some out), last, fs') ∧
          last.collector.store.agrees a.last.collector.store = true ∧
          ((∀ before key after, cs = before ++ .declare key :: after →
              (∀ k, .declare k ∉ before) →
              (second.calls fs before).2.1.collector.isInitialized = true) →
            fs'.read out = .ok a.file) := by
  have hstable := Codec.stable_of_keeps hcodec
  have hload := a.load_eq hstable hfile
  have hknown := a.writable_last hstable
  obtain ⟨hkeeps, hempty, hreadiness⟩ := CoverageRun.start_eq_ok hstart
  rw [hserializer] at hkeeps
  rw [hinput, hdeserializer, Option.map_some] at hreadiness
  have hpending : second.Pending options codec input a.last.collector.store :=
    ⟨hkeeps, hreadiness, by rw [hempty]; exact Store.within_empty _⟩
  have hknows : ∀ c ∈ cs, CoverageRun.Knows codec a.last.collector.store c := by
    intro c hc
    exact a.knows_of_repeats (hcs c hc)
  obtain ⟨r, hcalls, hr⟩ := hpending.calls hload hknown hknows
  constructor
  · intro outcome houtcome
    rw [hcalls] at houtcome
    obtain ⟨c, -, hanswer⟩ := List.mem_filterMap.1 houtcome
    cases c <;> simp only [CoverageRun.answer, Option.some.injEq, reduceCtorEq] at hanswer
    exact hanswer.symm
  intro out place hout hplace
  -- saving reads the input file if nothing has needed it before
  obtain ⟨last, hready, hsettled⟩ : ∃ last, r.ensureReady fs = (.ok (), last) ∧
      last.Settled options codec a.last.collector.store := by
    rcases hr with hr | hr
    · obtain ⟨last, hready, hsettled, -⟩ := hr.ensureReady hload hknown
      exact ⟨last, hready, hsettled⟩
    · exact ⟨r, hr.ensureReady fs, hr⟩
  have hout' : r.options.output = some out := by
    rcases hr with hr | hr <;> rw [hr.options_eq, hout]
  obtain ⟨fs', hsave, hread⟩ := CoverageRun.save_eq_ok hout' hplace hready
  rw [hcalls]
  refine ⟨_, fs', hsave, hsettled.within.agrees hsettled.covers, ?_⟩
  intro hfirst
  have hhead : ∀ key, cs.head? ≠ some (.declare key) := by
    intro key hkey
    obtain ⟨rest, rfl⟩ := List.head?_eq_some_iff.1 hkey
    obtain ⟨failure, hdone⟩ := Collector.isInitialized_iff.1 (hfirst [] key rest rfl (by simp))
    cases hreadiness.symm.trans hdone
  obtain ⟨last', hready', hstore⟩ := hpending.calls_of_head hload hknown hempty hknows hhead
  rw [hcalls, hready] at hready'
  cases hready'
  rw [hread, hsettled.serializer_eq, hstore, a.file_eq]

/-! ### One method and one field -/

/-- Standard options but for the files and the mode. -/
def between (input : Option String) (output : String) (mode : Mode) : Options :=
  { Options.standard with input, output := some output, mode }

/-- The run that options without codecs of their own and without rules start. -/
def plainRun (options : Options) : CoverageRun where
  options := options
  serializer := .plain
  deserializer := .plain
  instrumenter :=
    ⟨(Selection.both (Selection.allOf []) .notPlatform).accepts, .collector, options.fields⟩
  collector :=
    let collector : Collector InputFile := .new .empty options.mode (some .plain)
    match options.input with
    | some path => collector.setInitializer ⟨path, .plain⟩
    | none => collector
  saved := false

theorem start_between (input : Option String) (output : String) (mode : Mode) :
    CoverageRun.start .standard (between input output mode) =
      .ok (plainRun (between input output mode)) := by
  have hread : CodecSpec.read "plain" = .ok ⟨"plain", []⟩ := by rfl
  have hresolve : CodecRegistry.standard.resolve "plain" = .ok .plain := by
    simp only [CodecRegistry.resolve, hread]
    rfl
  have hserializer : (between input output mode).serializer = "plain" := rfl
  have hdeserializer : (between input output mode).deserializer = "plain" := rfl
  have hrules :
      Selection.ofRules (between input output mode).rules = .ok (Selection.allOf []) := rfl
  simp only [CoverageRun.start, hserializer, hdeserializer, hresolve, hrules]
  rfl

/-- A method is called once; a field is declared. -/
def onceCalls : List RunCall :=
  [.record ⟨"a.B", "m(I)V"⟩ [.int 5], .declare ⟨"a.B", "f:I"⟩]

/-- What is left of it when it is saved under `/f`. -/
def onceSaved : Except CoverageError (Option String) × CoverageRun × Files :=
  let (_, last, fs) := (plainRun (between none "/f" .coverage)).calls .empty onceCalls
  last.save fs

def once : Recording .plain where
  registry := .standard
  options := between none "/f" .coverage
  files := .empty
  first := plainRun (between none "/f" .coverage)
  start_eq := start_between none "/f" .coverage
  mode_eq := rfl
  input_eq := rfl
  serializer_eq := rfl
  deserializer_eq := rfl
  calls := onceCalls
  headed := by
    intro c hc key hkey
    simp only [onceCalls, List.mem_cons, List.not_mem_nil, or_false] at hc
    rcases hc with rfl | rfl <;> cases hkey <;> exact
      { owner_ne := by decide
        member_ne := by decide
        owner_plain := by decide
        inLine := by decide
        no_arrow := by decide }
  path := "/f"
  last := onceSaved.2.1
  saved := onceSaved.2.2
  save_eq := by
    have hok : onceSaved.1 = .ok (some "/f") := toOption_eq_some.1 (by decide +kernel)
    exact Prod.ext hok rfl
  file := CoverageFile.bytesOf .plain
    ((Store.empty.add ⟨"a.B", "m(I)V"⟩ [.text "5"]).declare ⟨"a.B", "f:I"⟩)
  read_eq := toOption_eq_some.1 (by decide +kernel)

theorem replay_once :
    (∀ outcome ∈ ((plainRun (between (some "/f") "/g" .coverage)).calls once.saved onceCalls).1,
        outcome = .duplicate) ∧
      ∃ last fs', ((plainRun (between (some "/f") "/g" .coverage)).calls once.saved
            onceCalls).2.1.save
          ((plainRun (between (some "/f") "/g" .coverage)).calls once.saved onceCalls).2.2 =
            (.ok (some "/g"), last, fs') ∧
        last.collector.store.agrees once.last.collector.store = true ∧
        fs'.read "/g" = .ok once.file := by
  have hrepeats : ∀ c ∈ onceCalls, c.Repeats once.calls := by
    intro c hc
    simp only [onceCalls, List.mem_cons, List.not_mem_nil, or_false] at hc
    rcases hc with rfl | rfl
    · exact List.mem_cons_self
    · exact .inl (by decide)
  obtain ⟨houtcomes, hsaved⟩ := once.replay (.inl rfl) (start_between (some "/f") "/g" .coverage)
    rfl rfl rfl once.read_eq hrepeats
  obtain ⟨last, fs', hsave, hagrees, hfile⟩ :=
    hsaved "/g" ["g"] rfl (toOption_eq_some.1 (by decide +kernel))
  refine ⟨houtcomes, last, fs', hsave, hagrees, hfile ?_⟩
  intro before key after heq hbefore
  -- only the call of the method stands in front of a declaration that is the first
  rcases before with _ | ⟨first, _ | ⟨second, before⟩⟩
  · cases heq
  · cases heq
    decide +kernel
  · simp [onceCalls] at heq

/-- A run that keeps no values says so of every record, repeated or not. -/
theorem replay_not_duplicate :
    ¬∀ (a : Recording .plain) (registry : CodecRegistry) (options : Options)
      (second : CoverageRun) (fs : Files) (input : String) (cs : List RunCall),
      CoverageRun.start registry options = .ok second → second.serializer = .plain →
      second.deserializer = .plain → options.input = some input → fs.read input = .ok a.file →
      (∀ c ∈ cs, c.Repeats a.calls) →
      ∀ outcome ∈ (second.calls fs cs).1, outcome = .duplicate := by
  intro h
  have hdeclared : Outcome.declared ∈ ((plainRun (between (some "/f") "/g" .template)).calls
      once.saved [.record ⟨"a.B", "m(I)V"⟩ [.int 5]]).1 := by
    decide +kernel
  have hduplicate := h once .standard _ _ once.saved "/f" [.record ⟨"a.B", "m(I)V"⟩ [.int 5]]
    (start_between (some "/f") "/g" .template) rfl rfl rfl once.read_eq
    (by simp [RunCall.Repeats, once, onceCalls]) _ hdeclared
  cases hduplicate

end Recording

end ValueCoverage
