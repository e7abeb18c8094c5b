import ValueCoverage.Proofs.Agent.Watching
import ValueCoverage.Proofs.Capture.Declarations

/-!
# Class files that an agent replaces

A loaded agent is told of class files, of the start and the end of the machine, of prepared classes,
of writes to fields and of calls, in any order, and calls may fail meanwhile. It replaces a class
file only between a start on which the class that takes arguments could be defined and the next end,
and then exactly if a method of the class has been instrumented and the machine has memory for the
result. Classes of the platform are never replaced and never declared, whatever rules select
members.
-/

namespace ValueCoverage

/-- What the machine tells an agent, and how calls end meanwhile. -/
inductive AgentEvent where
  | started (faults : Faults)
  | ended (faults : Faults)
  | loaded (faults : Faults) (name bytes : Option Bytes) (length : Int)
  | prepared (faults : Faults) (c : ClassInfo)
  | modified (faults : Faults) (id : Nat) (tag : Char) (slot : SlotValue)
  | called (faults : Faults) (call : ObservedCall)

namespace AgentEvent

def faults : AgentEvent → Faults
  | started faults | ended faults | loaded faults _ _ _ | prepared faults _ | modified faults _ _ _
  | called faults _ => faults

/-- What the agent does; only a class file that is loaded has an answer. -/
def handle : AgentEvent → ProcM (Option Bytes)
  | started _ => do
    Agent.vmInit
    return none
  | ended _ => do
    Agent.vmDeath
    return none
  | loaded _ name bytes length => Agent.classFileLoaded name bytes length
  | prepared _ c => do
    Agent.classPrepared c
    return none
  | modified _ id tag slot => do
    Agent.fieldModified id tag slot
    return none
  | called _ call => do
    Conversion.perform call
    return none

end AgentEvent

/-- The process with calls that end like this. -/
def AgentProcess.under (p : AgentProcess) (faults : Faults) : AgentProcess :=
  { p with machine := { p.machine with faults } }

namespace AgentEvent

/-- The class file that is used in the place of the one that is loaded. -/
def answer (e : AgentEvent) (p : AgentProcess) : Option Bytes := (e.handle.run (p.under e.faults)).1

/-- The process after the event. -/
def after (e : AgentEvent) (p : AgentProcess) : AgentProcess := (e.handle.run (p.under e.faults)).2

/-- The process after the events. -/
def afterAll (events : List AgentEvent) (p : AgentProcess) : AgentProcess :=
  events.foldl (fun p e => e.after p) p

/-- Whether the machine ends. -/
def isEnd : AgentEvent → Bool
  | ended _ => true
  | started _ | loaded _ _ _ _ | prepared _ _ | modified _ _ _ _ | called _ _ => false

end AgentEvent

/-- The class that takes arguments can be defined. -/
def Agent.Starts (faults : Faults) (p : AgentProcess) : Prop :=
  (Agent.defineCollector.run.run (p.under faults)).1 = .ok ()

/-- After the last end of the machine there was a start on which the class that takes arguments
could be defined. -/
def Agent.Started (p : AgentProcess) (events : List AgentEvent) : Prop :=
  ∃ before faults after, events = before ++ .started faults :: after ∧
    (∀ e ∈ after, e.isEnd = false) ∧ Agent.Starts faults (AgentEvent.afterAll before p)

/-! ## What stays -/

/-- The agent has a tool interface and is ready or not, and classes are instrumented like this. -/
structure AgentProcess.Serves (t : Tool) (ready : Bool) (i : Instrumenter) (p : AgentProcess) :
    Prop where
  agent_eq : ∃ watched, p.agent = some ⟨some t, ready, watched⟩
  run_eq : ∃ r, p.run = some r ∧ r.instrumenter = i

section

variable {t : Tool} {ready : Bool} {i : Instrumenter} {p q : AgentProcess}

theorem AgentProcess.Serves.congr (h : p.Serves t ready i) (hagent : q.agent = p.agent)
    (hrun : q.run = p.run) : q.Serves t ready i :=
  ⟨by rw [hagent]; exact h.agent_eq, by rw [hrun]; exact h.run_eq⟩

theorem AgentProcess.Serves.under (h : p.Serves t ready i) (faults : Faults) :
    (p.under faults).Serves t ready i :=
  h.congr rfl rfl

end

namespace ProcM

variable {α β : Type}

/-- The call changes nothing on which it depends which class files are replaced. -/
def Keeps (x : ProcM α) : Prop :=
  ∀ t ready i p, AgentProcess.Serves t ready i p → AgentProcess.Serves t ready i (x.run p).2

theorem Keeps.pure (a : α) : Keeps (pure a) := fun _ _ _ _ h => h

theorem Keeps.bind {x : ProcM α} {f : α → ProcM β} (hx : Keeps x) (hf : ∀ a, Keeps (f a)) :
    Keeps (x >>= f) :=
  fun t ready i p h => hf _ t ready i _ (hx t ready i p h)

theorem Keeps.get : Keeps get := fun _ _ _ _ h => h

theorem Keeps.ite {c : Prop} [Decidable c] {x y : ProcM α} (hx : Keeps x) (hy : Keeps y) :
    Keeps (if c then x else y) := by
  split
  · exact hx
  · exact hy

theorem Keeps.modify {f : AgentProcess → AgentProcess} (hagent : ∀ p, (f p).agent = p.agent)
    (hrun : ∀ p, (f p).run = p.run) : Keeps (modify f) :=
  fun _ _ _ p h => h.congr (hagent p) (hrun p)

theorem Keeps.onMachine (x : VmM α) : Keeps (onMachine x) := fun _ _ _ _ h => h.congr rfl rfl

theorem Keeps.onRun {f : Files → CoverageRun → α × CoverageRun}
    (hf : ∀ fs r, (f fs r).2.instrumenter = r.instrumenter) : Keeps (onRun f) := by
  intro t ready i p h
  obtain ⟨r, hr, hi⟩ := h.run_eq
  rw [run_onRun f hr]
  exact ⟨h.agent_eq, _, rfl, (hf p.files r).trans hi⟩

theorem Keeps.onAgent {f : AgentState → AgentState}
    (hf : ∀ a, (f a).tool = a.tool ∧ (f a).ready = a.ready) : Keeps (onAgent f) := by
  intro t ready i p h
  obtain ⟨watched, hagent⟩ := h.agent_eq
  refine ⟨⟨(f ⟨some t, ready, watched⟩).watched, ?_⟩, h.run_eq⟩
  show p.agent.map f = _
  obtain ⟨htool, hready⟩ := hf ⟨some t, ready, watched⟩
  rw [hagent, Option.map_some]
  congr 1
  cases hf' : f ⟨some t, ready, watched⟩
  simp_all

/-! ### Calls that can fail -/

theorem Keeps.bindAttempt {x : Attempt α} {f : α → Attempt β} (hx : Keeps x.run)
    (hf : ∀ a, Keeps (f a).run) : Keeps (x >>= f).run := by
  show Keeps (x.run >>= ExceptT.bindCont f)
  refine .bind hx fun result => ?_
  cases result with
  | ok a => exact hf a
  | error e => exact .pure _

theorem Keeps.lift {x : ProcM α} (hx : Keeps x) : Keeps (liftM x : Attempt α).run :=
  .bind hx fun a => .pure (Except.ok a)

theorem Keeps.tryOnMachine (x : ExceptT CoverageError VmM α) : Keeps (tryOnMachine x).run :=
  .onMachine x.run

theorem Keeps.forM {f : α → Attempt PUnit} (hf : ∀ a, Keeps (f a).run) (as : List α) :
    Keeps (as.forM f).run := by
  induction as with
  | nil => exact .pure _
  | cons a as ih => exact .bindAttempt (hf a) fun _ => ih

/-! ### Records -/

/-- What is captured for a record is captured on a thread that is collecting. -/
theorem Keeps.record (key : MemberKey) {capture : ProcM Observation} (hcapture : Quiet capture) :
    Keeps (record key capture) := by
  intro t ready i p h
  obtain ⟨r, hr, hi⟩ := h.run_eq
  by_cases hguard : p.guard = .free
  · have halike : AgentProcess.Alike _ ((ProcM.record key capture).run p).2 :=
      run_record hr hguard hcapture
    obtain ⟨machine, known, -, hq⟩ := halike
    rw [hq]
    exact ⟨h.agent_eq, _, rfl, hi⟩
  · rw [run_record_of_held hr (Guard.enter?_eq_none hguard)]
    exact ⟨h.agent_eq, _, rfl, hi⟩

end ProcM

namespace Agent

open ProcM

theorem keeps_watchField (t : Tool) (owner : String) (id : Nat) (f : FieldInfo) :
    Keeps (watchField t owner id f).run := by
  unfold watchField
  refine .bindAttempt (.tryOnMachine _) fun told => ?_
  refine .bindAttempt (.tryOnMachine _) fun modifiers => .bindAttempt (.lift .get) fun p => ?_
  split
  · refine .bindAttempt (.tryOnMachine _) fun _ => ?_
    refine .bindAttempt (.lift (.onRun fun _ _ => rfl)) fun _ => ?_
    exact .lift (.onAgent fun _ => ⟨rfl, rfl⟩)
  · exact .pure _

theorem keeps_classPrepared (c : ClassInfo) : Keeps (classPrepared c) := by
  unfold classPrepared
  refine .bind .get fun p => ?_
  split
  · refine .bind (.bindAttempt (.tryOnMachine _) fun signature => ?_) fun _ => .pure _
    split
    · exact .pure _
    · exact .bindAttempt (.tryOnMachine _) fun fields => .forM (fun f => keeps_watchField _ _ _ _) _
  · exact .pure _

theorem keeps_fieldModified (id : Nat) (tag : Char) (slot : SlotValue) :
    Keeps (fieldModified id tag slot) := by
  unfold fieldModified
  refine .bind .get fun p => ?_
  split
  · refine .bind (.record _ (.bind (Conversion.quiet_fieldValue tag slot) fun _ => .pure _)) ?_
    exact fun _ => .bind (.onMachine _) fun _ => .pure _
  · exact .pure _

theorem keeps_perform (call : ObservedCall) : Keeps (Conversion.perform call) := by
  cases call with
  | mk owner member signature args =>
    unfold Conversion.perform Conversion.observe
    refine .bind .get fun p => ?_
    split
    · exact .pure _
    refine .bind (.onMachine _) fun _ => .bind (.onMachine _) fun _ => ?_
    refine .bind (.onMachine _) fun _ => ?_
    have hend : Keeps (do
        let _ ← ProcM.takeException
        return () : ProcM Unit) := .bind (.onMachine _) fun _ => .pure _
    split
    · exact .bind (.record _ (Conversion.quiet_arguments _ _)) fun _ => hend
    · exact hend

theorem keeps_defineCollector : Keeps defineCollector.run := by
  unfold defineCollector Conversion.prepare
  refine .bindAttempt (.pure _) fun c => .bindAttempt (.tryOnMachine _) fun _ => ?_
  refine .bindAttempt (.lift .get) fun p => ?_
  split
  · exact .bindAttempt (.tryOnMachine _) fun _ => .lift (.modify (fun _ => rfl) fun _ => rfl)
  · exact .pure _

/-! ## A class file is loaded -/

theorem instrument_fst (r : CoverageRun) (bytes : Bytes) :
    (r.instrument bytes).1 = r.instrumenter.instrument bytes := by
  unfold CoverageRun.instrument Instrumenter.instrumentInto
  cases r.instrumenter.instrument bytes <;> rfl

theorem instrument_snd (r : CoverageRun) (bytes : Bytes) :
    (r.instrument bytes).2 =
      ((r.instrumenter.instrument bytes).toOption.elim [] ClassOutcome.declarations).foldl
        (fun r d => (r.declare d.key).2) r := by
  unfold CoverageRun.instrument Instrumenter.instrumentInto
  cases r.instrumenter.instrument bytes <;> rfl

theorem instrumenter_declareAll (declarations : List Declaration) (r : CoverageRun) :
    (declarations.foldl (fun r d => (r.declare d.key).2) r).instrumenter = r.instrumenter := by
  induction declarations generalizing r with
  | nil => rfl
  | cons d rest ih => exact ih (r.declare d.key).2

theorem instrumenter_instrument (r : CoverageRun) (bytes : Bytes) :
    (r.instrument bytes).2.instrumenter = r.instrumenter := by
  rw [instrument_snd]
  exact instrumenter_declareAll _ r

theorem run_instrument {p : AgentProcess} {r : CoverageRun} (hr : p.run = some r) (data : Bytes) :
    (liftM (onRun fun _ r => r.instrument data) : Attempt _).run.run p =
      (.ok (some (r.instrumenter.instrument data)),
        { p with run := some (r.instrument data).2 }) := by
  show (Except.ok ((onRun fun _ r => r.instrument data).run p).1,
    ((onRun fun _ r => r.instrument data).run p).2) = _
  rw [run_onRun _ hr, instrument_fst]

theorem result_allocateCopy (t : Tool) (bytes : Bytes) (m : Machine) :
    (Tool.result (t.allocateCopy bytes) m).map Lent.content =
      if bytes.length ≤ Tool.greatestBlock ∧ t.grants m.faults (.allocate bytes.length) none then
        some bytes
      else none := by
  unfold Tool.allocateCopy
  by_cases hlength : Tool.greatestBlock < bytes.length
  · rw [if_pos hlength, if_neg (by omega)]
    rfl
  · rw [if_neg hlength, Tool.result_bind, Tool.result_call]
    by_cases hgrants : t.grants m.faults (.allocate bytes.length) none
    · rw [if_pos hgrants, if_pos ⟨by omega, hgrants⟩]
      rfl
    · rw [if_neg hgrants, if_neg (fun h => hgrants h.2)]
      rfl

/-- The class file `data` is replaced by `new`. -/
structure Replaces (t : Tool) (i : Instrumenter) (faults : Faults) (data new : Bytes) : Prop where
  instrumented : ∃ outcome, i.instrument data = .ok outcome ∧ 0 < outcome.instrumented ∧
    outcome.bytes = some new
  fits : new.length ≤ Tool.greatestBlock
  allocated : t.grants faults (.allocate new.length) none

theorem isSome_bytes_iff {i : Instrumenter} {data : Bytes} {outcome : ClassOutcome}
    (h : i.instrument data = .ok outcome) : outcome.bytes.isSome ↔ 0 < outcome.instrumented := by
  obtain ⟨c, w, -, -, rfl⟩ := Instrumenter.instrument_eq_ok.1 h
  unfold Instrumenter.Rewriting.outcome
  cases w.methods.instrumented <;> simp

variable {t : Tool} {i : Instrumenter} {faults : Faults} {data new : Bytes} {outcome : ClassOutcome}

theorem replaces_iff_of_ok (h : i.instrument data = .ok outcome) :
    Replaces t i faults data new ↔ outcome.bytes = some new ∧
      new.length ≤ Tool.greatestBlock ∧ t.grants faults (.allocate new.length) none := by
  constructor
  · rintro ⟨⟨outcome', hok, -, hnew⟩, hfits, hallocated⟩
    obtain rfl := Except.ok.inj (h.symm.trans hok)
    exact ⟨hnew, hfits, hallocated⟩
  · rintro ⟨hnew, hfits, hallocated⟩
    exact ⟨⟨outcome, h, (isSome_bytes_iff h).1 (by rw [hnew]; rfl), hnew⟩, hfits, hallocated⟩

theorem run_content (x : Tool.Call (Lent Bytes)) (p : AgentProcess) (new : Bytes) :
    ((do return some (← tryOnMachine x).content : Attempt (Option Bytes)).run.run p).1 =
        .ok (some new) ↔
      (Tool.result x p.machine).map Lent.content = some new := by
  rw [run_bind_fallible, run_tryOnMachine]
  unfold Tool.result
  cases (x.run.run p.machine).1 with
  | ok l =>
    show Except.ok (some l.content) = .ok (some new) ↔ some l.content = some new
    simp
  | error e => exact ⟨fun h => (nomatch h), fun h => (nomatch h)⟩

theorem run_transform {p : AgentProcess} {r : CoverageRun} (hr : p.run = some r) :
    ((transform t data).run.run p).1 = .ok (some new) ↔
      Replaces t r.instrumenter p.machine.faults data new := by
  unfold transform
  rw [run_bind_fallible, run_instrument hr]
  cases h : r.instrumenter.instrument data with
  | error e =>
    refine ⟨fun hnew => (nomatch hnew), fun hnew => ?_⟩
    obtain ⟨outcome, hok, -⟩ := hnew.instrumented
    rw [h] at hok
    cases hok
  | ok outcome =>
    rw [replaces_iff_of_ok h]
    cases houtcome : outcome.bytes with
    | none =>
      simp only [houtcome]
      exact ⟨fun hnew => (nomatch hnew), fun hnew => (nomatch hnew.1)⟩
    | some bytes =>
      simp only [houtcome]
      rw [run_content, result_allocateCopy]
      split
      · next hgranted =>
        constructor
        · rintro ⟨⟩
          exact ⟨rfl, hgranted⟩
        · rintro ⟨h, -⟩
          exact h
      · next hgranted =>
        refine ⟨fun hnew => (nomatch hnew), ?_⟩
        rintro ⟨⟨⟩, hgranted'⟩
        exact absurd hgranted' hgranted

theorem keeps_transform (t : Tool) (data : Bytes) : Keeps (transform t data).run := by
  unfold transform
  refine .bindAttempt (.lift (.onRun fun _ r => instrumenter_instrument r data)) fun result => ?_
  split
  · split
    · exact .bindAttempt (.tryOnMachine _) fun _ => .pure _
    · exact .pure _
  · exact .pure _
  · exact .pure _

theorem keeps_classFileLoaded (name bytes : Option Bytes) (length : Int) :
    Keeps (classFileLoaded name bytes length) := by
  unfold classFileLoaded
  refine .bind .get fun p => ?_
  split
  · refine .ite (.pure _) (.ite (.pure _) (.bind (keeps_transform _ _) fun result => ?_))
    split
    · exact .pure _
    · exact .pure _
  · exact .pure _

/-- Class files are looked at while the agent is ready; the class that takes arguments is not. -/
structure Looks (ready : Bool) (name : Option Bytes) (length : Int) : Prop where
  ready : ready = true
  length : 0 < length
  name : name.map Text.Utf8.pointedTo ≠ some Target.collector.owner

variable {ready : Bool} {p : AgentProcess} {name : Option Bytes} {length : Int}

theorem run_classFileLoaded_of_looks (h : p.Serves t ready i) (hlooks : Looks ready name length) :
    (classFileLoaded name (some data) length).run p =
      (((transform t (data.take length.toNat)).run.run p).1.toOption.join,
        ((transform t (data.take length.toNat)).run.run p).2) := by
  obtain ⟨watched, hagent⟩ := h.agent_eq
  have hpos := hlooks.length
  have hpointed : (name.map fun n => Text.Utf8.decodeLenient (n.takeWhile (· ≠ 0))) =
      name.map Text.Utf8.pointedTo := rfl
  unfold classFileLoaded
  rw [run_bind, run_get]
  simp only [hagent, hlooks.ready]
  rw [if_neg (by omega), hpointed, if_neg hlooks.name, run_bind]
  cases ((transform t (data.take length.toNat)).run.run p).1 <;> rfl

theorem run_classFileLoaded_of_not_looks (h : p.Serves t ready i)
    (hlooks : ¬ Looks ready name length) (bytes : Option Bytes) :
    (classFileLoaded name bytes length).run p = (none, p) := by
  obtain ⟨watched, hagent⟩ := h.agent_eq
  have hpointed : (name.map fun n => Text.Utf8.decodeLenient (n.takeWhile (· ≠ 0))) =
      name.map Text.Utf8.pointedTo := rfl
  unfold classFileLoaded
  rw [run_bind, run_get]
  simp only [hagent]
  cases hready : ready with
  | false => rfl
  | true =>
  cases bytes with
  | none => rfl
  | some data =>
  dsimp only
  by_cases hlength : length ≤ 0
  · rw [if_pos hlength]
    rfl
  · rw [if_neg hlength, hpointed, if_pos ?_]
    · rfl
    · by_contra hname
      exact hlooks ⟨hready, by omega, hname⟩

/-- A class file that cannot be instrumented is left as it is. -/
theorem join_toOption_eq_some (result : Except CoverageError (Option Bytes)) :
    result.toOption.join = some new ↔ result = .ok (some new) := by
  cases result with
  | ok replacement =>
    show replacement = some new ↔ Except.ok replacement = .ok (some new)
    simp
  | error e => exact ⟨fun hnew => (nomatch hnew), fun hnew => (nomatch hnew)⟩

/-- **What a hook answers.** -/
theorem classFileLoaded_eq_some (h : p.Serves t ready i) (name bytes : Option Bytes)
    (length : Int) :
    ((classFileLoaded name bytes length).run p).1 = some new ↔
      Looks ready name length ∧ ∃ data, bytes = some data ∧
        Replaces t i p.machine.faults (data.take length.toNat) new := by
  obtain ⟨r, hr, hi⟩ := id h.run_eq
  by_cases hlooks : Looks ready name length
  · cases bytes with
    | none =>
      have hnone : ((classFileLoaded name none length).run p).1 = none := by
        obtain ⟨watched, hagent⟩ := h.agent_eq
        unfold classFileLoaded
        rw [run_bind, run_get]
        simp only [hagent, hlooks.ready]
        rfl
      rw [hnone]
      refine ⟨fun hnew => (nomatch hnew), ?_⟩
      rintro ⟨-, data, ⟨⟩, -⟩
    | some data =>
      have htransform : ((transform t (data.take length.toNat)).run.run p).1 = .ok (some new) ↔ _ :=
        run_transform hr
      rw [run_classFileLoaded_of_looks h hlooks, join_toOption_eq_some, htransform, hi]
      constructor
      · exact fun hreplaces => ⟨hlooks, data, rfl, hreplaces⟩
      · rintro ⟨-, data', ⟨⟩, hreplaces⟩
        exact hreplaces
  · rw [run_classFileLoaded_of_not_looks h hlooks]
    exact ⟨fun hnew => (nomatch hnew), fun hnew => absurd hnew.1 hlooks⟩

theorem run_transform_run {p : AgentProcess} {r : CoverageRun} (hr : p.run = some r) (t : Tool)
    (data : Bytes) :
    ((transform t data).run.run p).2.run = some (r.instrument data).2 := by
  unfold transform
  rw [run_bind_fallible, run_instrument hr]
  cases h : r.instrumenter.instrument data with
  | error e => rfl
  | ok outcome =>
    cases houtcome : outcome.bytes with
    | none =>
      simp only [houtcome]
      rfl
    | some bytes =>
      simp only [houtcome]
      rw [run_bind_fallible, run_tryOnMachine]
      cases ((t.allocateCopy bytes).run.run p.machine).1 <;> rfl

/-! ## Classes of the platform -/

section

variable {rules : Selection} {c : ClassFile} {internal : String}

theorem accepts_platform (hi : i.accepts = (Selection.both rules .notPlatform).accepts) {m : Member}
    (h : Selection.isUnder Selection.platformPrefixes m.owner) : i.accepts m = false := by
  rw [hi]
  simp [Selection.accepts, Selection.notPlatform, h]

/-- No member of a platform class is observed, so none is declared and no method instrumented. -/
theorem instrument_platform (hi : i.accepts = (Selection.both rules .notPlatform).accepts)
    (hread : ClassFile.read data = .ok c) (hname : c.name = .ok internal)
    (hplatform : Selection.isUnder Selection.platformPrefixes (Text.pointed internal))
    (h : i.instrument data = .ok outcome) :
    outcome.declarations = [] ∧ outcome.instrumented = 0 := by
  obtain ⟨c', file, fields, fates, hread', howner, -, hfields, hdeclared, -, hcount, -, hlength,
    hlength', hsettled, -⟩ := Instrumenter.instrument_accounts h
  obtain rfl := Except.ok.inj (hread.symm.trans hread')
  rw [hname] at howner
  have howner' : Text.pointed internal = outcome.owner := Except.ok.inj howner
  have hturned : ∀ (m : ClassMember) (member : Member),
      Instrumenter.memberOf c outcome.owner m = .ok member → i.accepts member = false := by
    intro m member hm
    refine accepts_platform hi ?_
    rw [(Instrumenter.memberOf_eq_ok hm).2.2, ← howner']
    exact hplatform
  have hfields : fields = [] := by
    cases hon : i.fields with
    | false => exact hfields.off hon
    | true =>
      obtain ⟨members, hmembers, rfl⟩ := hfields.on hon
      rw [List.map_eq_nil_iff, List.filter_eq_nil_iff]
      intro member hmember haccepted
      obtain ⟨m, -, hm⟩ := exists_of_mem_mapM hmembers hmember
      rw [hturned m member hm] at haccepted
      cases haccepted
  have hfates : fates.filterMap Instrumenter.Fate.declaration? = [] := by
    rw [List.filterMap_eq_nil_iff]
    intro fate hfate
    obtain ⟨n, hn⟩ := List.mem_iff_getElem?.1 hfate
    have hlt : n < fates.length := (List.getElem?_eq_some_iff.1 hn).1
    obtain ⟨m, hm⟩ : ∃ m, c.methods[n]? = some m := ⟨_, List.getElem?_eq_getElem (by omega)⟩
    obtain ⟨m', hm'⟩ : ∃ m', file.methods[n]? = some m' := ⟨_, List.getElem?_eq_getElem (by omega)⟩
    cases hsettled n m m' fate hm hm' hn with
    | instrumented hwanted =>
      have haccepted := hwanted.asked.accepted
      rw [hturned _ _ hwanted.asked.member] at haccepted
      cases haccepted
    | _ => rfl
  exact ⟨by rw [hdeclared, hfields, hfates]; rfl, by rw [hcount, hfates]; rfl⟩

/-- A class file is not replaced, and nothing declared, if its class belongs to the platform. -/
theorem classFileLoaded_platform (h : p.Serves t ready i)
    (hi : i.accepts = (Selection.both rules .notPlatform).accepts) (name : Option Bytes)
    (hread : ClassFile.read (data.take length.toNat) = .ok c) (hname : c.name = .ok internal)
    (hplatform : Selection.isUnder Selection.platformPrefixes (Text.pointed internal)) :
    ((classFileLoaded name (some data) length).run p).1 = none ∧
      ((classFileLoaded name (some data) length).run p).2.run = p.run := by
  obtain ⟨r, hr, rfl⟩ := id h.run_eq
  constructor
  · rw [Option.eq_none_iff_forall_ne_some]
    intro new hnew
    obtain ⟨-, data', hdata, hreplaces⟩ := (classFileLoaded_eq_some h _ _ _).1 hnew
    obtain rfl := Option.some.inj hdata
    obtain ⟨outcome, hok, hpos, -⟩ := hreplaces.instrumented
    rw [(instrument_platform hi hread hname hplatform hok).2] at hpos
    exact absurd hpos (Nat.lt_irrefl 0)
  · have hsame : (r.instrument (data.take length.toNat)).2 = r := by
      rw [instrument_snd]
      cases hok : r.instrumenter.instrument (data.take length.toNat) with
      | error e => rfl
      | ok outcome =>
        show outcome.declarations.foldl _ r = r
        rw [(instrument_platform hi hread hname hplatform hok).1]
        rfl
    by_cases hlooks : Looks ready name length
    · rw [run_classFileLoaded_of_looks h hlooks, run_transform_run hr, hsame, hr]
    · rw [run_classFileLoaded_of_not_looks h hlooks]

end

/-! ## From start to end -/

theorem instrumenter_save (r : CoverageRun) (fs : Files) :
    (r.save fs).2.1.instrumenter = r.instrumenter := by
  unfold CoverageRun.save
  split
  · rfl
  have hready : (r.ensureReady fs).2.instrumenter = r.instrumenter := rfl
  generalize r.ensureReady fs = ensured at hready
  obtain ⟨result, r'⟩ := ensured
  cases result with
  | error e => exact hready
  | ok _ =>
    simp only
    split
    · exact hready
    · exact hready

theorem serves_vmInit (h : p.Serves t ready i) :
    ∃ ready', (vmInit.run p).2.Serves t ready' i ∧
      (ready' = true ↔ ready = true ∨ (defineCollector.run.run p).1 = .ok ()) := by
  obtain ⟨watched, hagent⟩ := id h.agent_eq
  unfold vmInit
  rw [run_bind, run_get]
  simp only [hagent, Option.isSome_some, if_true]
  rw [run_bind]
  have hkept := keeps_defineCollector t ready i p h
  cases hresult : (defineCollector.run.run p).1 with
  | ok =>
    obtain ⟨watched', hagent'⟩ := hkept.agent_eq
    refine ⟨true, ⟨⟨watched', ?_⟩, hkept.run_eq⟩, by simp⟩
    show (defineCollector.run.run p).2.agent.map _ = _
    rw [hagent']
    rfl
  | error e => exact ⟨ready, hkept, by simp⟩

theorem serves_vmDeath (h : p.Serves t ready i) : (vmDeath.run p).2.Serves t false i := by
  obtain ⟨watched, hagent⟩ := h.agent_eq
  obtain ⟨r, hr, hi⟩ := h.run_eq
  unfold vmDeath
  rw [run_bind, run_get]
  simp only [hagent, hr]
  exact ⟨⟨watched, rfl⟩, _, rfl, (instrumenter_save r p.files).trans hi⟩

theorem run_install (r : CoverageRun) (p : AgentProcess) :
    (install r).run.run p =
      if p.run.isSome then (.error .alreadyInstalled, p)
      else (.ok ⟨⟩, { p with run := some r }) := by
  unfold install
  rw [run_bind_fallible]
  show ((if p.run.isSome then _ else _ : Attempt Unit).run.run p) = _
  cases p.run.isSome <;> rfl

theorem run_installRun {options : Options} {r : CoverageRun} {p q : AgentProcess}
    (h : (installRun options).run.run p = (.ok r, q)) :
    CoverageRun.start .standard options = .ok r ∧ q = { p with run := some r } := by
  unfold installRun at h
  rw [run_bind_fallible] at h
  have hstart : (ExceptT.mk (pure (CoverageRun.start .standard options)) :
      Attempt CoverageRun).run.run p = (CoverageRun.start .standard options, p) := rfl
  rw [hstart] at h
  cases hrun : CoverageRun.start .standard options with
  | error e =>
    rw [hrun] at h
    cases h
  | ok r' =>
    rw [hrun] at h
    dsimp only at h
    rw [run_bind_fallible, run_install] at h
    cases hinstalled : p.run.isSome with
    | true =>
      rw [hinstalled] at h
      cases h
    | false =>
      rw [hinstalled] at h
      cases h
      exact ⟨rfl, rfl⟩

/-- Whoever starts an agent gets a run that turns platform classes away. -/
theorem run_start_of_ok {env : String → Option String} {options : String} {tool : Tool}
    {p q : AgentProcess} (h : (start env options).run.run p = (.ok tool, q)) :
    q.agent = p.agent ∧ ∃ o r, CoverageRun.start .standard o = .ok r ∧ q.run = some r := by
  unfold start at h
  split at h
  · rw [run_bind_fallible] at h
    cases h
  · next o ho =>
    have hsettled : (liftM (settleLog (.ofString o.log)) : Attempt Unit).run.run p =
        (.ok ⟨⟩, { p with log := p.log.getD (.ofString o.log) }) := rfl
    rw [run_bind_fallible, hsettled] at h
    dsimp only at h
    rw [run_bind_fallible] at h
    cases hinstalled : (installRun o).run.run { p with log := p.log.getD (.ofString o.log) } with
    | mk result p' =>
    rw [hinstalled] at h
    cases result with
    | error e => cases h
    | ok r =>
      obtain ⟨hstart, rfl⟩ := run_installRun hinstalled
      dsimp only at h
      rw [run_bind_fallible] at h
      obtain ⟨-, rfl⟩ := Prod.mk.inj h
      exact ⟨rfl, o, r, hstart, rfl⟩

theorem accepts_start {options : Options} {r : CoverageRun}
    (h : CoverageRun.start .standard options = .ok r) :
    ∃ rules, r.instrumenter.accepts = (Selection.both rules .notPlatform).accepts := by
  unfold CoverageRun.start at h
  obtain ⟨serializer, -, h⟩ := bind_eq_ok.1 h
  obtain ⟨deserializer, -, h⟩ := bind_eq_ok.1 h
  obtain ⟨rules, -, h⟩ := bind_eq_ok.1 h
  cases h
  exact ⟨rules, rfl⟩

/-- An agent that has been loaded has its tool interface and its run, and waits for the start. -/
theorem serves_of_load {env : String → Option String} {options : String} {p₀ : AgentProcess}
    (hload : (load env options).run p₀ = (loaded, p)) :
    ∃ t i rules, p.Serves t false i ∧
      i.accepts = (Selection.both rules .notPlatform).accepts := by
  unfold load at hload
  rw [run_bind, run_get] at hload
  cases hagent : p₀.agent.isSome with
  | true =>
    simp only [hagent, if_true] at hload
    exact absurd (Prod.mk.inj hload).1 (by decide)
  | false =>
    simp only [hagent, Bool.false_eq_true, if_false] at hload
    rw [run_bind, run_set, run_bind] at hload
    cases hstarted : (start env options).run.run { p₀ with agent := some AgentState.new } with
    | mk result q =>
    simp only [hstarted] at hload
    cases result with
    | error e => exact absurd (Prod.mk.inj hload).1 (by decide)
    | ok tool =>
      obtain ⟨hagent, o, r, hstart, hr⟩ := run_start_of_ok hstarted
      obtain ⟨rules, hrules⟩ := accepts_start hstart
      obtain ⟨-, rfl⟩ := Prod.mk.inj hload
      refine ⟨tool, r.instrumenter, rules, ⟨⟨.empty, ?_⟩, r, hr, rfl⟩, hrules⟩
      show q.agent.map _ = _
      rw [hagent]
      rfl

/-- What one event makes of an agent. -/
theorem serves_after (h : p.Serves t ready i) (e : AgentEvent) :
    ∃ ready', (e.after p).Serves t ready' i ∧ (ready' = true ↔
      (∃ faults, e = .started faults ∧ Starts faults p) ∨ ready = true ∧ e.isEnd = false) := by
  have hunder := h.under e.faults
  have hkeeps : ∀ {x : ProcM (Option Bytes)}, e.handle = x → Keeps x →
      (∀ faults, e ≠ .started faults) → e.isEnd = false →
      ∃ ready', (e.after p).Serves t ready' i ∧ (ready' = true ↔
        (∃ faults, e = .started faults ∧ Starts faults p) ∨ ready = true ∧ e.isEnd = false) := by
    rintro x rfl hx hstarted hend
    refine ⟨ready, hx t ready i _ hunder, ?_⟩
    simp [hstarted, hend]
  cases e with
  | started faults =>
    obtain ⟨ready', hserves, hready⟩ := serves_vmInit hunder
    refine ⟨ready', hserves, hready.trans ?_⟩
    simp [Starts, AgentEvent.faults, AgentEvent.isEnd, or_comm]
  | ended faults =>
    exact ⟨false, serves_vmDeath hunder, by simp [AgentEvent.isEnd]⟩
  | loaded faults name bytes length =>
    exact hkeeps rfl (keeps_classFileLoaded name bytes length) (by simp) rfl
  | prepared faults c =>
    exact hkeeps rfl (.bind (keeps_classPrepared c) fun _ => .pure _) (by simp) rfl
  | modified faults id tag slot =>
    exact hkeeps rfl (.bind (keeps_fieldModified id tag slot) fun _ => .pure _) (by simp) rfl
  | called faults call =>
    exact hkeeps rfl (.bind (keeps_perform call) fun _ => .pure _) (by simp) rfl

theorem not_started_nil (p : AgentProcess) : ¬ Started p [] := by
  rintro ⟨before, faults, after, hevents, -⟩
  simp at hevents

theorem started_cons {e : AgentEvent} {events : List AgentEvent} :
    Started p (e :: events) ↔ Started (e.after p) events ∨
      (∃ faults, e = .started faults ∧ Starts faults p) ∧ ∀ e ∈ events, e.isEnd = false := by
  constructor
  · rintro ⟨before, faults, after, hevents, hend, hstarts⟩
    cases before with
    | nil =>
      obtain ⟨rfl, rfl⟩ := List.cons.inj hevents
      exact .inr ⟨⟨faults, rfl, hstarts⟩, hend⟩
    | cons first before =>
      obtain ⟨rfl, rfl⟩ := List.cons.inj hevents
      exact .inl ⟨before, faults, after, rfl, hend, hstarts⟩
  · rintro (⟨before, faults, after, rfl, hend, hstarts⟩ | ⟨⟨faults, rfl, hstarts⟩, hend⟩)
    · exact ⟨e :: before, faults, after, rfl, hend, hstarts⟩
    · exact ⟨[], faults, events, rfl, hend, hstarts⟩

theorem not_started_of_ended (p : AgentProcess) (events : List AgentEvent) (faults : Faults) :
    ¬ Started p (events ++ [.ended faults]) := by
  rintro ⟨before, faults', after, hevents, hend, -⟩
  have hlast := congrArg List.getLast? hevents
  rcases List.eq_nil_or_concat after with rfl | ⟨after, e, rfl⟩
  · simp at hlast
  · obtain rfl : AgentEvent.ended faults = e := by simpa [List.getLast?_cons] using hlast
    exact absurd (hend (.ended faults) (by simp)) (by simp [AgentEvent.isEnd])

/-- What events make of an agent: it is ready if it was started among them and has not ended since,
or was ready before and has not ended. -/
theorem serves_afterAll (h : p.Serves t ready i) (events : List AgentEvent) :
    ∃ ready', (AgentEvent.afterAll events p).Serves t ready' i ∧ (ready' = true ↔
      Started p events ∨ ready = true ∧ ∀ e ∈ events, e.isEnd = false) := by
  induction events generalizing p ready with
  | nil => exact ⟨ready, h, by simp [not_started_nil]⟩
  | cons e events ih =>
    obtain ⟨between, hbetween, hfirst⟩ := serves_after h e
    obtain ⟨ready', hserves, hrest⟩ := ih hbetween
    refine ⟨ready', hserves, ?_⟩
    rw [hrest, hfirst, started_cons]
    simp only [List.mem_cons, forall_eq_or_imp]
    rw [or_and_right, or_assoc, and_assoc]

/-- **Which class files a loaded agent replaces.** -/
theorem hook_answers {env : String → Option String} {options : String} {p₀ : AgentProcess}
    (hload : (load env options).run p₀ = (loaded, p)) :
    ∃ (t : Tool) (i : Instrumenter), p.agent.bind AgentState.tool = some t ∧
      p.run.map CoverageRun.instrumenter = some i ∧
      ∀ (events : List AgentEvent) (faults : Faults) (name bytes : Option Bytes) (length : Int),
        (∀ new,
          (AgentEvent.loaded faults name bytes length).answer (AgentEvent.afterAll events p) =
              some new ↔
            Started p events ∧ 0 < length ∧
            name.map Text.Utf8.pointedTo ≠ some Target.collector.owner ∧
            ∃ data, bytes = some data ∧ Replaces t i faults (data.take length.toNat) new) ∧
        ∀ data c internal, bytes = some data →
          ClassFile.read (data.take length.toNat) = .ok c → c.name = .ok internal →
          Selection.isUnder Selection.platformPrefixes (Text.pointed internal) →
          (AgentEvent.loaded faults name bytes length).answer (AgentEvent.afterAll events p) =
              none ∧
            ((AgentEvent.loaded faults name bytes length).after
              (AgentEvent.afterAll events p)).run = (AgentEvent.afterAll events p).run := by
  obtain ⟨t, i, rules, hserves, hrules⟩ := serves_of_load hload
  obtain ⟨watched, hagent⟩ := hserves.agent_eq
  obtain ⟨r, hr, hi⟩ := hserves.run_eq
  refine ⟨t, i, by rw [hagent]; rfl, by rw [hr, Option.map_some, hi], ?_⟩
  intro events faults name bytes length
  obtain ⟨ready, hafter, hready⟩ := serves_afterAll hserves events
  have hready : ready = true ↔ Started p events := by simpa using hready
  constructor
  · intro new
    refine (classFileLoaded_eq_some (hafter.under faults) name bytes length).trans ?_
    rw [← hready]
    constructor
    · rintro ⟨⟨hr, hlength, hname⟩, hdata⟩
      exact ⟨hr, hlength, hname, hdata⟩
    · rintro ⟨hr, hlength, hname, hdata⟩
      exact ⟨⟨hr, hlength, hname⟩, hdata⟩
  · rintro data c internal rfl hread hname hplatform
    exact classFileLoaded_platform (hafter.under faults) hrules name hread hname hplatform

/-- An agent that is loaded without options on a machine on which no call fails. -/
def bareAgent : Int × AgentProcess :=
  (load (fun _ => none) "").run (.new (.new .none id) .empty)

/-- A class file that the agent replaces after the start, and no longer after the end. -/
def smallClassLoaded : AgentEvent :=
  .loaded .none (some (Text.Utf8.encode "A")) (some Instrumenter.smallClass)
    Instrumenter.smallClass.length

theorem hook_answers_smallClass :
    bareAgent.1 = loaded ∧
      (smallClassLoaded.answer (AgentEvent.afterAll [.started .none] bareAgent.2)).isSome ∧
      Started bareAgent.2 [.started .none] ∧
      smallClassLoaded.answer (AgentEvent.afterAll [.started .none, .ended .none] bareAgent.2) =
        none := by
  have hloaded : bareAgent.1 = loaded := by decide +kernel
  have hsome : (smallClassLoaded.answer
      (AgentEvent.afterAll [.started .none] bareAgent.2)).isSome := by decide +kernel
  obtain ⟨t, i, -, -, hanswers⟩ := hook_answers (p := bareAgent.2) (Prod.ext hloaded rfl)
  refine ⟨hloaded, hsome, ?_, ?_⟩
  · obtain ⟨new, hnew⟩ := Option.isSome_iff_exists.1 hsome
    exact (((hanswers _ _ _ _ _).1 new).1 hnew).1
  · rw [Option.eq_none_iff_forall_ne_some]
    intro new hnew
    exact not_started_of_ended _ [.started .none] _ (((hanswers _ _ _ _ _).1 new).1 hnew).1

end Agent

end ValueCoverage
