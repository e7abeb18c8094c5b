import ValueCoverage.Agent.Conversion
import ValueCoverage.Proofs.Agent.Process
import ValueCoverage.Proofs.Text.Lenient

/-!
# Converting objects leaves the run alone

Turning objects into values runs code of the observed program, which may itself be observed; the
records that it makes are dropped. So all conversions are quiet, and a call of the native method
records one observation under the strings that it is passed.
-/

namespace ValueCoverage.Conversion

open ProcM Machine Native
open Text.Utf8 (pointedTo)

theorem steady_lookUp (method : MethodId) : SteadyCall (lookUp method) :=
  steady_withClass _ (steady_getMethodId _)

theorem steady_lookUpAll : SteadyCall lookUpAll :=
  steady_withClass _ (.bind (steady_getMethodId _) fun _ =>
    .forM (fun _ => .bind (steady_lookUp _) fun _ => .pure _) _)

theorem quiet_prepare : Quiet prepare.run := by
  have hnote : Quiet (modify fun p => { p with methodsKnown := true }) := by
    intro p _
    exact ⟨p.machine, true, .refl _, rfl⟩
  unfold prepare
  refine .bindAttempt (.lift .get) ?_
  intro p
  split
  · exact .bindAttempt (.tryOnMachine steady_lookUpAll) fun _ => .lift hnote
  · exact .pure _

theorem quiet_methodsKnown : Quiet methodsKnown :=
  .bind quiet_prepare fun _ => .bind .get fun _ => .pure _

theorem steady_isBoxOf (kind : Primitive) (o : JavaObject) : Steady (isBoxOf kind o) :=
  .bind (steady_withClass _ (.pure _)) fun _ => .pure _

theorem steady_unboxed (kind : Primitive) (o : JavaObject) : Steady (unboxed kind o) := by
  refine .bind (.log _) fun _ => ?_
  cases o with
  | box _ bits _ _ throws =>
    cases throws with
    | true => exact .bind .raise fun _ => .pure _
    | false => exact .pure _
  | _ => exact .pure _

variable {answer : ProcM JavaObject}

theorem quiet_textOf (o : JavaObject) (h : Quiet answer) : Quiet (textOf o answer) := by
  refine .ite (.pure _) (.bind quiet_methodsKnown fun known => .ite (.pure _) ?_)
  refine .bind (.onMachine (.log _)) fun _ => .bind h fun text => ?_
  refine .bind .takeException fun thrown => ?_
  refine .ite (.pure _) (.onMachine ?_)
  exact .bind (steady_refTo _) fun _ => .bind (steady_getString _) fun _ =>
    .bind (steady_dropRef _) fun _ => .pure _

theorem quiet_unboxOf (kind : Primitive) (o : JavaObject) (h : Quiet answer) :
    Quiet (unboxOf kind o answer) := by
  refine .ite (.pure _) (.bind quiet_methodsKnown fun known => .ite (quiet_textOf o h) ?_)
  refine .bind (.onMachine (steady_isBoxOf kind o)) fun isBox => .ite (quiet_textOf o h) ?_
  exact .bind (.onMachine (steady_unboxed kind o)) fun _ => .bind .takeException fun _ => .pure _

theorem quiet_elementOf (kind : Option Primitive) (fails : Bool) (o : JavaObject)
    (h : Quiet answer) : Quiet (elementOf kind fails o answer) := by
  unfold elementOf
  have htake : ∀ o : JavaObject, Steady (do
      if fails then Machine.raise
      refTo o : VmM (Option Loan)) := by
    intro o
    cases fails with
    | true => exact .bind .raise fun _ => steady_refTo o
    | false => exact steady_refTo o
  have hdrop : ∀ (ref : Option Loan) (value : Value), Quiet (do
      onMachine (dropRef ref)
      return value : ProcM Value) :=
    fun ref value => .bind (.onMachine (steady_dropRef ref)) fun _ => .pure value
  refine .bind (.onMachine (htake _)) fun ref => .bind .takeException fun thrown => ?_
  refine .ite (.bind (.pure _) fun _ => hdrop _ _) ?_
  cases kind with
  | some kind => exact .bind (quiet_unboxOf _ _ h) fun _ => hdrop _ _
  | none => exact .bind (quiet_textOf _ h) fun _ => hdrop _ _

theorem quiet_absentElements (failsAt : List Nat) (index count : Nat) :
    Quiet (absentElements failsAt index count) := by
  induction count generalizing index with
  | zero => exact .pure _
  | succ count ih =>
    exact .bind (quiet_elementOf _ _ _ (.pure _)) fun _ => .bind (ih (index + 1)) fun _ => .pure _

/-- A call of the native method records nothing on a thread that is collecting, however its
arguments would be captured. -/
theorem quiet_observe (owner member signature : JavaObject)
    (capture : List FieldType → ProcM Observation) :
    Quiet (observe owner member signature capture) := by
  refine .bind .get fun p => .ite (.pure _) ?_
  refine .bind (.onMachine (steady_getString _)) fun _ =>
    .bind (.onMachine (steady_getString _)) fun _ =>
    .bind (.onMachine (steady_getString _)) fun _ => ?_
  have hend : Quiet (do
      let _ ← takeException
      return () : ProcM Unit) := .bind .takeException fun _ => .pure _
  split
  · exact .bind (.record _ _) fun _ => hend
  · exact hend

theorem quiet_perform (call : ObservedCall) : Quiet (perform call) := by
  cases call with
  | mk owner member signature args =>
    unfold perform
    exact quiet_observe _ _ _ _

theorem quiet_performAll (calls : List ObservedCall) : Quiet (performAll calls) := by
  induction calls with
  | nil =>
    unfold performAll
    exact .pure _
  | cons call rest ih =>
    unfold performAll
    exact .bind (quiet_perform call) fun _ => ih

theorem quiet_toText (o : JavaObject) : Quiet (toText o) := by
  cases o with
  | «instance» name text charsMissing throws calls =>
    unfold toText
    refine .bind (quiet_performAll calls) fun _ => .ite ?_ (.pure _)
    exact .bind (.onMachine .raise) fun _ => .pure _
  | box kind bits text throws unboxThrows =>
    unfold toText
    exact .ite (.bind (.onMachine .raise) fun _ => .pure _) (.pure _)
  | array elements length failsAt =>
    unfold toText
    exact .pure _
  | null =>
    unfold toText
    exact .pure _
  | string chars =>
    unfold toText
    exact .pure _

theorem quiet_elementsFrom (params : List FieldType) (failsAt : List Nat) (index count : Nat)
    (elements : List JavaObject) : Quiet (elementsFrom params failsAt index count elements) := by
  induction elements generalizing index count with
  | nil =>
    unfold elementsFrom
    exact quiet_absentElements _ _ _
  | cons o rest ih =>
    unfold elementsFrom
    cases count with
    | zero => exact .pure _
    | succ count =>
      exact .bind (quiet_elementOf _ _ _ (quiet_toText o)) fun _ =>
        .bind (ih (index + 1) count) fun _ => .pure _

theorem quiet_arguments (params : List FieldType) (args : JavaObject) :
    Quiet (arguments params args) := by
  cases args with
  | array elements length failsAt =>
    unfold arguments
    exact quiet_elementsFrom _ _ _ _ _
  | _ =>
    unfold arguments
    exact .pure _

theorem quiet_fieldValue (tag : Char) (slot : SlotValue) : Quiet (fieldValue tag slot) := by
  unfold fieldValue
  split
  · exact .pure _
  · exact .pure _
  · exact quiet_textOf _ (quiet_toText _)
  · exact quiet_textOf _ (quiet_toText _)

/-! ## What is recorded -/

variable {p : AgentProcess} {r : CoverageRun}

/-- The machine after the characters of a string have been read. -/
def afterReading (chars : Bytes) (m : Machine) : Machine :=
  ((getString (.string (some chars))).run m).2

theorem alike_afterReading (chars : Bytes) (m : Machine) : m.Alike (afterReading chars m) :=
  steady_getString _ m

/-- A call of the native method records an observation under the texts of its first two strings. -/
theorem run_perform (hrun : p.run = some r) (hg : p.guard = .free)
    (owner member signature : Bytes) (args : JavaObject) :
    ∃ o, { p with run := some (r.record p.files ⟨pointedTo owner, pointedTo member⟩ o).2 }.Alike
      ((perform (.mk (.string (some owner)) (.string (some member)) (.string (some signature))
        args)).run p).2 := by
  let q := { p with
    machine := afterReading signature (afterReading member (afterReading owner p.machine)) }
  have hq : p.machine.Alike q.machine :=
    ((alike_afterReading owner _).trans (alike_afterReading member _)).trans
      (alike_afterReading signature _)
  obtain ⟨params, hperform⟩ : ∃ params, ((perform (.mk (.string (some owner))
      (.string (some member)) (.string (some signature)) args)).run p).2 =
      (takeException.run ((record ⟨pointedTo owner, pointedTo member⟩
        (arguments params args)).run q).2).2 := by
    unfold perform
    simp only [observe, run_bind, run_get, hrun, Option.isNone_some]
    exact ⟨_, rfl⟩
  have hrecord : { q with run := some (r.record q.files ⟨pointedTo owner, pointedTo member⟩
      ((arguments params args).run (q.capturing r)).1).2 }.Alike
      ((record ⟨pointedTo owner, pointedTo member⟩ (arguments params args)).run q).2 :=
    run_record hrun hg (quiet_arguments params args)
  rw [hperform]
  refine ⟨((arguments params args).run (q.capturing r)).1, .trans ?_ (.trans hrecord ?_)⟩
  · exact ⟨q.machine, p.methodsKnown, hq, rfl⟩
  · exact ⟨_, _, Steady.takeException _, rfl⟩

theorem run_fieldValue_bits {tag : Char} {kind : Primitive} (h : Primitive.ofTag? tag = some kind)
    (bits : UInt64) (p : AgentProcess) :
    ((fieldValue tag (.bits bits)).run p).1 = kind.ofBits bits := by
  simp only [fieldValue, h, run_pure]

/-- No object counts as nothing, and any object as a text. -/
theorem run_textOf (o : JavaObject) (answer : ProcM JavaObject) (p : AgentProcess) :
    if o.isNull then ((textOf o answer).run p).1 = .null
    else ∃ s, ((textOf o answer).run p).1 = .text s := by
  have helim : ∀ found : Option String, ∃ s, found.elim unprintable .text = .text s := by
    intro found
    cases found <;> exact ⟨_, rfl⟩
  unfold textOf
  split
  · rfl
  rw [run_bind]
  split
  · exact ⟨_, rfl⟩
  rw [run_bind, run_bind, run_bind]
  split
  · exact ⟨_, rfl⟩
  exact helim _

theorem run_fieldValue_object {tag : Char} (h : Primitive.ofTag? tag = none) (o : JavaObject)
    (p : AgentProcess) :
    if o.isNull then ((fieldValue tag (.object o)).run p).1 = .null
    else ∃ s, ((fieldValue tag (.object o)).run p).1 = .text s := by
  simp only [fieldValue, h]
  exact run_textOf _ _ _

end ValueCoverage.Conversion
