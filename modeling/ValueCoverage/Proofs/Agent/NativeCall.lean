import ValueCoverage.Proofs.Agent.Conversion
import ValueCoverage.Proofs.Vm.Loans

/-!
# A call of the native method

Whatever look-ups fail and whatever the objects throw, a call of the native method leaves no
exception pending and no loan open. One observation is recorded, with a value for every element of
the array. Code that `toString` runs may call the native method again; its thread is collecting
then, so that nothing is captured, and the calls end like any other call into the machine.
-/

namespace ValueCoverage

namespace Conversion

open ProcM Native
open Text.Utf8 (pointedTo)

/-! ## What objects say -/

/-- What can be looked up. -/
structure Lookups where
  /-- Whether the methods that convert values are known or can be found. -/
  methods : Bool
  /-- Whether the wrapper class of a kind can be found. -/
  box : Primitive → Bool

/-- What `toString` says, if it says something that can be read. -/
def said : JavaObject → Option String
  | .null => none
  | .string chars => chars.map pointedTo
  | .array _ _ _ => some "[array]"
  | .box _ _ text throws _ => if throws then none else text.map pointedTo
  | .instance _ text charsMissing throws _ =>
    if throws || charsMissing then none else text.map pointedTo

/-- What the accessor of a wrapper gives, unless it throws. An accessor that is called on what only
has the class of a wrapper gives zero. -/
def held (kind : Primitive) : JavaObject → Option Value
  | .box _ bits _ _ throws => if throws then none else some (kind.ofBits bits)
  | .null | .string _ | .array _ _ _ | .instance _ _ _ _ _ => some (kind.ofBits 0)

/-- The value of an object, as a text. -/
def textValue (l : Lookups) (o : JavaObject) : Value :=
  if o.isNull then .null
  else if l.methods then (said o).elim unprintable .text
  else unprintable

/-- The value of an argument. It is typed if the parameter is primitive, its wrapper class can be
found and the argument is an instance of it. -/
def argumentValue (l : Lookups) (kind : Option Primitive) (o : JavaObject) : Value :=
  kind.elim (textValue l o) fun kind =>
    if o.isNull then .null
    else if l.methods && l.box kind && o.className? == some kind.boxClass then
      (held kind o).getD unprintable
    else textValue l o

@[simp] theorem argumentValue_null (l : Lookups) (kind : Option Primitive) :
    argumentValue l kind .null = .null := by
  cases kind <;> rfl

/-- What is read of an element: nothing, if reading it fails or the array does not have it. -/
def readAt (elements : List JavaObject) (failsAt : List Nat) (index place : Nat) : JavaObject :=
  if failsAt.contains index then .null else elements[place]?.getD .null

/-- What is read of the element with the index. -/
def elementAt (args : JavaObject) (index : Nat) : JavaObject :=
  match args with
  | .array elements _ failsAt => readAt elements failsAt index index
  | .null | .string _ | .box _ _ _ _ _ | .instance _ _ _ _ _ => .null

/-- The values of all elements that an array claims. -/
def argumentValues (l : Lookups) (params : List FieldType) (args : JavaObject) : Observation :=
  (List.range args.length.toNat).map fun i =>
    argumentValue l (kindAt params i) (elementAt args i)

/-- The parameters that a descriptor names; none if it is ill-formed. -/
def parameters (descriptor : String) : List FieldType :=
  (Descriptor.readMethod descriptor).toOption.elim [] MethodType.params

/-! ## Look-ups -/

/-- Whether the methods that convert values can be found. -/
def methodsFound (faults : Faults) : Bool :=
  faults.findClass objectClass = .found && faults.getMethodId toStringId = .found &&
    Primitive.all.all fun kind =>
      faults.findClass kind.boxClass = .found && faults.getMethodId (unboxId kind) = .found

theorem passes_boxClass (kind : Primitive) : Passes kind.boxClass := by
  unfold Passes
  cases kind <;> decide +kernel

theorem passes_unboxName (kind : Primitive) : Passes kind.unboxName := by
  unfold Passes
  cases kind <;> decide +kernel

theorem passes_unboxDescriptor (kind : Primitive) : Passes kind.unboxDescriptor := by
  unfold Passes
  cases kind <;> decide +kernel

theorem reports_lookUp (kind : Primitive) :
    Reports (lookUp (unboxId kind)) (fun faults =>
      if faults.findClass kind.boxClass = .found then
        if faults.getMethodId (unboxId kind) = .found then some (unboxId kind) else none
      else none) :=
  .withClass (passes_boxClass kind)
    (reports_getMethodId (passes_unboxName kind) (passes_unboxDescriptor kind))

theorem reports_lookUpAll :
    ∃ v, Reports lookUpAll v ∧ ∀ faults, (v faults).isSome = methodsFound faults := by
  have hobject : Passes objectClass := by unfold Passes; decide +kernel
  have hname : Passes toStringId.name := by unfold Passes; decide +kernel
  have hdescriptor : Passes toStringId.descriptor := by unfold Passes; decide +kernel
  refine ⟨_, .withClass hobject (.bind (reports_getMethodId hname hdescriptor) fun _ =>
    .forM (fun kind => .bind (reports_lookUp kind) fun _ => .pure _) _), fun faults => ?_⟩
  have hkind : ∀ kind : Primitive,
      ((if faults.findClass kind.boxClass = .found then
        if faults.getMethodId (unboxId kind) = .found then some (unboxId kind) else none
      else none : Option MethodId).bind fun _ => some ()).isSome =
        (decide (faults.findClass kind.boxClass = .found) &&
          decide (faults.getMethodId (unboxId kind) = .found)) := by
    intro kind
    by_cases hclass : faults.findClass kind.boxClass = .found <;>
      by_cases hmethod : faults.getMethodId (unboxId kind) = .found <;> simp [hclass, hmethod]
  unfold methodsFound
  simp only [hkind]
  by_cases hclass : faults.findClass objectClass = .found <;>
    by_cases hmethod : faults.getMethodId toStringId = .found <;> simp [hclass, hmethod]
  split <;> simp_all

theorem yields_isBoxOf (kind : Primitive) (o : JavaObject) :
    Yields (isBoxOf kind o)
      (fun faults => faults.findClass kind.boxClass = .found && o.className? == some kind.boxClass)
      false := by
  intro m hm
  obtain ⟨hresult, hleaves, hpending⟩ := Reports.withClass (passes_boxClass kind)
    (.pure (o.className? == some kind.boxClass)) m hm
  refine ⟨?_, hleaves, hpending⟩
  show ((withClass kind.boxClass
    (pure (o.className? == some kind.boxClass))).run.run m).1.toOption.getD false = _
  rw [hresult]
  by_cases hfound : m.faults.findClass kind.boxClass = .found <;> simp [hfound]

/-- The accessor of a wrapper leaves an exception pending if it throws. -/
theorem yields_unboxed (kind : Primitive) (o : JavaObject) :
    ∃ v, Yields (unboxed kind o) (fun _ => v) (held kind o).isNone ∧ ∀ w ∈ held kind o, w = v := by
  have hzero : Yields (do
      Machine.log (.unbox (unboxId kind))
      return kind.ofBits 0) (fun _ => kind.ofBits 0) false := .bind (.log _) fun _ => .pure _
  cases o with
  | box kind' bits text throws unboxThrows =>
    refine ⟨kind.ofBits bits, fun m hm => ?_, fun w hw => ?_⟩
    · cases unboxThrows with
      | true => exact ⟨rfl, .of_eq rfl rfl rfl, rfl⟩
      | false => exact ⟨rfl, .of_eq rfl rfl rfl, hm⟩
    · cases unboxThrows with
      | true => cases hw
      | false => exact (Option.some.inj hw).symm
  | _ => exact ⟨kind.ofBits 0, hzero, fun w hw => (Option.some.inj hw).symm⟩

end Conversion

/-- What can be looked up in a process. -/
def AgentProcess.lookups (p : AgentProcess) : Conversion.Lookups where
  methods := p.methodsKnown || Conversion.methodsFound p.machine.faults
  box kind := p.machine.faults.findClass kind.boxClass = .found

/-- Calls that turn the first process into the second leave no loan open, give the guard back, and
everything can be looked up as before. -/
structure AgentProcess.Leaves (p q : AgentProcess) : Prop where
  machine : p.machine.Leaves q.machine
  guard : q.guard = p.guard
  lookups : q.lookups = p.lookups

theorem AgentProcess.Leaves.refl (p : AgentProcess) : p.Leaves p := ⟨.refl _, rfl, rfl⟩

theorem AgentProcess.Leaves.trans {p q s : AgentProcess} (h : p.Leaves q) (h' : q.Leaves s) :
    p.Leaves s :=
  ⟨h.machine.trans h'.machine, h'.guard.trans h.guard, h'.lookups.trans h.lookups⟩

theorem AgentProcess.leaves_of_machine {p : AgentProcess} {m : Machine} (h : p.machine.Leaves m) :
    p.Leaves { p with machine := m } := by
  refine ⟨h, rfl, ?_⟩
  unfold AgentProcess.lookups
  rw [h.faults]

namespace ProcM

variable {α β : Type}

/-! ## Calls on a thread that is collecting -/

/-- On a thread that is collecting, and begun without a pending exception, the call gives `v`, which
only depends on what can be looked up; it leaves no loan open, and an exception pending if
`raised`. -/
def Gives (x : ProcM α) (v : Conversion.Lookups → α) (raised : Bool) : Prop :=
  ∀ p : AgentProcess, p.guard.enter? = none → p.machine.pending = false →
    (x.run p).1 = v p.lookups ∧ p.Leaves (x.run p).2 ∧ (x.run p).2.machine.pending = raised

theorem Gives.pure (a : α) : Gives (pure a) (fun _ => a) false :=
  fun p _ hp => ⟨rfl, .refl p, hp⟩

theorem Gives.bind {x : ProcM α} {f : α → ProcM β} {v : Conversion.Lookups → α}
    {w : α → Conversion.Lookups → β} {raised : Bool} (hx : Gives x v false)
    (hf : ∀ a, Gives (f a) (w a) raised) : Gives (x >>= f) (fun l => w (v l) l) raised := by
  intro p hguard hp
  obtain ⟨hresult, hleaves, hpending⟩ := hx p hguard hp
  obtain ⟨hresult', hleaves', hpending'⟩ :=
    hf (x.run p).1 _ (by rw [hleaves.guard]; exact hguard) hpending
  refine ⟨?_, hleaves.trans hleaves', hpending'⟩
  rw [run_bind, hresult', hleaves.lookups, hresult]

/-- The second call gives the same whatever the first gives. -/
theorem Gives.seq {x : ProcM α} {f : α → ProcM β} {v : Conversion.Lookups → α} {b : β}
    {raised : Bool} (hx : Gives x v false) (hf : ∀ a, Gives (f a) (fun _ => b) raised) :
    Gives (x >>= f) (fun _ => b) raised :=
  hx.bind hf

theorem Gives.of_eq {x : ProcM α} {v w : Conversion.Lookups → α} {raised : Bool}
    (hx : Gives x v raised) (h : ∀ l, v l = w l) : Gives x w raised :=
  (funext h : v = w) ▸ hx

theorem Gives.get_bind {f : AgentProcess → ProcM α} {v : Conversion.Lookups → α} {raised : Bool}
    (hf : ∀ p, Gives (f p) v raised) : Gives (get >>= f) v raised :=
  fun p hguard hp => hf p p hguard hp

theorem Gives.ite {c : Prop} [Decidable c] {x y : ProcM α} {v w : Conversion.Lookups → α}
    {raised : Bool} (hx : Gives x v raised) (hy : Gives y w raised) :
    Gives (if c then x else y) (fun l => if c then v l else w l) raised := by
  split
  · exact hx
  · exact hy

/-- An exception that the first call leaves pending is cleared. -/
theorem Gives.bind_takeException {x : ProcM α} {f : α → Bool → ProcM β}
    {v : Conversion.Lookups → α} {w : α → Conversion.Lookups → β} {raised raised' : Bool}
    (hx : Gives x v raised) (hf : ∀ a, Gives (f a raised) (w a) raised') :
    Gives (do
      let a ← x
      let thrown ← takeException
      f a thrown) (fun l => w (v l) l) raised' := by
  intro p hguard hp
  obtain ⟨hresult, hleaves, hpending⟩ := hx p hguard hp
  let q : AgentProcess :=
    { (x.run p).2 with machine := { (x.run p).2.machine with pending := false } }
  have hq : p.Leaves q := hleaves.trans (AgentProcess.leaves_of_machine (.of_eq rfl rfl rfl))
  obtain ⟨hresult', hleaves', hpending'⟩ :=
    hf (x.run p).1 q (by rw [hq.guard]; exact hguard) rfl
  have hrun : (do
      let a ← x
      let thrown ← takeException
      f a thrown : ProcM β).run p = (f (x.run p).1 raised).run q := by
    rw [← hpending]
    rfl
  rw [hrun]
  refine ⟨?_, hq.trans hleaves', hpending'⟩
  rw [hresult', hq.lookups, hresult]

theorem Gives.onMachine {x : VmM α} {v : Faults → α} {w : Conversion.Lookups → α} {raised : Bool}
    (hx : Native.Yields x v raised) (hv : ∀ p : AgentProcess, v p.machine.faults = w p.lookups) :
    Gives (onMachine x) w raised := by
  intro p _ hp
  obtain ⟨hresult, hleaves, hpending⟩ := hx p.machine hp
  exact ⟨hresult.trans (hv p), AgentProcess.leaves_of_machine hleaves, hpending⟩

theorem Gives.onMachine_const {x : VmM α} {a : α} {raised : Bool}
    (hx : Native.Yields x (fun _ => a) raised) : Gives (ProcM.onMachine x) (fun _ => a) raised :=
  .onMachine hx fun _ => rfl

/-- What is done with a reference to an object is done before the reference is deleted. -/
theorem Gives.withRef (o : JavaObject) {x : ProcM α} {v : Conversion.Lookups → α}
    (hx : Gives x v false) :
    Gives (do
      let ref ← ProcM.onMachine (Native.refTo o)
      let a ← x
      ProcM.onMachine (Native.dropRef ref)
      return a) v false := by
  intro p hguard hp
  unfold Native.refTo
  cases o.isNull with
  | true => exact hx p hguard hp
  | false =>
    obtain ⟨hresult, hleaves, hpending⟩ :=
      hx { p with machine := ((Machine.lend .localRef).run p.machine).2 } hguard hp
    exact ⟨hresult, ⟨hleaves.machine.scope, hleaves.guard, hleaves.lookups⟩, hpending⟩

/-- A record on a thread that is collecting is dropped. -/
theorem Gives.record_bind (key : MemberKey) (capture : ProcM Observation) {x : ProcM α}
    {v : Conversion.Lookups → α} {raised : Bool} (hx : Gives x v raised) :
    Gives (do
      let _ ← record key capture
      x) v raised := by
  intro p hguard hp
  rw [run_bind]
  cases hrun : p.run with
  | none =>
    rw [run_record_of_none hrun]
    exact hx p hguard hp
  | some r =>
    rw [run_record_of_held hrun hguard]
    obtain ⟨hresult, hleaves, hpending⟩ :=
      hx { p with run := some (r.ensureReady p.files).2 } hguard hp
    exact ⟨hresult, ⟨hleaves.machine, hleaves.guard, hleaves.lookups⟩, hpending⟩

end ProcM

namespace Conversion

open ProcM Native

theorem run_prepare (p : AgentProcess) :
    (prepare.run.run p).2 =
      if p.methodsKnown then p
      else { p with
        machine := (lookUpAll.run.run p.machine).2
        methodsKnown := (lookUpAll.run.run p.machine).1.toOption.isSome } := by
  unfold prepare
  rw [run_bind_fallible]
  cases hknown : p.methodsKnown with
  | true =>
    show ((if !p.methodsKnown then _ else _ : Attempt Unit).run.run p).2 = _
    rw [hknown]
    rfl
  | false =>
    show ((if !p.methodsKnown then _ else _ : Attempt Unit).run.run p).2 = _
    rw [hknown]
    simp only [Bool.not_false, if_true, Bool.false_eq_true, if_false]
    rw [run_bind_fallible, run_tryOnMachine]
    cases (lookUpAll.run.run p.machine).1 with
    | ok => rfl
    | error e =>
      show ({ p with machine := _ } : AgentProcess) = _
      simp [hknown, Except.toOption]

theorem gives_methodsKnown : Gives methodsKnown (fun l => l.methods) false := by
  intro p hguard hp
  obtain ⟨v, hreports, hv⟩ := reports_lookUpAll
  obtain ⟨hresult, hleaves, hpending⟩ := hreports p.machine hp
  have hrun : methodsKnown.run p =
      ((prepare.run.run p).2.methodsKnown, (prepare.run.run p).2) := rfl
  rw [hrun, run_prepare, hresult, hv]
  cases hknown : p.methodsKnown with
  | true =>
    refine ⟨?_, .refl p, hp⟩
    simp [AgentProcess.lookups, hknown]
  | false =>
    simp only [Bool.false_eq_true, if_false]
    have hlookups : ({ p with
        machine := (lookUpAll.run.run p.machine).2
        methodsKnown := methodsFound p.machine.faults } : AgentProcess).lookups = p.lookups := by
      simp [AgentProcess.lookups, hknown, hleaves.faults]
    exact ⟨by simp [AgentProcess.lookups, hknown], ⟨hleaves, rfl, hlookups⟩, hpending⟩

/-! ## Values -/

variable {answer : ProcM JavaObject}

/-- `toString` of the object gives what is said of it. -/
def Answers (answer : ProcM JavaObject) (o : JavaObject) : Prop :=
  ∃ text raised, Gives answer (fun _ => text) raised ∧
    said o = if raised then none else readable text

theorem gives_textOf {o : JavaObject} (h : Answers answer o) :
    Gives (textOf o answer) (fun l => textValue l o) false := by
  obtain ⟨text, raised, hanswer, hsaid⟩ := h
  have hread : ∀ text, Gives (onMachine do
      let ref ← refTo text
      let s ← getString text
      dropRef ref
      return s.elim unprintable .text) (fun _ => (readable text).elim unprintable .text) false :=
    fun text => .onMachine_const (.withRef text (yields_getString text) _)
  unfold textOf textValue
  refine .ite (.pure _) (.of_eq (.bind gives_methodsKnown fun known => .ite (.pure _)
    (.bind (.onMachine_const (.log _)) fun _ => .bind_takeException hanswer fun text =>
      .ite (.pure _) (hread text))) ?_)
  intro l
  rw [hsaid]
  cases l.methods <;> cases raised <;> rfl

theorem gives_unboxOf (kind : Primitive) {o : JavaObject} (h : Answers answer o) :
    Gives (unboxOf kind o answer) (fun l => argumentValue l (some kind) o) false := by
  obtain ⟨v, hunboxed, hheld⟩ := yields_unboxed kind o
  have hunbox : Gives (do
      let value ← onMachine (unboxed kind o)
      return if ← takeException then unprintable else value)
      (fun _ => (held kind o).getD unprintable) false := by
    refine .of_eq (.bind_takeException (.onMachine_const hunboxed) fun value => .pure _) ?_
    intro l
    cases hcases : held kind o with
    | none => rfl
    | some w => exact (hheld w hcases).symm
  have hisBox : Gives (onMachine (isBoxOf kind o))
      (fun l => l.box kind && o.className? == some kind.boxClass) false :=
    .onMachine (yields_isBoxOf kind o) fun _ => rfl
  refine .of_eq (.ite (.pure _) (.bind gives_methodsKnown fun known => .ite (gives_textOf h)
    (.bind hisBox fun isBox => .ite (gives_textOf h) hunbox))) ?_
  intro l
  show _ = if o.isNull then Value.null
    else if l.methods && l.box kind && o.className? == some kind.boxClass then
      (held kind o).getD unprintable
    else textValue l o
  cases o.isNull <;> cases l.methods <;> cases l.box kind <;>
    cases o.className? == some kind.boxClass <;> rfl

/-- An element that can be read is referred to while its value is worked out. -/
theorem run_elementOf (kind : Option Primitive) (o : JavaObject) (answer : ProcM JavaObject)
    {p : AgentProcess} (hp : p.machine.pending = false) :
    (elementOf kind false o answer).run p = (do
      let ref ← onMachine (refTo o)
      let value ← kind.elim (textOf o answer) fun kind => unboxOf kind o answer
      onMachine (dropRef ref)
      return value : ProcM Value).run p := by
  have hpending : ((onMachine (refTo o)).run p).2.machine.pending = false := by
    unfold refTo
    cases o.isNull <;> exact hp
  have htake : ProcM.takeException.run ((onMachine (refTo o)).run p).2 =
      (false, ((onMachine (refTo o)).run p).2) := by
    show ((takeException.run ((onMachine (refTo o)).run p).2.machine).1,
      ({ ((onMachine (refTo o)).run p).2 with
        machine := (takeException.run ((onMachine (refTo o)).run p).2.machine).2 } :
          AgentProcess)) = _
    rw [run_takeException hpending]
  unfold elementOf
  simp only [Bool.false_eq_true, if_false, pure_bind]
  rw [run_bind, run_bind, htake]
  cases kind <;> rfl

/-- The reference to an element is deleted after its value has been worked out. -/
theorem gives_elementOf (kind : Option Primitive) (fails : Bool) {o : JavaObject}
    (h : Answers answer o) :
    Gives (elementOf kind fails o answer)
      (fun l => argumentValue l kind (if fails then .null else o)) false := by
  cases fails with
  | true =>
    intro p hguard hp
    have hcleared : (elementOf kind true o answer).run p =
        (.null, { p with machine := { p.machine with pending := false } }) := by
      cases kind <;> rfl
    rw [hcleared]
    refine ⟨?_, AgentProcess.leaves_of_machine (.of_eq rfl rfl rfl), rfl⟩
    exact (argumentValue_null _ kind).symm
  | false =>
    intro p hguard hp
    rw [run_elementOf kind o answer hp]
    have hvalue : Gives (kind.elim (textOf o answer) fun kind => unboxOf kind o answer)
        (fun l => argumentValue l kind o) false := by
      cases kind with
      | none => exact gives_textOf h
      | some kind => exact gives_unboxOf kind h
    exact Gives.withRef o hvalue p hguard hp

/-! ## Calls on a thread that is collecting -/

/-- However its arguments would be captured, a call on a thread that is collecting comes to an end
like any other call into the machine. -/
theorem gives_observe (owner member signature : JavaObject)
    (capture : List FieldType → ProcM Observation) :
    Gives (observe owner member signature capture) (fun _ => ⟨⟩) false := by
  have hread : ∀ o, Gives (onMachine (getString o)) (fun _ => readable o) false :=
    fun o => .onMachine_const (yields_getString o)
  have hend : Gives (do
      let _ ← ProcM.takeException
      return () : ProcM Unit) (fun _ => ⟨⟩) false :=
    fun _ _ _ => ⟨rfl, AgentProcess.leaves_of_machine (.of_eq rfl rfl rfl), rfl⟩
  refine .get_bind fun p => ?_
  split
  · exact .pure _
  refine .seq (hread owner) fun _ => .seq (hread member) fun _ => .seq (hread signature) fun _ => ?_
  split
  · exact .record_bind _ _ hend
  · exact hend

theorem gives_perform (call : ObservedCall) : Gives (perform call) (fun _ => ⟨⟩) false := by
  cases call with
  | mk owner member signature args =>
    unfold perform
    exact gives_observe _ _ _ _

theorem gives_performAll (calls : List ObservedCall) :
    Gives (performAll calls) (fun _ => ⟨⟩) false := by
  induction calls with
  | nil =>
    unfold performAll
    exact .pure _
  | cons call rest ih =>
    unfold performAll
    exact .bind (gives_perform call) fun _ => ih

theorem gives_raise (o : JavaObject) :
    Gives (do
      onMachine Machine.raise
      return o) (fun _ => o) true :=
  fun _ _ _ => ⟨rfl, AgentProcess.leaves_of_machine (.of_eq rfl rfl rfl), rfl⟩

theorem answers_toText (o : JavaObject) : Answers (toText o) o := by
  cases o with
  | null =>
    unfold toText
    exact ⟨.null, false, .pure _, rfl⟩
  | string chars =>
    unfold toText
    exact ⟨.string chars, false, .pure _, by cases chars <;> rfl⟩
  | array elements length failsAt =>
    unfold toText
    have hread : some "[array]" = readable (.string (some (Text.Utf8.encode "[array]"))) := by
      decide +kernel
    exact ⟨_, false, .pure _, hread⟩
  | box kind bits text throws unboxThrows =>
    unfold toText
    cases throws with
    | true => exact ⟨.null, true, gives_raise .null, rfl⟩
    | false => exact ⟨.ofText text, false, .pure _, by cases text <;> rfl⟩
  | «instance» name text charsMissing throws calls =>
    unfold toText
    cases throws with
    | true => exact ⟨.null, true, .bind (gives_performAll calls) fun _ => gives_raise .null, rfl⟩
    | false =>
      refine ⟨_, false, .bind (gives_performAll calls) fun _ => .pure _, ?_⟩
      cases text <;> cases charsMissing <;> rfl

theorem gives_absentElements (failsAt : List Nat) (index count : Nat) :
    Gives (absentElements failsAt index count) (fun _ => List.replicate count .null) false := by
  have hnull : Answers (pure .null) .null := ⟨.null, false, .pure _, rfl⟩
  induction count generalizing index with
  | zero => exact .pure _
  | succ count ih =>
    refine .of_eq (.bind (gives_elementOf none (failsAt.contains index) hnull) fun value =>
      .bind (ih (index + 1)) fun values => .pure _) fun l => ?_
    rw [ite_self, argumentValue_null, List.replicate_succ]

/-- One value for each element, in their order. -/
theorem gives_elementsFrom (params : List FieldType) (failsAt : List Nat) (index count : Nat)
    (elements : List JavaObject) :
    Gives (elementsFrom params failsAt index count elements)
      (fun l => (List.range count).map fun i =>
        argumentValue l (kindAt params (index + i)) (readAt elements failsAt (index + i) i))
      false := by
  induction elements generalizing index count with
  | nil =>
    unfold elementsFrom
    refine .of_eq (gives_absentElements failsAt index count) fun l => ?_
    simp [readAt]
  | cons o rest ih =>
    unfold elementsFrom
    cases count with
    | zero => exact .pure _
    | succ count =>
      refine .of_eq (.bind (gives_elementOf _ _ (answers_toText o)) fun value =>
        .bind (ih (index + 1) count) fun values => .pure _) fun l => ?_
      have hshift : ∀ i, index + 1 + i = index + (i + 1) := fun i => by omega
      simp only [List.range_succ_eq_map, List.map_cons, List.map_map, Function.comp_def, hshift,
        Nat.succ_eq_add_one, readAt, List.getElem?_cons_succ]
      rfl

theorem gives_arguments (params : List FieldType) (args : JavaObject) :
    Gives (arguments params args) (fun l => argumentValues l params args) false := by
  cases args with
  | array elements length failsAt =>
    unfold arguments
    refine .of_eq (gives_elementsFrom params failsAt 0 length.toNat elements) fun l => ?_
    simp only [Nat.zero_add]
    rfl
  | _ =>
    unfold arguments
    exact .pure _

/-! ## Calls on any thread -/

theorem machine_onRun {α : Type} (f : Files → CoverageRun → α × CoverageRun) (p : AgentProcess) :
    ((onRun f).run p).2.machine = p.machine := by
  unfold onRun
  rw [run_bind, run_get]
  cases p.run <;> rfl

variable {p : AgentProcess} {r : CoverageRun}

/-- A record on a thread that is not collecting keeps what the capture gives. -/
theorem record_of_free (key : MemberKey) {capture : ProcM Observation}
    {v : Lookups → Observation} (hrun : p.run = some r) (hguard : p.guard = .free)
    (hp : p.machine.pending = false) (hcapture : Gives capture v false) (hquiet : Quiet capture) :
    ∃ q, (do
        let _ ← record key capture
        let _ ← ProcM.takeException
        return () : ProcM Unit).run p = (⟨⟩, q) ∧
      p.machine.Leaves q.machine ∧ q.machine.pending = false ∧
      q.run = some (r.record p.files key (v p.lookups)).2 := by
  obtain ⟨hresult, hleaves, -⟩ := hcapture (p.capturing r) rfl hp
  have halike : AgentProcess.Alike _ ((record key capture).run p).2 :=
    run_record hrun hguard hquiet
  rw [hresult] at halike
  have hmachine : p.machine.Leaves ((record key capture).run p).2.machine := by
    have henter : p.guard.enter? = some ⟨1⟩ := by
      rw [hguard]
      rfl
    simp only [record, run_bind, run_onRun _ hrun, run_get, henter, run_set]
    cases (r.ensureReady p.files).2.collector.mode with
    | template =>
      simp only [run_bind, run_pure, run_modify, machine_onRun]
      exact .refl _
    | coverage =>
      simp only [run_bind, run_pure, run_modify, machine_onRun]
      exact hleaves.machine
  exact ⟨_, rfl, hmachine.trans (.of_eq rfl rfl rfl), rfl, halike.run_eq⟩

/-- The process after a string has been read. -/
theorem run_getString (o : JavaObject) (hp : p.machine.pending = false) :
    ∃ m, (onMachine (getString o)).run p = (readable o, { p with machine := m }) ∧
      p.machine.Leaves m ∧ m.pending = false := by
  obtain ⟨hresult, hleaves, hpending⟩ := yields_getString o p.machine hp
  exact ⟨_, by rw [run_onMachine, hresult], hleaves, hpending⟩

/-- A call on a thread that is not collecting captures once, if its strings can be read. -/
theorem observe_of_free {capture : List FieldType → ProcM Observation}
    {v : List FieldType → Lookups → Observation} (hrun : p.run = some r) (hguard : p.guard = .free)
    (hp : p.machine.pending = false) (hcapture : ∀ params, Gives (capture params) (v params) false)
    (hquiet : ∀ params, Quiet (capture params)) (owner member signature : JavaObject) :
    ∃ q, (observe owner member signature capture).run p = (⟨⟩, q) ∧
      p.machine.Leaves q.machine ∧ q.machine.pending = false ∧
      ∀ ownerText memberText descriptor, readable owner = some ownerText →
        readable member = some memberText → readable signature = some descriptor →
        q.run =
          some (r.record p.files ⟨ownerText, memberText⟩
            (v (parameters descriptor) p.lookups)).2 := by
  obtain ⟨m₁, h₁, hleaves₁, hpending₁⟩ := run_getString owner hp
  obtain ⟨m₂, h₂, hleaves₂, hpending₂⟩ :=
    run_getString (p := { p with machine := m₁ }) member hpending₁
  obtain ⟨m₃, h₃, hleaves₃, hpending₃⟩ :=
    run_getString (p := { p with machine := m₂ }) signature hpending₂
  have hleaves : p.machine.Leaves m₃ := (hleaves₁.trans hleaves₂).trans hleaves₃
  have hlookups := (AgentProcess.leaves_of_machine hleaves).lookups
  unfold observe
  rw [run_bind, run_get]
  simp only [hrun, Option.isNone_some, Bool.false_eq_true, if_false]
  rw [run_bind, h₁, run_bind, h₂, run_bind, h₃]
  dsimp only
  cases howner : readable owner with
  | none => exact ⟨_, rfl, hleaves.trans (.of_eq rfl rfl rfl), rfl, fun _ _ _ h => nomatch h⟩
  | some ownerText =>
  cases hmember : readable member with
  | none => exact ⟨_, rfl, hleaves.trans (.of_eq rfl rfl rfl), rfl, fun _ _ _ _ h => nomatch h⟩
  | some memberText =>
  cases hsignature : readable signature with
  | none => exact ⟨_, rfl, hleaves.trans (.of_eq rfl rfl rfl), rfl, fun _ _ _ _ _ h => nomatch h⟩
  | some descriptor =>
  obtain ⟨q, hq, hleaves', hpending, hkept⟩ := record_of_free (p := { p with machine := m₃ })
    ⟨ownerText, memberText⟩ hrun hguard hpending₃ (hcapture (parameters descriptor)) (hquiet _)
  refine ⟨q, ?_, hleaves.trans hleaves', hpending, ?_⟩
  · dsimp only
    rw [← hq]
    unfold parameters
    cases Descriptor.readMethod descriptor <;> rfl
  · rintro _ _ _ ⟨⟩ ⟨⟩ ⟨⟩
    rw [hkept, hlookups]

/-- A call of the native method on a process without a pending exception, whatever it is passed and
whatever fails: no exception is pending afterwards, and everything that it was lent it has given
back once. If the thread is not collecting and the strings can be read, it records one observation.
This has a value for each element of the array, in their order, as `argumentValue` says; elements
that cannot be read count as nothing. -/
theorem call_settles {p : AgentProcess} (hp : p.machine.pending = false)
    (owner member signature args : JavaObject) :
    ∃ q, (perform (.mk owner member signature args)).run p = (⟨⟩, q) ∧
      q.machine.pending = false ∧
      (∃ made, q.machine.loans = p.machine.loans ++ made ∧ Repaid made) ∧
      ∀ r ownerText memberText descriptor, p.run = some r → p.guard = .free →
        readable owner = some ownerText → readable member = some memberText →
        readable signature = some descriptor →
        ∃ values, q.run = some (r.record p.files ⟨ownerText, memberText⟩ values).2 ∧
          values.length = args.length.toNat ∧
          ∀ i < args.length.toNat, values[i]? =
            some (argumentValue p.lookups (kindAt (parameters descriptor) i)
              (elementAt args i)) := by
  have hrepaid : ∀ {q : AgentProcess}, p.machine.Leaves q.machine →
      ∃ made, q.machine.loans = p.machine.loans ++ made ∧ Repaid made := by
    intro q h
    obtain ⟨made, hmade, hsettled⟩ := h.loans
    exact ⟨made, hmade, hsettled.repaid⟩
  unfold perform
  by_cases hguard : p.guard = .free
  · cases hrun : p.run with
    | none =>
      have hnothing : (observe owner member signature fun params => arguments params args).run p =
          (⟨⟩, p) := by
        unfold observe
        rw [run_bind, run_get]
        simp only [hrun]
        rfl
      refine ⟨p, hnothing, hp, hrepaid (.refl _), fun _ _ _ _ h => ?_⟩
      cases h
    | some r =>
      obtain ⟨q, hq, hleaves, hpending, hkept⟩ := observe_of_free hrun hguard hp
        (fun params => gives_arguments params args) (fun params => quiet_arguments params args)
        owner member signature
      refine ⟨q, hq, hpending, hrepaid hleaves, ?_⟩
      rintro _ ownerText memberText descriptor ⟨⟩ - howner hmember hsignature
      refine ⟨_, hkept _ _ _ howner hmember hsignature, by simp [argumentValues], ?_⟩
      intro i hi
      simp [argumentValues, hi]
  · obtain ⟨-, hleaves, hpending⟩ := gives_observe owner member signature
      (fun params => arguments params args) p (Guard.enter?_eq_none hguard) hp
    exact ⟨_, rfl, hpending, hrepaid hleaves.machine, fun _ _ _ _ _ h => absurd h hguard⟩

/-- A process with a run, on a machine on which no call fails. -/
def plainProcess : AgentProcess where
  machine := .new .none id
  guard := .free
  files := .empty
  run := some
    { options := .standard, serializer := .plain, deserializer := .plain
      instrumenter := ⟨fun _ => true, .collector, false⟩
      collector := .new .empty .coverage (some .plain), saved := false }
  agent := none
  methodsKnown := false
  log := none

/-- A wrapper where one is expected, an object whose `toString` throws, and an element that cannot
be read. -/
def mixedArguments : JavaObject :=
  .array [.box .int 5 none false false, .instance "A" none false true [], .string none] 3 [2]

theorem call_settles_mixedArguments :
    ∃ q r values, (perform (.mk (.string (some (Text.Utf8.encode "A")))
        (.string (some (Text.Utf8.encode "m"))) (.string (some (Text.Utf8.encode "(ILB;LC;)V")))
        mixedArguments)).run plainProcess = (⟨⟩, q) ∧
      q.machine.pending = false ∧ Repaid q.machine.loans ∧ plainProcess.run = some r ∧
      q.run = some (r.record .empty ⟨"A", "m"⟩ values).2 ∧ values.length = 3 ∧
      values[0]? = some (.int 5) ∧ values[1]? = some unprintable ∧ values[2]? = some .null := by
  have hreadable : ∀ s ∈ ["A", "m", "(ILB;LC;)V"],
      readable (.string (some (Text.Utf8.encode s))) = some s := by decide +kernel
  obtain ⟨q, hq, hpending, ⟨made, hmade, hrepaid⟩, hkept⟩ :=
    call_settles (p := plainProcess) rfl (.string (some (Text.Utf8.encode "A")))
      (.string (some (Text.Utf8.encode "m"))) (.string (some (Text.Utf8.encode "(ILB;LC;)V")))
      mixedArguments
  obtain ⟨values, hrun, hlength, hvalues⟩ := hkept _ "A" "m" "(ILB;LC;)V" rfl rfl
    (hreadable _ (by simp)) (hreadable _ (by simp)) (hreadable _ (by simp))
  have hloans : q.machine.loans = made := hmade
  refine ⟨q, _, values, hq, hpending, hloans ▸ hrepaid, rfl, hrun, hlength, ?_, ?_, ?_⟩
  · rw [hvalues 0 (by decide)]
    decide +kernel
  · rw [hvalues 1 (by decide)]
    decide +kernel
  · rw [hvalues 2 (by decide)]
    decide +kernel

end Conversion

end ValueCoverage
