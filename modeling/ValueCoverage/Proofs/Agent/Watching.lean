import ValueCoverage.Agent.Basic
import ValueCoverage.Proofs.Agent.Conversion
import ValueCoverage.Proofs.Ordered
import ValueCoverage.Proofs.Steps
import ValueCoverage.Proofs.Vm.Tool

/-!
# Which fields an agent watches

When a class is prepared, its fields are watched one by one, up to the first for which a call fails.
What comes of a field depends on what the machine tells of it and on nothing that happened before,
so the fields that are watched are known from the class alone. A write to a field that the table has
is kept under the key that the table says.
-/

namespace ValueCoverage

/-- What comes of a field of a class that has been prepared. -/
inductive FieldFate where
  /-- A call has failed; the fields behind it are not looked at. -/
  | failed
  /-- The field is not observed. -/
  | passed
  | watched (field : WatchedField)

namespace Agent

variable {t : Tool} {faults : Faults} {accepts : Member → Bool} {owner : String}

/-- A field as the machine describes it. -/
def memberTold (owner : String) (f : FieldInfo) : Member :=
  ⟨f.modifiers.toUInt32.toUInt16, owner, Tool.told f.name, Tool.told f.descriptor⟩

def fieldFate (t : Tool) (faults : Faults) (accepts : Member → Bool) (owner : String)
    (f : FieldInfo) : FieldFate :=
  if (t.nameOf? faults f).isNone ||
      !t.grants faults .getFieldModifiers (f.answers .getFieldModifiers) then .failed
  else if !accepts (memberTold owner f) then .passed
  else if t.grants faults (.setFieldModificationWatch f.name)
      (f.answers .setFieldModificationWatch) then
    .watched ⟨.field owner (Tool.told f.name) (Tool.told f.descriptor), Tool.told f.descriptor⟩
  else .failed

/-- The fields that are watched, of fields that have numbers. -/
def watchedOf {α : Type} (fate : FieldInfo → FieldFate) :
    List (α × FieldInfo) → List (α × WatchedField)
  | [] => []
  | (n, f) :: rest =>
    match fate f with
    | .failed => []
    | .passed => watchedOf fate rest
    | .watched field => (n, field) :: watchedOf fate rest

/-- Identities in the place of numbers. -/
def byIdentity {β : Type} (fieldId : Nat → Nat) (fs : List (Nat × β)) : List (Nat × β) :=
  fs.map fun f => (fieldId f.1, f.2)

theorem watchedOf_byIdentity (fate : FieldInfo → FieldFate) (fieldId : Nat → Nat)
    (fs : List (Nat × FieldInfo)) :
    watchedOf fate (byIdentity fieldId fs) = byIdentity fieldId (watchedOf fate fs) := by
  induction fs with
  | nil => rfl
  | cons f rest ih =>
    simp only [byIdentity, List.map_cons, watchedOf] at ih ⊢
    cases fate f.2 with
    | failed => rfl
    | passed => exact ih
    | watched field => rw [List.map_cons, ih]

/-- What is watched is a field of the list that has this fate. -/
theorem fate_of_mem_watchedOf {α : Type} {fate : FieldInfo → FieldFate}
    {fs : List (α × FieldInfo)} {w : α × WatchedField} (h : w ∈ watchedOf fate fs) :
    ∃ f, (w.1, f) ∈ fs ∧ fate f = .watched w.2 := by
  induction fs with
  | nil => cases h
  | cons f rest ih =>
    obtain ⟨n, f⟩ := f
    unfold watchedOf at h
    cases hfate : fate f with
    | failed => simp [hfate] at h
    | passed =>
      rw [hfate] at h
      obtain ⟨g, hg, hw⟩ := ih h
      exact ⟨g, List.mem_cons_of_mem _ hg, hw⟩
    | watched field =>
      rw [hfate] at h
      rcases List.mem_cons.1 h with rfl | h
      · exact ⟨f, List.mem_cons_self, hfate⟩
      · obtain ⟨g, hg, hw⟩ := ih h
        exact ⟨g, List.mem_cons_of_mem _ hg, hw⟩

/-- If no call fails and everything is observed, all fields are watched. -/
theorem watchedOf_all {α : Type} (owner : String) {fs : List (α × FieldInfo)}
    (h : ∀ f ∈ fs, f.2.answers = fun _ => none) :
    watchedOf (fieldFate Tool.whole .none (fun _ => true) owner) fs = fs.map fun f =>
      (f.1, ⟨.field owner (Tool.told f.2.name) (Tool.told f.2.descriptor),
        Tool.told f.2.descriptor⟩) := by
  induction fs with
  | nil => rfl
  | cons f rest ih =>
    have hanswers : f.2.answers = fun _ => none := h f List.mem_cons_self
    have hfate : fieldFate Tool.whole .none (fun _ => true) owner f.2 = .watched
        ⟨.field owner (Tool.told f.2.name) (Tool.told f.2.descriptor),
          Tool.told f.2.descriptor⟩ := by
      simp [fieldFate, Tool.nameOf?, Tool.grants, Tool.copies, hanswers, Tool.whole, Faults.none]
    simp only [watchedOf, hfate, List.map_cons]
    rw [ih fun g hg => h g (List.mem_cons_of_mem _ hg)]

/-- The binary name of a class, if it is told. -/
def ownerOf? (t : Tool) (faults : Faults) (c : ClassInfo) : Option String :=
  (t.signatureOf? faults c).bind binaryName?

/-- How many fields are handed out when the class is prepared. -/
def handedOut (t : Tool) (faults : Faults) (c : ClassInfo) : Nat :=
  if (ownerOf? t faults c).isSome then t.handedOut faults c else 0

/-- The fields that are watched when the class is prepared, by number. -/
def watchedIn (t : Tool) (faults : Faults) (accepts : Member → Bool) (c : ClassInfo)
    (first : Nat) : List (Nat × WatchedField) :=
  match ownerOf? t faults c with
  | none => []
  | some owner =>
    watchedOf (fieldFate t faults accepts owner) ((t.fieldsOf? faults c first).getD [])

theorem fieldFate_eq_watched {f : FieldInfo} {field : WatchedField}
    (h : fieldFate t faults accepts owner f = .watched field) :
    accepts (memberTold owner f) = true ∧
      t.grants faults (.setFieldModificationWatch f.name) (f.answers .setFieldModificationWatch) =
        true ∧
      field =
        ⟨.field owner (Tool.told f.name) (Tool.told f.descriptor), Tool.told f.descriptor⟩ := by
  unfold fieldFate at h
  split at h
  · cases h
  split at h
  · cases h
  · next haccepts =>
    split at h
    · next hgrants =>
      cases h
      exact ⟨by simpa using haccepts, hgrants, rfl⟩
    · cases h

/-- What it takes for the field at an index of a class to be watched, and under what. -/
def IsWatched (t : Tool) (faults : Faults) (accepts : Member → Bool) (c : ClassInfo) (index : Nat)
    (field : WatchedField) : Prop :=
  ∃ owner f, ownerOf? t faults c = some owner ∧ (c.fields.getD [])[index]? = some f ∧
    accepts (memberTold owner f) = true ∧
    t.grants faults (.setFieldModificationWatch f.name) (f.answers .setFieldModificationWatch) =
      true ∧
    field = ⟨.field owner (Tool.told f.name) (Tool.told f.descriptor), Tool.told f.descriptor⟩

/-- The fields of a class have numbers in a row. -/
theorem getElem?_of_mem_fieldsOf? {c : ClassInfo} {first : Nat} {w : Nat × FieldInfo}
    (h : w ∈ (t.fieldsOf? faults c first).getD []) :
    ∃ i < t.handedOut faults c, w.1 = first + i ∧ (c.fields.getD [])[i]? = some w.2 := by
  unfold Tool.fieldsOf? at h
  split at h
  · next hgrants =>
    rw [Option.getD_some] at h
    obtain ⟨⟨f, i⟩, hf, rfl⟩ := List.mem_map.1 (List.mem_of_mem_take h)
    have hget := List.mem_zipIdx_iff_getElem?.1 hf
    obtain ⟨hi, -⟩ := List.getElem?_eq_some_iff.1 hget
    rw [Bool.and_eq_true] at hgrants
    exact ⟨i, by rwa [Tool.handedOut, if_pos hgrants.1], rfl, hget⟩
  · cases h

theorem nodup_fieldsOf? (t : Tool) (faults : Faults) (c : ClassInfo) (first : Nat) :
    (((t.fieldsOf? faults c first).getD []).map Prod.fst).Nodup := by
  unfold Tool.fieldsOf?
  split
  · -- the numbers are those from `first` on, and a list that is cut off has no more of them
    have hnumbers : ((c.fields.getD []).zipIdx.map fun f => (first + f.2, f.1)).map Prod.fst =
        (List.range' 0 (c.fields.getD []).length).map (first + ·) := by
      rw [← List.zipIdx_map_snd, List.map_map, List.map_map]
      rfl
    rw [Option.getD_some, List.map_take, hnumbers]
    exact (List.Nodup.map (fun a b h => Nat.add_left_cancel h) List.nodup_range').sublist
      (List.take_sublist _ _)
  · exact List.nodup_nil

theorem watchedOf_sublist {α : Type} (fate : FieldInfo → FieldFate) (fs : List (α × FieldInfo)) :
    ((watchedOf fate fs).map Prod.fst).Sublist (fs.map Prod.fst) := by
  induction fs with
  | nil => exact .slnil
  | cons f rest ih =>
    unfold watchedOf
    cases fate f.2 with
    | failed => exact List.nil_sublist _
    | passed => exact ih.cons _
    | watched field => exact ih.cons_cons _

theorem isWatched_of_mem_watchedIn {c : ClassInfo} {first : Nat} {w : Nat × WatchedField}
    (h : w ∈ watchedIn t faults accepts c first) :
    ∃ i < handedOut t faults c, w.1 = first + i ∧ IsWatched t faults accepts c i w.2 := by
  unfold watchedIn at h
  cases howner : ownerOf? t faults c with
  | none => simp [howner] at h
  | some owner =>
    rw [howner] at h
    obtain ⟨f, hf, hfate⟩ := fate_of_mem_watchedOf h
    obtain ⟨i, hi, hnumber, hget⟩ := getElem?_of_mem_fieldsOf? hf
    obtain ⟨haccepts, hgrants, hfield⟩ := fieldFate_eq_watched hfate
    refine ⟨i, ?_, hnumber, owner, f, howner, hget, haccepts, hgrants, hfield⟩
    rwa [handedOut, howner]

theorem nodup_watchedIn (t : Tool) (faults : Faults) (accepts : Member → Bool) (c : ClassInfo)
    (first : Nat) : ((watchedIn t faults accepts c first).map Prod.fst).Nodup := by
  unfold watchedIn
  split
  · exact List.nodup_nil
  · exact (nodup_fieldsOf? t faults c first).sublist (watchedOf_sublist _ _)

end Agent

/-- Whether a member is observed, if there is a run. -/
def AgentProcess.accepts (p : AgentProcess) (m : Member) : Bool :=
  p.run.any fun r => r.instrumenter.accepts m

/-- Declares the fields and keeps them by their identities. -/
def AgentProcess.watching (p : AgentProcess) (ws : List (Nat × WatchedField)) : AgentProcess :=
  { p with
    run := p.run.map fun r => ws.foldl (fun r w => (r.declare w.2.key).2) r
    agent := p.agent.map fun a =>
      { a with watched := a.watched.insertAll ws } }

namespace Agent

open ProcM

variable {p : AgentProcess}

@[simp] theorem watching_nil (p : AgentProcess) : p.watching [] = p := by
  obtain ⟨machine, guard, files, run, agent, known, log⟩ := p
  cases run <;> cases agent <;> rfl

theorem watching_cons (p : AgentProcess) (w : Nat × WatchedField)
    (ws : List (Nat × WatchedField)) :
    (p.watching [w]).watching ws = p.watching (w :: ws) := by
  obtain ⟨machine, guard, files, run, agent, known, log⟩ := p
  cases run <;> cases agent <;> rfl

theorem accepts_watching (p : AgentProcess) (ws : List (Nat × WatchedField)) :
    (p.watching ws).accepts = p.accepts := by
  induction ws generalizing p with
  | nil => rw [watching_nil]
  | cons w ws ih =>
    rw [← watching_cons, ih]
    obtain ⟨machine, guard, files, run, agent, known, log⟩ := p
    cases run <;> rfl

/-! ## Calls of the tool interface -/

theorem run_call_of_some {α β : Type} {x : Tool.Call α} {a : α} (f : α → Attempt β)
    (h : Tool.result x p.machine = some a) :
    (tryOnMachine x >>= f).run.run p =
      (f a).run.run { p with machine := Tool.after x p.machine } := by
  have hx : (x.run.run p.machine).1 = .ok a := toOption_eq_some.1 h
  rw [run_bind_fallible, run_tryOnMachine, hx]
  rfl

theorem run_call_of_none {α β : Type} {x : Tool.Call α} (f : α → Attempt β)
    (h : Tool.result x p.machine = none) :
    ∃ e, (tryOnMachine x >>= f).run.run p =
      (.error e, { p with machine := Tool.after x p.machine }) := by
  unfold Tool.result at h
  cases hx : (x.run.run p.machine).1 with
  | ok a => simp [hx, Except.toOption] at h
  | error e =>
    refine ⟨e, ?_⟩
    rw [run_bind_fallible, run_tryOnMachine, hx]
    rfl

/-! ## One field -/

theorem result_getFieldModifiers (t : Tool) (f : FieldInfo) (m : Machine) :
    Tool.result (t.getFieldModifiers f) m =
      if t.grants m.faults .getFieldModifiers (f.answers .getFieldModifiers) then some f.modifiers
      else none := by
  unfold Tool.getFieldModifiers
  rw [Tool.result_bind, Tool.result_call]
  cases t.grants m.faults .getFieldModifiers (f.answers .getFieldModifiers) <;> rfl

theorem steady_getFieldModifiers (t : Tool) (f : FieldInfo) :
    Machine.SteadyCall (t.getFieldModifiers f) :=
  .bind (Tool.steady_call _ _ _) fun _ => .pure _

theorem nameOf?_eq (t : Tool) (faults : Faults) (f : FieldInfo) :
    t.nameOf? faults f = none ∨
      t.nameOf? faults f = some (Tool.told f.name, Tool.told f.descriptor) := by
  unfold Tool.nameOf?
  split
  · exact .inr rfl
  · exact .inl rfl

/-- What is left to do once a field has been described. -/
theorem run_watchIfAccepted (t : Tool) (id : Nat) (f : FieldInfo) (field : WatchedField)
    (member : Member) (p : AgentProcess) :
    ∃ machine, p.machine.Alike machine ∧
      let x : Attempt Unit := do
        if (← get).run.any fun r => r.instrumenter.accepts member then
          tryOnMachine (t.setFieldModificationWatch f)
          let _ ← onRun fun _ r => r.declare field.key
          onAgent fun a => { a with watched := a.watched.insert id field }
      if !p.accepts member then x.run.run p = (.ok (), { p with machine })
      else if t.grants p.machine.faults (.setFieldModificationWatch f.name)
          (f.answers .setFieldModificationWatch) then
        x.run.run p = (.ok (), { p with machine }.watching [(id, field)])
      else ∃ e, x.run.run p = (.error e, { p with machine }) := by
  have hasked : ∀ {x : Attempt Unit}, (do
      if (← get).run.any fun r => r.instrumenter.accepts member then x : Attempt Unit).run.run p =
      if p.accepts member then x.run.run p else (.ok (), p) := by
    intro x
    show (if p.accepts member then x else pure ()).run.run p = _
    split <;> rfl
  simp only [hasked]
  cases p.accepts member with
  | false => exact ⟨p.machine, .refl _, rfl⟩
  | true =>
    have hresult : Tool.result (t.setFieldModificationWatch f) p.machine =
        if t.grants p.machine.faults (.setFieldModificationWatch f.name)
          (f.answers .setFieldModificationWatch) then some () else none :=
      Tool.result_call _ _ _ _
    refine ⟨_, Tool.steady_call t (.setFieldModificationWatch f.name)
      (f.answers .setFieldModificationWatch) p.machine, ?_⟩
    cases hgrants : t.grants p.machine.faults (.setFieldModificationWatch f.name)
        (f.answers .setFieldModificationWatch) with
    | false =>
      rw [hgrants] at hresult
      exact run_call_of_none _ hresult
    | true =>
      rw [hgrants] at hresult
      refine (run_call_of_some _ hresult).trans ?_
      obtain ⟨machine, guard, files, run, agent, known, log⟩ := p
      cases run <;> cases agent <;> rfl

/-- What is done about a field is what its fate says. -/
theorem run_watchField (t : Tool) (owner : String) (id : Nat) (f : FieldInfo) (p : AgentProcess) :
    ∃ machine, p.machine.Alike machine ∧
      match fieldFate t p.machine.faults p.accepts owner f with
      | .failed => ∃ e, (watchField t owner id f).run.run p = (.error e, { p with machine })
      | .passed => (watchField t owner id f).run.run p = (.ok (), { p with machine })
      | .watched field =>
        (watchField t owner id f).run.run p =
          (.ok (), { p with machine }.watching [(id, field)]) := by
  unfold watchField fieldFate
  -- the calls come in this order, and the first that fails ends it
  have hname := Tool.result_getFieldName t f p.machine
  have hnamed : p.machine.Alike (Tool.after (t.getFieldName f) p.machine) :=
    Tool.steady_getFieldName t f p.machine
  rcases nameOf?_eq t p.machine.faults f with hnone | hsome
  · rw [hnone] at hname
    simp only [hnone, Option.isNone_none, Bool.true_or, if_true]
    exact ⟨_, hnamed, run_call_of_none _ hname⟩
  rw [hsome] at hname
  simp only [run_call_of_some _ hname]
  generalize Tool.after (t.getFieldName f) p.machine = named at hnamed
  have hmodifiers := result_getFieldModifiers t f named
  have hmodified : p.machine.Alike (Tool.after (t.getFieldModifiers f) named) :=
    hnamed.trans (steady_getFieldModifiers t f named)
  rw [hnamed.faults] at hmodifiers
  cases hgrants : t.grants p.machine.faults .getFieldModifiers (f.answers .getFieldModifiers) with
  | false =>
    rw [hgrants] at hmodifiers
    simp only [hsome, Option.isNone_some, Bool.not_false, Bool.or_true, if_true]
    exact ⟨_, hmodified, run_call_of_none (p := { p with machine := named }) _ hmodifiers⟩
  | true =>
    rw [hgrants] at hmodifiers
    simp only [run_call_of_some (p := { p with machine := named }) _ hmodifiers]
    generalize Tool.after (t.getFieldModifiers f) named = modified at hmodified
    obtain ⟨machine, hmachine, hrun⟩ := run_watchIfAccepted t id f
      ⟨.field owner (Tool.told f.name) (Tool.told f.descriptor), Tool.told f.descriptor⟩
      (memberTold owner f) { p with machine := modified }
    refine ⟨machine, hmodified.trans hmachine, ?_⟩
    have hsame : ({ p with machine := modified } : AgentProcess).accepts = p.accepts := rfl
    simp only [hsame, hmodified.faults] at hrun
    simp only [hsome, Option.isNone_some, Bool.false_or, Bool.not_true]
    cases haccepts : p.accepts (memberTold owner f) with
    | false =>
      simp only [haccepts] at hrun
      exact hrun
    | true =>
      simp only [haccepts] at hrun
      cases hwatch : t.grants p.machine.faults (.setFieldModificationWatch f.name)
          (f.answers .setFieldModificationWatch) with
      | false =>
        simp only [hwatch] at hrun
        exact hrun
      | true =>
        simp only [hwatch] at hrun
        exact hrun

/-! ## All fields of a class -/

theorem run_watchEach (t : Tool) (owner : String) (fs : List (Nat × FieldInfo))
    (p : AgentProcess) :
    ∃ machine, p.machine.Alike machine ∧
      ((fs.forM fun f => watchField t owner f.1 f.2).run.run p).2 =
        { p with machine }.watching
          (watchedOf (fieldFate t p.machine.faults p.accepts owner) fs) := by
  induction fs generalizing p with
  | nil => exact ⟨p.machine, .refl _, (watching_nil _).symm⟩
  | cons f rest ih =>
    obtain ⟨n, f⟩ := f
    obtain ⟨machine, hmachine, hfield⟩ := run_watchField t owner n f p
    have hcons : ((List.forM ((n, f) :: rest) fun f => watchField t owner f.1 f.2).run.run p).2 =
        ((watchField t owner n f >>= fun _ =>
          rest.forM fun f => watchField t owner f.1 f.2).run.run p).2 := rfl
    rw [hcons, run_bind_fallible, watchedOf]
    cases hfate : fieldFate t p.machine.faults p.accepts owner f with
    | failed =>
      rw [hfate] at hfield
      obtain ⟨e, hfield⟩ := hfield
      refine ⟨machine, hmachine, ?_⟩
      rw [hfield, watching_nil]
    | passed =>
      rw [hfate] at hfield
      obtain ⟨last, hlast, hrest⟩ := ih { p with machine }
      refine ⟨last, hmachine.trans hlast, ?_⟩
      simp only [hmachine.faults] at hrest
      rw [hfield]
      exact hrest
    | watched field =>
      rw [hfate] at hfield
      obtain ⟨last, hlast, hrest⟩ := ih ({ p with machine }.watching [(n, field)])
      refine ⟨last, hmachine.trans hlast, ?_⟩
      have hsame : ({ p with machine := machine }.watching [(n, field)]).machine = machine := rfl
      rw [accepts_watching, hsame, hmachine.faults] at hrest
      rw [hfield]
      exact hrest.trans (watching_cons { p with machine := last } (n, field) _)

/-- The process after a call of the tool interface and what comes of it. -/
theorem after_run_call {α β : Type} (x : Tool.Call α) (f : α → Attempt β) (p : AgentProcess) :
    ((tryOnMachine x >>= f).run.run p).2 =
      match Tool.result x p.machine with
      | some a => ((f a).run.run { p with machine := Tool.after x p.machine }).2
      | none => { p with machine := Tool.after x p.machine } := by
  cases h : Tool.result x p.machine with
  | some a => rw [run_call_of_some f h]
  | none =>
    obtain ⟨e, he⟩ := run_call_of_none f h
    rw [he]

/-- The fields of a class of which the name is known. -/
theorem run_watchFieldsOf (t : Tool) (owner : String) (c : ClassInfo) (p : AgentProcess) :
    ∃ machine : Machine, machine.faults = p.machine.faults ∧
      machine.fieldId = p.machine.fieldId ∧
      machine.fieldCount = p.machine.fieldCount + t.handedOut p.machine.faults c ∧
      ((tryOnMachine (t.getClassFields c) >>= fun fs =>
        fs.forM fun f => watchField t owner f.1 f.2).run.run p).2 =
        { p with machine }.watching (byIdentity p.machine.fieldId
          (watchedOf (fieldFate t p.machine.faults p.accepts owner)
            ((t.fieldsOf? p.machine.faults c p.machine.fieldCount).getD []))) := by
  obtain ⟨hfaults, hid, hcount⟩ := Tool.after_getClassFields t c p.machine
  rw [after_run_call, Tool.result_getClassFields]
  generalize Tool.after (t.getClassFields c) p.machine = told at hfaults hid hcount
  cases t.fieldsOf? p.machine.faults c p.machine.fieldCount with
  | none => exact ⟨told, hfaults, hid, hcount, (watching_nil _).symm⟩
  | some fields =>
    obtain ⟨machine, hmachine, heach⟩ := run_watchEach t owner
      (byIdentity p.machine.fieldId fields) { p with machine := told }
    refine ⟨machine, hmachine.faults.trans hfaults, hmachine.fieldId.trans hid,
      hmachine.fieldCount.trans hcount, ?_⟩
    rw [watchedOf_byIdentity, hfaults] at heach
    exact heach

/-- When a class is prepared, the fields that it says are watched, and nothing else happens. -/
theorem run_classPrepared (c : ClassInfo) {t : Tool} (hrun : p.run.isSome)
    (ht : p.agent.bind AgentState.tool = some t) :
    ∃ machine : Machine, machine.faults = p.machine.faults ∧
      machine.fieldId = p.machine.fieldId ∧
      machine.fieldCount = p.machine.fieldCount + handedOut t p.machine.faults c ∧
      ((classPrepared c).run p).2 = { p with machine }.watching (byIdentity p.machine.fieldId
        (watchedIn t p.machine.faults p.accepts c p.machine.fieldCount)) := by
  have hstart : ((classPrepared c).run p).2 = ((watchFields t c).run.run p).2 := by
    obtain ⟨r, hr⟩ := Option.isSome_iff_exists.1 hrun
    simp only [classPrepared, run_bind, run_get, ht, hr]
    rfl
  have hasked : p.machine.Alike (Tool.after (t.getClassSignature c) p.machine) :=
    Tool.steady_getClassSignature t c p.machine
  rw [hstart, watchFields, after_run_call, Tool.result_getClassSignature, handedOut, watchedIn,
    ownerOf?]
  generalize Tool.after (t.getClassSignature c) p.machine = asked at hasked
  -- without a signature, or with one that names no class, no field is looked at
  have hnone : ∃ machine : Machine, machine.faults = p.machine.faults ∧
      machine.fieldId = p.machine.fieldId ∧
      machine.fieldCount = p.machine.fieldCount + 0 ∧
      { p with machine := asked } = { p with machine }.watching [] :=
    ⟨asked, hasked.faults, hasked.fieldId, hasked.fieldCount, (watching_nil _).symm⟩
  cases t.signatureOf? p.machine.faults c with
  | none => exact hnone
  | some signature =>
    rcases Option.eq_none_or_eq_some (binaryName? signature) with howner | ⟨owner, howner⟩
    · simp only [howner, Option.bind_some]
      exact hnone
    · simp only [howner, Option.bind_some]
      obtain ⟨machine, hfaults, hid, hcount, hfields⟩ :=
        run_watchFieldsOf t owner c { p with machine := asked }
      simp only [hasked.faults, hasked.fieldId, hasked.fieldCount] at hfaults hid hcount hfields
      exact ⟨machine, hfaults, hid, hcount, hfields⟩

/-! ## A write to a field -/

/-- What is kept of a write to a field that the table has. -/
theorem run_fieldModified_of_some {r : CoverageRun} (hr : p.run = some r) (hg : p.guard = .free)
    {id : Nat} {field : WatchedField}
    (hfield : (p.agent.bind fun a => a.watched.get? id) = some field)
    (tag : Char) (slot : SlotValue) :
    { p with run := some (r.record p.files field.key
        [((Conversion.fieldValue tag slot).run (p.capturing r)).1]).2 }.Alike
      ((fieldModified id tag slot).run p).2 := by
  have hcapture : Quiet (do return [← Conversion.fieldValue tag slot] : ProcM Observation) :=
    .bind (Conversion.quiet_fieldValue tag slot) fun _ => .pure _
  have hrun : ((fieldModified id tag slot).run p).2 =
      (takeException.run ((record field.key do
        return [← Conversion.fieldValue tag slot]).run p).2).2 := by
    simp only [fieldModified, run_bind, run_get, hfield, hr]
    rfl
  rw [hrun]
  exact (run_record hr hg hcapture).trans ⟨_, _, Machine.Steady.takeException _, rfl⟩

theorem run_fieldModified_of_none {id : Nat}
    (hfield : (p.agent.bind fun a => a.watched.get? id) = none) (tag : Char) (slot : SlotValue) :
    ((fieldModified id tag slot).run p).2 = p := by
  simp only [fieldModified, run_bind, run_get, hfield]
  rfl

end Agent

end ValueCoverage
