import ValueCoverage.Proofs.Steps
import ValueCoverage.Proofs.Text.Lenient
import ValueCoverage.Proofs.Vm.Machine
import ValueCoverage.Vm.Tool

/-!
# How calls of the tool interface end

A call ends well if the interface has the function and the machine answers zero. Memory that the
machine has handed out is copied and given back, for which the machine may also answer otherwise;
then the copy is lost. What a call yields depends on nothing else.
-/

namespace ValueCoverage

namespace Tool

variable {α β : Type} {t : Tool} {m : Machine}

/-- What a call yields, if it ends well. -/
def result (x : Call α) (m : Machine) : Option α := (x.run.run m).1.toOption

/-- The machine after a call. -/
def after (x : Call α) (m : Machine) : Machine := (x.run.run m).2

theorem result_bind (x : Call α) (f : α → Call β) (m : Machine) :
    result (x >>= f) m = (result x m).bind fun a => result (f a) (after x m) := by
  simp only [result, run_bind_fallible]
  cases (x.run.run m).1 <;> rfl

theorem after_bind (x : Call α) (f : α → Call β) (m : Machine) :
    after (x >>= f) m =
      match result x m with
      | some a => after (f a) (after x m)
      | none => after x m := by
  simp only [after, result, run_bind_fallible]
  cases (x.run.run m).1 <;> rfl

@[simp] theorem result_pure (a : α) : result (pure a) m = some a := rfl

/-! ## Calls -/

/-- An interface that lacks nothing. -/
def whole : Tool := ⟨fun _ => false⟩

/-- Whether the call ends well; `own` is the code that what it is about has of its own. -/
def grants (t : Tool) (faults : Faults) (c : ToolCall) (own : Option Nat) : Bool :=
  !t.lacks c.function && decide (own.getD (faults.tool c) = 0)

/-- Whether memory that the machine has handed out is copied; there may be none. -/
def copies (t : Tool) (faults : Faults) (x : Option α) : Bool :=
  x.isNone || t.grants faults (.deallocate true) none

theorem result_require (t : Tool) (f : ToolFunction) (m : Machine) :
    result (t.require f) m = if t.lacks f then none else some () := by
  unfold require
  split <;> rfl

theorem after_require (t : Tool) (f : ToolFunction) (m : Machine) : after (t.require f) m = m := by
  unfold require
  split <;> rfl

theorem result_check (f : ToolFunction) (code : Nat) (m : Machine) :
    result (check f code) m = if code = 0 then some () else none := by
  unfold check
  split <;> rfl

theorem after_check (f : ToolFunction) (code : Nat) (m : Machine) : after (check f code) m = m := by
  unfold check
  split <;> rfl

theorem result_call (t : Tool) (c : ToolCall) (own : Option Nat) (m : Machine) :
    result (t.call c own) m = if t.grants m.faults c own then some () else none := by
  unfold call grants
  rw [result_bind, result_require, after_require]
  cases t.lacks c.function with
  | true => rfl
  | false =>
    show result (check c.function (own.getD (m.faults.tool c))) _ = _
    rw [result_check]
    simp

theorem steady_call (t : Tool) (c : ToolCall) (own : Option Nat) :
    Machine.SteadyCall (t.call c own) := by
  have hrequire : Machine.SteadyCall (t.require c.function) := .ite (.throw _) (.pure _)
  exact .bind hrequire fun _ => .bind (.lift (.log _)) fun _ => .bind (.lift .get) fun _ =>
    .ite (.pure _) (.throw _)

/-! ## Memory -/

/-- Memory that the machine has handed out and not got back. -/
def Holds (m : Machine) (x : Option (Lent α)) : Prop := ∀ l ∈ x, l.block ∈ m.blocks

theorem result_deallocate {block : Nat} (h : block ∈ m.blocks) (t : Tool) :
    result (t.deallocate (some block)) m =
      if t.grants m.faults (.deallocate true) none then some () else none := by
  have hlive : m.blocks.contains block = true := by simpa using h
  unfold deallocate grants
  rw [result_bind, result_require, after_require]
  cases hlacks : t.lacks .deallocate with
  | true => simp [ToolCall.function, hlacks]
  | false =>
    show result (check .deallocate (m.faults.tool (.deallocate (m.blocks.contains block)))) _ = _
    rw [result_check, hlive]
    simp [ToolCall.function, hlacks]

theorem blocks_after_deallocate (t : Tool) (block : Nat) (m : Machine)
    (h : t.lacks .deallocate = false) :
    (after (t.deallocate (some block)) m).blocks = m.blocks.erase block := by
  unfold deallocate
  rw [after_bind, result_require, after_require, h]
  show (after
    (check .deallocate (m.faults.tool (.deallocate (m.blocks.contains block)))) _).blocks = _
  rw [after_check]

theorem steady_deallocate (t : Tool) (block : Option Nat) :
    Machine.SteadyCall (t.deallocate block) := by
  cases block with
  | none => exact .pure _
  | some block =>
    have hrequire : Machine.SteadyCall (t.require .deallocate) := .ite (.throw _) (.pure _)
    exact .bind hrequire fun _ => .bind (.lift .get) fun _ => .bind (.lift (.log _)) fun _ =>
      .bind (.lift (.freeBlock _)) fun _ => .bind (.lift .get) fun _ => .ite (.pure _) (.throw _)

theorem result_take (t : Tool) {l : Lent α} (h : l.block ∈ m.blocks) :
    result (t.take l) m =
      if t.grants m.faults (.deallocate true) none then some l.content else none := by
  unfold take
  rw [result_bind, result_deallocate h]
  cases t.grants m.faults (.deallocate true) none <;> rfl

theorem result_takeText (t : Tool) {x : Option (Lent Bytes)} (h : Holds m x) :
    result (t.takeText x) m =
      if t.copies m.faults x then some (x.map fun l => Text.Utf8.pointedTo l.content)
      else none := by
  cases x with
  | none => rfl
  | some l =>
    have hblock : l.block ∈ m.blocks := h l rfl
    unfold takeText copies
    rw [result_bind, result_take t hblock]
    cases t.grants m.faults (.deallocate true) none <;> rfl

theorem steady_takeText (t : Tool) (x : Option (Lent Bytes)) :
    Machine.SteadyCall (t.takeText x) := by
  cases x with
  | none => exact .pure _
  | some l =>
    exact .bind (.bind (steady_deallocate t _) fun _ => .pure _) fun _ => .pure _

/-- Taking one text leaves the other where it is. -/
theorem holds_after_takeText (t : Tool) {x y : Option (Lent Bytes)} (hy : Holds m y)
    (hne : ∀ l ∈ x, ∀ k ∈ y, k.block ≠ l.block) (hlacks : t.lacks .deallocate = false) :
    Holds (after (t.takeText x) m) y := by
  cases x with
  | none => exact hy
  | some l =>
    intro k hk
    have hblocks : (after (t.takeText (some l)) m).blocks = m.blocks.erase l.block := by
      unfold takeText take
      rw [after_bind, after_bind, ← blocks_after_deallocate t l.block m hlacks, result_bind]
      cases result (t.deallocate (some l.block)) m <;> rfl
    rw [hblocks]
    exact (List.mem_erase_of_ne (hne l rfl k hk)).2 (hy k hk)

theorem run_lend_some (content : α) (m : Machine) :
    (lend (some content)).run m = (some ⟨m.blockCount, content⟩,
      { m with blocks := m.blockCount :: m.blocks, blockCount := m.blockCount + 1 }) := rfl

theorem steady_lend (x : Option α) : Machine.Steady (lend x) := by
  cases x with
  | none => exact .pure _
  | some content => exact .bind .newBlock fun _ => .pure _

/-- What is lent twice is lent in two blocks. -/
theorem lend_lend (x : Option α) (y : Option β) (m : Machine) :
    Holds ((lend y).run ((lend x).run m).2).2 ((lend x).run m).1 ∧
      Holds ((lend y).run ((lend x).run m).2).2 ((lend y).run ((lend x).run m).2).1 ∧
      ∀ l ∈ ((lend x).run m).1, ∀ k ∈ ((lend y).run ((lend x).run m).2).1, k.block ≠ l.block := by
  have hnone : ∀ {γ : Type} (m : Machine), (lend (none : Option γ)).run m = (none, m) :=
    fun _ => rfl
  cases x <;> cases y <;> simp [hnone, run_lend_some, Holds]

theorem text_lend (x : Option Bytes) (m : Machine) :
    (((lend x).run m).1.map fun l => Text.Utf8.pointedTo l.content) =
      x.map Text.Utf8.pointedTo := by
  cases x <;> rfl

theorem copies_lend (t : Tool) (faults : Faults) (x : Option α) (m : Machine) :
    t.copies faults ((lend x).run m).1 = t.copies faults x := by
  cases x <;> rfl

/-- Whether the interface has no function to give memory back with is known before it is tried. -/
theorem not_lacks_of_copies {t : Tool} {faults : Faults} {x : Option α} (h : t.copies faults x)
    (hx : x ≠ none) : t.lacks .deallocate = false := by
  cases x with
  | none => exact absurd rfl hx
  | some content =>
    simp only [copies, grants, Option.isNone_some, Bool.false_or, Bool.and_eq_true,
      Bool.not_eq_true'] at h
    exact h.1

/-- Two texts, of which the first is taken first or the second. -/
theorem result_takeText_takeText (t : Tool) {x y : Option (Lent Bytes)} (hx : Holds m x)
    (hy : Holds m y) (hne : ∀ l ∈ x, ∀ k ∈ y, k.block ≠ l.block)
    (f : Option String → Option String → α) :
    result (do
      let a ← t.takeText x
      let b ← t.takeText y
      return f a b) m =
      if t.copies m.faults x && t.copies m.faults y then
        some (f (x.map fun l => Text.Utf8.pointedTo l.content)
          (y.map fun l => Text.Utf8.pointedTo l.content))
      else none := by
  have hfaults : (after (t.takeText x) m).faults = m.faults := (steady_takeText t x m).faults
  rw [result_bind, result_takeText t hx]
  cases hcopies : t.copies m.faults x with
  | false => rfl
  | true =>
    -- a text could be copied, so memory can be given back, and only that of the text was
    have hy' : Holds (after (t.takeText x) m) y := by
      cases x with
      | none => exact hy
      | some l => exact holds_after_takeText t hy hne (not_lacks_of_copies hcopies (by simp))
    show result (t.takeText y >>= fun b => pure (f _ b)) _ = _
    rw [result_bind, result_takeText t hy', hfaults]
    cases t.copies m.faults y <;> rfl

/-! ## Classes and fields -/

/-- The text of what a machine tells; nothing is the empty text. -/
def told (x : Option Bytes) : String := (x.map Text.Utf8.pointedTo).getD ""

/-- The signature of a class, if it is told. -/
def signatureOf? (t : Tool) (faults : Faults) (c : ClassInfo) : Option String :=
  if t.grants faults .getClassSignature none && (t.copies faults c.generic &&
    t.copies faults c.signature) then some (told c.signature) else none

theorem result_getClassSignature (t : Tool) (c : ClassInfo) (m : Machine) :
    result (t.getClassSignature c) m = t.signatureOf? m.faults c := by
  unfold getClassSignature signatureOf?
  rw [result_bind, result_call]
  have hcalled : m.Alike (after (t.call .getClassSignature none) m) := steady_call t _ none m
  generalize after (t.call .getClassSignature none) m = called at hcalled
  cases t.grants m.faults .getClassSignature none with
  | false => rfl
  | true =>
    obtain ⟨hx, hy, hne⟩ := lend_lend c.signature c.generic called
    have hlent := hcalled.trans ((steady_lend c.signature called).trans (steady_lend c.generic _))
    have htaken := result_takeText_takeText t hy hx (fun l hl k hk h => hne k hk l hl h.symm)
      fun _ b => b.getD ""
    rw [copies_lend, copies_lend, hlent.faults, text_lend] at htaken
    exact htaken

/-- The name and the descriptor of a field, if they are told. -/
def nameOf? (t : Tool) (faults : Faults) (f : FieldInfo) : Option (String × String) :=
  if t.grants faults .getFieldName (f.answers .getFieldName) && (t.copies faults f.name &&
    t.copies faults f.descriptor) then some (told f.name, told f.descriptor) else none

theorem result_getFieldName (t : Tool) (f : FieldInfo) (m : Machine) :
    result (t.getFieldName f) m = t.nameOf? m.faults f := by
  unfold getFieldName nameOf?
  rw [result_bind, result_call]
  have hcalled : m.Alike (after (t.call .getFieldName (f.answers .getFieldName)) m) :=
    steady_call t _ _ m
  generalize after (t.call .getFieldName (f.answers .getFieldName)) m = called at hcalled
  cases t.grants m.faults .getFieldName (f.answers .getFieldName) with
  | false => rfl
  | true =>
    obtain ⟨hx, hy, hne⟩ := lend_lend f.name f.descriptor called
    have hlent := hcalled.trans ((steady_lend f.name called).trans (steady_lend f.descriptor _))
    have htaken := result_takeText_takeText t hx hy hne fun a b => (a.getD "", b.getD "")
    rw [copies_lend, copies_lend, hlent.faults, text_lend, text_lend] at htaken
    exact htaken

theorem steady_getClassSignature (t : Tool) (c : ClassInfo) :
    Machine.SteadyCall (t.getClassSignature c) :=
  .bind (steady_call _ _ _) fun _ => .bind (.lift (steady_lend _)) fun _ =>
    .bind (.lift (steady_lend _)) fun _ => .bind (steady_takeText _ _) fun _ =>
    .bind (steady_takeText _ _) fun _ => .pure _

theorem steady_getFieldName (t : Tool) (f : FieldInfo) : Machine.SteadyCall (t.getFieldName f) :=
  .bind (steady_call _ _ _) fun _ => .bind (.lift (steady_lend _)) fun _ =>
    .bind (.lift (steady_lend _)) fun _ => .bind (steady_takeText _ _) fun _ =>
    .bind (steady_takeText _ _) fun _ => .pure _

/-- How many fields the machine hands out when it is asked for those of a class. -/
def handedOut (t : Tool) (faults : Faults) (c : ClassInfo) : Nat :=
  if t.grants faults .getClassFields none then (c.fields.getD []).length else 0

/-- The fields of a class, if they are told, each with its number; `first` is that of the first. -/
def fieldsOf? (t : Tool) (faults : Faults) (c : ClassInfo) (first : Nat) :
    Option (List (Nat × FieldInfo)) :=
  if t.grants faults .getClassFields none && t.copies faults c.fields then
    let fields := c.fields.getD []
    some ((fields.zipIdx.map fun f => (first + f.2, f.1)).take
      (c.fieldCount.getD fields.length).toNat)
  else none

theorem result_getClassFields (t : Tool) (c : ClassInfo) (m : Machine) :
    result (t.getClassFields c) m =
      (t.fieldsOf? m.faults c m.fieldCount).map (·.map fun f => (m.fieldId f.1, f.2)) := by
  unfold getClassFields fieldsOf?
  rw [result_bind, result_call]
  have hcalled : m.Alike (after (t.call .getClassFields none) m) := steady_call t _ none m
  generalize after (t.call .getClassFields none) m = called at hcalled
  cases t.grants m.faults .getClassFields none with
  | false => rfl
  | true =>
    cases c.fields with
    | none => simp [copies]
    | some fields =>
      let numbered := fields.zipIdx.map fun f => (called.fieldId (called.fieldCount + f.2), f.1)
      let content := numbered.take (c.fieldCount.getD fields.length).toNat
      let lent : Machine := { called with
        fieldCount := called.fieldCount + fields.length
        blocks := called.blockCount :: called.blocks, blockCount := called.blockCount + 1 }
      have hblock : called.blockCount ∈ lent.blocks := List.mem_cons_self
      have htake : result (t.take ⟨called.blockCount, content⟩) lent = _ :=
        result_take t (l := ⟨called.blockCount, content⟩) hblock
      refine htake.trans ?_
      have hfaults : lent.faults = m.faults := hcalled.faults
      have hcontent : content = ((fields.zipIdx.map fun f => (m.fieldCount + f.2, f.1)).take
          (c.fieldCount.getD fields.length).toNat).map fun f => (m.fieldId f.1, f.2) := by
        rw [List.map_take, List.map_map, ← hcalled.fieldId, ← hcalled.fieldCount]
        rfl
      rw [hfaults, hcontent]
      cases hfrees : t.grants m.faults (.deallocate true) none <;> simp [copies, hfrees]

theorem after_getClassFields (t : Tool) (c : ClassInfo) (m : Machine) :
    (after (t.getClassFields c) m).faults = m.faults ∧
      (after (t.getClassFields c) m).fieldId = m.fieldId ∧
      (after (t.getClassFields c) m).fieldCount = m.fieldCount + t.handedOut m.faults c := by
  unfold getClassFields handedOut
  rw [after_bind, result_call]
  have hcalled : m.Alike (after (t.call .getClassFields none) m) := steady_call t _ none m
  generalize after (t.call .getClassFields none) m = called at hcalled
  cases t.grants m.faults .getClassFields none with
  | false => exact ⟨hcalled.faults, hcalled.fieldId, hcalled.fieldCount⟩
  | true =>
    cases c.fields with
    | none => exact ⟨hcalled.faults, hcalled.fieldId, hcalled.fieldCount⟩
    | some fields =>
      -- once the fields are numbered, nothing numbers any more
      have hend : Machine.SteadyCall (do
          t.take ⟨← Machine.newBlock, (fields.zipIdx.map fun f =>
            (called.fieldId (called.fieldCount + f.2), f.1)).take
              (c.fieldCount.getD fields.length).toNat⟩ : Call (List (Nat × FieldInfo))) :=
        .bind (.lift .newBlock) fun _ => .bind (steady_deallocate t _) fun _ => .pure _
      have hafter := hend { called with fieldCount := called.fieldCount + fields.length }
      exact ⟨hafter.faults.trans hcalled.faults, hafter.fieldId.trans hcalled.fieldId,
        hafter.fieldCount.trans (congrArg (· + fields.length) hcalled.fieldCount)⟩

end Tool

end ValueCoverage
