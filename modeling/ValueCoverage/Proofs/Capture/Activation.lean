import ValueCoverage.Descriptor.Reader
import ValueCoverage.Proofs.Capture.References

/-!
# Methods in execution

An abstract virtual machine for the instructions of a prefix: the frame of one method with its local
variables and its operand stack, the arrays that it has made and the calls that it has done. Indices
of constants mean what the pool says. A run faults where a verifier or a machine would object: on a
stack with too little on it, a value of another kind than the instruction takes, half of a wide
value, a constant that is not there, or an element out of range.
-/

namespace ValueCoverage

/-- How the machine keeps a value of a primitive type: the small integers are all `int`. -/
def Primitive.keptAs : Primitive → LoadKind
  | .boolean | .byte | .char | .short | .int => .int
  | .long => .long
  | .float => .float
  | .double => .double

/-- How the machine keeps a value of a type. -/
def FieldType.keptAs : FieldType → LoadKind
  | ⟨0, .primitive kind⟩ => kind.keptAs
  | _ => .reference

/-- A value in a frame. -/
inductive Operand (α : Type) where
  /-- What the caller has handed over. -/
  | given (kind : LoadKind) (a : α)
  | int (n : Int)
  | text (s : String)
  | array (address : Nat)
  /-- What a method has returned. -/
  | returned (kind : LoadKind) (method : MethodName) (arguments : List (Operand α))

/-- Which loads the value is for. -/
def Operand.kind {α : Type} : Operand α → LoadKind
  | .given kind _ | .returned kind _ _ => kind
  | .int _ => .int
  | .text _ | .array _ => .reference

/-- What a local-variable slot holds. -/
inductive Slot (α : Type) where
  | value (v : Operand α)
  /-- The second half of a wide value. -/
  | upper
  | unset

/-- Whether the slot holds the second half of a wide value. -/
def Slot.isUpper {α : Type} : Slot α → Bool
  | .upper => true
  | _ => false

/-- An array of references; an element is missing until it is stored. -/
structure ObjectArray (α : Type) where
  elementClass : String
  elements : List (Option (Operand α))

/-- A method that has been called, with its arguments and the arrays as it finds them. -/
structure Call (α : Type) where
  method : MethodName
  arguments : List (Operand α)
  arrays : List (ObjectArray α)

/-- Why a run goes wrong. -/
inductive Fault where
  | underflow
  | wrongKind
  | badConstant
  | badArray
  | unsupported
deriving Repr, DecidableEq

/-- A frame and what has come of it so far; the top of the stack comes first. -/
structure Activation (α : Type) where
  locals : List (Slot α)
  stack : List (Operand α)
  arrays : List (ObjectArray α)
  calls : List (Call α)

namespace Activation

variable {α : Type}

/-! ## Steps -/

/-- The constant that an instruction needs. -/
def constant {β : Type} : Option β → Except Fault β
  | some b => .ok b
  | none => .error .badConstant

def push (s : Activation α) (v : Operand α) : Activation α :=
  { s with stack := v :: s.stack }

/-- Takes values off the stack, each of its kind; those taken so far are kept. -/
def popAll : List LoadKind → (taken stack : List (Operand α)) →
    Except Fault (List (Operand α) × List (Operand α))
  | [], taken, stack => .ok (taken, stack)
  | _ :: _, _, [] => .error .underflow
  | kind :: kinds, taken, v :: stack =>
    if v.kind = kind then popAll kinds (v :: taken) stack else .error .wrongKind

/-- The value in a slot; a wide one takes the next slot, too. -/
def loadLocal (locals : List (Slot α)) (kind : LoadKind) (slot : Nat) : Except Fault (Operand α) :=
  match locals[slot]? with
  | some (.value v) =>
    if v.kind = kind ∧ (kind.stackWords = 2 → locals[slot + 1]?.any Slot.isUpper) then .ok v
    else .error .wrongKind
  | _ => .error .wrongKind

/-- Copies the top of the stack, which may not be wide. -/
def copyTop (s : Activation α) : Except Fault (Activation α) :=
  match s.stack with
  | [] => .error .underflow
  | v :: _ => if v.kind.stackWords = 1 then .ok (s.push v) else .error .wrongKind

/-- Makes an array whose length is on top of the stack. -/
def newArray (pool : ConstantPool) (s : Activation α) (index : UInt16) :
    Except Fault (Activation α) := do
  let elementClass ← constant (pool.classAt? index)
  match s.stack with
  | [] => .error .underflow
  | .int n :: stack =>
    if n < 0 then .error .badArray
    else .ok { s with
      stack := .array s.arrays.length :: stack
      arrays := s.arrays ++ [⟨elementClass, List.replicate n.toNat none⟩] }
  | _ => .error .wrongKind

/-- Stores the reference on top of the stack in the array below its index. -/
def storeElement (s : Activation α) : Except Fault (Activation α) :=
  match s.stack with
  | v :: .int n :: .array address :: stack =>
    if v.kind ≠ .reference then .error .wrongKind
    else
      match s.arrays[address]? with
      | none => .error .badArray
      | some array =>
        if n < 0 ∨ array.elements.length ≤ n.toNat then .error .badArray
        else
          let array := { array with elements := array.elements.set n.toNat (some v) }
          .ok { s with stack, arrays := s.arrays.set address array }
  | _ :: _ :: _ :: _ => .error .wrongKind
  | _ => .error .underflow

/-- Calls a method that belongs to its class, with the arguments that its descriptor tells. -/
def callStatic (pool : ConstantPool) (s : Activation α) (index : UInt16) :
    Except Fault (Activation α) := do
  let method ← constant (pool.methodAt? index)
  let type ← constant (Descriptor.readMethod method.descriptor).toOption
  let (arguments, stack) ← popAll (type.params.map FieldType.keptAs).reverse [] s.stack
  let result := type.result.map fun t => Operand.returned t.keptAs method arguments
  .ok { s with
    stack := result.toList ++ stack
    calls := s.calls ++ [⟨method, arguments, s.arrays⟩] }

/-- Executes one instruction. Only those of a prefix are supported. -/
def step (pool : ConstantPool) (s : Activation α) : Instruction → Except Fault (Activation α)
  | .nop => .ok s
  | .iconst n => .ok (s.push (.int n.toInt))
  | .bipush n => .ok (s.push (.int n.toInt))
  | .sipush n => .ok (s.push (.int n.toInt))
  | .ldc index => do .ok (s.push (.text (← constant (pool.stringAt? (UInt16.ofNat index.toNat)))))
  | .ldcWide index => do .ok (s.push (.text (← constant (pool.stringAt? index))))
  | .load kind slot => do .ok (s.push (← loadLocal s.locals kind slot.toNat))
  | .dup => s.copyTop
  | .aastore => s.storeElement
  | .anewarray index => s.newArray pool index
  | .invokestatic index => s.callStatic pool index
  | .tableswitch _ _ _ _ | .lookupswitch _ _ | .other _ _ => .error .unsupported

/-- Executes instructions one after the other. -/
def run (pool : ConstantPool) (code : List Instruction) (s : Activation α) :
    Except Fault (Activation α) :=
  code.foldlM (step pool) s

/-! ## Frames of called methods -/

/-- The slots that an argument takes. -/
def slotsOf (t : FieldType) (a : α) : List (Slot α) :=
  match t.keptAs with
  | .long | .double => [.value (.given t.keptAs a), .upper]
  | _ => [.value (.given t.keptAs a)]

/-- The slot that the receiver takes, unless the method is static. -/
def receiverSlots (isStatic : Bool) (receiver : α) : List (Slot α) :=
  if isStatic then [] else [.value (.given .reference receiver)]

/-- The frame of a method that has just been called: the receiver, the arguments in their
order, and slots that the method may use. -/
def entered (isStatic : Bool) (receiver : α) (params : List FieldType) (arg : Nat → α)
    (spare : List (Slot α)) : Activation α where
  locals := receiverSlots isStatic receiver ++
    (params.zipIdx.flatMap (fun p => slotsOf p.1 (arg p.2)) ++ spare)
  stack := []
  arrays := []
  calls := []

/-- An argument as an element of an array: boxed by its own type's method if it is primitive. -/
def boxed (t : FieldType) (a : α) : Operand α :=
  match t with
  | ⟨0, .primitive kind⟩ => .returned .reference kind.valueOfMethod [.given kind.keptAs a]
  | _ => .given .reference a

/-- The arguments as an array, each at its place. -/
def capturedArray (params : List FieldType) (arg : Nat → α) : ObjectArray α where
  elementClass := objectClass
  elements := (params.zipIdx.map fun p => boxed p.1 (arg p.2)).map some

/-! ## The instructions of a prefix -/

section Instructions

variable {pool : ConstantPool} {s : Activation α}

/-- No number that a word of two bytes holds with its sign is cut. -/
theorem step_pushInt {n : Nat} (h : n ≤ 32767) :
    step pool s (.pushInt n) = .ok (s.push (.int n)) := by
  unfold Instruction.pushInt
  split
  · show Except.ok (s.push (.int (Int8.ofInt n).toInt)) = _
    rw [Int8.toInt_ofInt_of_le (by omega) (by omega)]
  · split
    · show Except.ok (s.push (.int (Int8.ofInt n).toInt)) = _
      rw [Int8.toInt_ofInt_of_le (by omega) (by omega)]
    · show Except.ok (s.push (.int (Int16.ofInt n).toInt)) = _
      rw [Int16.toInt_ofInt_of_le (by omega) (by omega)]

theorem step_loadConstant {index : UInt16} {t : String} (h : pool.stringAt? index = some t) :
    step pool s (.loadConstant index) = .ok (s.push (.text t)) := by
  unfold Instruction.loadConstant
  split
  · next hshort =>
    -- a short index is widened again by whoever reads it
    have hindex : UInt16.ofNat (UInt8.ofNat index.toNat).toNat = index := by
      rw [UInt8.toNat_ofNat', Nat.mod_eq_of_lt (by omega), UInt16.ofNat_toNat]
    simp only [step, hindex, h]
    rfl
  · simp only [step, h]
    rfl

theorem loadKind_eq_keptAs (t : FieldType) : t.loadKind = t.keptAs := by
  obtain ⟨dims, base⟩ := t
  cases dims with
  | succ n => rfl
  | zero =>
    cases base with
    | object name => rfl
    | primitive kind => cases kind <;> rfl

theorem length_slotsOf (t : FieldType) (a : α) : (slotsOf t a).length = t.width := by
  rw [← Capture.stackWords_loadKind, loadKind_eq_keptAs]
  unfold slotsOf
  cases t.keptAs <;> rfl

/-- An argument is loaded from where its slots begin. -/
theorem loadLocal_slotsOf (before after : List (Slot α)) (t : FieldType) (a : α) :
    loadLocal (before ++ (slotsOf t a ++ after)) t.keptAs before.length =
      .ok (.given t.keptAs a) := by
  -- behind a wide value stands its second half, whatever comes after it
  have hslots : ∃ more, slotsOf t a = .value (.given t.keptAs a) :: more ∧
      (t.keptAs.stackWords = 2 → more = [.upper]) := by
    unfold slotsOf
    cases t.keptAs <;> exact ⟨_, rfl, by simp [LoadKind.stackWords]⟩
  obtain ⟨more, hvalue, hupper⟩ := hslots
  have hfirst : (before ++ (slotsOf t a ++ after))[before.length]? =
      some (.value (.given t.keptAs a)) := by
    rw [List.getElem?_append_right (Nat.le_refl _), Nat.sub_self, hvalue]
    rfl
  unfold loadLocal
  rw [hfirst]
  refine if_pos ⟨rfl, fun hwide => ?_⟩
  rw [List.getElem?_append_right (by omega), Nat.add_sub_cancel_left, hvalue, hupper hwide]
  rfl

theorem step_load {t : FieldType} {a : α} {before after : List (Slot α)} {slot : Nat}
    (hlocals : s.locals = before ++ (slotsOf t a ++ after)) (hslot : before.length = slot)
    (hfits : slot < 65536) :
    step pool s (.load t.loadKind (UInt16.ofNat slot)) = .ok (s.push (.given t.keptAs a)) := by
  subst hslot
  have hnat : (UInt16.ofNat before.length).toNat = before.length := by
    rw [UInt16.toNat_ofNat']; omega
  simp only [step, hnat, hlocals, loadKind_eq_keptAs, loadLocal_slotsOf]
  rfl

theorem readMethod_valueOfDescriptor (kind : Primitive) :
    Descriptor.readMethod kind.valueOfDescriptor =
      .ok ⟨[⟨0, .primitive kind⟩], some ⟨0, .object kind.boxClass⟩⟩ := by
  cases kind <;> rfl

theorem readMethod_targetDescriptor :
    Descriptor.readMethod Target.descriptor =
      .ok ⟨List.replicate 3 ⟨0, .object "java/lang/String"⟩ ++
        [⟨1, .object objectClass⟩], none⟩ := by
  rfl

/-- A boxing method takes a value of its own type and returns a reference. -/
theorem step_valueOf {kind : Primitive} {index : UInt16} {v : Operand α} {stack : List (Operand α)}
    (h : pool.methodAt? index = some kind.valueOfMethod) (hstack : s.stack = v :: stack)
    (hv : v.kind = kind.keptAs) :
    step pool s (.invokestatic index) = .ok { s with
      stack := .returned .reference kind.valueOfMethod [v] :: stack
      calls := s.calls ++ [⟨kind.valueOfMethod, [v], s.arrays⟩] } := by
  have hpop : popAll (([⟨0, .primitive kind⟩] : List FieldType).map FieldType.keptAs).reverse []
      (v :: stack) = .ok ([v], stack) := by
    show (if v.kind = kind.keptAs then _ else _) = _
    rw [if_pos hv]
    rfl
  simp only [step, callStatic, h, constant, bind, Except.bind, Primitive.valueOfMethod,
    readMethod_valueOfDescriptor, Except.toOption, hstack, hpop]
  rfl

/-- The method that takes the arguments takes three texts and an array, and returns nothing. -/
theorem step_record {target : Target} {index : UInt16} {owner member signature : String}
    {address : Nat} {stack : List (Operand α)} (h : pool.methodAt? index = some target.methodName)
    (hstack : s.stack = .array address :: .text signature :: .text member :: .text owner :: stack) :
    step pool s (.invokestatic index) = .ok { s with
      stack
      calls := s.calls ++ [⟨target.methodName,
        [.text owner, .text member, .text signature, .array address], s.arrays⟩] } := by
  simp only [step, callStatic, h, constant, bind, Except.bind, Target.methodName,
    readMethod_targetDescriptor, Except.toOption, hstack]
  rfl

end Instructions

end Activation

end ValueCoverage
