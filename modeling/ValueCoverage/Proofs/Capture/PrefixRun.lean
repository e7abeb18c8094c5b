import ValueCoverage.Proofs.Capture.Activation

/-!
# What a prefix does

In a frame that has just been entered, a prefix leaves the local variables and the operand stack as
they were, boxes every primitive argument once, and hands over an array of all the arguments, in
their order, with the texts that say which member it is.
-/

namespace ValueCoverage

namespace Activation

open Capture

variable {α : Type}

/-- The methods that box the parameters, in their order. -/
def boxingMethods (params : List FieldType) : List MethodName :=
  params.filterMap fun t => t.primitive?.map Primitive.valueOfMethod

section Run

variable {refs : CaptureRefs} {key : MemberKey} {descriptor : String} {params : List FieldType}
  {target : Target} {pool : ConstantPool}

/-- The argument on top of the stack becomes an element. -/
theorem leads_boxing (h : refs.Denote key descriptor params target pool) {t : FieldType}
    (ht : t ∈ params) (a : α) (locals : List (Slot α)) (stack : List (Operand α))
    (arrays : List (ObjectArray α)) (calls : List (Call α)) :
    ∃ boxes : List (Call α), boxes.map Call.method = boxingMethods [t] ∧
      Leads (step pool) (boxing refs t) ⟨locals, .given t.keptAs a :: stack, arrays, calls⟩
        ⟨locals, boxed t a :: stack, arrays, calls ++ boxes⟩ := by
  obtain ⟨dims, base⟩ := t
  by_cases hprimitive : ∃ kind, (⟨dims, base⟩ : FieldType) = ⟨0, .primitive kind⟩
  · obtain ⟨kind, hkind⟩ := hprimitive
    obtain ⟨rfl, rfl⟩ := FieldType.mk.inj hkind
    obtain ⟨index, hindex⟩ := h.exists_valueOf? ht
      (rfl : FieldType.primitive? ⟨0, .primitive kind⟩ = some kind)
    refine ⟨[⟨kind.valueOfMethod, [.given kind.keptAs a], arrays⟩], rfl, ?_⟩
    rw [show boxing refs ⟨0, .primitive kind⟩ = [.invokestatic index] from by
      simp [boxing, FieldType.primitive?, hindex]]
    exact .one (step_valueOf (h.valueOf?_mean hindex) rfl rfl)
  · have hreference : (⟨dims, base⟩ : FieldType).primitive? = none ∧
        (⟨dims, base⟩ : FieldType).keptAs = .reference ∧
        boxed ⟨dims, base⟩ a = .given .reference a := by
      cases dims with
      | succ n => exact ⟨rfl, rfl, rfl⟩
      | zero =>
        cases base with
        | object name => exact ⟨rfl, rfl, rfl⟩
        | primitive kind => exact absurd ⟨kind, rfl⟩ hprimitive
    obtain ⟨hnone, hkept, hboxed⟩ := hreference
    refine ⟨[], by simp [boxingMethods, hnone], ?_⟩
    simp only [boxing, hnone, Option.bind_none, hkept, hboxed, List.append_nil]
    exact .nil

theorem kind_boxed (t : FieldType) (a : α) : (boxed t a).kind = .reference := by
  unfold boxed
  split <;> rfl

/-- The array on top of the stack gets the next argument. -/
theorem leads_storeArgument (h : refs.Denote key descriptor params target pool) {t : FieldType}
    (ht : t ∈ params) (a : α) (before after : List (Slot α)) (done : List (Operand α))
    (left : Nat) (stack : List (Operand α)) (calls : List (Call α)) (hindex : done.length ≤ 32767)
    (hslot : before.length < 65536) :
    ∃ boxes : List (Call α), boxes.map Call.method = boxingMethods [t] ∧
      Leads (step pool) (storeArgument refs done.length t (UInt16.ofNat before.length))
        ⟨before ++ (slotsOf t a ++ after), .array 0 :: stack,
          [⟨objectClass, done.map some ++ List.replicate (left + 1) none⟩], calls⟩
        ⟨before ++ (slotsOf t a ++ after), .array 0 :: stack,
          [⟨objectClass, (done ++ [boxed t a]).map some ++ List.replicate left none⟩],
          calls ++ boxes⟩ := by
  obtain ⟨boxes, hboxes, hboxing⟩ := leads_boxing h ht a (before ++ (slotsOf t a ++ after))
    (.int done.length :: .array 0 :: .array 0 :: stack)
    [⟨objectClass, done.map some ++ List.replicate (left + 1) none⟩] calls
  refine ⟨boxes, hboxes, .append (.append ?_ hboxing) (.one ?_)⟩
  · have hdup (locals : List (Slot α)) (arrays : List (ObjectArray α)) (calls : List (Call α)) :
        step pool ⟨locals, .array 0 :: stack, arrays, calls⟩ .dup =
          .ok ⟨locals, .array 0 :: .array 0 :: stack, arrays, calls⟩ := rfl
    refine .cons (hdup _ _ _) (.cons (step_pushInt hindex) ?_)
    exact .one (step_load rfl rfl hslot)
  · -- the element stored is the first that is still missing
    have hset :
        (done.map some ++ List.replicate (left + 1) none).set done.length (some (boxed t a)) =
        (done ++ [boxed t a]).map some ++ List.replicate left none := by
      simp [List.set_append_right, List.replicate_succ]
    have hroom : ¬ ((done.length : Int) < 0 ∨
        (done.map some ++ List.replicate (left + 1) (none : Option (Operand α))).length ≤
          done.length) := by
      simp only [List.length_append, List.length_map, List.length_replicate]
      omega
    simp only [step, storeElement, kind_boxed, ne_eq, not_true_eq_false, if_false,
      List.getElem?_cons_zero, Int.toNat_natCast, if_neg hroom, hset, List.set_cons_zero]

/-- The array on top of the stack gets all the arguments that are left, each at its place. -/
theorem leads_storeArguments (h : refs.Denote key descriptor params target pool)
    {left : List FieldType} (hleft : ∀ t ∈ left, t ∈ params) (arg : Nat → α)
    (before spare : List (Slot α))
    (done : List (Operand α)) (stack : List (Operand α)) (calls : List (Call α))
    (hcount : done.length + left.length ≤ 32768) (hslots : before.length + slotCount left ≤ 65536) :
    ∃ boxes : List (Call α), boxes.map Call.method = boxingMethods left ∧
      Leads (step pool) (storeArguments refs done.length
          (left.zip (slotSequence left (UInt16.ofNat before.length))))
        ⟨before ++ ((left.zipIdx done.length).flatMap (fun p => slotsOf p.1 (arg p.2)) ++ spare),
          .array 0 :: stack,
          [⟨objectClass, done.map some ++ List.replicate left.length none⟩], calls⟩
        ⟨before ++ ((left.zipIdx done.length).flatMap (fun p => slotsOf p.1 (arg p.2)) ++ spare),
          .array 0 :: stack,
          [⟨objectClass,
            (done ++ (left.zipIdx done.length).map fun p => boxed p.1 (arg p.2)).map some⟩],
          calls ++ boxes⟩ := by
  induction left generalizing before done calls with
  | nil =>
    refine ⟨[], rfl, ?_⟩
    simp only [List.length_nil, List.replicate_zero, List.append_nil, List.zipIdx_nil, List.map_nil]
    exact .nil
  | cons t rest ih =>
    -- the argument is stored, and then its slots and its element lie behind
    have hwidth : (slotsOf t (arg done.length)).length = t.width := length_slotsOf t _
    simp only [List.length_cons] at hcount
    simp only [slotCount, List.foldr_cons] at hslots
    have hpos : 0 < t.width := by unfold FieldType.width; split <;> omega
    obtain ⟨boxes, hboxes, hfirst⟩ := leads_storeArgument h (hleft t (by simp)) (arg done.length)
      before ((rest.zipIdx (done.length + 1)).flatMap (fun p => slotsOf p.1 (arg p.2)) ++ spare)
      done rest.length stack calls (by omega) (by omega)
    obtain ⟨more, hmore, hrest⟩ := ih (fun u hu => hleft u (by simp [hu]))
      (before ++ slotsOf t (arg done.length)) (done ++ [boxed t (arg done.length)]) (calls ++ boxes)
      (by simp only [List.length_append, List.length_singleton]; omega)
      (by simp only [List.length_append, hwidth, slotCount]; omega)
    refine ⟨boxes ++ more, ?_, ?_⟩
    · rw [List.map_append, hboxes, hmore, boxingMethods, boxingMethods, ← List.filterMap_append]
      rfl
    · simp only [List.length_append, List.length_singleton, hwidth, UInt16.ofNat_add,
        List.append_assoc] at hrest
      simp only [slotSequence, List.zip_cons_cons, storeArguments, List.zipIdx_cons,
        List.flatMap_cons, List.append_assoc, List.length_cons, List.map_cons]
      exact hfirst.append (by simpa using hrest)

theorem slotCount_le (params : List FieldType) : slotCount params ≤ 2 * params.length := by
  induction params with
  | nil => exact Nat.le_refl 0
  | cons t rest ih =>
    have hwidth : t.width ≤ 2 := by unfold FieldType.width; split <;> omega
    simp only [slotCount, List.foldr_cons, List.length_cons] at *
    omega

theorem length_receiverSlots (isStatic : Bool) (receiver : α) :
    (receiverSlots isStatic receiver).length = (firstSlot isStatic).toNat := by
  cases isStatic <;> rfl

theorem length_argumentSlots (params : List FieldType) (arg : Nat → α) (first : Nat) :
    ((params.zipIdx first).flatMap fun p => slotsOf p.1 (arg p.2)).length = slotCount params := by
  induction params generalizing first with
  | nil => rfl
  | cons t rest ih =>
    simp only [List.zipIdx_cons, List.flatMap_cons, List.length_append, length_slotsOf, ih,
      slotCount, List.foldr_cons]

/-- A parameter stands behind the receiver and all the parameters before it. -/
theorem entered_locals {k : Nat} {t : FieldType} (h : params[k]? = some t) (isStatic : Bool)
    (receiver : α) (arg : Nat → α) (spare : List (Slot α)) :
    (entered isStatic receiver params arg spare).locals[
        (firstSlot isStatic).toNat + slotCount (params.take k)]? =
      some (.value (.given t.keptAs (arg k))) := by
  have hlt : k < params.length := (List.getElem?_eq_some_iff.1 h).1
  have hsplit : params = params.take k ++ t :: params.drop (k + 1) := by
    rw [← (List.getElem?_eq_some_iff.1 h).2, List.getElem_cons_drop, List.take_append_drop]
  have hlayout : params.zipIdx =
      (params.take k).zipIdx ++ (t, k) :: (params.drop (k + 1)).zipIdx (k + 1) := by
    have htake : (params.take k).length = k := by simp; omega
    have := congrArg List.zipIdx hsplit
    rw [List.zipIdx_append, htake, Nat.zero_add, List.zipIdx_cons] at this
    exact this
  have hfirst (more : List (Slot α)) :
      (slotsOf t (arg k) ++ more)[0]? = some (.value (.given t.keptAs (arg k))) := by
    unfold slotsOf
    cases t.keptAs <;> rfl
  simp only [entered, hlayout, List.flatMap_append, List.flatMap_cons, List.append_assoc]
  rw [← length_receiverSlots isStatic receiver, ← length_argumentSlots (params.take k) arg 0,
    List.getElem?_append_right (by omega), Nat.add_sub_cancel_left,
    List.getElem?_append_right (Nat.le_refl _), Nat.sub_self]
  exact hfirst _

/-- The slots of the parameters are those where they stand. -/
theorem entered_slotSequence {k : Nat} {t : FieldType} {slot : UInt16} (h : params[k]? = some t)
    (hcount : params.length ≤ 32767) (isStatic : Bool)
    (hslot : (slotSequence params (firstSlot isStatic))[k]? = some slot) (receiver : α)
    (arg : Nat → α) (spare : List (Slot α)) :
    (entered isStatic receiver params arg spare).locals[slot.toNat]? =
      some (.value (.given t.keptAs (arg k))) := by
  have hlt : k < params.length := (List.getElem?_eq_some_iff.1 h).1
  have hslots := slotCount_le (params.take k)
  have hfirst : (firstSlot isStatic).toNat ≤ 1 := by cases isStatic <;> decide
  have htake : (params.take k).length ≤ k := List.length_take_le _ _
  rw [getElem?_slotSequence (by omega)] at hslot
  obtain rfl := Option.some.inj hslot
  rw [UInt16.toNat_add, UInt16.toNat_ofNat', Nat.add_mod_mod, Nat.mod_eq_of_lt (by omega)]
  exact entered_locals h isStatic receiver arg spare

/-- **What a prefix does**: the frame is as it was, and behind the boxing there is one call, that of
the method that takes the arguments, with all of them. -/
theorem run_prefixCode (h : refs.Denote key descriptor params target pool)
    (hcount : params.length ≤ 32767) (isStatic : Bool) (receiver : α) (arg : Nat → α)
    (spare : List (Slot α)) :
    ∃ boxes : List (Call α), boxes.map Call.method = boxingMethods params ∧
      run pool (prefixCode params isStatic refs) (entered isStatic receiver params arg spare) =
        .ok { entered isStatic receiver params arg spare with
          arrays := [capturedArray params arg]
          calls := boxes ++ [⟨target.methodName,
            [.text key.owner, .text key.member, .text descriptor, .array 0],
            [capturedArray params arg]⟩] } := by
  have hslots := slotCount_le params
  have hfirst : (firstSlot isStatic).toNat ≤ 1 := by cases isStatic <;> decide
  have hbefore := length_receiverSlots isStatic receiver
  obtain ⟨boxes, hboxes, hstore⟩ := leads_storeArguments h (fun _ ht => ht) arg
    (receiverSlots isStatic receiver) spare []
    [.text descriptor, .text key.member, .text key.owner] []
    (by simp only [List.length_nil]; omega) (by omega)
  rw [hbefore, UInt16.ofNat_toNat] at hstore
  have hfront : Leads (step pool) [.loadConstant refs.owner, .loadConstant refs.member,
        .loadConstant refs.signature, .pushInt params.length, .anewarray refs.elementClass]
      (entered isStatic receiver params arg spare)
      { entered isStatic receiver params arg spare with
        stack := [.array 0, .text descriptor, .text key.member, .text key.owner]
        arrays := [⟨objectClass, List.replicate params.length none⟩] } := by
    refine .cons (step_loadConstant h.owner) (.cons (step_loadConstant h.member) ?_)
    refine .cons (step_loadConstant h.signature) (.cons (step_pushInt hcount) (.one ?_))
    simp only [step, newArray, h.elementClass]
    rfl
  exact ⟨boxes, hboxes, (hfront.append hstore).append (.one (step_record h.record rfl))⟩

end Run

/-! ## Handing over -/

/-- Every element of the array is the argument of the parameter at its place. -/
structure Holds (array : ObjectArray α) (params : List FieldType) (arg : Nat → α) : Prop where
  elementClass : array.elementClass = objectClass
  length : array.elements.length = params.length
  elements : ∀ k t, params[k]? = some t → array.elements[k]? = some (some (boxed t (arg k)))

theorem capturedArray_holds (params : List FieldType) (arg : Nat → α) :
    Holds (capturedArray params arg) params arg where
  elementClass := rfl
  length := by simp [capturedArray]
  elements k t hk := by simp [capturedArray, hk]

/-- In whatever frame a method is entered, the code hands its arguments over, and leaves the local
variables and the operand stack as it found them. -/
def HandsOver (pool : ConstantPool) (target : Target) (owner member descriptor : String)
    (params : List FieldType) (isStatic : Bool) (code : List Instruction) : Prop :=
  ∀ {α : Type} (receiver : α) (arg : Nat → α) (spare : List (Slot α)),
    ∃ (s : Activation α) (boxes : List (Call α)) (array : ObjectArray α),
      run pool code (entered isStatic receiver params arg spare) = .ok s ∧
      s.locals = (entered isStatic receiver params arg spare).locals ∧ s.stack = [] ∧
      s.calls = boxes ++ [⟨target.methodName,
        [.text owner, .text member, .text descriptor, .array 0], [array]⟩] ∧
      boxes.map Call.method = boxingMethods params ∧
      (∀ box ∈ boxes, box.method ≠ target.methodName) ∧
      Holds array params arg

/-- No boxing method takes the arguments. -/
theorem ne_target_of_mem_boxingMethods {params : List FieldType} {m : MethodName}
    (h : m ∈ boxingMethods params) (target : Target) : m ≠ target.methodName := by
  obtain ⟨t, -, ht⟩ := List.mem_filterMap.1 h
  obtain ⟨kind, -, rfl⟩ := Option.map_eq_some_iff.1 ht
  intro heq
  exact kind.valueOfDescriptor_ne_target (congrArg MethodName.descriptor heq)

theorem prefixCode_handsOver {refs : CaptureRefs} {key : MemberKey} {descriptor : String}
    {params : List FieldType} {target : Target} {pool : ConstantPool}
    (h : refs.Denote key descriptor params target pool) (hcount : params.length ≤ 32767)
    (isStatic : Bool) :
    HandsOver pool target key.owner key.member descriptor params isStatic
      (prefixCode params isStatic refs) := by
  intro α receiver arg spare
  obtain ⟨boxes, hboxes, hrun⟩ := run_prefixCode h hcount isStatic receiver arg spare
  refine ⟨_, boxes, capturedArray params arg, hrun, rfl, rfl, rfl, hboxes, fun box hbox => ?_,
    capturedArray_holds params arg⟩
  exact ne_target_of_mem_boxingMethods (hboxes ▸ List.mem_map_of_mem hbox) target

end Activation

end ValueCoverage
