import ValueCoverage.Capture.Instrumenter
import ValueCoverage.Proofs.Bytecode.Decoding

/-!
# The bytes of a prefix

A prefix consists of well-formed instructions, and what fills it up to a multiple of four are
instructions that do nothing. Every parameter takes some bytes of it, so a prefix that fits a method
has but few.
-/

namespace ValueCoverage

namespace Capture

open Bytecode

/-! ## The instructions of a prefix -/

/-- The instructions that a prefix is made of. -/
inductive OfPrefix : Instruction → Prop where
  | pushInt (n : Int) : OfPrefix (.pushInt n)
  | loadConstant (index : UInt16) : OfPrefix (.loadConstant index)
  | load (kind : LoadKind) (slot : UInt16) : OfPrefix (.load kind slot)
  | dup : OfPrefix .dup
  | aastore : OfPrefix .aastore
  | anewarray (index : UInt16) : OfPrefix (.anewarray index)
  | invokestatic (index : UInt16) : OfPrefix (.invokestatic index)

theorem boxing_ofPrefix (refs : CaptureRefs) (t : FieldType) : ∀ i ∈ boxing refs t, OfPrefix i := by
  unfold boxing
  split
  · simp only [List.mem_singleton, forall_eq]
    exact .invokestatic _
  · simp

theorem storeArguments_ofPrefix (refs : CaptureRefs) (index : Nat)
    (params : List (FieldType × UInt16)) :
    ∀ i ∈ storeArguments refs index params, OfPrefix i := by
  induction params generalizing index with
  | nil => simp [storeArguments]
  | cons p rest ih =>
    intro i hi
    simp only [storeArguments, storeArgument, List.mem_append, List.mem_cons, List.not_mem_nil,
      or_false] at hi
    rcases hi with ((hi | hi) | rfl) | hi
    · rcases hi with rfl | rfl | rfl
      · exact .dup
      · exact .pushInt _
      · exact .load _ _
    · exact boxing_ofPrefix refs p.1 i hi
    · exact .aastore
    · exact ih _ i hi

theorem prefixCode_ofPrefix (params : List FieldType) (isStatic : Bool) (refs : CaptureRefs) :
    ∀ i ∈ prefixCode params isStatic refs, OfPrefix i := by
  intro i hi
  simp only [prefixCode, List.mem_append, List.mem_cons, List.not_mem_nil, or_false] at hi
  rcases hi with (hi | hi) | rfl
  · rcases hi with rfl | rfl | rfl | rfl | rfl
    · exact .loadConstant _
    · exact .loadConstant _
    · exact .loadConstant _
    · exact .pushInt _
    · exact .anewarray _
  · exact storeArguments_ofPrefix refs _ _ i hi
  · exact .invokestatic _

theorem OfPrefix.wellFormed {i : Instruction} (h : OfPrefix i) : i.WellFormed := by
  cases h with
  | pushInt n =>
    unfold Instruction.pushInt
    split
    · next h =>
      show -1 ≤ (Int8.ofInt n).toInt ∧ (Int8.ofInt n).toInt ≤ 5
      rw [Int8.toInt_ofInt_of_le (by omega) (by omega)]
      exact h
    · split <;> trivial
  | loadConstant index =>
    unfold Instruction.loadConstant
    split <;> trivial
  | load | dup | aastore | anewarray | invokestatic => trivial

theorem prefixCode_wellFormed (params : List FieldType) (isStatic : Bool) (refs : CaptureRefs) :
    ∀ i ∈ prefixCode params isStatic refs, i.WellFormed :=
  fun i hi => (prefixCode_ofPrefix params isStatic refs i hi).wellFormed

/-- The longest is a load from a slot past the 256th. -/
theorem OfPrefix.length_bytes_le {i : Instruction} (h : OfPrefix i) (pc : Nat) :
    (i.bytes pc).length ≤ 4 := by
  cases h with
  | pushInt n =>
    unfold Instruction.pushInt
    split
    · exact Nat.le_of_ble_eq_true rfl
    · split <;> exact Nat.le_of_ble_eq_true rfl
  | loadConstant index =>
    unfold Instruction.loadConstant
    split <;> exact Nat.le_of_ble_eq_true rfl
  | load kind slot =>
    simp only [Instruction.bytes, LoadKind.bytes]
    split
    · exact Nat.le_of_ble_eq_true rfl
    · split <;> exact Nat.le_of_ble_eq_true rfl
  | dup | aastore | anewarray | invokestatic => exact Nat.le_of_ble_eq_true rfl

/-! ## Length -/

theorem length_le_length_encode (pc : Nat) (is : List Instruction) :
    is.length ≤ (encode pc is).length := by
  induction is generalizing pc with
  | nil => exact Nat.le_refl 0
  | cons i is ih =>
    have hpos : 0 < (i.bytes pc).length := List.length_pos_iff.2 (i.bytes_ne_nil pc)
    have hrest := ih (pc + (i.bytes pc).length)
    rw [encode_cons, List.length_append, List.length_cons]
    omega

/-- Every parameter has its slot. -/
theorem length_zip_slotSequence (params : List FieldType) (first : UInt16) :
    (params.zip (slotSequence params first)).length = params.length := by
  rw [List.length_zip, length_slotSequence]
  omega

/-- Every parameter takes a copy, an index, a load and a store at least. -/
theorem length_storeArguments (refs : CaptureRefs) (index : Nat)
    (params : List (FieldType × UInt16)) :
    4 * params.length ≤ (storeArguments refs index params).length := by
  induction params generalizing index with
  | nil => exact Nat.le_refl 0
  | cons p rest ih =>
    have hrest := ih (index + 1)
    simp only [storeArguments, storeArgument, List.length_append, List.length_cons, List.length_nil]
    omega

theorem length_prefixCode (params : List FieldType) (isStatic : Bool) (refs : CaptureRefs) :
    4 * params.length + 6 ≤ (prefixCode params isStatic refs).length := by
  have hstore :=
    length_storeArguments refs 0 (params.zip (slotSequence params (firstSlot isStatic)))
  rw [length_zip_slotSequence] at hstore
  simp only [prefixCode, List.length_append, List.length_cons, List.length_nil]
  omega

theorem length_encode_le {is : List Instruction} (h : ∀ i ∈ is, OfPrefix i) (pc : Nat) :
    (encode pc is).length ≤ 4 * is.length := by
  induction is generalizing pc with
  | nil => exact Nat.le_refl 0
  | cons i is ih =>
    have hfirst := (h i (by simp)).length_bytes_le pc
    have hrest := ih (fun j hj => h j (by simp [hj])) (pc + (i.bytes pc).length)
    rw [encode_cons, List.length_append, List.length_cons]
    omega

/-- Every parameter takes a call besides at most. -/
theorem length_storeArguments_le (refs : CaptureRefs) (index : Nat)
    (params : List (FieldType × UInt16)) :
    (storeArguments refs index params).length ≤ 5 * params.length := by
  induction params generalizing index with
  | nil => exact Nat.le_refl 0
  | cons p rest ih =>
    have hrest := ih (index + 1)
    have hboxing : (boxing refs p.1).length ≤ 1 := by
      unfold boxing
      split <;> simp
    simp only [storeArguments, storeArgument, List.length_append, List.length_cons, List.length_nil]
    omega

theorem length_prefixCode_le (params : List FieldType) (isStatic : Bool) (refs : CaptureRefs) :
    (prefixCode params isStatic refs).length ≤ 5 * params.length + 6 := by
  have hstore :=
    length_storeArguments_le refs 0 (params.zip (slotSequence params (firstSlot isStatic)))
  rw [length_zip_slotSequence] at hstore
  simp only [prefixCode, List.length_append, List.length_cons, List.length_nil]
  omega

theorem padding_le (length : Nat) : padding length ≤ 3 := by
  unfold padding
  omega

end Capture

namespace Instrumenter

open Bytecode Capture

/-- What fills a prefix up does nothing. -/
theorem paddedPrefix_eq (code : List Instruction) :
    paddedPrefix code =
      encode 0 (code ++ List.replicate (padding (encode 0 code).length) .nop) := by
  rw [encode_append, encode_replicate_nop]
  rfl

theorem length_paddedPrefix_mod (code : List Instruction) : (paddedPrefix code).length % 4 = 0 := by
  simp only [paddedPrefix, List.length_append, List.length_replicate, padding]
  omega

theorem length_le_length_paddedPrefix (code : List Instruction) :
    code.length ≤ (paddedPrefix code).length := by
  have hcode := length_le_length_encode 0 code
  simp only [paddedPrefix, List.length_append]
  omega

theorem length_params_add_le_length_paddedPrefix (params : List FieldType) (isStatic : Bool)
    (refs : CaptureRefs) :
    4 * params.length + 6 ≤ (paddedPrefix (prefixCode params isStatic refs)).length := by
  have hparams := length_prefixCode params isStatic refs
  have hcode := length_le_length_paddedPrefix (prefixCode params isStatic refs)
  omega

/-- A prefix has room in twenty bytes for each parameter, and some more. -/
theorem length_paddedPrefix_le (params : List FieldType) (isStatic : Bool) (refs : CaptureRefs) :
    (paddedPrefix (prefixCode params isStatic refs)).length ≤ 20 * params.length + 27 := by
  have hcount := length_prefixCode_le params isStatic refs
  have hbytes := length_encode_le (prefixCode_ofPrefix params isStatic refs) 0
  have hpadding := padding_le (encode 0 (prefixCode params isStatic refs)).length
  simp only [paddedPrefix, List.length_append, List.length_replicate]
  omega

/-- Code behind a prefix that has been filled up is read as it was. -/
theorem decode_paddedPrefix_append {front : List Instruction} (h : ∀ i ∈ front, i.WellFormed)
    {code : Bytes} (hle : (paddedPrefix front ++ code).length ≤ 0x100000000) :
    decode (paddedPrefix front ++ code) =
      match decode code with
      | .ok found => .ok (placed 0 front ++
          placed (encode 0 front).length (List.replicate (padding (encode 0 front).length) .nop) ++
          found.map (movedBy (paddedPrefix front).length))
      | .error e => .error (e.movedBy (paddedPrefix front).length) := by
  have haligned := length_paddedPrefix_mod front
  rw [paddedPrefix_eq] at haligned hle ⊢
  have hwell :
      ∀ i ∈ front ++ List.replicate (padding (encode 0 front).length) .nop, i.WellFormed := by
    intro i hi
    rcases List.mem_append.1 hi with hi | hi
    · exact h i hi
    · rw [(List.mem_replicate.1 hi).2]
      trivial
  have hdecode := decode_encode_append hwell haligned hle
  rw [placed_append, Nat.zero_add] at hdecode
  exact hdecode

end Instrumenter

end ValueCoverage
