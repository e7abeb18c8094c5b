import ValueCoverage.Bytecode.Reader
import ValueCoverage.Bytecode.Writer
import ValueCoverage.Proofs.Bytes

/-!
# An instruction is read as it was written

Every well-formed instruction is read back from its bytes, wherever it stands and whatever follows.
Loads are read back from longer forms than they need, too, and switches behind any padding.
-/

namespace ValueCoverage

namespace LoadKind

theorem index_lt (kind : LoadKind) : kind.index < 5 := by
  cases kind <;> decide

theorem all_index (kind : LoadKind) : all[kind.index]? = some kind := by
  cases kind <;> rfl

/-- The opcode of the long form of a load. -/
def longOpcode (kind : LoadKind) : UInt8 := UInt8.ofNat (0x15 + kind.index)

theorem toNat_longOpcode (kind : LoadKind) : kind.longOpcode.toNat = 0x15 + kind.index := by
  cases kind <;> rfl

/-- The opcode of a load of one of the first slots. -/
def shortOpcode (kind : LoadKind) (slot : UInt16) : UInt8 :=
  UInt8.ofNat (0x1A + kind.index * 4 + slot.toNat)

theorem toNat_shortOpcode (kind : LoadKind) {slot : UInt16} (h : slot.toNat ≤ 3) :
    (kind.shortOpcode slot).toNat = 0x1A + kind.index * 4 + slot.toNat := by
  have hkind := kind.index_lt
  rw [shortOpcode, UInt8.toNat_ofNat']
  omega

/-! The three forms of a load, by its slot. -/

theorem bytes_short (kind : LoadKind) {slot : UInt16} (h : slot.toNat ≤ 3) :
    kind.bytes slot = [kind.shortOpcode slot] := if_pos h

theorem bytes_long (kind : LoadKind) {slot : UInt16} (hleast : 3 < slot.toNat)
    (hgreatest : slot.toNat ≤ 0xFF) :
    kind.bytes slot = [kind.longOpcode, UInt8.ofNat slot.toNat] := by
  rw [bytes, if_neg (by omega), if_pos hgreatest]
  rfl

theorem bytes_wide (kind : LoadKind) {slot : UInt16} (h : 0xFF < slot.toNat) :
    kind.bytes slot = Bytecode.wideOpcode :: kind.longOpcode :: Bytes.put16 slot := by
  rw [bytes, if_neg (by omega), if_neg (by omega)]
  rfl

end LoadKind

namespace Instruction

/-- The opcodes of the instructions that have constructors of their own, and the one that widens. -/
def HasConstructor (op : Nat) : Prop :=
  op = 0x00 ∨ (0x02 ≤ op ∧ op ≤ 0x08) ∨ (0x10 ≤ op ∧ op ≤ 0x13) ∨ (0x15 ≤ op ∧ op ≤ 0x2D) ∨
    op = 0x53 ∨ op = 0x59 ∨ op = 0xAA ∨ op = 0xAB ∨ op = 0xB8 ∨ op = 0xBD ∨ op = 0xC4

/-- What may follow the opcode that widens, but for loads: a store or a return from a subroutine
with a slot, or an increment with a slot and an amount. -/
inductive Widened : Bytes → Prop where
  | slot (inner a b : UInt8) (h : (0x36 ≤ inner.toNat ∧ inner.toNat ≤ 0x3A) ∨ inner.toNat = 0xA9) :
    Widened [inner, a, b]
  | increment (inner a b c d : UInt8) (h : inner.toNat = 0x84) : Widened [inner, a, b, c, d]

/-- The instruction stands for itself: its operands are in range, and it has no constructor of its
own that it should have been made with. -/
def WellFormed : Instruction → Prop
  | .iconst n => -1 ≤ n.toInt ∧ n.toInt ≤ 5
  | .tableswitch _ low high offsets =>
    low.toInt ≤ high.toInt ∧ (offsets.length : Int) = high.toInt - low.toInt + 1
  | .lookupswitch _ pairs => pairs.length < 0x80000000
  | .other opcode operands =>
    (¬ HasConstructor opcode.toNat ∧ operandLength opcode.toNat = some operands.length) ∨
      (opcode = Bytecode.wideOpcode ∧ Widened operands)
  | _ => True

theorem bytes_ne_nil (i : Instruction) (pc : Nat) : i.bytes pc ≠ [] := by
  cases i with
  | load kind slot =>
    simp only [bytes, LoadKind.bytes]
    split
    · simp
    · split <;> simp
  | _ => simp [bytes]

end Instruction

namespace Bytecode

open Instruction

theorem getInt32_putInt32 (n : Int32) (rest : Bytes) :
    getInt32 (putInt32 n ++ rest) = .ok (n, rest) := by
  simp [getInt32, putInt32, orEnd, bind, Except.bind]

theorem getPair_putInt32 (p : Int32 × Int32) (rest : Bytes) :
    getPair ((putInt32 p.1 ++ putInt32 p.2) ++ rest) = .ok (p, rest) := by
  simp [getPair, getInt32_putInt32, List.append_assoc, bind, Except.bind]

theorem length_putInt32 (n : Int32) : (putInt32 n).length = 4 := rfl

theorem length_flatMap_pairs (pairs : List (Int32 × Int32)) :
    (pairs.flatMap fun p => putInt32 p.1 ++ putInt32 p.2).length = 8 * pairs.length :=
  Bytes.length_flatMap_const (fun p => (rfl : (putInt32 p.1 ++ putInt32 p.2).length = 8)) pairs

theorem step_iconst {n : Int8} (h : -1 ≤ n.toInt ∧ n.toInt ≤ 5) (pc : Nat) (rest : Bytes) :
    step pc ((n.toUInt8 + 3) :: rest) = .ok ⟨.iconst n, 1, rest⟩ := by
  -- the sum does not wrap, as the constant is small
  have hop : ((n.toUInt8 + 3).toNat : Int) = n.toInt + 3 := by
    have hn : n.toInt = n.toUInt8.toBitVec.toInt := rfl
    have hlt := n.toUInt8.toNat_lt
    rw [hn, BitVec.toInt_eq_toNat_cond] at h ⊢
    rw [UInt8.toNat_add]
    simp only [UInt8.toNat_toBitVec] at *
    have h3 : (3 : UInt8).toNat = 3 := rfl
    split at h <;> split <;> omega
  have hback : Int8.ofInt (((n.toUInt8 + 3).toNat : Int) - 3) = n := by
    rw [hop, Int.add_sub_cancel, Int8.ofInt_toInt]
  simp only [step, stepAfter, hback]
  rw [if_neg (by omega), if_pos (by omega)]
  rfl

theorem loadKind?_longOpcode (kind : LoadKind) :
    loadKind? kind.longOpcode.toNat = some kind := by
  cases kind <;> rfl

theorem loadKind?_eq_none {op : Nat} (h : op < 0x15 ∨ 0x1A ≤ op) : loadKind? op = none := by
  unfold loadKind?
  split
  · exact List.getElem?_eq_none (by simp [LoadKind.all]; omega)
  · rfl

theorem step_shortLoad (kind : LoadKind) {slot : UInt16} (h : slot.toNat ≤ 3) (pc : Nat)
    (rest : Bytes) :
    step pc (kind.shortOpcode slot :: rest) = .ok ⟨.load kind slot, 1, rest⟩ := by
  have hkind := kind.index_lt
  have hdiv : (0x1A + kind.index * 4 + slot.toNat - 0x1A) / 4 = kind.index := by omega
  have hmod : (0x1A + kind.index * 4 + slot.toNat - 0x1A) % 4 = slot.toNat := by omega
  simp only [step, stepAfter, kind.toNat_shortOpcode h, hdiv, hmod, kind.all_index,
    UInt16.ofNat_toNat]
  rw [if_neg (by omega), if_neg (by omega), if_neg (by omega), if_neg (by omega),
    if_neg (by omega), if_neg (by omega), if_pos (by omega)]
  rfl

theorem step_byteLoad (kind : LoadKind) (slot : UInt8) (pc : Nat) (rest : Bytes) :
    step pc (kind.longOpcode :: slot :: rest) =
      .ok ⟨.load kind (UInt16.ofNat slot.toNat), 2, rest⟩ := by
  have hkind := kind.index_lt
  have hop := kind.toNat_longOpcode
  have hload := loadKind?_longOpcode kind
  have hwide : kind.longOpcode ≠ wideOpcode := by
    cases kind <;> decide
  -- a long load is read last of all, so every other test has to fail
  simp only [step, stepAfter, hload, byteStep, Bytes.get8?, orEnd, bind, Except.bind,
    if_neg hwide]
  rw [if_neg (by omega), if_neg (by omega), if_neg (by omega), if_neg (by omega),
    if_neg (by omega), if_neg (by omega), if_neg (by omega), if_neg (by omega),
    if_neg (by omega), if_neg (by omega), if_neg (by omega), if_neg (by omega),
    if_neg (by omega)]

theorem step_wideLoad (kind : LoadKind) (slot : UInt16) (pc : Nat) (rest : Bytes) :
    step pc (wideOpcode :: kind.longOpcode :: (Bytes.put16 slot ++ rest)) =
      .ok ⟨.load kind slot, 4, rest⟩ := by
  have hload := loadKind?_longOpcode kind
  have hstep (more : Bytes) : step pc (wideOpcode :: more) = wideStep more := rfl
  simp only [hstep, wideStep, Bytes.get8?, orEnd, bind, Except.bind, hload, Bytes.get16?_put16]

theorem step_load (kind : LoadKind) (slot : UInt16) (pc : Nat) (rest : Bytes) :
    step pc (kind.bytes slot ++ rest) = .ok ⟨.load kind slot, (kind.bytes slot).length, rest⟩ := by
  by_cases hshort : slot.toNat ≤ 3
  · rw [kind.bytes_short hshort]
    exact step_shortLoad kind hshort pc rest
  by_cases hbyte : slot.toNat ≤ 0xFF
  · have hslot : (UInt8.ofNat slot.toNat).toNat = slot.toNat := by
      rw [UInt8.toNat_ofNat']; omega
    have hstep := step_byteLoad kind (UInt8.ofNat slot.toNat) pc rest
    rw [hslot, UInt16.ofNat_toNat] at hstep
    rw [kind.bytes_long (by omega) hbyte]
    exact hstep
  · rw [kind.bytes_wide (by omega)]
    exact step_wideLoad kind slot pc rest

/-- An instruction with a two-byte operand. -/
theorem step_word {pc : Nat} {opcode : UInt8} {f : UInt16 → Instruction}
    (hstep : step pc ∘ (opcode :: ·) = wordStep f) (w : UInt16) (rest : Bytes) :
    step pc (opcode :: Bytes.put16 w ++ rest) =
      .ok ⟨f w, (opcode :: Bytes.put16 w).length, rest⟩ := by
  refine (congrFun hstep (Bytes.put16 w ++ rest)).trans ?_
  simp only [wordStep, Bytes.get16?_put16, orEnd, bind, Except.bind]
  rfl

/-- A table switch is read behind any padding of the right length. -/
theorem step_tableswitch {low high : Int32} {offsets : List Int32}
    (h : low.toInt ≤ high.toInt ∧ (offsets.length : Int) = high.toInt - low.toInt + 1)
    (default : Int32) {pc : Nat} {padding : Bytes} (hpadding : padding.length = switchPadding pc)
    (rest : Bytes) :
    step pc (0xAA :: padding ++ putInt32 default ++ putInt32 low ++ putInt32 high ++
        offsets.flatMap putInt32 ++ rest) =
      .ok ⟨.tableswitch default low high offsets,
        (0xAA :: padding ++ putInt32 default ++ putInt32 low ++ putInt32 high ++
          offsets.flatMap putInt32).length, rest⟩ := by
  have hcount : (high.toInt - low.toInt + 1).toNat = offsets.length := by omega
  have hstep (more : Bytes) : step pc (0xAA :: more) = tableStep pc more := rfl
  have hlen := Bytes.length_flatMap_const length_putInt32 offsets
  simp only [List.cons_append, List.append_assoc, hstep, tableStep, ← hpadding,
    Bytes.split?_append, orEnd, bind, Except.bind, getInt32_putInt32]
  rw [if_neg (by omega), hcount, Bytes.many_flatMap getInt32_putInt32]
  simp [hlen, length_putInt32]
  omega

/-- A lookup switch is read behind any padding of the right length. -/
theorem step_lookupswitch {pairs : List (Int32 × Int32)} (h : pairs.length < 0x80000000)
    (default : Int32) {pc : Nat} {padding : Bytes} (hpadding : padding.length = switchPadding pc)
    (rest : Bytes) :
    step pc (0xAB :: padding ++ putInt32 default ++ Bytes.put32 (UInt32.ofNat pairs.length) ++
        (pairs.flatMap fun p => putInt32 p.1 ++ putInt32 p.2) ++ rest) =
      .ok ⟨.lookupswitch default pairs,
        (0xAB :: padding ++ putInt32 default ++ Bytes.put32 (UInt32.ofNat pairs.length) ++
          pairs.flatMap fun p => putInt32 p.1 ++ putInt32 p.2).length, rest⟩ := by
  have hstep (more : Bytes) : step pc (0xAB :: more) = lookupStep pc more := rfl
  have hlen := length_flatMap_pairs pairs
  -- the count is read with a sign, so it must not reach the highest bit
  have hcount : (UInt32.ofNat pairs.length).toInt32.toInt = pairs.length := by
    have hn : (UInt32.ofNat pairs.length).toNat = pairs.length := by
      rw [UInt32.toNat_ofNat']; omega
    show (UInt32.ofNat pairs.length).toBitVec.toInt = _
    rw [BitVec.toInt_eq_toNat_cond, UInt32.toNat_toBitVec, hn, if_pos (by omega)]
  have hget (more : Bytes) : getInt32 (Bytes.put32 (UInt32.ofNat pairs.length) ++ more) =
      .ok ((UInt32.ofNat pairs.length).toInt32, more) := by
    simp [getInt32, orEnd, bind, Except.bind]
  simp only [List.cons_append, List.append_assoc, hstep, lookupStep, ← hpadding,
    Bytes.split?_append, orEnd, bind, Except.bind, getInt32_putInt32, hget, hcount]
  rw [if_neg (by omega), Int.toNat_natCast]
  rw [Bytes.many_flatMap getPair_putInt32]
  simp [hlen, length_putInt32, Bytes.length_put32]
  omega

theorem step_widened {operands : Bytes} (h : Widened operands) (pc : Nat) (rest : Bytes) :
    step pc (wideOpcode :: (operands ++ rest)) =
      .ok ⟨.other wideOpcode operands, operands.length + 1, rest⟩ := by
  have hstep (more : Bytes) : step pc (wideOpcode :: more) = wideStep more := rfl
  rw [hstep]
  cases h with
  | slot inner a b h =>
    have hload := loadKind?_eq_none (.inr (by omega : 0x1A ≤ inner.toNat))
    have hsplit := Bytes.split?_append [a, b] rest
    simp only [List.cons_append, List.nil_append, List.length_cons, List.length_nil] at hsplit
    simp only [wideStep, List.cons_append, List.nil_append, Bytes.get8?, orEnd, bind, Except.bind,
      hload, if_pos h, hsplit]
    rfl
  | increment inner a b c d h =>
    have hload := loadKind?_eq_none (.inr (by omega : 0x1A ≤ inner.toNat))
    have hsplit := Bytes.split?_append [a, b, c, d] rest
    simp only [List.cons_append, List.nil_append, List.length_cons, List.length_nil] at hsplit
    simp only [wideStep, List.cons_append, List.nil_append, Bytes.get8?, orEnd, bind, Except.bind,
      hload]
    rw [if_neg (by omega), if_pos h, hsplit]
    rfl

theorem step_other {opcode : UInt8} {operands : Bytes} (hown : ¬ HasConstructor opcode.toNat)
    (hlen : operandLength opcode.toNat = some operands.length) (pc : Nat) (rest : Bytes) :
    step pc (opcode :: (operands ++ rest)) =
      .ok ⟨.other opcode operands, operands.length + 1, rest⟩ := by
  unfold HasConstructor at hown
  have hwide : opcode ≠ wideOpcode := by
    rintro rfl
    exact hown (by decide)
  have hload := loadKind?_eq_none (by omega : opcode.toNat < 0x15 ∨ 0x1A ≤ opcode.toNat)
  simp only [step, stepAfter, hload, if_neg hwide, otherStep, hlen, Bytes.split?_append, orEnd,
    bind, Except.bind]
  rw [if_neg (by omega), if_neg (by omega), if_neg (by omega), if_neg (by omega),
    if_neg (by omega), if_neg (by omega), if_neg (by omega), if_neg (by omega),
    if_neg (by omega), if_neg (by omega), if_neg (by omega), if_neg (by omega),
    if_neg (by omega), Nat.add_comm]

/-- **Reading takes exactly what was written**, whatever follows. -/
theorem step_bytes {i : Instruction} (h : i.WellFormed) (pc : Nat) (rest : Bytes) :
    step pc (i.bytes pc ++ rest) = .ok ⟨i, (i.bytes pc).length, rest⟩ := by
  cases i with
  | nop => rfl
  | iconst n => exact step_iconst h pc rest
  | bipush n =>
    show Except.ok (Step.mk (.bipush n.toUInt8.toInt8) 2 rest) = _
    rw [Int8.toInt8_toUInt8]
    rfl
  | sipush n =>
    have hstep (more : Bytes) :
        step pc (0x11 :: more) = wordStep (fun w => .sipush w.toInt16) more := rfl
    simp only [Instruction.bytes, List.cons_append, hstep, wordStep, Bytes.get16?_put16, orEnd,
      bind, Except.bind, Int16.toInt16_toUInt16]
    rfl
  | ldc index => rfl
  | ldcWide index => exact step_word rfl index rest
  | load kind slot => exact step_load kind slot pc rest
  | dup => rfl
  | aastore => rfl
  | anewarray index => exact step_word rfl index rest
  | invokestatic index => exact step_word rfl index rest
  | tableswitch default low high offsets =>
    exact step_tableswitch h default List.length_replicate rest
  | lookupswitch default pairs => exact step_lookupswitch h default List.length_replicate rest
  | other opcode operands =>
    obtain ⟨hown, hlen⟩ | ⟨rfl, hwidened⟩ := h
    · exact step_other hown hlen pc rest
    · exact step_widened hwidened pc rest

end Bytecode

end ValueCoverage
