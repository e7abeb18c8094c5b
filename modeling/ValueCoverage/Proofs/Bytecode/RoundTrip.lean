import ValueCoverage.Proofs.Bytecode.Decoding

/-!
# Code is read as it was written

Reading undoes writing for all well-formed instructions, and whatever is read is well formed.
Written again, what was read is the same instructions, and the same bytes if no load stood in a
longer form than it needs and all padding was zero.
-/

namespace ValueCoverage

namespace Instruction

/-! ## The operands of the instruction set -/

/-- Opcodes, from the first to the last, and how many operand bytes they have. -/
structure OperandRange where
  first : Nat
  last : Nat
  count : Nat

/-- The operand bytes of the instruction set. The switches and the opcode that widens are left out,
as their length varies. -/
def operandRanges : List OperandRange := [
  -- constants; loads and stores of the first slots; elements of arrays, the stack, arithmetic;
  -- conversions and comparisons; returns; `arraylength`, `athrow`; monitors; reserved opcodes
  ⟨0x00, 0x0F, 0⟩, ⟨0x1A, 0x35, 0⟩, ⟨0x3B, 0x83, 0⟩, ⟨0x85, 0x98, 0⟩, ⟨0xAC, 0xB1, 0⟩,
  ⟨0xBE, 0xBF, 0⟩, ⟨0xC2, 0xC3, 0⟩, ⟨0xCA, 0xCA, 0⟩, ⟨0xFE, 0xFF, 0⟩,
  -- `bipush`; `ldc`; loads; stores; `ret`; `newarray`
  ⟨0x10, 0x10, 1⟩, ⟨0x12, 0x12, 1⟩, ⟨0x15, 0x19, 1⟩, ⟨0x36, 0x3A, 1⟩, ⟨0xA9, 0xA9, 1⟩,
  ⟨0xBC, 0xBC, 1⟩,
  -- `sipush`; `ldc_w`, `ldc2_w`; `iinc`; jumps; fields and methods; `new`; `anewarray`;
  -- `checkcast`, `instanceof`; `ifnull`, `ifnonnull`
  ⟨0x11, 0x11, 2⟩, ⟨0x13, 0x14, 2⟩, ⟨0x84, 0x84, 2⟩, ⟨0x99, 0xA8, 2⟩, ⟨0xB2, 0xB8, 2⟩,
  ⟨0xBB, 0xBB, 2⟩, ⟨0xBD, 0xBD, 2⟩, ⟨0xC0, 0xC1, 2⟩, ⟨0xC6, 0xC7, 2⟩,
  -- `multianewarray`
  ⟨0xC5, 0xC5, 3⟩,
  -- `invokeinterface`, `invokedynamic`; `goto_w`, `jsr_w`
  ⟨0xB9, 0xBA, 4⟩, ⟨0xC8, 0xC9, 4⟩]

/-- How many operand bytes the instruction set gives an opcode. -/
def operandCount? (op : Nat) : Option Nat :=
  (operandRanges.find? fun range => range.first ≤ op && op ≤ range.last).map (·.count)

theorem operandLength_eq_operandCount? : ∀ op < 0x100, operandLength op = operandCount? op := by
  decide +kernel

/-- An instruction without a constructor has just the operands that the instruction set gives it. -/
theorem wellFormed_other_iff {opcode : UInt8} {operands : Bytes} :
    (other opcode operands).WellFormed ↔
      (¬ HasConstructor opcode.toNat ∧ operandCount? opcode.toNat = some operands.length) ∨
        (opcode = Bytecode.wideOpcode ∧ Widened operands) := by
  show (_ ∧ operandLength opcode.toNat = some operands.length) ∨ _ ↔ _
  rw [operandLength_eq_operandCount? opcode.toNat opcode.toNat_lt]

/-! ## Forms -/

/-- In the bytes, which start where the instruction stands, at `pc`, a load has its shortest form
and a switch is padded with zeros. -/
def ShortAt (pc : Nat) (bytes : Bytes) : Instruction → Prop
  | .load _ slot => (bytes[0]? = some Bytecode.wideOpcode → 0xFF < slot.toNat) ∧
      ∀ op ∈ bytes[0]?, 0x15 ≤ op.toNat → op.toNat ≤ 0x19 → 3 < slot.toNat
  | .tableswitch .. | .lookupswitch .. => ∀ k < switchPadding pc, bytes[k + 1]? = some 0
  | _ => True

/-- Bytes behind an opcode are those of padding just if they are zeros. -/
theorem padded_iff {n : Nat} {padding : Bytes} (h : padding.length = n) (opcode : UInt8)
    (tail rest : Bytes) :
    opcode :: (padding ++ tail) = opcode :: (List.replicate n 0 ++ tail) ↔
      ∀ k < n, (opcode :: (padding ++ (tail ++ rest)))[k + 1]? = some 0 := by
  subst h
  rw [List.cons_inj_right, List.append_cancel_right_eq, List.eq_replicate_iff]
  constructor
  · rintro ⟨-, hzeros⟩ k hk
    rw [List.getElem?_cons_succ, List.getElem?_append_left hk, List.getElem?_eq_getElem hk,
      hzeros _ (List.getElem_mem hk)]
  · intro hzeros
    refine ⟨rfl, fun b hb => ?_⟩
    obtain ⟨k, hk, rfl⟩ := List.mem_iff_getElem.1 hb
    have hzero := hzeros k hk
    rw [List.getElem?_cons_succ, List.getElem?_append_left hk, List.getElem?_eq_getElem hk] at hzero
    exact Option.some.inj hzero

/-- The first byte of a load tells its form. -/
theorem load_shortAt_bytes (kind : LoadKind) (slot : UInt16) (pc : Nat) (rest : Bytes) :
    (load kind slot).ShortAt pc (kind.bytes slot ++ rest) := by
  have hkind := kind.index_lt
  by_cases hshort : slot.toNat ≤ 3
  · have hop := kind.toNat_shortOpcode hshort
    rw [kind.bytes_short hshort]
    constructor
    · intro hwide
      rw [Option.some.inj hwide] at hop
      simp only [Bytecode.wideOpcode, UInt8.reduceToNat] at hop
      omega
    · rintro op hmem hleast hgreatest
      obtain rfl := Option.some.inj hmem
      omega
  by_cases hbyte : slot.toNat ≤ 0xFF
  · have hop := kind.toNat_longOpcode
    rw [kind.bytes_long (by omega) hbyte]
    refine ⟨fun hwide => ?_, fun _ _ _ _ => by omega⟩
    rw [Option.some.inj hwide] at hop
    simp only [Bytecode.wideOpcode, UInt8.reduceToNat] at hop
    omega
  · exact ⟨fun _ => by omega, fun _ _ _ _ => by omega⟩

/-- Spelled bytes are the written ones just if the instruction has its shortest form in them. -/
theorem Spells.eq_iff {pc : Nat} {bytes : Bytes} {i : Instruction} (h : Spells pc bytes i)
    (rest : Bytes) : bytes = i.bytes pc ↔ i.ShortAt pc (bytes ++ rest) := by
  cases h with
  | written =>
    refine iff_of_true rfl ?_
    cases i with
    | load kind slot => exact load_shortAt_bytes kind slot pc rest
    | tableswitch default low high offsets =>
      simp only [Instruction.bytes, List.cons_append, List.append_assoc]
      exact (padded_iff List.length_replicate 0xAA _ _).1 rfl
    | lookupswitch default pairs =>
      simp only [Instruction.bytes, List.cons_append, List.append_assoc]
      exact (padded_iff List.length_replicate 0xAB _ _).1 rfl
    | _ => trivial
  | byteLoad kind slot =>
    have hkind := kind.index_lt
    have hop := kind.toNat_longOpcode
    have hlt := slot.toNat_lt
    have hslot : (UInt16.ofNat slot.toNat).toNat = slot.toNat := by
      rw [UInt16.toNat_ofNat']
      omega
    show _ = kind.bytes _ ↔ _
    by_cases hshort : slot.toNat ≤ 3
    · refine iff_of_false ?_ fun h => absurd (h.2 _ rfl (by omega) (by omega)) (by omega)
      rw [kind.bytes_short (by omega)]
      exact fun heq => absurd (congrArg List.length heq) (by simp)
    · refine iff_of_true ?_ ⟨fun hwide => ?_, fun _ _ _ _ => by omega⟩
      · rw [kind.bytes_long (by omega) (by omega), hslot, UInt8.ofNat_toNat]
      · rw [Option.some.inj hwide] at hop
        simp only [Bytecode.wideOpcode, UInt8.reduceToNat] at hop
        omega
  | wideLoad kind slot =>
    show _ = kind.bytes _ ↔ _
    by_cases hbyte : slot.toNat ≤ 0xFF
    · refine iff_of_false (fun heq => ?_) fun h => absurd (h.1 rfl) (by omega)
      -- the shorter forms have fewer bytes
      have hlen := congrArg List.length heq
      by_cases hshort : slot.toNat ≤ 3
      · rw [kind.bytes_short hshort] at hlen
        exact absurd hlen (by simp)
      · rw [kind.bytes_long (by omega) hbyte] at hlen
        exact absurd hlen (by simp [Bytes.put16])
    · exact iff_of_true (kind.bytes_wide (by omega)).symm
        ⟨fun _ => by omega, fun _ _ _ _ => by omega⟩
  | tableswitch default low high offsets hlen =>
    simp only [Instruction.bytes, List.cons_append, List.append_assoc]
    exact padded_iff hlen 0xAA _ _
  | lookupswitch default pairs hlen =>
    simp only [Instruction.bytes, List.cons_append, List.append_assoc]
    exact padded_iff hlen 0xAB _ _

end Instruction

namespace Bytecode

open Instruction

/-! ## Code -/

variable {pc : Nat} {bytes : Bytes} {found : List (Nat × Instruction)}

theorem map_snd_placed (pc : Nat) (is : List Instruction) :
    (placed pc is).map Prod.snd = is := by
  induction is generalizing pc with
  | nil => rfl
  | cons i is ih => rw [placed, List.map_cons, ih]

/-- What is read and written again is the same bytes just if everything had its shortest form. -/
theorem Reading.encode_eq_iff (h : Reading pc bytes found) {front : Bytes}
    (hfront : front.length = pc) :
    encode pc (found.map Prod.snd) = bytes ↔
      ∀ e ∈ found, e.2.ShortAt e.1 ((front ++ bytes).drop e.1) := by
  induction h generalizing front with
  | nil pc => simp
  | @cons pc bytes s found h hrest ih =>
    obtain ⟨taken, rfl, hsize, hspells, hwf⟩ := step_reads h
    have hhere : (front ++ (taken ++ s.rest)).drop pc = taken ++ s.rest := List.drop_left' hfront
    have hthere := @ih (front ++ taken) (by rw [List.length_append, hfront, hsize])
    rw [List.append_assoc] at hthere
    rw [List.map_cons, encode_cons, List.forall_mem_cons, hhere, ← hthere, ← hspells.eq_iff]
    constructor
    · intro heq
      -- the bytes begin with what is written for the instruction, so that was taken
      have hstep := step_bytes hwf pc (encode (pc + (s.instruction.bytes pc).length)
        (found.map Prod.snd))
      rw [heq, h] at hstep
      obtain ⟨-, hlength, hback⟩ := Step.mk.inj (Except.ok.inj hstep)
      rw [← hback] at heq
      have htaken := List.append_cancel_right heq
      exact ⟨htaken.symm, by rw [hback, hlength]⟩
    · rintro ⟨htaken, hback⟩
      rw [← htaken, hsize, hback]

/-- **Reading and writing are inverse.** Well-formed instructions are read back as they were
written, each at the place where it was written; the places are told in words of four bytes, which
hold them in code of up to 4 GiB. An instruction without a constructor is well formed just if it has
the operands of the instruction set. Whatever is read is well formed and stands inside the code.
Written again, it is read as the same instructions, and it is the same code just if every load stood
there in its shortest form and every switch was padded with zeros. -/
theorem decode_encode_inverse :
    (∀ is : List Instruction, (∀ i ∈ is, i.WellFormed) →
      decode (encode 0 is) = .ok ((placed 0 is).map told) ∧
      ((encode 0 is).length ≤ 0x100000000 → decode (encode 0 is) = .ok (placed 0 is))) ∧
    (∀ opcode operands, (other opcode operands).WellFormed ↔
      (¬ HasConstructor opcode.toNat ∧ operandCount? opcode.toNat = some operands.length) ∨
        (opcode = wideOpcode ∧ Widened operands)) ∧
    ∀ code found, decode code = .ok found →
      (∀ e ∈ found, e.2.WellFormed) ∧
      (∃ again, decode (encode 0 (found.map Prod.snd)) = .ok again ∧
        again.map Prod.snd = found.map Prod.snd) ∧
      ∃ read, Reading 0 code read ∧ found = read.map told ∧
        (code.length ≤ 0x100000000 → found = read) ∧ (∀ e ∈ read, e.1 < code.length) ∧
        (encode 0 (found.map Prod.snd) = code ↔
          ∀ e ∈ read, e.2.ShortAt e.1 (code.drop e.1)) := by
  refine ⟨fun is hwf => ?_, fun _ _ => wellFormed_other_iff, ?_⟩
  · exact ⟨(reading_encode hwf 0).decode_eq, (reading_encode hwf 0).decode_eq_of_le⟩
  intro code found h
  obtain ⟨read, hread, rfl⟩ := decode_eq_ok_iff.1 h
  rw [map_snd_told]
  have hwf : ∀ i ∈ read.map Prod.snd, i.WellFormed := by
    intro i hi
    obtain ⟨e, he, rfl⟩ := List.mem_map.1 hi
    exact (hread.inside e he).1
  refine ⟨fun e he => hwf _ ?_, ⟨_, (reading_encode hwf 0).decode_eq, ?_⟩, read, hread, rfl,
    fun hle => hread.map_told (by omega), fun e he => ?_, ?_⟩
  · rw [← map_snd_told]
    exact List.mem_map_of_mem he
  · rw [map_snd_told, map_snd_placed]
  · obtain ⟨-, -, hless⟩ := hread.inside e he
    omega
  · exact hread.encode_eq_iff (show ([] : Bytes).length = 0 from rfl)

/-! ### Forms that are longer than they need to be, and code that is longer than its places -/

/-- Two loads in long forms, a switch whose padding is not zero, and a widened increment. -/
def longForms : Bytes :=
  [0x19, 0x00, 0xAA, 0x07, 0, 0, 0, 8, 0, 0, 0, 0, 0, 0, 0, 0, 0, 0, 0, 9,
    0xC4, 0x84, 1, 0, 0xFF, 0xFF, 0xC4, 0x19, 0, 5, 0xB1]

/-- What is read there. -/
def longFormsRead : List (Nat × Instruction) :=
  [(0, .load .reference 0), (2, .tableswitch 8 0 0 [9]),
    (20, .other wideOpcode [0x84, 1, 0, 0xFF, 0xFF]), (26, .load .reference 5),
    (30, .other 0xB1 [])]

theorem length_bytes_lookupswitch (pc : Nat) (default : Int32) (pairs : List (Int32 × Int32)) :
    ((Instruction.lookupswitch default pairs).bytes pc).length =
      9 + switchPadding pc + 8 * pairs.length := by
  simp only [Instruction.bytes, List.length_append, List.length_cons, List.length_replicate,
    length_putInt32, Bytes.length_put32, length_flatMap_pairs]
  omega

theorem places_behind_lookupswitch (default : Int32) (pairs : List (Int32 × Int32)) :
    ((placed 0 [.lookupswitch default pairs, .nop]).map told).map Prod.fst =
      [0, placeWord (12 + 8 * pairs.length)] := by
  have hlen : ((Instruction.lookupswitch default pairs).bytes 0).length = 12 + 8 * pairs.length :=
    length_bytes_lookupswitch 0 default pairs
  simp only [placed, List.map_cons, List.map_nil, told, hlen, Nat.zero_add]
  rfl

/-- A switch that takes 4 GiB and twelve bytes, and what does nothing behind it. -/
def longSwitch : List Instruction :=
  [.lookupswitch 0 (List.replicate 0x20000000 (0, 0)), .nop]

theorem decode_encode_inverse_longForms :
    decode longForms = .ok longFormsRead ∧ (∀ i ∈ longFormsRead.map Prod.snd, i.WellFormed) ∧
      decode (encode 0 (longFormsRead.map Prod.snd)) =
        .ok (placed 0 (longFormsRead.map Prod.snd)) ∧
      (other 0xB1 []).WellFormed ∧ encode 0 (longFormsRead.map Prod.snd) ≠ longForms ∧
      ∃ found, decode (encode 0 longSwitch) = .ok found ∧ found.map Prod.fst = [0, 12] := by
  obtain ⟨hwritten, hother, hread⟩ := decode_encode_inverse
  have hdecode : decode longForms = .ok longFormsRead := by rfl
  obtain ⟨hwell, -, read, -, -, hplaces, -, hsame⟩ := hread longForms longFormsRead hdecode
  obtain rfl : longFormsRead = read := hplaces (by decide)
  have hwf : ∀ i ∈ longFormsRead.map Prod.snd, i.WellFormed := by
    intro i hi
    obtain ⟨e, he, rfl⟩ := List.mem_map.1 hi
    exact hwell e he
  refine ⟨hdecode, hwf, (hwritten _ hwf).2 (by decide), (hother _ _).2 (.inl ⟨?_, by rfl⟩),
    fun heq => ?_, _, (hwritten longSwitch ?_).1, ?_⟩
  · unfold HasConstructor
    decide
  · -- the first load names a slot that has a form of its own
    have hfirst := hsame.1 heq (0, .load .reference 0) (by simp [longFormsRead])
    exact absurd (hfirst.2 0x19 rfl (by decide) (by decide)) (by decide)
  · intro i hi
    simp only [longSwitch, List.mem_cons, List.not_mem_nil, or_false] at hi
    rcases hi with rfl | rfl
    · show List.length (List.replicate 0x20000000 ((0 : Int32), (0 : Int32))) < _
      rw [List.length_replicate]
      decide
    · trivial
  · rw [longSwitch, places_behind_lookupswitch, List.length_replicate]
    decide

end Bytecode

end ValueCoverage
