import ValueCoverage.Proofs.Bytecode.Encoding
import ValueCoverage.Proofs.Steps

/-!
# The bytes that stand for an instruction

Most instructions have one spelling. A load may also stand in a longer form than it needs, and the
padding of a switch may be any bytes. What is read from code are just the well-formed instructions
that its first bytes spell, whatever follows them.
-/

namespace ValueCoverage

namespace LoadKind

theorem index_of_all {i : Nat} {kind : LoadKind} (h : all[i]? = some kind) : kind.index = i := by
  obtain ⟨hi, rfl⟩ := List.getElem?_eq_some_iff.1 h
  have hlt : i < 5 := hi
  clear h
  revert i
  decide

end LoadKind

namespace Instruction

/-- The bytes, which stand at `pc`, are those of the instruction in one of its forms. -/
inductive Spells (pc : Nat) : Bytes → Instruction → Prop where
  | written (i : Instruction) : Spells pc (i.bytes pc) i
  | byteLoad (kind : LoadKind) (slot : UInt8) :
      Spells pc [kind.longOpcode, slot] (.load kind (UInt16.ofNat slot.toNat))
  | wideLoad (kind : LoadKind) (slot : UInt16) :
      Spells pc (Bytecode.wideOpcode :: kind.longOpcode :: Bytes.put16 slot) (.load kind slot)
  | tableswitch (default low high : Int32) (offsets : List Int32) {padding : Bytes}
      (h : padding.length = switchPadding pc) :
      Spells pc (0xAA :: padding ++ putInt32 default ++ putInt32 low ++ putInt32 high ++
        offsets.flatMap putInt32) (.tableswitch default low high offsets)
  | lookupswitch (default : Int32) (pairs : List (Int32 × Int32)) {padding : Bytes}
      (h : padding.length = switchPadding pc) :
      Spells pc (0xAB :: padding ++ putInt32 default ++ Bytes.put32 (UInt32.ofNat pairs.length) ++
        pairs.flatMap fun p => putInt32 p.1 ++ putInt32 p.2) (.lookupswitch default pairs)

theorem Spells.ne_nil {pc : Nat} {bytes : Bytes} {i : Instruction} (h : Spells pc bytes i) :
    bytes ≠ [] := by
  cases h with
  | written => exact i.bytes_ne_nil pc
  | _ => simp

end Instruction

namespace Bytecode

open Instruction

theorem orEnd_eq_ok {α : Type} {x : Option α} {a : α} : orEnd x = .ok a ↔ x = some a := by
  cases x <;> simp [orEnd]

theorem eq_putInt32_of_getInt32 {bytes rest : Bytes} {n : Int32}
    (h : getInt32 bytes = .ok (n, rest)) : bytes = putInt32 n ++ rest := by
  obtain ⟨⟨w, more⟩, hw, h⟩ := bind_eq_ok.1 h
  simp only [Except.ok.injEq, Prod.mk.injEq] at h
  obtain ⟨rfl, rfl⟩ := h
  exact Bytes.get32?_eq_some_iff.1 (orEnd_eq_ok.1 hw)

theorem eq_putInt32_of_getPair {bytes rest : Bytes} {p : Int32 × Int32}
    (h : getPair bytes = .ok (p, rest)) : bytes = (putInt32 p.1 ++ putInt32 p.2) ++ rest := by
  obtain ⟨⟨key, more⟩, hkey, h⟩ := bind_eq_ok.1 h
  obtain ⟨⟨offset, last⟩, hoffset, h⟩ := bind_eq_ok.1 h
  simp only [Except.ok.injEq, Prod.mk.injEq] at h
  obtain ⟨rfl, rfl⟩ := h
  rw [eq_putInt32_of_getInt32 hkey, eq_putInt32_of_getInt32 hoffset, List.append_assoc]

/-- The step has taken its size off the front of the bytes that stand at `pc`, and what it has taken
spells its instruction. -/
def Step.Reads (s : Step) (pc : Nat) (bytes : Bytes) : Prop :=
  ∃ taken, bytes = taken ++ s.rest ∧ taken.length = s.size ∧ Spells pc taken s.instruction ∧
    s.instruction.WellFormed

variable {pc : Nat} {opcode : UInt8} {rest : Bytes} {s : Step}

theorem plainStep_reads {i : Instruction} (hbytes : i.bytes pc = [opcode]) (hwf : i.WellFormed)
    (h : plainStep i rest = .ok s) : s.Reads pc (opcode :: rest) := by
  cases h
  refine ⟨[opcode], rfl, rfl, ?_, hwf⟩
  rw [← hbytes]
  exact .written i

theorem byteStep_reads {f : UInt8 → Instruction} (hbytes : ∀ b, Spells pc [opcode, b] (f b))
    (hwf : ∀ b, (f b).WellFormed) (h : byteStep f rest = .ok s) : s.Reads pc (opcode :: rest) := by
  obtain ⟨⟨b, more⟩, hb, h⟩ := bind_eq_ok.1 h
  cases h
  rw [Bytes.get8?_eq_some_iff.1 (orEnd_eq_ok.1 hb)]
  exact ⟨[opcode, b], rfl, rfl, hbytes b, hwf b⟩

theorem wordStep_reads {f : UInt16 → Instruction}
    (hbytes : ∀ w, (f w).bytes pc = opcode :: Bytes.put16 w) (hwf : ∀ w, (f w).WellFormed)
    (h : wordStep f rest = .ok s) : s.Reads pc (opcode :: rest) := by
  obtain ⟨⟨w, more⟩, hw, h⟩ := bind_eq_ok.1 h
  cases h
  rw [Bytes.get16?_eq_some_iff.1 (orEnd_eq_ok.1 hw)]
  refine ⟨opcode :: Bytes.put16 w, rfl, rfl, ?_, hwf w⟩
  rw [← hbytes]
  exact .written (f w)

theorem tableStep_reads (h : tableStep pc rest = .ok s) : s.Reads pc (0xAA :: rest) := by
  obtain ⟨⟨padding, more⟩, hpadding, h⟩ := bind_eq_ok.1 h
  obtain ⟨⟨default, more'⟩, hdefault, h⟩ := bind_eq_ok.1 h
  obtain ⟨⟨low, more''⟩, hlow, h⟩ := bind_eq_ok.1 h
  obtain ⟨⟨high, more'''⟩, hhigh, h⟩ := bind_eq_ok.1 h
  simp only at h
  split at h
  · cases h
  · obtain ⟨⟨offsets, last⟩, hoffsets, h⟩ := bind_eq_ok.1 h
    cases h
    obtain ⟨rfl, hlen⟩ := Bytes.split?_eq_some_iff.1 (orEnd_eq_ok.1 hpadding)
    obtain ⟨xs, hxs, hcount, rfl⟩ := Bytes.eq_flatMap_of_many
      (fun _ _ _ => eq_putInt32_of_getInt32) hoffsets
    obtain rfl : offsets = xs := hxs
    refine ⟨_, ?_, ?_, .tableswitch default low high offsets hlen, ?_⟩
    · simp only [List.cons_append, List.append_assoc] at *
      rw [eq_putInt32_of_getInt32 hdefault, eq_putInt32_of_getInt32 hlow,
        eq_putInt32_of_getInt32 hhigh]
    · simp only [List.length_append, List.length_cons, length_putInt32,
        Bytes.length_flatMap_const length_putInt32 offsets, hcount, hlen]
      omega
    · show low.toInt ≤ high.toInt ∧ (offsets.length : Int) = high.toInt - low.toInt + 1
      omega

theorem lookupStep_reads (h : lookupStep pc rest = .ok s) : s.Reads pc (0xAB :: rest) := by
  obtain ⟨⟨padding, more⟩, hpadding, h⟩ := bind_eq_ok.1 h
  obtain ⟨⟨default, more'⟩, hdefault, h⟩ := bind_eq_ok.1 h
  obtain ⟨⟨count, more''⟩, hcount, h⟩ := bind_eq_ok.1 h
  simp only at h
  split at h
  · cases h
  · next hpos =>
    obtain ⟨⟨pairs, last⟩, hpairs, h⟩ := bind_eq_ok.1 h
    cases h
    obtain ⟨rfl, hlen⟩ := Bytes.split?_eq_some_iff.1 (orEnd_eq_ok.1 hpadding)
    have hitem (bytes : Bytes) (p : Int32 × Int32) (rest : Bytes)
      (hone : getPair bytes = .ok (p, rest)) :
        bytes = (fun p : Int32 × Int32 => putInt32 p.1 ++ putInt32 p.2) p ++ rest :=
      eq_putInt32_of_getPair hone
    obtain ⟨xs, hxs, hnumber, rfl⟩ := Bytes.eq_flatMap_of_many hitem hpairs
    obtain rfl : pairs = xs := hxs
    -- a count that is not negative is the number of pairs
    have hbound := count.toInt_lt
    have hword : Bytes.put32 (UInt32.ofNat pairs.length) = putInt32 count := by
      rw [putInt32, hnumber]
      refine congrArg Bytes.put32 (UInt32.toNat_inj.1 ?_)
      have htoInt : count.toInt = count.toUInt32.toBitVec.toInt := rfl
      have hlt := count.toUInt32.toNat_lt
      rw [BitVec.toInt_eq_toNat_cond, UInt32.toNat_toBitVec] at htoInt
      rw [UInt32.toNat_ofNat']
      split at htoInt <;> omega
    refine ⟨_, ?_, ?_, .lookupswitch default pairs hlen, ?_⟩
    · simp only [List.cons_append, List.append_assoc] at *
      rw [eq_putInt32_of_getInt32 hdefault, eq_putInt32_of_getInt32 hcount, hword]
    · simp only [List.length_append, List.length_cons, length_putInt32, Bytes.length_put32, hlen,
        hnumber, length_flatMap_pairs]
      omega
    · show pairs.length < 0x80000000
      omega

theorem eq_longOpcode {inner : UInt8} {kind : LoadKind} (h : loadKind? inner.toNat = some kind) :
    inner = kind.longOpcode := by
  unfold loadKind? at h
  split at h
  · have hindex := LoadKind.index_of_all h
    apply UInt8.toNat_inj.1
    rw [kind.toNat_longOpcode]
    omega
  · cases h

theorem wideStep_reads (h : wideStep rest = .ok s) : s.Reads pc (wideOpcode :: rest) := by
  obtain ⟨⟨inner, more⟩, hinner, h⟩ := bind_eq_ok.1 h
  rw [Bytes.get8?_eq_some_iff.1 (orEnd_eq_ok.1 hinner)]
  simp only at h
  split at h
  · next kind hkind =>
    obtain ⟨⟨slot, last⟩, hslot, h⟩ := bind_eq_ok.1 h
    cases h
    rw [Bytes.get16?_eq_some_iff.1 (orEnd_eq_ok.1 hslot), eq_longOpcode hkind]
    exact ⟨_, rfl, rfl, .wideLoad kind slot, trivial⟩
  · split at h
    · next hstore =>
      obtain ⟨⟨operands, last⟩, hoperands, h⟩ := bind_eq_ok.1 h
      cases h
      obtain ⟨rfl, hlen⟩ := Bytes.split?_eq_some_iff.1 (orEnd_eq_ok.1 hoperands)
      obtain ⟨a, b, rfl⟩ : ∃ a b, operands = [a, b] := by
        match operands, hlen with
        | [a, b], _ => exact ⟨a, b, rfl⟩
      exact ⟨wideOpcode :: inner :: [a, b], rfl, rfl, .written (.other wideOpcode [inner, a, b]),
        .inr ⟨rfl, .slot inner a b hstore⟩⟩
    · split at h
      · next hincrement =>
        obtain ⟨⟨operands, last⟩, hoperands, h⟩ := bind_eq_ok.1 h
        cases h
        obtain ⟨rfl, hlen⟩ := Bytes.split?_eq_some_iff.1 (orEnd_eq_ok.1 hoperands)
        obtain ⟨a, b, c, d, rfl⟩ : ∃ a b c d, operands = [a, b, c, d] := by
          match operands, hlen with
          | [a, b, c, d], _ => exact ⟨a, b, c, d, rfl⟩
        exact ⟨wideOpcode :: inner :: [a, b, c, d], rfl, rfl,
          .written (.other wideOpcode [inner, a, b, c, d]),
          .inr ⟨rfl, .increment inner a b c d hincrement⟩⟩
      · cases h

theorem otherStep_reads (hown : ¬ HasConstructor opcode.toNat) (h : otherStep opcode rest = .ok s) :
    s.Reads pc (opcode :: rest) := by
  unfold otherStep at h
  split at h
  · cases h
  · next n hn =>
    obtain ⟨⟨operands, last⟩, hoperands, h⟩ := bind_eq_ok.1 h
    cases h
    obtain ⟨rfl, rfl⟩ := Bytes.split?_eq_some_iff.1 (orEnd_eq_ok.1 hoperands)
    exact ⟨opcode :: operands, rfl, Nat.add_comm _ _, .written (.other opcode operands),
      .inl ⟨hown, hn⟩⟩

/-- What both branches have, each where it is taken, the choice has. -/
theorem reads_ite {p : Prop} [Decidable p] {x y : Except DecodeFault Step} {bytes : Bytes}
    (hx : p → x = .ok s → s.Reads pc bytes) (hy : ¬p → y = .ok s → s.Reads pc bytes)
    (h : (if p then x else y) = .ok s) : s.Reads pc bytes := by
  split at h
  · next hp => exact hx hp h
  · next hp => exact hy hp h

theorem iconst_reads (pc : Nat) (hleast : 0x02 ≤ opcode.toNat)
    (hgreatest : opcode.toNat ≤ 0x08) :
    (iconst (Int8.ofInt ((opcode.toNat : Int) - 3))).bytes pc = [opcode] ∧
      (iconst (Int8.ofInt ((opcode.toNat : Int) - 3))).WellFormed := by
  have hall : ∀ op : Nat, op ≤ 8 → 2 ≤ op →
      (Int8.ofInt ((op : Int) - 3)).toUInt8 + 3 = UInt8.ofNat op ∧
        -1 ≤ (Int8.ofInt ((op : Int) - 3)).toInt ∧ (Int8.ofInt ((op : Int) - 3)).toInt ≤ 5 := by
    decide
  obtain ⟨hbyte, hrange⟩ := hall opcode.toNat hgreatest hleast
  rw [UInt8.ofNat_toNat] at hbyte
  exact ⟨congrArg (fun b => [b]) hbyte, hrange⟩

theorem bytes_shortLoad {kind : LoadKind} (hleast : 0x1A ≤ opcode.toNat)
    (hkind : LoadKind.all[(opcode.toNat - 0x1A) / 4]? = some kind) :
    (load kind (UInt16.ofNat ((opcode.toNat - 0x1A) % 4))).bytes pc = [opcode] := by
  have hindex := LoadKind.index_of_all hkind
  have hslot : (UInt16.ofNat ((opcode.toNat - 0x1A) % 4)).toNat = (opcode.toNat - 0x1A) % 4 := by
    rw [UInt16.toNat_ofNat']
    omega
  have hop : kind.shortOpcode (UInt16.ofNat ((opcode.toNat - 0x1A) % 4)) = opcode := by
    apply UInt8.toNat_inj.1
    rw [kind.toNat_shortOpcode (by omega), hslot]
    omega
  rw [Instruction.bytes, kind.bytes_short (by omega), hop]

theorem stepAfter_reads (h : stepAfter pc opcode rest = .ok s) : s.Reads pc (opcode :: rest) := by
  have heq {n : UInt8} (hn : opcode.toNat = n.toNat) : n = opcode := UInt8.toNat_inj.1 hn.symm
  refine reads_ite (fun hop => ?_) (fun hnop => ?_) h
  · exact plainStep_reads (congrArg (fun b => [b]) (heq (n := 0x00) hop)) trivial
  refine reads_ite (fun hop => ?_) (fun hconst => ?_)
  · obtain ⟨hbytes, hwf⟩ := iconst_reads pc hop.1 hop.2
    exact plainStep_reads hbytes hwf
  refine reads_ite (fun hop => ?_) (fun hbipush => ?_)
  · obtain rfl := heq (n := 0x10) hop
    refine byteStep_reads (fun b => ?_) fun b => trivial
    have hwritten : Spells pc _ _ := .written (.bipush b.toInt8)
    rwa [Instruction.bytes, UInt8.toUInt8_toInt8] at hwritten
  refine reads_ite (fun hop => ?_) (fun hsipush => ?_)
  · obtain rfl := heq (n := 0x11) hop
    refine wordStep_reads (fun w => ?_) fun w => trivial
    rw [Instruction.bytes, UInt16.toUInt16_toInt16]
  refine reads_ite (fun hop => ?_) (fun hldc => ?_)
  · obtain rfl := heq (n := 0x12) hop
    exact byteStep_reads (fun b => .written (.ldc b)) fun b => trivial
  refine reads_ite (fun hop => ?_) (fun hldcWide => ?_)
  · obtain rfl := heq (n := 0x13) hop
    exact wordStep_reads (fun w => rfl) fun w => trivial
  refine reads_ite (fun hop => ?_) (fun hshort => ?_)
  · intro h
    split at h
    · next kind hkind => exact plainStep_reads (bytes_shortLoad hop.1 hkind) trivial h
    · cases h
  refine reads_ite (fun hop => ?_) (fun haastore => ?_)
  · exact plainStep_reads (congrArg (fun b => [b]) (heq (n := 0x53) hop)) trivial
  refine reads_ite (fun hop => ?_) (fun hdup => ?_)
  · exact plainStep_reads (congrArg (fun b => [b]) (heq (n := 0x59) hop)) trivial
  refine reads_ite (fun hop => ?_) (fun htable => ?_)
  · obtain rfl := heq (n := 0xAA) hop
    exact tableStep_reads
  refine reads_ite (fun hop => ?_) (fun hlookup => ?_)
  · obtain rfl := heq (n := 0xAB) hop
    exact lookupStep_reads
  refine reads_ite (fun hop => ?_) (fun hinvoke => ?_)
  · obtain rfl := heq (n := 0xB8) hop
    exact wordStep_reads (fun w => rfl) fun w => trivial
  refine reads_ite (fun hop => ?_) (fun harray => ?_)
  · obtain rfl := heq (n := 0xBD) hop
    exact wordStep_reads (fun w => rfl) fun w => trivial
  refine reads_ite (fun hop => ?_) (fun hwide => ?_)
  · subst hop
    exact wideStep_reads
  intro h
  split at h
  · next kind hkind =>
    rw [eq_longOpcode hkind]
    exact byteStep_reads (fun b => .byteLoad kind b) (fun b => trivial) h
  · next hnone =>
    refine otherStep_reads ?_ h
    -- every opcode with a constructor has been met
    have hlong : ¬(0x15 ≤ opcode.toNat ∧ opcode.toNat < 0x1A) := by
      rintro ⟨hleast, hless⟩
      rw [loadKind?, if_pos hleast, List.getElem?_eq_none_iff] at hnone
      simp only [LoadKind.all, List.length_cons, List.length_nil] at hnone
      omega
    have hwide' : opcode.toNat ≠ 0xC4 := fun hop => hwide (heq (n := 0xC4) hop).symm
    unfold HasConstructor
    omega

theorem step_reads {bytes : Bytes} (h : step pc bytes = .ok s) : s.Reads pc bytes := by
  cases bytes with
  | nil => cases h
  | cons opcode rest => exact stepAfter_reads h

/-- Whatever spells an instruction is read as it. -/
theorem step_of_spells {i : Instruction} {taken : Bytes} (h : Spells pc taken i)
    (hwf : i.WellFormed) (rest : Bytes) :
    step pc (taken ++ rest) = .ok ⟨i, taken.length, rest⟩ := by
  cases h with
  | written => exact step_bytes hwf pc rest
  | byteLoad kind slot => exact step_byteLoad kind slot pc rest
  | wideLoad kind slot => exact step_wideLoad kind slot pc rest
  | tableswitch default low high offsets hpadding =>
    exact step_tableswitch hwf default hpadding rest
  | lookupswitch default pairs hpadding => exact step_lookupswitch hwf default hpadding rest

/-- **What a step reads**: a well-formed instruction, of the bytes that spell it. -/
theorem step_eq_ok_iff {bytes : Bytes} : step pc bytes = .ok s ↔ s.Reads pc bytes := by
  refine ⟨step_reads, ?_⟩
  rintro ⟨taken, rfl, hsize, hspells, hwf⟩
  rw [step_of_spells hspells hwf, hsize]

end Bytecode

end ValueCoverage
