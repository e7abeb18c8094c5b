import ValueCoverage.Proofs.Bytecode.RoundTrip

/-!
# Instructions tile the code

The instructions of code lie one behind the other and fill it. Cut where one of them starts, code is
read as the instructions before it. If code cannot be read to its end, the place that is told is
where the longest part ends that can be read. All these places lie inside the code, so the words of
four bytes in which they are told hold them if the code takes up to 4 GiB.
-/

namespace ValueCoverage.Bytecode

variable {pc : Nat} {bytes front back : Bytes} {found before after : List (Nat × Instruction)}

/-! ## Readings -/

/-- Between two of its instructions code falls into two parts, which are read one by one. -/
theorem Reading.exists_cut (h : Reading pc bytes (before ++ after)) :
    ∃ front back, bytes = front ++ back ∧ Reading pc front before ∧
      Reading (pc + front.length) back after := by
  induction before generalizing pc bytes with
  | nil => exact ⟨[], bytes, rfl, .nil pc, h⟩
  | cons e before ih =>
    cases h with
    | @cons _ _ s _ h hrest =>
      obtain ⟨taken, rfl, hsize, -, hsame⟩ := step_takes h
      obtain ⟨front, back, hcut, hfront, hback⟩ := ih hrest
      have hmore := Reading.cons (hsame front) hfront
      refine ⟨taken ++ front, back, ?_, hmore, ?_⟩
      · rw [hcut, List.append_assoc]
      · rwa [List.length_append, hsize, ← Nat.add_assoc]

/-- The first instruction stands where the bytes start. -/
theorem Reading.starts (h : Reading pc bytes found) (hne : bytes ≠ []) :
    ∃ i rest, found = (pc, i) :: rest := by
  cases h with
  | nil => exact absurd rfl hne
  | cons h hrest => exact ⟨_, _, rfl⟩

theorem Reading.places_increase (h : Reading pc bytes found) :
    (found.map Prod.fst).Pairwise (· < ·) := by
  induction h with
  | nil pc => exact .nil
  | @cons pc bytes s found h hrest ih =>
    obtain ⟨-, -, -, hpos, -⟩ := step_takes h
    refine List.pairwise_cons.2 ⟨fun place hplace => ?_, ih⟩
    obtain ⟨e, he, rfl⟩ := List.mem_map.1 hplace
    obtain ⟨-, hleast, -⟩ := hrest.inside e he
    show pc < e.1
    omega

/-! ## Code that is cut -/

/-- Cut where an instruction starts, code is read as the instructions before it. -/
theorem Reading.decode_take {code : Bytes} {e : Nat × Instruction}
    (h : Reading 0 code (before ++ e :: after)) (hle : code.length ≤ 0x100000000) :
    decode (code.take e.1) = .ok before := by
  obtain ⟨front, back, rfl, hfront, hback⟩ := h.exists_cut
  have hplace : e.1 = front.length := by
    cases hback
    exact Nat.zero_add _
  rw [List.length_append] at hle
  rw [hplace, List.take_left]
  exact hfront.decode_eq_of_le (by omega)

/-- Where no instruction can be read, none can be read of fewer bytes. -/
theorem exists_fault_of_append {fault : DecodeFault}
    (h : step pc (front ++ back) = .error fault) : ∃ fault', step pc front = .error fault' := by
  cases hstep : step pc front with
  | error fault' => exact ⟨fault', rfl⟩
  | ok s =>
    rw [step_append hstep] at h
    cases h

/-- Code that is cut behind the place of a fault has a fault at the same place. -/
theorem Reading.decode_take_error {fault : DecodeFault} {n : Nat} (h : Reading 0 front found)
    (hback : back ≠ []) (hfault : step front.length back = .error fault) (hn : front.length < n) :
    ∃ fault', decode ((front ++ back).take n) =
      .error (.decode (placeWord front.length) fault') := by
  rw [← List.take_append_drop (n - front.length) back] at hfault
  obtain ⟨fault', hfault'⟩ := exists_fault_of_append hfault
  refine ⟨fault', ?_⟩
  rw [List.take_append, List.take_of_length_le (by omega)]
  refine h.decode_eq_error (fun hnil => ?_) hfault'
  rcases List.take_eq_nil_iff.1 hnil with hzero | hnil
  · omega
  · exact hback hnil

/-- **Instructions tile the code**, of which there are up to 4 GiB. If it can be read, its
instructions start at its start, one behind the other, inside the code; cut where one of them
starts, the code is read as just those before it. If it cannot be read, the place that is told lies
inside the code. What stands before it can be read, no instruction can be read there, and however
much of what follows is kept, the fault is found at that place. -/
theorem decode_tiles {code : Bytes} (hle : code.length ≤ 0x100000000) :
    (∀ found, decode code = .ok found →
      (code ≠ [] → ∃ i rest, found = (0, i) :: rest) ∧
      (found.map Prod.fst).Pairwise (· < ·) ∧ (∀ e ∈ found, e.1 < code.length) ∧
      ∀ before e after, found = before ++ e :: after → decode (code.take e.1) = .ok before) ∧
    ∀ e, decode code = .error e →
      ∃ pc fault before, e = .decode pc fault ∧ pc < code.length ∧
        decode (code.take pc) = .ok before ∧ step pc (code.drop pc) = .error fault ∧
        ∀ n, pc < n → ∃ fault', decode (code.take n) = .error (.decode pc fault') := by
  constructor
  · intro found h
    have hread := (decode_eq_ok_iff_of_le hle).1 h
    refine ⟨hread.starts, hread.places_increase, fun e he => ?_, ?_⟩
    · obtain ⟨-, -, hless⟩ := hread.inside e he
      omega
    · rintro before e after rfl
      exact hread.decode_take hle
  · intro e h
    obtain ⟨front, back, before, fault, rfl, hback, hread, hfault, rfl⟩ := decode_eq_error_iff.1 h
    have hpos := List.length_pos_iff.2 hback
    rw [List.length_append] at hle
    have hword : placeWord front.length = front.length := placeWord_of_lt (by omega)
    refine ⟨front.length, fault, before, by rw [hword], ?_, ?_, ?_, fun n hn => ?_⟩
    · rw [List.length_append]
      omega
    · rw [List.take_left]
      exact hread.decode_eq_of_le (by omega)
    · rwa [List.drop_left]
    · rw [← hword]
      exact hread.decode_take_error hback hfault hn

/-! ### A switch that is cut short -/

/-- A table switch between two other instructions. Of its entries, one is there. -/
def oneEntry (low high : Int32) : Bytes :=
  0x00 :: 0xAA :: 0 :: 0 :: (putInt32 20 ++ putInt32 low ++ putInt32 high ++ putInt32 24) ++ [0xB1]

/-- What is read there if one entry is all there should be. -/
def oneEntryRead : List (Nat × Instruction) :=
  [(0, .nop), (1, .tableswitch 20 7 7 [24]), (20, .other 0xB1 [])]

theorem decode_tiles_oneEntry :
    (∀ low high, (oneEntry low high).length ≤ 0x100000000) ∧
    decode (oneEntry 7 7) = .ok oneEntryRead ∧ (∃ i rest, oneEntryRead = (0, i) :: rest) ∧
      decode ((oneEntry 7 7).take 20) = .ok [(0, .nop), (1, .tableswitch 20 7 7 [24])] ∧
    decode (oneEntry (-0x80000000) 0x7FFFFFFF) = .error (.decode 1 .unexpectedEnd) ∧
      (∃ before, decode ((oneEntry (-0x80000000) 0x7FFFFFFF).take 1) = .ok before) ∧
      ∃ fault, decode ((oneEntry (-0x80000000) 0x7FFFFFFF).take 9) = .error (.decode 1 fault) := by
  have hle (low high : Int32) : (oneEntry low high).length ≤ 0x100000000 := by
    show 21 ≤ 0x100000000
    decide
  have hread : decode (oneEntry 7 7) = .ok oneEntryRead := by rfl
  -- the keys call for an entry each, as many as there are words of four bytes
  have hfault : decode (oneEntry (-0x80000000) 0x7FFFFFFF) = .error (.decode 1 .unexpectedEnd) := by
    rfl
  obtain ⟨hstarts, -, -, hcut⟩ := (decode_tiles (hle 7 7)).1 _ hread
  obtain ⟨pc, fault, before, heq, -, hbefore, -, hbehind⟩ := (decode_tiles (hle _ _)).2 _ hfault
  obtain ⟨rfl, rfl⟩ := BytecodeError.decode.inj heq
  exact ⟨hle, hread, hstarts (by decide), hcut [_, _] (20, .other 0xB1 []) [] rfl, hfault,
    ⟨before, hbefore⟩, hbehind 9 (by decide)⟩

end ValueCoverage.Bytecode
