import ValueCoverage.Proofs.Bytecode.Spelling

/-!
# Code behind code

Every step takes at least one byte and looks at nothing behind what it takes, so code is read up to
its end or up to the first place where no instruction can be read. Where code stands matters only up
to multiples of four: put behind well-formed instructions, at a multiple of four, it is read as it
was before, at its new places, whether it can be read to its end or not.
-/

namespace ValueCoverage

/-- The place that a fault of code tells moves with the code. -/
def BytecodeError.movedBy (amount : Nat) : BytecodeError → BytecodeError
  | .decode pc fault => .decode (pc + amount) fault
  | e => e

namespace Bytecode

/-! ## What a step takes -/

variable {pc : Nat} {s : Step}

/-- A step looks at the bytes that it takes and at nothing behind them. -/
theorem step_takes {bytes : Bytes} (h : step pc bytes = .ok s) :
    ∃ taken, bytes = taken ++ s.rest ∧ taken.length = s.size ∧ 0 < s.size ∧
      ∀ rest, step pc (taken ++ rest) = .ok ⟨s.instruction, s.size, rest⟩ := by
  obtain ⟨taken, hbytes, hsize, hspells, hwf⟩ := step_eq_ok_iff.1 h
  exact ⟨taken, hbytes, hsize, hsize ▸ List.length_pos_iff.2 hspells.ne_nil,
    fun rest => step_eq_ok_iff.2 ⟨taken, rfl, hsize, hspells, hwf⟩⟩

theorem step_append {bytes : Bytes} (h : step pc bytes = .ok s) (more : Bytes) :
    step pc (bytes ++ more) = .ok ⟨s.instruction, s.size, s.rest ++ more⟩ := by
  obtain ⟨taken, rfl, -, -, hsame⟩ := step_takes h
  rw [List.append_assoc, hsame]

theorem length_rest_lt {bytes : Bytes} (h : step pc bytes = .ok s) :
    s.rest.length < bytes.length := by
  obtain ⟨taken, rfl, hsize, hpos, -⟩ := step_takes h
  simp only [List.length_append]
  omega

/-! ## Places -/

theorem placeWord_eq_mod (pos : Nat) : placeWord pos = pos % 0x100000000 := by
  unfold placeWord
  rw [UInt32.toNat_ofNat']

theorem placeWord_of_lt {pos : Nat} (h : pos < 0x100000000) : placeWord pos = pos := by
  rw [placeWord_eq_mod]
  exact Nat.mod_eq_of_lt h

theorem switchPadding_congr {pc' : Nat} (h : pc % 4 = pc' % 4) :
    switchPadding pc = switchPadding pc' := by
  unfold switchPadding
  omega

/-- Where an instruction stands matters only up to multiples of four. -/
theorem step_congr {pc' : Nat} (h : pc % 4 = pc' % 4) (bytes : Bytes) :
    step pc bytes = step pc' bytes := by
  cases bytes with
  | nil => rfl
  | cons opcode rest =>
    simp only [step, stepAfter, tableStep, lookupStep, switchPadding_congr h]

/-- A place that is told starts again at a multiple of four, so it pads switches as the place
itself does. -/
@[simp] theorem step_placeWord (pos : Nat) (bytes : Bytes) :
    step (placeWord pos) bytes = step pos bytes := by
  refine step_congr ?_ bytes
  rw [placeWord_eq_mod]
  omega

/-- An instruction with its place as it is told. -/
def told (e : Nat × Instruction) : Nat × Instruction := (placeWord e.1, e.2)

@[simp] theorem map_snd_told (found : List (Nat × Instruction)) :
    (found.map told).map Prod.snd = found.map Prod.snd := by
  rw [List.map_map]
  rfl

/-! ## The loop -/

theorem decodeFrom_step {bytes : Bytes} (h : step pc bytes = .ok s) (bound : Nat)
    (done : List (Nat × Instruction)) :
    decodeFrom (bound + 1) pc bytes done =
      decodeFrom bound (pc + s.size) s.rest (told (pc, s.instruction) :: done) := by
  cases bytes with
  | nil => cases h
  | cons b bytes =>
    simp only [decodeFrom, step_placeWord, h]
    rfl

/-- As every step takes a byte, any bound will do that is not less than the number of bytes. -/
theorem decodeFrom_bound {n m : Nat} {bytes : Bytes} (hn : bytes.length ≤ n) (hm : bytes.length ≤ m)
    (pc : Nat) (done : List (Nat × Instruction)) :
    decodeFrom n pc bytes done = decodeFrom m pc bytes done := by
  induction n generalizing m pc bytes done with
  | zero =>
    have hnil : bytes = [] := List.length_eq_zero_iff.1 (by omega)
    subst hnil
    simp [decodeFrom]
  | succ n ih =>
    cases bytes with
    | nil => simp [decodeFrom]
    | cons b bytes =>
      -- bytes are left, so the other bound has not run out either
      obtain ⟨m, rfl⟩ : ∃ k, m = k + 1 := ⟨m - 1, by simp at hm; omega⟩
      simp only [decodeFrom, step_placeWord]
      cases hstep : step pc (b :: bytes) with
      | error fault => rfl
      | ok s =>
        have hlt := length_rest_lt hstep
        simp only [List.length_cons] at *
        exact ih (by omega) (by omega) _ _

/-! ## Readings -/

/-- The instructions of the bytes, which start at `pc`, each read behind the one before it. -/
inductive Reading : (pc : Nat) → Bytes → List (Nat × Instruction) → Prop where
  | nil (pc : Nat) : Reading pc [] []
  | cons {pc : Nat} {bytes : Bytes} {s : Step} {found : List (Nat × Instruction)}
      (h : step pc bytes = .ok s) (hrest : Reading (pc + s.size) s.rest found) :
      Reading pc bytes ((pc, s.instruction) :: found)

section Readings

variable {bytes front back code : Bytes} {found more : List (Nat × Instruction)}
  {fault : DecodeFault}

/-- What is read is well formed and stands inside the bytes. -/
theorem Reading.inside (h : Reading pc bytes found) :
    ∀ e ∈ found, e.2.WellFormed ∧ pc ≤ e.1 ∧ e.1 < pc + bytes.length := by
  induction h with
  | nil pc => simp
  | @cons pc bytes s found h hrest ih =>
    obtain ⟨taken, rfl, hsize, hspells, hwf⟩ := step_reads h
    have hpos : 0 < taken.length := List.length_pos_iff.2 hspells.ne_nil
    intro e he
    rcases List.mem_cons.1 he with rfl | he
    · refine ⟨hwf, Nat.le_refl pc, ?_⟩
      simp only [List.length_append]
      omega
    · obtain ⟨hwf', hleast, hless⟩ := ih e he
      refine ⟨hwf', by omega, ?_⟩
      simp only [List.length_append]
      omega

/-- Up to 4 GiB, the places that are told are the places themselves. -/
theorem Reading.map_told (h : Reading pc bytes found) (hle : pc + bytes.length ≤ 0x100000000) :
    found.map told = found := by
  have hsame : ∀ e ∈ found, told e = id e := by
    intro e he
    obtain ⟨-, -, hless⟩ := h.inside e he
    exact Prod.ext (placeWord_of_lt (by omega)) rfl
  rw [List.map_congr_left hsame, List.map_id]

/-- Parts that are read one by one are read together. -/
theorem Reading.append (h : Reading pc front found)
    (hmore : Reading (pc + front.length) back more) :
    Reading pc (front ++ back) (found ++ more) := by
  induction h with
  | nil pc => exact hmore
  | @cons pc bytes s found h hrest ih =>
    obtain ⟨taken, rfl, hsize, -, hsame⟩ := step_takes h
    rw [List.length_append, hsize, ← Nat.add_assoc] at hmore
    have hall := Reading.cons (hsame (s.rest ++ back)) (ih hmore)
    rwa [← List.append_assoc] at hall

/-- Reading goes past what can be read, whatever follows. -/
theorem Reading.decodeFrom_append (h : Reading pc bytes found) {bound : Nat} {rest : Bytes}
    (hbound : (bytes ++ rest).length ≤ bound) (done : List (Nat × Instruction)) :
    decodeFrom bound pc (bytes ++ rest) done =
      decodeFrom bound (pc + bytes.length) rest ((found.map told).reverse ++ done) := by
  induction h generalizing bound done with
  | nil pc => rfl
  | @cons pc bytes s found h hrest ih =>
    obtain ⟨taken, rfl, hsize, hpos, hsame⟩ := step_takes h
    rw [List.append_assoc] at hbound ⊢
    simp only [List.length_append] at hbound
    -- the first instruction may take several bytes but only one from the bound
    obtain ⟨bound, rfl⟩ : ∃ k, bound = k + 1 := ⟨bound - 1, by omega⟩
    rw [decodeFrom_step (hsame _), ih (by simp only [List.length_append]; omega),
      decodeFrom_bound (n := bound) (m := bound + 1) (by omega) (by omega)]
    simp [hsize, Nat.add_assoc]

/-- Bytes can be read up to a place where no instruction can be read, which may be their end. -/
theorem exists_reading (pc : Nat) (bytes : Bytes) :
    ∃ front back found fault, bytes = front ++ back ∧ Reading pc front found ∧
      step (pc + front.length) back = .error fault := by
  cases hstep : step pc bytes with
  | error fault => exact ⟨[], bytes, [], fault, rfl, .nil pc, hstep⟩
  | ok s =>
    obtain ⟨taken, hbytes, hsize, -, hsame⟩ := step_takes hstep
    obtain ⟨front, back, found, fault, hrest, hread, hfault⟩ := exists_reading (pc + s.size) s.rest
    have hmore := Reading.cons (hsame front) hread
    refine ⟨taken ++ front, back, (pc, s.instruction) :: found, fault, ?_, hmore, ?_⟩
    · rw [hbytes, hrest, List.append_assoc]
    · rw [List.length_append, hsize, ← Nat.add_assoc]
      exact hfault
termination_by bytes.length
decreasing_by exact length_rest_lt hstep

/-! ## The reading of code -/

theorem Reading.decode_append (h : Reading 0 front found) (back : Bytes) :
    decode (front ++ back) =
      decodeFrom (front ++ back).length front.length back (found.map told).reverse := by
  have hread : decodeFrom _ 0 (front ++ back) [] = _ := h.decodeFrom_append (Nat.le_refl _) []
  rwa [Nat.zero_add, List.append_nil] at hread

theorem Reading.decode_eq (h : Reading 0 code found) : decode code = .ok (found.map told) := by
  have hread := h.decode_append []
  rw [List.append_nil] at hread
  rw [hread]
  simp [decodeFrom]

theorem Reading.decode_eq_of_le (h : Reading 0 code found) (hle : code.length ≤ 0x100000000) :
    decode code = .ok found := by
  rw [h.decode_eq, h.map_told (by omega)]

/-- A fault behind what can be read is told with its place. -/
theorem Reading.decode_eq_error (h : Reading 0 front found) (hback : back ≠ [])
    (hfault : step front.length back = .error fault) :
    decode (front ++ back) = .error (.decode (placeWord front.length) fault) := by
  obtain ⟨b, back, rfl⟩ := List.exists_cons_of_ne_nil hback
  rw [h.decode_append, List.length_append, List.length_cons, ← Nat.add_assoc]
  simp only [decodeFrom, step_placeWord, hfault]

/-- Code can be read just if it is a reading from end to end. -/
theorem decode_eq_ok_iff :
    decode code = .ok found ↔ ∃ read, Reading 0 code read ∧ found = read.map told := by
  constructor
  · intro h
    obtain ⟨front, back, read, fault, rfl, hread, hfault⟩ := exists_reading 0 code
    rw [Nat.zero_add] at hfault
    by_cases hback : back = []
    · subst hback
      rw [List.append_nil] at h ⊢
      rw [hread.decode_eq] at h
      exact ⟨read, hread, (Except.ok.inj h).symm⟩
    · rw [hread.decode_eq_error hback hfault] at h
      cases h
  · rintro ⟨read, hread, rfl⟩
    exact hread.decode_eq

theorem decode_eq_ok_iff_of_le (hle : code.length ≤ 0x100000000) :
    decode code = .ok found ↔ Reading 0 code found := by
  rw [decode_eq_ok_iff]
  constructor
  · rintro ⟨read, hread, rfl⟩
    rwa [hread.map_told (by omega)]
  · exact fun hread => ⟨found, hread, (hread.map_told (by omega)).symm⟩

/-- Code cannot be read just if no instruction can be read behind some of it, before its end. -/
theorem decode_eq_error_iff {e : BytecodeError} :
    decode code = .error e ↔ ∃ front back found fault, code = front ++ back ∧ back ≠ [] ∧
      Reading 0 front found ∧ step front.length back = .error fault ∧
        e = .decode (placeWord front.length) fault := by
  constructor
  · intro h
    obtain ⟨front, back, found, fault, rfl, hread, hfault⟩ := exists_reading 0 code
    rw [Nat.zero_add] at hfault
    have hback : back ≠ [] := by
      rintro rfl
      rw [List.append_nil, hread.decode_eq] at h
      cases h
    rw [hread.decode_eq_error hback hfault] at h
    exact ⟨front, back, found, fault, rfl, hback, hread, hfault, (Except.error.inj h).symm⟩
  · rintro ⟨front, back, found, fault, rfl, hback, hread, hfault, rfl⟩
    exact hread.decode_eq_error hback hfault

/-! ## Code that moves -/

/-- An instruction at its new place. -/
def movedBy (amount : Nat) (e : Nat × Instruction) : Nat × Instruction := (e.1 + amount, e.2)

theorem step_add {amount : Nat} (h : amount % 4 = 0) (pc : Nat) (bytes : Bytes) :
    step (pc + amount) bytes = step pc bytes :=
  step_congr (by omega) bytes

/-- Code that stands later by a multiple of four is read as before, at its new places. -/
theorem Reading.moved {amount : Nat} (h : Reading pc bytes found) (haligned : amount % 4 = 0) :
    Reading (pc + amount) bytes (found.map (movedBy amount)) := by
  induction h with
  | nil pc => exact .nil _
  | @cons pc bytes s found h hrest ih =>
    rw [Nat.add_right_comm] at ih
    exact .cons ((step_add haligned pc bytes).trans h) ih

end Readings

/-! ## Instructions one behind the other -/

/-- The instructions with the places where they stand, written from `pc` on. -/
def placed : (pc : Nat) → List Instruction → List (Nat × Instruction)
  | _, [] => []
  | pc, i :: rest => (pc, i) :: placed (pc + (i.bytes pc).length) rest

theorem encodeFrom_eq (pc : Nat) (is : List Instruction) (done : List Bytes) :
    encodeFrom pc is done = done.reverse ++ encodeFrom pc is [] := by
  induction is generalizing pc done with
  | nil => simp [encodeFrom]
  | cons i is ih =>
    simp only [encodeFrom]
    rw [ih, ih _ [i.bytes pc]]
    simp

@[simp] theorem encode_nil (pc : Nat) : encode pc [] = [] := rfl

theorem encode_cons (pc : Nat) (i : Instruction) (is : List Instruction) :
    encode pc (i :: is) = i.bytes pc ++ encode (pc + (i.bytes pc).length) is := by
  simp only [encode, encodeFrom]
  rw [encodeFrom_eq]
  simp

theorem encode_append (pc : Nat) (front back : List Instruction) :
    encode pc (front ++ back) = encode pc front ++ encode (pc + (encode pc front).length) back := by
  induction front generalizing pc with
  | nil => simp
  | cons i front ih =>
    simp only [List.cons_append, encode_cons, ih, List.append_assoc, List.length_append,
      Nat.add_assoc]

theorem placed_append (pc : Nat) (front back : List Instruction) :
    placed pc (front ++ back) = placed pc front ++ placed (pc + (encode pc front).length) back := by
  induction front generalizing pc with
  | nil => simp [placed]
  | cons i front ih =>
    simp only [List.cons_append, placed, encode_cons, ih, List.length_append, Nat.add_assoc]

/-- What does nothing is one zero byte. -/
theorem encode_replicate_nop (pc k : Nat) :
    encode pc (List.replicate k .nop) = List.replicate k 0 := by
  induction k generalizing pc with
  | zero => rfl
  | succ k ih =>
    rw [List.replicate_succ, encode_cons, ih]
    rfl

/-- What was written can be read. -/
theorem reading_encode {is : List Instruction} (h : ∀ i ∈ is, i.WellFormed) (pc : Nat) :
    Reading pc (encode pc is) (placed pc is) := by
  induction is generalizing pc with
  | nil => exact .nil pc
  | cons i is ih =>
    rw [encode_cons]
    exact .cons (step_bytes (h i (by simp)) pc _) (ih (fun j hj => h j (by simp [hj])) _)

/-- **Code behind code**: well-formed instructions that end at a multiple of four leave the reading
of what follows as it was. -/
theorem decode_encode_append {front : List Instruction} (h : ∀ i ∈ front, i.WellFormed)
    (haligned : (encode 0 front).length % 4 = 0) {code : Bytes}
    (hle : (encode 0 front ++ code).length ≤ 0x100000000) :
    decode (encode 0 front ++ code) =
      match decode code with
      | .ok found => .ok (placed 0 front ++ found.map (movedBy (encode 0 front).length))
      | .error e => .error (e.movedBy (encode 0 front).length) := by
  have hfront := reading_encode h 0
  obtain ⟨good, bad, found, fault, rfl, hread, hfault⟩ := exists_reading 0 code
  rw [Nat.zero_add] at hfault
  have hmoved := hread.moved haligned
  have hboth := hfront.append hmoved
  simp only [List.length_append] at hle
  by_cases hbad : bad = []
  · subst hbad
    rw [List.append_nil, hread.decode_eq_of_le (by omega)]
    exact hboth.decode_eq_of_le (by rw [List.length_append]; omega)
  · have hpos := List.length_pos_iff.2 hbad
    have hbehind : step (encode 0 front ++ good).length bad = .error fault := by
      rw [List.length_append, Nat.add_comm, step_add haligned]
      exact hfault
    rw [← List.append_assoc, hboth.decode_eq_error hbad hbehind,
      hread.decode_eq_error hbad hfault, placeWord_of_lt (by rw [List.length_append]; omega),
      placeWord_of_lt (by omega), List.length_append, Nat.add_comm]
    rfl

end Bytecode

end ValueCoverage
