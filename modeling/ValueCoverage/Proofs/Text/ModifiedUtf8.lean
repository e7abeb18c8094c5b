import ValueCoverage.Text.ModifiedUtf8

/-!
# Modified UTF-8 is read as it was written

Every unit and every character is read back by its own bytes, whatever follows, so a text is told
by its encoding.
-/

namespace ValueCoverage.Text.ModifiedUtf8

/-- A byte that carries the low six bits of a unit. -/
theorem isContinuation_ofNat (n : Nat) : isContinuation (UInt8.ofNat (0x80 + n % 0x40)) = true := by
  simp only [isContinuation, decide_eq_true_eq, UInt8.toNat_ofNat']
  omega

theorem payload_ofNat (n : Nat) : payload (UInt8.ofNat (0x80 + n % 0x40)) = n % 0x40 := by
  simp only [payload, UInt8.toNat_ofNat']
  omega

theorem readUnits_unitBytes {u : Nat} (hu : u < 0x10000) (rest : Bytes) (done : List Nat) :
    readUnits (unitBytes u ++ rest) done = readUnits rest (u :: done) := by
  unfold unitBytes
  split
  · next h =>
    have hb : (UInt8.ofNat u).toNat = u := by
      rw [UInt8.toNat_ofNat']; omega
    rw [List.singleton_append, readUnits.eq_def]
    simp only [hb, if_pos h]
  · next h1 =>
    split
    · next h2 =>
      have hb : (UInt8.ofNat (0xC0 + u / 0x40)).toNat = 0xC0 + u / 0x40 := by
        rw [UInt8.toNat_ofNat']; omega
      have hu' : (0xC0 + u / 0x40) % 0x20 * 0x40 + u % 0x40 = u := by omega
      simp only [List.cons_append, List.nil_append, readUnits, hb, isContinuation_ofNat,
        payload_ofNat, hu', if_true]
      rw [if_neg (by omega), if_pos (by omega)]
    · next h2 =>
      have hb : (UInt8.ofNat (0xE0 + u / 0x1000)).toNat = 0xE0 + u / 0x1000 := by
        rw [UInt8.toNat_ofNat']; omega
      have hu' : ((0xE0 + u / 0x1000) % 0x10 * 0x40 + u / 0x40 % 0x40) * 0x40 + u % 0x40 = u := by
        omega
      simp only [List.cons_append, List.nil_append, readUnits, hb, isContinuation_ofNat,
        payload_ofNat, hu', Bool.and_self, if_true]
      rw [if_neg (by omega), if_neg (by omega), if_pos (by omega)]

theorem readUnits_flatMap {units : List Nat} (h : ∀ u ∈ units, u < 0x10000) (done : List Nat) :
    readUnits (units.flatMap unitBytes) done = some (done.reverse ++ units) := by
  induction units generalizing done with
  | nil => simp [readUnits]
  | cons u units ih =>
    rw [List.flatMap_cons, readUnits_unitBytes (h u (by simp)),
      ih (fun v hv => h v (by simp [hv]))]
    simp

theorem unitsOf_lt {c : Char} {u : Nat} (h : u ∈ unitsOf c) : u < 0x10000 := by
  have hc : c.toNat < 0x110000 := by
    have := c.valid
    simp only [UInt32.isValidChar, Nat.isValidChar] at this
    simp only [Char.toNat]
    omega
  unfold unitsOf at h
  split at h
  · simp only [List.mem_singleton] at h
    omega
  · simp only [List.mem_cons, List.not_mem_nil, or_false] at h
    omega

/-- No character is a surrogate, so the units of a character are one that is none, or a pair. -/
theorem readChars_unitsOf (c : Char) (rest : List Nat) (done : List Char) :
    readChars (unitsOf c ++ rest) done = readChars rest (c :: done) := by
  have hc := c.valid
  simp only [UInt32.isValidChar, Nat.isValidChar] at hc
  change c.toNat < 0xD800 ∨ (0xDFFF < c.toNat ∧ c.toNat < 0x110000) at hc
  unfold unitsOf
  split
  · rw [List.singleton_append, readChars.eq_def]
    simp only [Char.ofNat_toNat]
    rw [if_neg (by omega), if_neg (by omega)]
  · next h =>
    have hn : 0x10000 + (0xD800 + (c.toNat - 0x10000) / 0x400 - 0xD800) * 0x400 +
        (0xDC00 + (c.toNat - 0x10000) % 0x400 - 0xDC00) = c.toNat := by omega
    simp only [List.cons_append, List.nil_append, readChars, hn, Char.ofNat_toNat]
    rw [if_pos (by omega), if_pos (by omega)]

theorem readChars_flatMap (cs done : List Char) :
    readChars (cs.flatMap unitsOf) done = some (done.reverse ++ cs) := by
  induction cs generalizing done with
  | nil => simp [readChars]
  | cons c cs ih =>
    rw [List.flatMap_cons, readChars_unitsOf, ih]
    simp

@[simp] theorem decode?_encode (s : String) : decode? (encode s) = some s := by
  have hu : ∀ u ∈ s.toList.flatMap unitsOf, u < 0x10000 := by
    intro u h
    obtain ⟨c, -, hc⟩ := List.mem_flatMap.1 h
    exact unitsOf_lt hc
  simp [decode?, encode, readUnits_flatMap hu, readChars_flatMap]

theorem encode_injective {s t : String} (h : encode s = encode t) : s = t := by
  have := decode?_encode s
  rw [h, decode?_encode] at this
  exact (Option.some.inj this).symm

/-! ## Lengths -/

/-- Every unit takes a byte. -/
theorem length_le_of_readUnits {bytes : Bytes} {done units : List Nat}
    (h : readUnits bytes done = some units) : units.length ≤ done.length + bytes.length := by
  fun_induction readUnits bytes done with
  | case1 done =>
    cases h
    simp
  | _ => grind

/-- Every character takes a unit. -/
theorem length_le_of_readChars {units : List Nat} {done cs : List Char}
    (h : readChars units done = some cs) : cs.length ≤ done.length + units.length := by
  fun_induction readChars units done with
  | case1 done =>
    cases h
    simp
  | _ => grind

/-- No text has more characters than bytes. -/
theorem length_le_of_decode? {bytes : Bytes} {s : String} (h : decode? bytes = some s) :
    s.length ≤ bytes.length := by
  unfold decode? at h
  obtain ⟨units, hunits, h⟩ := Option.bind_eq_some_iff.1 h
  obtain ⟨cs, hcs, h⟩ := Option.bind_eq_some_iff.1 h
  cases h
  have hread := length_le_of_readUnits hunits
  have hspelled := length_le_of_readChars hcs
  rw [String.length_ofList]
  simp only [List.length_nil] at hread hspelled
  omega

end ValueCoverage.Text.ModifiedUtf8
