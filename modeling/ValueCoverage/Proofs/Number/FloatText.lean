import ValueCoverage.Proofs.Number.Shortest

/-!
# Floating-point numbers are read as they are written

Reading the text of a decimal finds its digits and its point again, whether it is written in places
or with a power of ten. As the shortest decimal of a number is rounded to the number, the text of
every number is read back to its bits; only what is not a number comes back with bits of its own.
-/

namespace ValueCoverage.Number

/-! ## Parts of a text -/

/-- A text that does not begin with a digit. -/
def NoDigitFirst (cs : List Char) : Prop := ∀ c, cs.head? = some c → c.isDigit = false

theorem takeDigits_append {ds rest : List Char} (hds : ∀ c ∈ ds, c.isDigit = true)
    (hrest : NoDigitFirst rest) : takeDigits (ds ++ rest) = (ds, rest) := by
  rw [takeDigits, List.span_eq_takeWhile_dropWhile, List.takeWhile_append_of_pos hds,
    List.dropWhile_append_of_pos hds]
  cases rest with
  | nil => simp
  | cons c cs => simp [hrest c rfl]

/-- The bits of the number with the given digits, its point so many places behind the first. -/
def digitsBits (f : Format) (ds : List Char) (point : ℤ) : ℕ :=
  let significant := ds.dropWhile (· = '0')
  if significant.isEmpty then 0
  else roundDecimal f (dropLastZeros significant) (point - (ds.length - significant.length : ℕ))

theorem some_digitsBits (f : Format) (ds : List Char) (length e : ℤ) :
    some (digitsBits f ds (length + e)) =
      if (ds.dropWhile (· = '0')).isEmpty then some 0
      else some (roundDecimal f (dropLastZeros (ds.dropWhile (· = '0')))
        (length - (ds.length - (ds.dropWhile (· = '0')).length : ℕ) + e)) := by
  rw [digitsBits, sub_add_eq_add_sub]
  split <;> rfl

section Magnitude

variable {whole tail : List Char} {e : ℤ}

theorem readMagnitude_pointed (f : Format) {fraction : List Char}
    (hwhole : ∀ c ∈ whole, c.isDigit = true) (hne : whole ≠ [])
    (hfraction : ∀ c ∈ fraction, c.isDigit = true) (htail : NoDigitFirst tail)
    (he : readExponent tail = some e) :
    readMagnitude f (whole ++ '.' :: (fraction ++ tail)) =
      some (digitsBits f (whole ++ fraction) (whole.length + e)) := by
  have hpoint : NoDigitFirst ('.' :: (fraction ++ tail)) := by
    intro c hc
    cases hc
    rfl
  have hnonempty : (whole.isEmpty && fraction.isEmpty) = false := by simp [hne]
  simp only [readMagnitude, takeDigits_append hwhole hpoint, takeDigits_append hfraction htail,
    hnonempty, he, some_digitsBits]
  rfl

theorem readMagnitude_unpointed (f : Format) (hwhole : ∀ c ∈ whole, c.isDigit = true)
    (hne : whole ≠ []) (he : readExponent ('e' :: tail) = some e) :
    readMagnitude f (whole ++ 'e' :: tail) = some (digitsBits f whole (whole.length + e)) := by
  have hmark : NoDigitFirst ('e' :: tail) := by
    intro c hc
    cases hc
    rfl
  have hnonempty : (whole.isEmpty && List.isEmpty ([] : List Char)) = false := by simp [hne]
  simp only [readMagnitude, takeDigits_append hwhole hmark, List.cons.injEq, Char.reduceEq,
    false_and, imp_false, not_false_eq_true, implies_true, hnonempty, he, List.append_nil,
    some_digitsBits]
  rfl

end Magnitude

/-! ## The exponent -/

/-- The exponent of a decimal with a power of ten. -/
def exponentText (power : ℤ) : List Char :=
  (if power < 0 then ['-'] else []) ++ digitsOf power.natAbs

theorem readExponent_exponentText {power : ℤ} (h : power.natAbs < exponentLimit) :
    readExponent ('e' :: exponentText power) = some power := by
  have hvalue : exponentValue (digitsOf power.natAbs) = power.natAbs := by
    rw [exponentValue_eq] <;> rw [digitsValue_digitsOf]
    exact h
  have hdigits : ((digitsOf power.natAbs).isEmpty || !(digitsOf power.natAbs).all Char.isDigit) =
      false := by
    simp [digitsOf_ne_nil, all_isDigit_digitsOf]
  by_cases hneg : power < 0
  · rw [exponentText, if_pos hneg, List.singleton_append, readExponent, if_pos (.inl rfl)]
    simp only [hdigits, hvalue]
    rw [if_neg (by decide), if_pos trivial]
    congr 1
    omega
  · rw [exponentText, if_neg hneg, List.nil_append, readExponent, if_pos (.inl rfl)]
    · simp only [hdigits, hvalue]
      rw [if_neg (by decide), if_neg (by decide)]
      congr 1
      omega
    · exact fun ds hsign => digitsOf_ne_cons rfl _ ds hsign
    · exact fun ds hsign => digitsOf_ne_cons rfl _ ds hsign

/-! ## Decimals -/

theorem Decimal.Normal.dropWhile_append {d : Decimal} (hd : d.Normal) (rest : List Char) :
    (d.digits ++ rest).dropWhile (· = '0') = d.digits ++ rest := by
  have hhead := hd.head
  cases hds : d.digits with
  | nil => exact absurd hds hd.ne_nil
  | cons c cs =>
    rw [hds] at hhead
    have hc : c ≠ '0' := fun h => hhead (congrArg some h)
    rw [List.cons_append, List.dropWhile_cons, if_neg (by simpa using hc)]

/-- Zeros before the first digit and behind the last one say nothing about the digits. -/
theorem digitsBits_zeros (f : Format) {d : Decimal} (hd : d.Normal) (before behind : ℕ)
    (point : ℤ) :
    digitsBits f (List.replicate before '0' ++ (d.digits ++ List.replicate behind '0')) point =
      roundDecimal f d.digits (point - before) := by
  have hsignificant : (List.replicate before '0' ++
      (d.digits ++ List.replicate behind '0')).dropWhile (· = '0') =
        d.digits ++ List.replicate behind '0' := by
    rw [List.dropWhile_append_of_pos (by simp +contextual), hd.dropWhile_append]
  have hnonempty : (d.digits ++ List.replicate behind '0').isEmpty = false := by simp [hd.ne_nil]
  simp only [digitsBits, hsignificant, hnonempty, dropLastZeros_append_zeros hd.last,
    List.length_append, List.length_replicate, Nat.add_sub_cancel]
  rfl

theorem isDigit_of_mem_replicate {n : ℕ} {c : Char} (h : c ∈ List.replicate n '0') :
    c.isDigit = true := by
  rw [List.eq_of_mem_replicate h]
  rfl

theorem noDigitFirst_nil : NoDigitFirst [] := fun _ h => nomatch h

/-- A number of at least one tenth: its digits, perhaps with zeros behind them, cut at the point. -/
theorem Decimal.plain_eq_of_pos {d : Decimal} (hpoint : 0 < d.point) :
    ∃ whole fraction behind, d.plain = whole ++ '.' :: fraction ∧ (whole.length : ℤ) = d.point ∧
      whole ++ fraction = d.digits ++ List.replicate behind '0' := by
  obtain ⟨p, hp⟩ : ∃ p : ℕ, d.point = p := ⟨d.point.toNat, by omega⟩
  have hplain : d.plain = d.digits.take p ++ List.replicate (p - (d.digits.take p).length) '0' ++
      '.' :: (if (d.digits.drop p).isEmpty then ['0'] else d.digits.drop p) := by
    rw [plain, if_neg (by omega), hp]
    rfl
  rw [hplain, hp]
  by_cases hlength : d.digits.length ≤ p
  · rw [List.take_of_length_le hlength, List.drop_of_length_le hlength]
    refine ⟨_, ['0'], p - d.digits.length + 1, rfl, ?_, ?_⟩
    · rw [List.length_append, List.length_replicate]
      omega
    · rw [List.append_assoc, List.replicate_succ']
  · have htake : (d.digits.take p).length = p := by
      rw [List.length_take]
      omega
    refine ⟨d.digits.take p, d.digits.drop p, 0, ?_, by rw [htake], ?_⟩
    · rw [htake, Nat.sub_self, List.replicate_zero, List.append_nil, if_neg (by simp; omega)]
    · rw [List.take_append_drop, List.replicate_zero, List.append_nil]

/-- In places, the digits stand between zeros, and the point is where it belongs. -/
theorem Decimal.plain_eq (d : Decimal) :
    ∃ whole fraction before behind, d.plain = whole ++ '.' :: fraction ∧ whole ≠ [] ∧
      whole ++ fraction = List.replicate before '0' ++ (d.digits ++ List.replicate behind '0') ∧
      (whole.length : ℤ) - before = d.point := by
  by_cases hpoint : d.point ≤ 0
  · refine ⟨['0'], List.replicate (-d.point).toNat '0' ++ d.digits, (-d.point).toNat + 1, 0, ?_,
      List.cons_ne_nil _ _, by simp [List.replicate_succ], ?_⟩
    · rw [plain, if_pos hpoint]
      rfl
    · rw [List.length_singleton]
      omega
  · obtain ⟨whole, fraction, behind, htext, hlength, hdigits⟩ :=
      d.plain_eq_of_pos (not_le.1 hpoint)
    refine ⟨whole, fraction, 0, behind, htext, ?_, hdigits, by rw [hlength]; simp⟩
    rintro rfl
    rw [List.length_nil] at hlength
    omega

theorem Decimal.Normal.isDigit_of_mem {d : Decimal} (hd : d.Normal) {before behind : ℕ} {c : Char}
    (h : c ∈ List.replicate before '0' ++ (d.digits ++ List.replicate behind '0')) :
    c.isDigit = true := by
  simp only [List.mem_append] at h
  rcases h with h | h | h
  · exact isDigit_of_mem_replicate h
  · exact hd.isDigit c h
  · exact isDigit_of_mem_replicate h

theorem readMagnitude_plain (f : Format) {d : Decimal} (hd : d.Normal) :
    readMagnitude f d.plain = some (roundDecimal f d.digits d.point) := by
  obtain ⟨whole, fraction, before, behind, htext, hne, hdigits, hpoint⟩ := d.plain_eq
  have hall : ∀ c ∈ whole ++ fraction, c.isDigit = true :=
    fun c hc => hd.isDigit_of_mem (hdigits ▸ hc)
  rw [htext, ← List.append_nil fraction,
    readMagnitude_pointed f (fun c hc => hall c (List.mem_append_left _ hc)) hne
      (fun c hc => hall c (List.mem_append_right _ hc)) noDigitFirst_nil rfl,
    hdigits, digitsBits_zeros f hd, add_zero, hpoint]

/-- With a power of ten, one digit stands before the point. -/
theorem Decimal.Normal.scientific_eq {d : Decimal} (hd : d.Normal) :
    ∃ first more, d.digits = first :: more ∧ d.scientific = [first] ++
      ((if more.isEmpty then [] else '.' :: more) ++ 'e' :: exponentText (d.point - 1)) := by
  obtain ⟨first, more, hds⟩ := List.exists_cons_of_ne_nil hd.ne_nil
  refine ⟨first, more, hds, ?_⟩
  rw [scientific, hds]
  cases more <;> rfl

theorem readMagnitude_scientific (f : Format) {d : Decimal} (hd : d.Normal)
    (hlow : -decimalRange ≤ d.point) (hhigh : d.point ≤ decimalRange) :
    readMagnitude f d.scientific = some (roundDecimal f d.digits d.point) := by
  have hexponent : readExponent ('e' :: exponentText (d.point - 1)) = some (d.point - 1) := by
    refine readExponent_exponentText ?_
    unfold decimalRange at hlow hhigh
    unfold exponentLimit
    omega
  have hbits : digitsBits f d.digits (1 + (d.point - 1)) = roundDecimal f d.digits d.point := by
    have h := digitsBits_zeros f hd 0 0 d.point
    rw [add_sub_cancel, ← sub_zero d.point]
    simpa using h
  have hall := hd.isDigit
  obtain ⟨first, more, hds, htext⟩ := hd.scientific_eq
  rw [← hbits, htext, hds]
  rw [hds] at hall
  have hfirst : ∀ c ∈ [first], c.isDigit = true :=
    fun c hc => hall c (List.mem_singleton.1 hc ▸ List.mem_cons_self)
  cases more with
  | nil => exact readMagnitude_unpointed f hfirst (List.cons_ne_nil _ _) hexponent
  | cons second more =>
    have hmark : NoDigitFirst ('e' :: exponentText (d.point - 1)) := by
      intro c hc
      cases hc
      rfl
    exact readMagnitude_pointed f hfirst (List.cons_ne_nil _ _)
      (fun c hc => hall c (List.mem_cons_of_mem _ hc)) hmark hexponent

theorem readMagnitude_text (f : Format) {d : Decimal} (hd : d.Normal)
    (hlow : -decimalRange ≤ d.point) (hhigh : d.point ≤ decimalRange) :
    readMagnitude f d.text = some (roundDecimal f d.digits d.point) := by
  rw [Decimal.text]
  split
  · exact readMagnitude_plain f hd
  · exact readMagnitude_scientific f hd hlow hhigh

theorem roundDecimal_shortest {f : Format} (hf : f.Usual) {x : Scaled} (hx : f.Has x) :
    roundDecimal f (shortest f x).digits (shortest f x).point = f.magnitude x := by
  obtain ⟨hnormal, hnear⟩ := shortest_spec hf hx
  obtain ⟨hlow, hhigh⟩ := shortest_point_mem hf hx
  generalize shortest f x = d at *
  have hvalue : ((digitsValue d.digits * tenTo (d.point - d.digits.length).toNat : ℕ) : ℚ) /
      tenTo (-(d.point - d.digits.length)).toNat = d.value := by
    rw [Nat.cast_mul, mul_div_assoc, tenTo_div_tenTo, Decimal.value]
  have hpos : 0 < digitsValue d.digits := by
    refine Nat.pos_of_ne_zero fun hzero => ?_
    have := hnormal.le_value
    rw [Decimal.value, hzero, Nat.cast_zero, zero_mul] at this
    exact absurd this (not_le.2 (by positivity))
  rw [roundDecimal, if_neg (by omega), if_neg (by omega)]
  exact roundRatio_of_nearest hf hx (Nat.mul_pos hpos (tenTo_pos _)) (tenTo_pos _)
    (hvalue ▸ hnear)

/-- **The text of a positive number is read back.** -/
theorem readMagnitude_shortest {f : Format} (hf : f.Usual) {x : Scaled} (hx : f.Has x) :
    readMagnitude f (shortest f x).text = some (f.magnitude x) := by
  obtain ⟨hlow, hhigh⟩ := shortest_point_mem hf hx
  rw [readMagnitude_text f (shortest_spec hf hx).1 hlow hhigh, roundDecimal_shortest hf hx]

/-! ## Signs and words -/

/-- Reads a number without a sign. -/
def readUnsigned (f : Format) (cs : List Char) : Option ℕ :=
  let small := String.ofList (cs.map Char.toLower)
  if small = "inf" ∨ small = "infinity" then some f.infinityBits
  else if small = "nan" then some f.nanBits
  else readMagnitude f cs

theorem readFloat_minus (f : Format) {s : String} {cs : List Char} (hs : s.toList = '-' :: cs) :
    readFloat f s = (readUnsigned f cs).map (f.signed true) := by
  rw [readFloat, hs]
  rfl

theorem readFloat_of_no_sign (f : Format) {s : String} {c : Char} {cs : List Char}
    (hs : s.toList = c :: cs) (hminus : c ≠ '-') (hplus : c ≠ '+') :
    readFloat f s = (readUnsigned f (c :: cs)).map (f.signed false) := by
  simp only [readFloat, hs, List.cons.injEq, hminus, hplus, false_and, imp_false,
    not_false_eq_true, implies_true]
  rfl

theorem readFloat_signed (f : Format) (negative : Bool) {s : String} {c : Char} {cs : List Char}
    (hs : s.toList = c :: cs) (hminus : c ≠ '-') (hplus : c ≠ '+') :
    readFloat f ((if negative then "-" else "") ++ s) =
      (readUnsigned f (c :: cs)).map (f.signed negative) := by
  cases negative with
  | false =>
    refine readFloat_of_no_sign f ?_ hminus hplus
    rw [String.toList_append, hs]
    rfl
  | true =>
    refine readFloat_minus f ?_
    rw [String.toList_append, hs]
    rfl

theorem toLower_of_isDigit {c : Char} (hc : c.isDigit = true) : c.toLower = c := by
  -- digits come before the capital letters
  have hlower : ¬(c.val ≥ 'A'.val ∧ c.val ≤ 'Z'.val) := by
    simp only [Char.isDigit, Bool.and_eq_true, decide_eq_true_eq, ge_iff_le,
      UInt32.le_iff_toNat_le] at hc ⊢
    rintro ⟨hupper, -⟩
    exact absurd (hupper.trans hc.2) (by decide)
  exact dif_neg hlower

/-- A text that begins with a digit is not one of the words. -/
theorem readUnsigned_digit (f : Format) {c : Char} (hc : c.isDigit = true) (cs : List Char) :
    readUnsigned f (c :: cs) = readMagnitude f (c :: cs) := by
  have hword (d : Char) (ds : List Char) (hd : d.isDigit = false) :
      String.ofList ((c :: cs).map Char.toLower) ≠ String.ofList (d :: ds) := by
    intro h
    have hfirst := (List.cons.inj (String.ofList_inj.1 h)).1
    rw [toLower_of_isDigit hc] at hfirst
    rw [hfirst, hd] at hc
    exact Bool.false_ne_true hc
  have hinf := hword 'i' ['n', 'f'] rfl
  have hinfinity := hword 'i' ['n', 'f', 'i', 'n', 'i', 't', 'y'] rfl
  have hnan := hword 'n' ['a', 'n'] rfl
  exact (if_neg (not_or.2 ⟨hinf, hinfinity⟩)).trans (if_neg hnan)

/-- The text of a decimal begins with a digit. -/
theorem Decimal.Normal.text_eq_cons {d : Decimal} (hd : d.Normal) :
    ∃ c cs, d.text = c :: cs ∧ c.isDigit = true := by
  rw [text]
  split
  · obtain ⟨whole, fraction, before, behind, htext, hne, hdigits, -⟩ := d.plain_eq
    obtain ⟨c, cs, rfl⟩ := List.exists_cons_of_ne_nil hne
    have hmem : c ∈ List.replicate before '0' ++ (d.digits ++ List.replicate behind '0') := by
      rw [← hdigits]
      exact List.mem_cons_self
    exact ⟨c, _, htext, hd.isDigit_of_mem hmem⟩
  · obtain ⟨first, more, hds, htext⟩ := hd.scientific_eq
    exact ⟨first, _, htext, hd.isDigit first (hds ▸ List.mem_cons_self)⟩

/-- The bits that come back: those that stand for no number are made the usual ones. -/
def quietBits (f : Format) (bits : ℕ) : ℕ :=
  if (decode f bits).isNan then f.nanBits else bits

theorem floatText_of_isNan {f : Format} (words : Words) {bits : ℕ}
    (h : (decode f bits).isNan = true) : floatText f words bits = words.nan := by
  rw [floatText]
  cases hdecode : decode f bits with
  | nan => rfl
  | infinite negative => rw [hdecode] at h; cases h
  | finite negative x => rw [hdecode] at h; cases h

/-- **The text of any bits is read back to them, if they stand for a number.** -/
theorem readFloat_floatText {f : Format} (hf : f.Usual) {bits : ℕ} (h : bits < 2 * f.signBit) :
    readFloat f (floatText f ⟨"inf", "NaN"⟩ bits) = some (quietBits f bits) := by
  rw [floatText, quietBits]
  cases hdecode : decode f bits with
  | nan =>
    have hs : "NaN".toList = ['N', 'a', 'N'] := rfl
    exact readFloat_of_no_sign f hs (by decide) (by decide)
  | infinite negative =>
    have hs : "inf".toList = ['i', 'n', 'f'] := rfl
    exact (readFloat_signed f negative hs (by decide) (by decide)).trans
      (congrArg some (decode_infinite h hdecode))
  | finite negative x =>
    obtain ⟨hbits, hx⟩ := decode_finite h hdecode
    rcases hx with ⟨hzero, hmagnitude⟩ | hx
    · have hs : "0.0".toList = ['0', '.', '0'] := rfl
      rw [hmagnitude] at hbits
      simp only [if_pos hzero]
      exact (readFloat_signed f negative hs (by decide) (by decide)).trans (congrArg some hbits)
    · obtain ⟨c, cs, htext, hc⟩ := (shortest_spec hf hx).1.text_eq_cons
      have hs : (String.ofList (shortest f x).text).toList = c :: cs := by
        rw [String.toList_ofList, htext]
      simp only [if_neg (Nat.ne_of_gt hx.pos)]
      rw [readFloat_signed f negative hs (by rintro rfl; cases hc) (by rintro rfl; cases hc),
        readUnsigned_digit f hc, ← htext, readMagnitude_shortest hf hx, Option.map_some, hbits]
      rfl

/-! ## Characters -/

theorem Decimal.Normal.numberChar {d : Decimal} (hd : d.Normal) {c : Char} (h : c ∈ d.text) :
    NumberChar c := by
  rw [text] at h
  split at h
  · obtain ⟨whole, fraction, before, behind, htext, -, hdigits, -⟩ := d.plain_eq
    have hall (hc : c ∈ whole ++ fraction) : NumberChar c :=
      .of_isDigit (hd.isDigit_of_mem (hdigits ▸ hc))
    rw [htext] at h
    rcases List.mem_append.1 h with h | h
    · exact hall (List.mem_append_left _ h)
    · rcases List.mem_cons.1 h with rfl | h
      · exact .inr (.inl rfl)
      · exact hall (List.mem_append_right _ h)
  · obtain ⟨first, more, hds, htext⟩ := hd.scientific_eq
    have hall (hc : c ∈ first :: more) : NumberChar c := .of_isDigit (hd.isDigit c (hds ▸ hc))
    rw [htext, exponentText] at h
    simp only [List.mem_append, List.mem_cons, List.mem_ite_nil_left, List.mem_ite_nil_right,
      List.not_mem_nil, or_false] at h
    rcases h with rfl | ⟨-, rfl | h⟩ | rfl | ⟨-, rfl⟩ | h
    · exact hall List.mem_cons_self
    · exact .inr (.inl rfl)
    · exact hall (List.mem_cons_of_mem _ h)
    · exact .inl rfl
    · exact .inr (.inr rfl)
    · exact .of_isDigit (isDigit_of_mem_digitsOf h)

theorem NumberChar.of_mem_signed {negative : Bool} {s : String} (hs : ∀ c ∈ s.toList, NumberChar c)
    {c : Char} (h : c ∈ ((if negative then "-" else "") ++ s).toList) : NumberChar c := by
  rw [String.toList_append] at h
  rcases List.mem_append.1 h with h | h
  · cases negative with
    | false => exact absurd h List.not_mem_nil
    | true => exact .inr (.inr (List.mem_singleton.1 h))
  · exact hs c h

theorem numberChar_floatText {f : Format} (hf : f.Usual) {bits : ℕ} (hbits : bits < 2 * f.signBit)
    {c : Char} (h : c ∈ (floatText f ⟨"inf", "NaN"⟩ bits).toList) : NumberChar c := by
  rw [floatText] at h
  cases hdecode : decode f bits with
  | nan =>
    rw [hdecode] at h
    have hall : ∀ c ∈ "NaN".toList, NumberChar c := .of_all (by decide)
    exact hall c h
  | infinite negative =>
    rw [hdecode] at h
    exact .of_mem_signed (NumberChar.of_all (by decide)) h
  | finite negative x =>
    rw [hdecode] at h
    refine .of_mem_signed (fun c hc => ?_) h
    obtain ⟨-, ⟨hzero, -⟩ | hx⟩ := decode_finite hbits hdecode
    · rw [if_pos hzero] at hc
      exact NumberChar.of_all (by decide) c hc
    · rw [if_neg (Nat.ne_of_gt hx.pos), String.toList_ofList] at hc
      exact (shortest_spec hf hx).1.numberChar hc

end ValueCoverage.Number
