import Mathlib.Algebra.Order.Field.Power
import Mathlib.Algebra.Order.Field.Rat
import Mathlib.Tactic.FieldSimp
import Mathlib.Tactic.Linarith
import Mathlib.Tactic.Positivity
import Mathlib.Tactic.Ring
import ValueCoverage.Number.Binary

/-!
# Rounding to binary floating point

A number of a format is the nearest one to every fraction in an interval around it: halfway to its
neighbours, with the ends if the significand is even. Below a power of two the neighbour is nearer.
`roundRatio` finds the number of the interval in which a fraction lies.
-/

namespace ValueCoverage.Number

@[simp] theorem cast_twoTo (n : ℕ) : (twoTo n : ℚ) = 2 ^ n := by
  rw [twoTo, Nat.pow_eq, Nat.cast_pow, Nat.cast_ofNat]

theorem twoTo_pos (n : ℕ) : 0 < twoTo n := Nat.pow_pos (by decide)

theorem pow_toNat_div_pow_toNat {b : ℚ} (hb : b ≠ 0) (e : ℤ) :
    b ^ e.toNat / b ^ (-e).toNat = b ^ e := by
  rw [← zpow_natCast, ← zpow_natCast, ← zpow_sub₀ hb]
  congr 1
  omega

/-! ## Formats and their numbers -/

/-- The bounds within which both formats lie. -/
structure Format.Usual (f : Format) : Prop where
  two_le_precision : 2 ≤ f.precision
  precision_le : f.precision ≤ 53
  le_leastExponent : -1074 ≤ f.leastExponent
  greatest : f.leastExponent + f.topExponent + f.precision ≤ 1026

theorem Format.usual_single : Format.single.Usual := by
  constructor <;> decide

theorem Format.usual_double : Format.double.Usual := by
  constructor <;> decide

/-- The number that a significand and an exponent stand for. -/
def Scaled.value (x : Scaled) : ℚ := x.significand * 2 ^ x.exponent

namespace Format

/-- The bits of a number, without its sign. -/
def magnitude (f : Format) (x : Scaled) : ℕ :=
  (x.exponent - f.leastExponent).toNat * f.fractionSize + x.significand

/-- A positive number of the format as `decode` gives it: the significand has its full length
unless the exponent is the least one. -/
structure Has (f : Format) (x : Scaled) : Prop where
  pos : 0 < x.significand
  lt : x.significand < 2 * f.fractionSize
  least_le : f.leastExponent ≤ x.exponent
  full : x.exponent = f.leastExponent ∨ f.fractionSize ≤ x.significand
  finite : f.magnitude x < f.infinityBits

/-- The lower end of the interval around a number. -/
def lowEnd (f : Format) (x : Scaled) : ℚ :=
  (x.significand -
    if x.significand = f.fractionSize ∧ f.leastExponent < x.exponent then 1 / 4 else 1 / 2) *
    2 ^ x.exponent

/-- The upper end of the interval around a number. -/
def highEnd (x : Scaled) : ℚ := (x.significand + 1 / 2) * 2 ^ x.exponent

/-- The fraction lies in the interval around the number. -/
def Nearest (f : Format) (x : Scaled) (q : ℚ) : Prop :=
  f.lowEnd x ≤ q ∧ q ≤ highEnd x ∧ (x.significand % 2 = 1 → f.lowEnd x < q ∧ q < highEnd x)

variable {f : Format} {x : Scaled}

theorem Nearest.of_lt {q : ℚ} (hlow : f.lowEnd x < q) (hhigh : q < highEnd x) : f.Nearest x q :=
  ⟨hlow.le, hhigh.le, fun _ => ⟨hlow, hhigh⟩⟩

theorem Usual.cast_fractionSize (h : f.Usual) :
    (f.fractionSize : ℚ) = 2 ^ ((f.precision : ℤ) - 1) := by
  have := h.two_le_precision
  rw [fractionSize, cast_twoTo, ← zpow_natCast]
  congr 1
  omega

theorem Usual.fractionSize_mul_zpow (h : f.Usual) (e : ℤ) :
    (f.fractionSize : ℚ) * 2 ^ e = 2 ^ (f.precision + e - 1) := by
  rw [h.cast_fractionSize, ← zpow_add₀ two_ne_zero]
  congr 1
  omega

theorem Usual.two_mul_fractionSize_mul_zpow (h : f.Usual) (e : ℤ) :
    2 * (f.fractionSize : ℚ) * 2 ^ e = 2 ^ (f.precision + e) := by
  rw [mul_assoc, h.fractionSize_mul_zpow, ← zpow_one_add₀ two_ne_zero]
  congr 1
  omega

theorem fractionSize_pos (f : Format) : 0 < f.fractionSize :=
  Nat.pow_pos (by decide)

end Format

/-! ## Decoding -/

/-- The bits of a magnitude with a sign. -/
def Format.signed (f : Format) (negative : Bool) (magnitude : ℕ) : ℕ :=
  if negative then magnitude + f.signBit else magnitude

/-- The bits stand for no number. -/
def Decoded.isNan : Decoded → Bool
  | .nan => true
  | _ => false

section Decoding

variable {f : Format} {bits : ℕ}

theorem signed_mod_signBit (h : bits < 2 * f.signBit) :
    f.signed (decide (f.signBit ≤ bits)) (bits % f.signBit) = bits := by
  rw [Format.signed]
  by_cases hbits : f.signBit ≤ bits
  · rw [decide_eq_true hbits, if_pos rfl, Nat.mod_eq_sub_mod hbits, Nat.mod_eq_of_lt (by omega)]
    omega
  · rw [decide_eq_false hbits, if_neg (by decide), Nat.mod_eq_of_lt (by omega)]

theorem decode_infinite (hbits : bits < 2 * f.signBit) {negative : Bool}
    (h : decode f bits = .infinite negative) : f.signed negative f.infinityBits = bits := by
  have hparts := Nat.div_add_mod' (bits % f.signBit) f.fractionSize
  simp only [decode] at h
  split at h
  · next hfield =>
    split at h
    · next hfraction =>
      rw [hfield, hfraction, Nat.add_zero] at hparts
      cases h
      rw [Format.infinityBits, hparts, signed_mod_signBit hbits]
    · cases h
  · split at h <;> cases h

theorem magnitude_least (f : Format) (fraction : ℕ) :
    f.magnitude ⟨fraction, f.leastExponent⟩ = fraction := by
  simp [Format.magnitude]

theorem magnitude_full (f : Format) {field : ℕ} (h : field ≠ 0) (fraction : ℕ) :
    f.magnitude ⟨fraction + f.fractionSize, f.leastExponent + (field - 1 : ℕ)⟩ =
      field * f.fractionSize + fraction := by
  obtain ⟨n, rfl⟩ := Nat.exists_eq_succ_of_ne_zero h
  rw [Format.magnitude, add_sub_cancel_left, Int.toNat_natCast, Nat.succ_sub_one, Nat.succ_mul]
  dsimp only
  omega

theorem has_least {fraction : ℕ} (hpos : 0 < fraction) (hlt : fraction < f.fractionSize)
    (hfinite : fraction < f.infinityBits) : f.Has ⟨fraction, f.leastExponent⟩ where
  pos := hpos
  lt := by dsimp only; omega
  least_le := le_refl _
  full := .inl rfl
  finite := by rwa [magnitude_least]

theorem has_full {field fraction : ℕ} (h : field ≠ 0) (hlt : fraction < f.fractionSize)
    (hfinite : field * f.fractionSize + fraction < f.infinityBits) :
    f.Has ⟨fraction + f.fractionSize, f.leastExponent + (field - 1 : ℕ)⟩ where
  pos := Nat.add_pos_right _ f.fractionSize_pos
  lt := by dsimp only; omega
  least_le := by dsimp only; omega
  full := .inr (Nat.le_add_left _ _)
  finite := by rwa [magnitude_full f h]

/-- A finite magnitude is less than that of infinity. -/
theorem lt_infinityBits {magnitude : ℕ} (hlt : magnitude < f.signBit)
    (hfield : magnitude / f.fractionSize ≠ f.topExponent) : magnitude < f.infinityBits := by
  have hF := f.fractionSize_pos
  have hbound : magnitude / f.fractionSize < twoTo f.exponentBits :=
    (Nat.div_lt_iff_lt_mul hF).2 hlt
  refine (Nat.div_lt_iff_lt_mul hF).1 ?_
  unfold Format.topExponent at hfield ⊢
  omega

theorem decode_finite (hbits : bits < 2 * f.signBit) {negative : Bool} {x : Scaled}
    (h : decode f bits = .finite negative x) :
    f.signed negative (f.magnitude x) = bits ∧
      (x.significand = 0 ∧ f.magnitude x = 0 ∨ f.Has x) := by
  have hsigned := signed_mod_signBit hbits
  have hlt : bits % f.signBit < f.signBit :=
    Nat.mod_lt _ (Nat.mul_pos (twoTo_pos _) f.fractionSize_pos)
  simp only [decode] at h
  generalize bits % f.signBit = magnitude at h hsigned hlt
  have hparts := Nat.div_add_mod' magnitude f.fractionSize
  have hfraction := Nat.mod_lt magnitude f.fractionSize_pos
  split at h
  · split at h <;> cases h
  · next hfield =>
    have hfinite := lt_infinityBits hlt hfield
    generalize magnitude / f.fractionSize = field at h hparts
    generalize magnitude % f.fractionSize = fraction at h hparts hfraction
    subst hparts
    split at h
    · next hzero =>
      subst hzero
      rw [Nat.zero_mul, Nat.zero_add] at hsigned hfinite
      cases h
      rw [magnitude_least]
      exact ⟨hsigned, (Nat.eq_zero_or_pos fraction).imp (fun hzero => ⟨hzero, hzero⟩)
        fun hpos => has_least hpos hfraction hfinite⟩
    · next hzero =>
      cases h
      rw [magnitude_full f hzero]
      exact ⟨hsigned, .inr (has_full hzero hfraction hfinite)⟩

end Decoding

/-! ## Rounding to whole numbers -/

theorem roundHalfEven_of_mul {num den s : ℕ} (hden : 0 < den) (hlow : 2 * (s * den) ≤ 2 * num + den)
    (hhigh : 2 * num ≤ 2 * (s * den) + den)
    (hodd : s % 2 = 1 → 2 * (s * den) < 2 * num + den ∧ 2 * num < 2 * (s * den) + den) :
    roundHalfEven num den = s := by
  have hdiv : num / den * den + num % den = num := Nat.div_add_mod' num den
  have hmod : num % den < den := Nat.mod_lt num hden
  unfold roundHalfEven
  generalize num / den = low at hdiv
  generalize num % den = rest at hdiv hmod
  -- The quotient is the wanted number or one less.
  obtain rfl | rfl : s = low ∨ s = low + 1 := by
    have habove : s < low + 2 := by
      refine Nat.lt_of_mul_lt_mul_right (a := den) ?_
      rw [Nat.add_mul]
      omega
    have hbelow : low < s + 1 := by
      refine Nat.lt_of_mul_lt_mul_right (a := den) ?_
      rw [Nat.add_mul]
      omega
    omega
  · dsimp only
    split
    · rfl
    · rw [if_neg (by omega)]
      omega
  · rw [Nat.add_mul] at hlow hhigh hodd
    dsimp only
    rw [if_neg (by omega)]
    split
    · rfl
    · omega

/-- The only number within a half; at a half, the even one. -/
theorem roundHalfEven_eq {num den s : ℕ} (hden : 0 < den) (hlow : (s : ℚ) - 1 / 2 ≤ num / den)
    (hhigh : (num : ℚ) / den ≤ s + 1 / 2)
    (hodd : s % 2 = 1 → (s : ℚ) - 1 / 2 < num / den ∧ (num : ℚ) / den < s + 1 / 2) :
    roundHalfEven num den = s := by
  have hpos : (0 : ℚ) < den := Nat.cast_pos.2 hden
  rw [le_div_iff₀ hpos] at hlow
  rw [div_le_iff₀ hpos] at hhigh
  rw [lt_div_iff₀ hpos, div_lt_iff₀ hpos] at hodd
  refine roundHalfEven_of_mul hden ?_ ?_ fun h => ⟨?_, ?_⟩
  · have : 2 * ((s : ℚ) * den) ≤ 2 * num + den := by linarith
    exact_mod_cast this
  · have : 2 * (num : ℚ) ≤ 2 * (s * den) + den := by linarith
    exact_mod_cast this
  · have : 2 * ((s : ℚ) * den) < 2 * num + den := by linarith [(hodd h).1]
    exact_mod_cast this
  · have : 2 * (num : ℚ) < 2 * (s * den) + den := by linarith [(hodd h).2]
    exact_mod_cast this

/-! ## The exponent of the result -/

/-- The fraction with the power of two taken out of it. -/
def scaledBy (num den : ℕ) (e : ℤ) : ℕ × ℕ :=
  if 0 ≤ e then (num, den * twoTo e.toNat) else (num * twoTo (-e).toNat, den)

/-- The exponent at which the significand has its full length. -/
def fullExponent (f : Format) (num den : ℕ) : ℤ :=
  let guess : ℤ := (num.log2 : ℤ) - den.log2 - f.precision
  if (scaledBy num den guess).1 < twoTo f.precision * (scaledBy num den guess).2 then guess
  else guess + 1

theorem roundRatio_eq (f : Format) (num den : ℕ) :
    roundRatio f num den =
      let e := max (fullExponent f num den) f.leastExponent
      min ((e - f.leastExponent).toNat * f.fractionSize +
        roundHalfEven (scaledBy num den e).1 (scaledBy num den e).2) f.infinityBits := rfl

theorem scaledBy_snd_pos {den : ℕ} (hden : 0 < den) (num : ℕ) (e : ℤ) :
    0 < (scaledBy num den e).2 := by
  unfold scaledBy
  split
  · exact Nat.mul_pos hden (twoTo_pos _)
  · exact hden

theorem scaledBy_div (num den : ℕ) (e : ℤ) :
    ((scaledBy num den e).1 : ℚ) / (scaledBy num den e).2 = num / den / 2 ^ e := by
  unfold scaledBy
  split
  · next h =>
    have he : ((2 : ℚ) ^ e) = 2 ^ e.toNat := by
      rw [← zpow_natCast, Int.toNat_of_nonneg h]
    rw [he, Nat.cast_mul, cast_twoTo, div_div]
  · next h =>
    have he : ((2 : ℚ) ^ e) = (2 ^ (-e).toNat)⁻¹ := by
      rw [← zpow_natCast, ← zpow_neg, Int.toNat_of_nonneg (by omega), neg_neg]
    rw [he, Nat.cast_mul, cast_twoTo, div_inv_eq_mul, div_mul_eq_mul_div]

theorem zpow_log2_le {n : ℕ} (h : 0 < n) : (2 : ℚ) ^ (n.log2 : ℤ) ≤ n := by
  rw [zpow_natCast]
  exact_mod_cast Nat.log2_self_le (Nat.ne_of_gt h)

theorem lt_zpow_log2 (n : ℕ) : (n : ℚ) < 2 ^ ((n.log2 : ℤ) + 1) := by
  rw [show ((n.log2 : ℤ) + 1) = ((n.log2 + 1 : ℕ) : ℤ) from rfl, zpow_natCast]
  exact_mod_cast Nat.lt_log2_self

theorem zpow_log2_sub_le_div {num den : ℕ} (hnum : 0 < num) (hden : 0 < den) :
    (2 : ℚ) ^ ((num.log2 : ℤ) - den.log2 - 1) ≤ num / den := by
  rw [le_div_iff₀ (Nat.cast_pos.2 hden)]
  calc (2 : ℚ) ^ ((num.log2 : ℤ) - den.log2 - 1) * den
      ≤ 2 ^ ((num.log2 : ℤ) - den.log2 - 1) * 2 ^ ((den.log2 : ℤ) + 1) := by
        gcongr
        exact (lt_zpow_log2 den).le
    _ = 2 ^ (num.log2 : ℤ) := by
        rw [← zpow_add₀ two_ne_zero]
        congr 1
        omega
    _ ≤ num := zpow_log2_le hnum

theorem div_lt_zpow_log2_sub {den : ℕ} (num : ℕ) (hden : 0 < den) :
    (num : ℚ) / den < 2 ^ ((num.log2 : ℤ) - den.log2 + 1) := by
  rw [div_lt_iff₀ (Nat.cast_pos.2 hden)]
  calc (num : ℚ) < 2 ^ ((num.log2 : ℤ) + 1) := lt_zpow_log2 num
    _ = 2 ^ ((num.log2 : ℤ) - den.log2 + 1) * 2 ^ (den.log2 : ℤ) := by
        rw [← zpow_add₀ two_ne_zero]
        congr 1
        omega
    _ ≤ 2 ^ ((num.log2 : ℤ) - den.log2 + 1) * den := by
        gcongr
        exact zpow_log2_le hden

/-- At that exponent the significand lies between its least and twice its least. -/
theorem fullExponent_spec {f : Format} (hf : f.Usual) {num den : ℕ} (hnum : 0 < num)
    (hden : 0 < den) :
    (f.fractionSize : ℚ) * 2 ^ fullExponent f num den ≤ num / den ∧
      (num : ℚ) / den < 2 * f.fractionSize * 2 ^ fullExponent f num den := by
  have hlow := zpow_log2_sub_le_div hnum hden
  have hhigh := div_lt_zpow_log2_sub num hden
  have hfit : ∀ e, (scaledBy num den e).1 < twoTo f.precision * (scaledBy num den e).2 ↔
      (num : ℚ) / den < 2 ^ (f.precision + e) := by
    intro e
    rw [zpow_add₀ two_ne_zero, zpow_natCast, ← div_lt_iff₀ (by positivity), ← scaledBy_div,
      div_lt_iff₀ (Nat.cast_pos.2 (scaledBy_snd_pos hden num e)), ← cast_twoTo, ← Nat.cast_mul,
      Nat.cast_lt]
  unfold fullExponent
  rw [hf.fractionSize_mul_zpow, hf.two_mul_fractionSize_mul_zpow]
  dsimp only
  generalize hguess : (num.log2 : ℤ) - den.log2 - f.precision = guess
  split
  · next h =>
    rw [show f.precision + guess - 1 = (num.log2 : ℤ) - den.log2 - 1 by omega]
    exact ⟨hlow, (hfit guess).1 h⟩
  · next h =>
    rw [show f.precision + (guess + 1) = (num.log2 : ℤ) - den.log2 + 1 by omega,
      show (num.log2 : ℤ) - den.log2 + 1 - 1 = f.precision + guess by omega]
    exact ⟨not_lt.1 fun hlt => h ((hfit guess).2 hlt), hhigh⟩

/-- A fraction whose significand is large enough at one exponent, and small enough at another. -/
theorem exponent_le_of_lt {F q : ℚ} (hF : 0 < F) {a b : ℤ} (ha : F * 2 ^ a ≤ q)
    (hb : q < 2 * F * 2 ^ b) : a ≤ b := by
  have h : F * 2 ^ a < F * 2 ^ (b + 1) := by
    rw [zpow_add_one₀ two_ne_zero]
    linarith
  have := (zpow_lt_zpow_iff_right₀ (one_lt_two (α := ℚ))).1 (lt_of_mul_lt_mul_left h hF.le)
  omega

/-! ## The number of an interval -/

theorem roundRatio_of_exponent {f : Format} {num den s : ℕ} {e : ℤ} (hden : 0 < den)
    (he : max (fullExponent f num den) f.leastExponent = e)
    (hlow : ((s : ℚ) - 1 / 2) * 2 ^ e ≤ num / den) (hhigh : (num : ℚ) / den ≤ (s + 1 / 2) * 2 ^ e)
    (hodd : s % 2 = 1 →
      ((s : ℚ) - 1 / 2) * 2 ^ e < num / den ∧ (num : ℚ) / den < (s + 1 / 2) * 2 ^ e) :
    roundRatio f num den =
      min ((e - f.leastExponent).toNat * f.fractionSize + s) f.infinityBits := by
  have hpow : (0 : ℚ) < 2 ^ e := by positivity
  have hsignificand : roundHalfEven (scaledBy num den e).1 (scaledBy num den e).2 = s := by
    apply roundHalfEven_eq (scaledBy_snd_pos hden num e) <;> rw [scaledBy_div]
    · exact (le_div_iff₀ hpow).2 hlow
    · exact (div_le_iff₀ hpow).2 hhigh
    · exact fun h => ⟨(lt_div_iff₀ hpow).2 (hodd h).1, (div_lt_iff₀ hpow).2 (hodd h).2⟩
  rw [roundRatio_eq, he]
  dsimp only
  rw [hsignificand]

theorem Format.sub_half_le_lowEnd (f : Format) (x : Scaled) :
    ((x.significand : ℚ) - 1 / 2) * 2 ^ x.exponent ≤ f.lowEnd x := by
  unfold Format.lowEnd
  gcongr
  split <;> norm_num

/-- Only around a power of two the interval begins below the least full significand. -/
theorem Format.Has.significand_eq {f : Format} {x : Scaled} (hx : f.Has x)
    (hne : x.exponent ≠ f.leastExponent) (h : f.lowEnd x < f.fractionSize * 2 ^ x.exponent) :
    x.significand = f.fractionSize := by
  have hpow : (0 : ℚ) < 2 ^ x.exponent := by positivity
  refine Nat.le_antisymm (Nat.le_of_lt_succ ?_) (hx.full.resolve_left hne)
  have hlt := lt_of_mul_lt_mul_right ((f.sub_half_le_lowEnd x).trans_lt h) hpow.le
  have : (x.significand : ℚ) < f.fractionSize + 1 := by linarith
  exact_mod_cast this

theorem Format.lowEnd_of_narrow {f : Format} {x : Scaled} (h : x.significand = f.fractionSize)
    (hlt : f.leastExponent < x.exponent) :
    f.lowEnd x = (2 * f.fractionSize - 1 / 2) * 2 ^ (x.exponent - 1) := by
  have hpow : (2 : ℚ) ^ x.exponent = 2 * 2 ^ (x.exponent - 1) := by
    rw [← zpow_one_add₀ two_ne_zero, add_sub_cancel]
  rw [Format.lowEnd, if_pos ⟨h, hlt⟩, h, hpow]
  ring

/-- The exponent of the number is found for fractions that are not below its least significand. -/
theorem max_fullExponent {f : Format} (hf : f.Usual) {x : Scaled} (hx : f.Has x) {num den : ℕ}
    (hnum : 0 < num) (hden : 0 < den) (hhigh : (num : ℚ) / den ≤ Format.highEnd x)
    (hnear : f.fractionSize * 2 ^ x.exponent ≤ (num : ℚ) / den ∨ x.exponent = f.leastExponent) :
    max (fullExponent f num den) f.leastExponent = x.exponent := by
  have hF : (0 : ℚ) < f.fractionSize := Nat.cast_pos.2 f.fractionSize_pos
  have hpow : (0 : ℚ) < 2 ^ x.exponent := by positivity
  have hleast := hx.least_le
  obtain ⟨hfull, hshort⟩ := fullExponent_spec hf hnum hden
  have hbelow : (num : ℚ) / den < 2 * f.fractionSize * 2 ^ x.exponent := by
    refine lt_of_le_of_lt hhigh (mul_lt_mul_of_pos_right ?_ hpow)
    have : (x.significand : ℚ) + 1 ≤ 2 * f.fractionSize := by exact_mod_cast hx.lt
    linarith
  have hle := exponent_le_of_lt hF hfull hbelow
  rcases hnear with hnear | hnear
  · have hge := exponent_le_of_lt hF hnear hshort
    omega
  · omega

/-- A fraction just below a power of two has the exponent before, and is rounded up to it. -/
theorem roundRatio_below {f : Format} (hf : f.Usual) {x : Scaled} (hx : f.Has x) {num den : ℕ}
    (hnum : 0 < num) (hden : 0 < den) (hsignificand : x.significand = f.fractionSize)
    (hlt : f.leastExponent < x.exponent) (hlow : f.lowEnd x ≤ num / den)
    (hbelow : (num : ℚ) / den < f.fractionSize * 2 ^ x.exponent) :
    roundRatio f num den = f.magnitude x := by
  have hF : (1 : ℚ) ≤ f.fractionSize := Nat.one_le_cast.2 f.fractionSize_pos
  have hpow : (0 : ℚ) < 2 ^ (x.exponent - 1) := by positivity
  have hstep : (2 : ℚ) ^ x.exponent = 2 * 2 ^ (x.exponent - 1) := by
    rw [← zpow_one_add₀ two_ne_zero, add_sub_cancel]
  rw [Format.lowEnd_of_narrow hsignificand hlt] at hlow
  rw [hstep, ← mul_assoc, mul_comm _ (2 : ℚ)] at hbelow
  obtain ⟨hfull, hshort⟩ := fullExponent_spec hf hnum hden
  have he : max (fullExponent f num den) f.leastExponent = x.exponent - 1 := by
    have hF' : (0 : ℚ) < f.fractionSize := by linarith
    have hle := exponent_le_of_lt hF' hfull hbelow
    have hge := exponent_le_of_lt (a := x.exponent - 1) hF' (by nlinarith) hshort
    omega
  have heven : 2 * f.fractionSize % 2 = 0 := Nat.mul_mod_right 2 _
  rw [roundRatio_of_exponent (s := 2 * f.fractionSize) hden he (by push_cast; exact hlow)
    (by push_cast; nlinarith) (by omega)]
  rw [← min_eq_left hx.finite.le, Format.magnitude, hsignificand]
  congr 1
  rw [two_mul, ← add_assoc, ← Nat.succ_mul]
  congr 3
  omega

/-- **Every fraction in the interval around a number is rounded to it.** -/
theorem roundRatio_of_nearest {f : Format} (hf : f.Usual) {x : Scaled} (hx : f.Has x) {num den : ℕ}
    (hnum : 0 < num) (hden : 0 < den) (h : f.Nearest x (num / den)) :
    roundRatio f num den = f.magnitude x := by
  obtain ⟨hlow, hhigh, hodd⟩ := h
  have hhalf := f.sub_half_le_lowEnd x
  by_cases hnear : f.fractionSize * 2 ^ x.exponent ≤ (num : ℚ) / den ∨ x.exponent = f.leastExponent
  · rw [roundRatio_of_exponent hden (max_fullExponent hf hx hnum hden hhigh hnear)
      (hhalf.trans hlow) hhigh fun h => ⟨hhalf.trans_lt (hodd h).1, (hodd h).2⟩]
    exact min_eq_left hx.finite.le
  · obtain ⟨hbelow, hne⟩ := not_or.1 hnear
    have hsignificand := hx.significand_eq hne (hlow.trans_lt (not_le.1 hbelow))
    exact roundRatio_below hf hx hnum hden hsignificand
      (lt_of_le_of_ne hx.least_le (Ne.symm hne)) hlow (not_le.1 hbelow)

end ValueCoverage.Number
