import Mathlib.Data.Nat.Cast.Order.Field
import ValueCoverage.Proofs.Number.Digits
import ValueCoverage.Proofs.Number.Rounding

/-!
# Shortest decimals are rounded to their number

The decimal that is found lies in the interval around its number: with seventeen digits the grid is
narrower than the interval, so that one of the tries hits it.
-/

namespace ValueCoverage.Number

@[simp] theorem cast_tenTo (n : ℕ) : (tenTo n : ℚ) = 10 ^ n := by
  rw [tenTo, Nat.pow_eq, Nat.cast_pow, Nat.cast_ofNat]

theorem tenTo_pos (n : ℕ) : 0 < tenTo n := Nat.pow_pos (by decide)

theorem tenTo_div_tenTo (unit : ℤ) :
    (tenTo unit.toNat : ℚ) / tenTo (-unit).toNat = 10 ^ unit := by
  rw [cast_tenTo, cast_tenTo, pow_toNat_div_pow_toNat (by norm_num)]

/-- The decimal places that are seen go beyond the least number of the formats. -/
theorem two_zpow_le : (2 : ℚ) ^ (1074 : ℤ) ≤ 10 ^ placesSeen := by
  have h : twoTo 1074 ≤ tenTo placesSeen := by decide +kernel
  rw [← cast_tenTo, show (1074 : ℤ) = (1074 : ℕ) from rfl, zpow_natCast, ← cast_twoTo]
  exact_mod_cast h

/-! ## The interval as natural numbers -/

namespace Interval

variable {f : Format} {x : Scaled}

theorem around_den_pos (f : Format) (x : Scaled) : 0 < (around f x).den := twoTo_pos _

/-- A quarter of a unit in the last place. -/
theorem twoTo_div_around_den (f : Format) (x : Scaled) :
    (twoTo (x.exponent - 2).toNat : ℚ) / (around f x).den = 2 ^ x.exponent / 4 := by
  have h := pow_toNat_div_pow_toNat (b := 2) two_ne_zero (x.exponent - 2)
  rw [neg_sub] at h
  rw [around, cast_twoTo, cast_twoTo, h, zpow_sub₀ two_ne_zero]
  norm_num

theorem around_value_div (f : Format) (x : Scaled) :
    ((around f x).value : ℚ) / (around f x).den = x.value := by
  have h : ((around f x).value : ℚ) = 4 * x.significand * twoTo (x.exponent - 2).toNat := by
    rw [around, Nat.cast_mul, Nat.cast_mul, Nat.cast_ofNat]
  rw [h, mul_div_assoc, twoTo_div_around_den, Scaled.value]
  ring

theorem around_high_div (f : Format) (x : Scaled) :
    ((around f x).high : ℚ) / (around f x).den = Format.highEnd x := by
  have h : ((around f x).high : ℚ) = (4 * x.significand + 2) * twoTo (x.exponent - 2).toNat := by
    rw [around]
    push_cast
    rfl
  rw [h, mul_div_assoc, twoTo_div_around_den, Format.highEnd]
  ring

theorem around_low_div (hx : 0 < x.significand) :
    ((around f x).low : ℚ) / (around f x).den = f.lowEnd x := by
  have h : ((around f x).low : ℚ) = (4 * x.significand -
      if x.significand = f.fractionSize ∧ f.leastExponent < x.exponent then 1 else 2) *
        twoTo (x.exponent - 2).toNat := by
    rw [around, Nat.cast_mul, Nat.cast_sub (by split <;> omega)]
    push_cast
    rfl
  rw [h, mul_div_assoc, twoTo_div_around_den, Format.lowEnd]
  split <;> ring

/-- A multiple of the unit lies in the interval exactly if it is rounded to the number. -/
theorem contains_iff (hx : 0 < x.significand) (c : ℕ) (unit : ℤ) :
    (around f x).contains c (tenTo unit.toNat) (tenTo (-unit).toNat) = true ↔
      f.Nearest x (c * 10 ^ unit) := by
  have hden : (0 : ℚ) < (around f x).den := Nat.cast_pos.2 (around_den_pos f x)
  have hten : (0 : ℚ) < tenTo (-unit).toNat := Nat.cast_pos.2 (tenTo_pos _)
  have hclosed : (around f x).closed = decide (x.significand % 2 = 0) := rfl
  rw [Format.Nearest, ← around_low_div hx, ← around_high_div f, ← tenTo_div_tenTo, ← mul_div_assoc,
    div_le_div_iff₀ hden hten, div_le_div_iff₀ hten hden, div_lt_div_iff₀ hden hten,
    div_lt_div_iff₀ hten hden]
  norm_cast
  rw [contains, hclosed]
  by_cases heven : x.significand % 2 = 0
  · rw [decide_eq_true heven]
    simp [heven]
  · have hodd : x.significand % 2 = 1 := by omega
    rw [decide_eq_false heven, hodd]
    simp only [Bool.false_eq_true, if_false, decide_eq_true_eq, true_imp_iff]
    exact ⟨fun h => ⟨h.1.le, h.2.le, h⟩, fun h => h.2.2⟩

/-! ## Neighbours on a grid -/

theorem contains_of_neighbour? {i : Interval} {unit : ℤ} {c : ℕ} (h : i.neighbour? unit = some c) :
    i.contains c (tenTo unit.toNat) (tenTo (-unit).toNat) = true := by
  simp only [neighbour?] at h
  split at h
  · cases h
  · next hbelow _ => cases h; exact hbelow
  · next _ habove => cases h; exact habove
  · next hbelow habove =>
    cases h
    split
    · exact hbelow
    · exact habove

theorem grid_below {i : Interval} (hi : 0 < i.den) (unit : ℤ) :
    (i.value * tenTo (-unit).toNat / (tenTo unit.toNat * i.den) : ℕ) * (10 : ℚ) ^ unit ≤
      i.value / i.den := by
  have hden : (0 : ℚ) < i.den := Nat.cast_pos.2 hi
  have hten : (0 : ℚ) < tenTo (-unit).toNat := Nat.cast_pos.2 (tenTo_pos _)
  rw [← tenTo_div_tenTo, ← mul_div_assoc, div_le_div_iff₀ hten hden, mul_assoc]
  exact_mod_cast Nat.div_mul_le_self _ _

theorem grid_above {i : Interval} (hi : 0 < i.den) (unit : ℤ) :
    (i.value : ℚ) / i.den <
      (i.value * tenTo (-unit).toNat / (tenTo unit.toNat * i.den) + 1 : ℕ) * (10 : ℚ) ^ unit := by
  have hden : (0 : ℚ) < i.den := Nat.cast_pos.2 hi
  have hten : (0 : ℚ) < tenTo (-unit).toNat := Nat.cast_pos.2 (tenTo_pos _)
  rw [← tenTo_div_tenTo, ← mul_div_assoc, div_lt_div_iff₀ hden hten, mul_assoc]
  exact_mod_cast Nat.lt_mul_of_div_lt (Nat.lt_succ_self _) (Nat.mul_pos (tenTo_pos _) hi)

theorem lowEnd_lt_value (f : Format) (x : Scaled) : f.lowEnd x < x.value := by
  rw [Format.lowEnd, Scaled.value]
  gcongr
  split <;> norm_num

theorem value_lt_highEnd (x : Scaled) : x.value < Format.highEnd x := by
  rw [Format.highEnd, Scaled.value]
  gcongr
  norm_num

/-- A grid narrower than the interval has a neighbour in it. -/
theorem isSome_neighbour? (hx : 0 < x.significand) {unit : ℤ}
    (h : (10 : ℚ) ^ unit < Format.highEnd x - f.lowEnd x) :
    ((around f x).neighbour? unit).isSome = true := by
  have hlow := lowEnd_lt_value f x
  have hhigh := value_lt_highEnd x
  have hbelow := grid_below (around_den_pos f x) unit
  have habove := grid_above (around_den_pos f x) unit
  rw [around_value_div] at hbelow habove
  have hinside := contains_iff (f := f) hx
  simp only [neighbour?]
  split
  · next hb ha =>
    -- with both neighbours outside, the interval would lie within one step of the grid
    exfalso
    rw [Bool.eq_false_iff, ne_eq, hinside] at hb ha
    have hbelow' := not_lt.1 fun hlt => hb (.of_lt hlt (hbelow.trans_lt hhigh))
    have habove' := not_lt.1 fun hlt => ha (.of_lt (hlow.trans habove) hlt)
    push_cast at hbelow' habove'
    linarith
  · rfl
  · rfl
  · rfl

/-- If one of the tries would hit, a hit is what is found. -/
theorem firstHit_eq {i : Interval} {point : ℤ} {tries count : ℕ}
    (h : (i.neighbour? (point - (count + tries : ℕ))).isSome = true) :
    i.neighbour? (i.firstHit point (tries + 1) count).2 =
      some (i.firstHit point (tries + 1) count).1 := by
  -- the hit that is known stays where it is while the tries come closer to it
  induction tries generalizing count with
  | zero =>
    obtain ⟨c, hc⟩ := Option.isSome_iff_exists.1 h
    rw [Nat.add_zero] at hc
    simp only [firstHit, hc]
  | succ tries ih =>
    rw [firstHit]
    split
    · next c hc => exact hc
    · refine ih ?_
      rwa [Nat.add_right_comm, Nat.add_assoc]

end Interval

/-! ## The first digit -/

theorem zpow_pointOf_le (num : ℕ) {den : ℕ} (hden : 0 < den)
    (h : 1 ≤ (num : ℚ) / den * 10 ^ placesSeen) : (10 : ℚ) ^ (pointOf num den - 1) ≤ num / den := by
  have hdenq : (0 : ℚ) < den := Nat.cast_pos.2 hden
  have hcast : ((num * tenTo placesSeen / den : ℕ) : ℚ) ≤ num / den * 10 ^ placesSeen := by
    rw [div_mul_eq_mul_div, ← cast_tenTo, ← Nat.cast_mul]
    exact Nat.cast_div_le
  have hpos : 0 < num * tenTo placesSeen / den := by
    refine Nat.div_pos ?_ hden
    rw [div_mul_eq_mul_div, one_le_div hdenq, ← cast_tenTo] at h
    exact_mod_cast h
  unfold pointOf
  generalize num * tenTo placesSeen / den = n at hcast hpos
  have hlength := List.length_pos_iff.2 (digitsOf_ne_nil n)
  have hfirst : (10 : ℚ) ^ ((digitsOf n).length - 1) ≤ n := by
    rw [← cast_tenTo]
    exact_mod_cast tenTo_length_digitsOf_le hpos
  have hpoint : ((digitsOf n).length : ℤ) - placesSeen - 1 =
      ((digitsOf n).length - 1 : ℕ) - (placesSeen : ℕ) := by omega
  rw [hpoint, zpow_sub₀ (by norm_num), zpow_natCast, zpow_natCast, div_le_iff₀ (by positivity)]
  exact hfirst.trans hcast

namespace Format

variable {f : Format} {x : Scaled}

theorem Usual.fractionSize_le (hf : f.Usual) : (f.fractionSize : ℚ) ≤ 2 ^ 52 := by
  rw [hf.cast_fractionSize, ← zpow_natCast]
  have := hf.precision_le
  exact zpow_le_zpow_right₀ one_le_two (by omega)

theorem Has.le_zpow_exponent (hf : f.Usual) (hx : f.Has x) :
    (2 : ℚ) ^ (-1074 : ℤ) ≤ 2 ^ x.exponent :=
  zpow_le_zpow_right₀ one_le_two (hf.le_leastExponent.trans hx.least_le)

/-- The first digit of the number is among the places that are seen. -/
theorem Has.one_le_value_mul (hf : f.Usual) (hx : f.Has x) : 1 ≤ x.value * 10 ^ placesSeen := by
  have hone : (1 : ℚ) ≤ x.significand := Nat.one_le_cast.2 hx.pos
  have hvalue : (2 : ℚ) ^ (-1074 : ℤ) ≤ x.value :=
    (hx.le_zpow_exponent hf).trans (le_mul_of_one_le_left (by positivity) hone)
  calc (1 : ℚ) = 2 ^ (-1074 : ℤ) * 2 ^ (1074 : ℤ) := by
        rw [← zpow_add₀ two_ne_zero, neg_add_cancel, zpow_zero]
    _ ≤ x.value * 10 ^ placesSeen :=
        mul_le_mul hvalue two_zpow_le (by positivity) ((zpow_nonneg two_pos.le _).trans hvalue)

/-- Half a unit in the last place is below the interval. -/
theorem Has.half_unit_le_lowEnd (hx : f.Has x) : 2 ^ x.exponent / 2 ≤ f.lowEnd x := by
  have hone : (1 : ℚ) ≤ x.significand := Nat.one_le_cast.2 hx.pos
  have hpow : (0 : ℚ) < 2 ^ x.exponent := by positivity
  refine le_trans ?_ (f.sub_half_le_lowEnd x)
  nlinarith

/-- The interval is below the least power of two that is infinite. -/
theorem Has.highEnd_lt (hf : f.Usual) (hx : f.Has x) : highEnd x < 2 ^ (1074 : ℤ) := by
  have hexponent : f.precision + x.exponent ≤ 1074 := by
    have hsteps : (x.exponent - f.leastExponent).toNat < f.topExponent := by
      refine Nat.lt_of_mul_lt_mul_right (a := f.fractionSize) ?_
      exact Nat.lt_of_le_of_lt (Nat.le_add_right _ _) hx.finite
    have := hf.greatest
    omega
  calc highEnd x < 2 * f.fractionSize * 2 ^ x.exponent := by
        have : (x.significand : ℚ) + 1 ≤ 2 * f.fractionSize := by exact_mod_cast hx.lt
        exact mul_lt_mul_of_pos_right (by linarith) (by positivity)
    _ = 2 ^ (f.precision + x.exponent) := hf.two_mul_fractionSize_mul_zpow x.exponent
    _ ≤ 2 ^ (1074 : ℤ) := zpow_le_zpow_right₀ one_le_two hexponent

/-- The interval is wide for the size of its number. -/
theorem Has.value_div_lt_width (hf : f.Usual) (hx : f.Has x) :
    x.value / 10 ^ 16 < highEnd x - f.lowEnd x := by
  have hF := hf.fractionSize_le
  have hlt : (x.significand : ℚ) < 2 * f.fractionSize := by exact_mod_cast hx.lt
  have hpow : (0 : ℚ) < 2 ^ x.exponent := by positivity
  rw [Scaled.value, lowEnd, highEnd, ← sub_mul, mul_div_right_comm]
  refine mul_lt_mul_of_pos_right ?_ hpow
  split
  · next h =>
    rw [h.1]
    linarith
  · linarith

end Format

/-- Seventeen digits are enough. -/
theorem zpow_pointOf_sub_lt {f : Format} (hf : f.Usual) {x : Scaled} (hx : f.Has x) :
    (10 : ℚ) ^ (pointOf (Interval.around f x).value (Interval.around f x).den - 17) <
      Format.highEnd x - f.lowEnd x := by
  have hpoint := zpow_pointOf_le (Interval.around f x).value (Interval.around_den_pos f x)
  rw [Interval.around_value_div] at hpoint
  refine lt_of_le_of_lt ?_ (hx.value_div_lt_width hf)
  rw [show ∀ e : ℤ, e - 17 = e - 1 - 16 from fun e => by omega, zpow_sub₀ (by norm_num)]
  exact div_le_div_of_nonneg_right (hpoint (hx.one_le_value_mul hf)) (by positivity)

/-! ## The decimal -/

/-- The number that a decimal stands for. -/
def Decimal.value (d : Decimal) : ℚ := digitsValue d.digits * 10 ^ (d.point - d.digits.length)

/-- Digits that start and end with something, and a point next to the first of them. -/
structure Decimal.Normal (d : Decimal) : Prop where
  isDigit : ∀ c ∈ d.digits, c.isDigit = true
  ne_nil : d.digits ≠ []
  head : d.digits.head? ≠ some '0'
  last : d.digits.getLast? ≠ some '0'
  le_value : 10 ^ (d.point - 1) ≤ d.value
  value_lt : d.value < 10 ^ d.point

/-- The digits of a multiple of a unit, without the zeros at their end. -/
def Decimal.ofMultiple (c : ℕ) (unit : ℤ) : Decimal :=
  ⟨dropTrailingZeros (digitsOf c), unit + (digitsOf c).length⟩

theorem Decimal.value_ofMultiple (c : ℕ) (unit : ℤ) :
    (Decimal.ofMultiple c unit).value = c * 10 ^ unit := by
  obtain ⟨n, hn⟩ := dropLastZeros_append (digitsOf c)
  change digitsOf c = dropTrailingZeros (digitsOf c) ++ _ at hn
  have hc : c = digitsValue (dropTrailingZeros (digitsOf c)) * tenTo n := by
    rw [← digitsValue_append_zeros, ← hn, digitsValue_digitsOf]
  have hlength : (digitsOf c).length = (dropTrailingZeros (digitsOf c)).length + n := by
    rw [← List.length_replicate (n := n) (a := '0'), ← List.length_append, ← hn]
  have hpoint : unit + (digitsOf c).length - (dropTrailingZeros (digitsOf c)).length =
      n + unit := by omega
  rw [value, ofMultiple, hpoint, zpow_add₀ (by norm_num), zpow_natCast, ← mul_assoc, ← cast_tenTo,
    ← Nat.cast_mul, ← hc]

theorem Decimal.normal_ofMultiple {c : ℕ} (hc : 0 < c) (unit : ℤ) :
    (Decimal.ofMultiple c unit).Normal := by
  have hpow : (0 : ℚ) < 10 ^ unit := by positivity
  have hlength := List.length_pos_iff.2 (digitsOf_ne_nil c)
  have hhead := head?_digitsOf hc
  obtain ⟨n, hn⟩ := dropLastZeros_append (digitsOf c)
  change digitsOf c = (ofMultiple c unit).digits ++ _ at hn
  have hne : (ofMultiple c unit).digits ≠ [] := by
    intro hnil
    rw [hnil, List.nil_append] at hn
    rw [hn, List.head?_replicate] at hhead
    rw [hn, List.length_replicate] at hlength
    exact hhead (if_neg (by omega))
  have hpoint : (ofMultiple c unit).point = (digitsOf c).length + unit := add_comm _ _
  refine
    { isDigit := fun d hd => isDigit_of_mem_digitsOf (n := c) (hn ▸ List.mem_append_left _ hd)
      ne_nil := hne
      head := ?_
      last := getLast?_dropLastZeros (digitsOf c)
      le_value := ?_
      value_lt := ?_ }
  · rwa [hn, List.head?_append_of_ne_nil _ hne] at hhead
  · rw [value_ofMultiple, hpoint, show ((digitsOf c).length : ℤ) + unit - 1 =
      ((digitsOf c).length - 1 : ℕ) + unit by omega, zpow_add₀ (by norm_num), zpow_natCast,
      ← cast_tenTo]
    gcongr
    exact tenTo_length_digitsOf_le hc
  · rw [value_ofMultiple, hpoint, zpow_add₀ (by norm_num), zpow_natCast, ← cast_tenTo]
    gcongr
    exact lt_tenTo_length_digitsOf c

/-- **The shortest decimal is rounded to its number.** -/
theorem shortest_spec {f : Format} (hf : f.Usual) {x : Scaled} (hx : f.Has x) :
    (shortest f x).Normal ∧ f.Nearest x (shortest f x).value := by
  let hit := (Interval.around f x).firstHit
    (pointOf (Interval.around f x).value (Interval.around f x).den) 17 1
  have hfound : (Interval.around f x).neighbour? hit.2 = some hit.1 :=
    Interval.firstHit_eq (Interval.isSome_neighbour? hx.pos (zpow_pointOf_sub_lt hf hx))
  have hnear : f.Nearest x (hit.1 * 10 ^ hit.2) :=
    (Interval.contains_iff hx.pos hit.1 hit.2).1 (Interval.contains_of_neighbour? hfound)
  have hpos : 0 < hit.1 := by
    refine Nat.pos_of_ne_zero fun h => ?_
    have hlow := hx.half_unit_le_lowEnd.trans hnear.1
    rw [h, Nat.cast_zero, zero_mul] at hlow
    have : (0 : ℚ) < 2 ^ x.exponent := by positivity
    linarith
  have hdecimal : shortest f x = Decimal.ofMultiple hit.1 hit.2 := rfl
  rw [hdecimal, Decimal.value_ofMultiple]
  exact ⟨Decimal.normal_ofMultiple hpos hit.2, hnear⟩

/-- Its point is far from the ends of the range. -/
theorem shortest_point_mem {f : Format} (hf : f.Usual) {x : Scaled} (hx : f.Has x) :
    -decimalRange ≤ (shortest f x).point ∧ (shortest f x).point ≤ decimalRange := by
  obtain ⟨hnormal, hlow, hhigh, -⟩ := shortest_spec hf hx
  have hten : (1 : ℚ) < 10 := by norm_num
  generalize shortest f x = d at *
  have hleast : (10 : ℚ) ^ (-placesSeen - 1 : ℤ) < 10 ^ d.point := by
    refine lt_of_le_of_lt ?_ hnormal.value_lt
    calc (10 : ℚ) ^ (-placesSeen - 1 : ℤ) = (10 ^ placesSeen)⁻¹ / 10 := by
          rw [zpow_sub_one₀ (by norm_num), zpow_neg, zpow_natCast, div_eq_mul_inv]
      _ ≤ (2 ^ (1074 : ℤ))⁻¹ / 2 := by
          gcongr
          · exact two_zpow_le
          · norm_num
      _ ≤ 2 ^ x.exponent / 2 := by
          rw [← zpow_neg]
          exact div_le_div_of_nonneg_right (hx.le_zpow_exponent hf) two_pos.le
      _ ≤ d.value := hx.half_unit_le_lowEnd.trans hlow
  have hgreatest : (10 : ℚ) ^ (d.point - 1) < 10 ^ (placesSeen : ℤ) := by
    rw [zpow_natCast (10 : ℚ)]
    exact (hnormal.le_value.trans hhigh).trans_lt ((hx.highEnd_lt hf).trans_le two_zpow_le)
  have := (zpow_lt_zpow_iff_right₀ hten).1 hleast
  have := (zpow_lt_zpow_iff_right₀ hten).1 hgreatest
  unfold placesSeen decimalRange at *
  omega

end ValueCoverage.Number
