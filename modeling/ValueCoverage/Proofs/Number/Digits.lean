import Mathlib.Data.List.TakeWhile
import ValueCoverage.Number.FloatText
import ValueCoverage.Number.Integer

/-!
# Decimal digits

What the digits of a number spell, how many there are, and that integers are read as they are
written.
-/

namespace ValueCoverage.Number

/-! ## What digits spell -/

theorem digitsValue_eq_ofDigitChars (ds : List Char) :
    digitsValue ds = Nat.ofDigitChars 10 ds 0 := by
  simp only [digitsValue, Nat.ofDigitChars_eq_foldl, Nat.mul_comm 10]

theorem digitsValue_digitsOf (n : Nat) : digitsValue (digitsOf n) = n := by
  rw [digitsValue_eq_ofDigitChars, digitsOf, Nat.ofDigitChars_ten_toDigits]

theorem digitsValue_append_zeros (ds : List Char) (n : Nat) :
    digitsValue (ds ++ List.replicate n '0') = digitsValue ds * tenTo n := by
  rw [digitsValue_eq_ofDigitChars, Nat.ofDigitChars_append, Nat.ofDigitChars_replicate_zero,
    ← digitsValue_eq_ofDigitChars, Nat.mul_comm, tenTo, Nat.pow_eq]

theorem isDigit_of_mem_digitsOf {n : Nat} {c : Char} (h : c ∈ digitsOf n) : c.isDigit = true :=
  Nat.isDigit_of_mem_toDigits (by decide) (by decide) h

theorem all_isDigit_digitsOf (n : Nat) : (digitsOf n).all Char.isDigit = true :=
  List.all_eq_true.2 fun _ => isDigit_of_mem_digitsOf

theorem digitsOf_ne_nil (n : Nat) : digitsOf n ≠ [] := Nat.toDigits_ne_nil

/-- The first digit of a positive number is not zero. -/
theorem head?_digitsOf {n : Nat} (h : 0 < n) : (digitsOf n).head? ≠ some '0' := by
  induction n using Nat.strongRecOn with
  | ind n ih =>
    rw [digitsOf]
    by_cases hsmall : n < 10
    · rw [Nat.toDigits_of_lt_base hsmall]
      simp only [List.head?_cons, ne_eq, Option.some.injEq, Nat.digitChar_eq_zero]
      omega
    · have hfront := ih (n / 10) (by omega) (by omega)
      have hne := digitsOf_ne_nil (n / 10)
      rw [digitsOf] at hfront hne
      rw [Nat.toDigits_of_base_le (by decide) (by omega)]
      cases hds : Nat.toDigits 10 (n / 10) with
      | nil => exact absurd hds hne
      | cons c cs => rwa [hds] at hfront

theorem lt_tenTo_length_digitsOf (n : Nat) : n < tenTo (digitsOf n).length :=
  (Nat.length_toDigits_le_iff (by decide) (List.length_pos_iff.2 (digitsOf_ne_nil n))).1
    (Nat.le_refl _)

theorem tenTo_length_digitsOf_le {n : Nat} (h : 0 < n) : tenTo ((digitsOf n).length - 1) ≤ n := by
  by_cases hshort : (digitsOf n).length ≤ 1
  · rw [Nat.sub_eq_zero_of_le hshort]
    exact h
  · refine Nat.not_lt.1 fun hlt => ?_
    have := (Nat.length_toDigits_le_iff (b := 10) (by decide) (by omega)).2 hlt
    rw [digitsOf] at hshort this
    omega

/-! ## Zeros at the end -/

/-- The last digit of a text of digits is not zero. -/
theorem getLast?_dropLastZeros (ds : List Char) : (dropLastZeros ds).getLast? ≠ some '0' := by
  intro h
  rw [dropLastZeros, List.getLast?_reverse] at h
  have := List.head?_dropWhile_not (· = '0') ds.reverse
  simp [h] at this

theorem dropLastZeros_append (ds : List Char) :
    ∃ n, ds = dropLastZeros ds ++ List.replicate n '0' := by
  refine ⟨(ds.reverse.takeWhile (· = '0')).length, ?_⟩
  have hzeros : (ds.reverse.takeWhile (· = '0')).reverse =
      List.replicate (ds.reverse.takeWhile (· = '0')).length '0' := by
    refine List.eq_replicate_iff.2 ⟨List.length_reverse, fun c hc => ?_⟩
    simpa using List.mem_takeWhile_imp (List.mem_reverse.1 hc)
  rw [← hzeros, dropLastZeros, ← List.reverse_append, List.takeWhile_append_dropWhile,
    List.reverse_reverse]

theorem dropLastZeros_append_zeros {ds : List Char} (h : ds.getLast? ≠ some '0') (n : Nat) :
    dropLastZeros (ds ++ List.replicate n '0') = ds := by
  rw [dropLastZeros, List.reverse_append, List.reverse_replicate,
    List.dropWhile_append_of_pos (by simp +contextual)]
  cases hds : ds.reverse with
  | nil => rw [List.reverse_eq_nil_iff.1 hds]; rfl
  | cons c cs =>
    have hc : c ≠ '0' := by
      rintro rfl
      exact h (by rw [List.getLast?_eq_head?_reverse, hds]; rfl)
    rw [List.dropWhile_cons, if_neg (by simpa using hc), ← hds, List.reverse_reverse]

/-! ## Reading -/

theorem le_ofDigitChars (ds : List Char) (n : Nat) : n ≤ Nat.ofDigitChars 10 ds n := by
  induction ds generalizing n with
  | nil => exact Nat.le_refl n
  | cons c ds ih =>
    rw [Nat.ofDigitChars_cons]
    exact Nat.le_trans (by omega) (ih _)

/-- Digits whose number is within the limit never leave it on the way. -/
theorem readDigits_eq {limit : Nat} {ds : List Char} {n : Nat} (overflow : IntegerError)
    (hds : ∀ c ∈ ds, c.isDigit = true) (h : Nat.ofDigitChars 10 ds n ≤ limit) :
    readDigits limit overflow ds n = .ok (Nat.ofDigitChars 10 ds n) := by
  induction ds generalizing n with
  | nil => rfl
  | cons c ds ih =>
    rw [Nat.ofDigitChars_cons, Nat.mul_comm] at h ⊢
    have hnext := Nat.le_trans (le_ofDigitChars ds _) h
    rw [readDigits, if_pos (hds c List.mem_cons_self)]
    simp only [if_pos hnext]
    exact ih (fun c hc => hds c (List.mem_cons_of_mem _ hc)) h

theorem readDigits_digitsOf {limit n : Nat} (overflow : IntegerError) (h : n ≤ limit) :
    readDigits limit overflow (digitsOf n) 0 = .ok n := by
  have hvalue : Nat.ofDigitChars 10 (digitsOf n) 0 = n := Nat.ofDigitChars_ten_toDigits
  rw [readDigits_eq overflow fun c => isDigit_of_mem_digitsOf] <;> rw [hvalue]
  exact h

/-- No digit of a small exponent is passed over. -/
theorem exponentValue_eq {ds : List Char} (h : digitsValue ds < exponentLimit) :
    exponentValue ds = digitsValue ds := by
  have hfold (ds : List Char) : ∀ n, Nat.ofDigitChars 10 ds n < exponentLimit →
      ds.foldl (fun n d => if n < exponentLimit then n * 10 + (d.toNat - '0'.toNat) else n) n =
        Nat.ofDigitChars 10 ds n := by
    induction ds with
    | nil => exact fun n _ => rfl
    | cons c ds ih =>
      intro n hn
      have hfirst : n < exponentLimit := Nat.lt_of_le_of_lt (le_ofDigitChars (c :: ds) n) hn
      rw [Nat.ofDigitChars_cons, Nat.mul_comm] at hn ⊢
      rw [List.foldl_cons, if_pos hfirst, ih _ hn]
  rw [digitsValue_eq_ofDigitChars] at h ⊢
  exact hfold ds 0 h

theorem digitsOf_ne_cons {c : Char} (hc : c.isDigit = false) (n : Nat) (cs : List Char) :
    digitsOf n ≠ c :: cs := by
  intro h
  have : c.isDigit = true := isDigit_of_mem_digitsOf (h ▸ List.mem_cons_self)
  simp [hc] at this

theorem readNatural_toString {limit n : Nat} (h : n ≤ limit) :
    readNatural limit (toString n) = .ok n := by
  have htext : (toString n).toList = digitsOf n := by
    rw [Nat.toString_eq_repr, Nat.toList_repr, digitsOf]
  rw [readNatural, htext]
  split
  · next hnil => exact absurd hnil (digitsOf_ne_nil n)
  · next hsign => exact absurd hsign (digitsOf_ne_cons rfl n _)
  · next hsign => exact absurd hsign (digitsOf_ne_cons rfl n _)
  · exact readDigits_digitsOf .tooLarge h

theorem readSigned_toString {limit : Nat} {n : Int} (hlow : -(limit + 1) ≤ n) (hhigh : n ≤ limit) :
    readSigned limit (toString n) = .ok n := by
  by_cases hn : 0 ≤ n
  · have htext : (toString n).toList = digitsOf n.toNat := by
      rw [Int.toString_eq_repr, Int.repr_eq_if, if_pos hn, Nat.toList_repr, digitsOf]
    rw [readSigned, htext]
    split
    · next hnil => exact absurd hnil (digitsOf_ne_nil _)
    · next hsign => exact absurd hsign (digitsOf_ne_cons rfl _ _)
    · next hsign => exact absurd hsign (digitsOf_ne_cons rfl _ _)
    · next hsign => exact absurd hsign (digitsOf_ne_cons rfl _ _)
    · next hsign => exact absurd hsign (digitsOf_ne_cons rfl _ _)
    · rw [readDigits_digitsOf .tooLarge (by omega)]
      exact congrArg Except.ok (Int.toNat_of_nonneg hn)
  · have htext : (toString n).toList = '-' :: digitsOf (-n).toNat := by
      rw [Int.toString_eq_repr, Int.repr_eq_if, if_neg hn, String.toList_append, Nat.toList_repr]
      rfl
    have hread : readSigned limit (toString n) =
        (readDigits (limit + 1) .tooSmall (digitsOf (-n).toNat) 0).map fun m => -(m : Int) := by
      rw [readSigned, htext]
      cases hds : digitsOf (-n).toNat with
      | nil => exact absurd hds (digitsOf_ne_nil _)
      | cons c cs => rfl
    rw [hread, readDigits_digitsOf .tooSmall (by omega)]
    exact congrArg Except.ok (show -((-n).toNat : Int) = n by omega)

/-! ## Characters -/

/-- The characters that texts of numbers are made of, words included. -/
def NumberChar (c : Char) : Prop := c.isAlphanum = true ∨ c = '.' ∨ c = '-'

instance (c : Char) : Decidable (NumberChar c) := inferInstanceAs (Decidable (_ ∨ _ ∨ _))

/-- For texts that are given: the characters of the text are tried. -/
theorem NumberChar.of_all {cs : List Char} (h : cs.all (fun c => decide (NumberChar c)) = true) :
    ∀ c ∈ cs, NumberChar c :=
  fun c hc => of_decide_eq_true (List.all_eq_true.1 h c hc)

theorem NumberChar.of_isDigit {c : Char} (h : c.isDigit = true) : NumberChar c :=
  .inl (by rw [Char.isAlphanum, h, Bool.or_true])

theorem NumberChar.of_mem_toString_nat {n : Nat} {c : Char} (h : c ∈ (toString n).toList) :
    NumberChar c := by
  rw [Nat.toString_eq_repr, Nat.toList_repr] at h
  exact .of_isDigit (isDigit_of_mem_digitsOf h)

theorem NumberChar.of_mem_toString {n : Int} {c : Char} (h : c ∈ (toString n).toList) :
    NumberChar c := by
  rw [Int.toString_eq_repr, Int.repr_eq_if] at h
  split at h
  · exact .of_mem_toString_nat h
  · rw [String.toList_append] at h
    rcases List.mem_append.1 h with h | h
    · exact .inr (.inr (List.mem_singleton.1 h))
    · exact .of_mem_toString_nat h

end ValueCoverage.Number
