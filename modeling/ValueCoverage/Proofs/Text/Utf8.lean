import Mathlib.Data.List.TakeWhile
import ValueCoverage.Text.Utf8

/-!
# UTF-8 is read as it was written

Bytes below 128 are characters of their own; a lead byte above and the bytes that it asks for are
one character. What `encode` writes is therefore read character by character, whatever follows.
-/

namespace ValueCoverage.Text.Utf8

theorem pieces_ascii {bytes : Bytes} (h : ∀ b ∈ bytes, b.toNat < 0x80) (done : List (Option Char)) :
    pieces bytes 0 done =
      done.reverse ++ (bytes.map fun b => Char.ofNat b.toNat).map some := by
  induction bytes generalizing done with
  | nil => simp [pieces]
  | cons b rest ih =>
    have hpiece : nextPiece b rest = (some (Char.ofNat b.toNat), 0) := if_pos (h b (by simp))
    rw [pieces, hpiece, ih fun a ha => h a (by simp [ha])]
    simp

theorem decode?_ascii {bytes : Bytes} (h : ∀ b ∈ bytes, b.toNat < 0x80) :
    decode? bytes = some (String.ofList (bytes.map fun b => Char.ofNat b.toNat)) := by
  have hpieces := pieces_ascii h []
  rw [List.reverse_nil, List.nil_append] at hpieces
  have hall : ((bytes.map fun b => Char.ofNat b.toNat).map some).all Option.isSome = true := by simp
  have hchars : ((bytes.map fun b => Char.ofNat b.toNat).map some).filterMap id =
      bytes.map fun b => Char.ofNat b.toNat := by
    rw [List.filterMap_map]
    exact List.filterMap_some
  simp only [decode?, hpieces, hall, hchars, if_true]

/-! ## Longer characters -/

section Pieces

variable {lead b1 b2 b3 : UInt8} {v : Nat} (rest : Bytes) (done : List (Option Char))

theorem pieces_skip (front : Bytes) :
    pieces (front ++ rest) front.length done = pieces rest 0 done := by
  induction front with
  | nil => rfl
  | cons b front ih => exact ih

/-- A lead byte with all the bytes that it asks for spells a character. -/
theorem pieces_of_tailOf {t : Tail} (b1 : UInt8) (more : Bytes) (hlead : 0x80 ≤ lead.toNat)
    (htail : tailOf lead.toNat = some t) (hfirst : t.least ≤ b1.toNat ∧ b1.toNat ≤ t.greatest)
    (hmore : ∀ c ∈ more, isContinuation c = true) (hcount : more.length + 1 = t.count) :
    pieces (lead :: b1 :: more ++ rest) 0 done =
      pieces rest 0 (some (Char.ofNat (codePoint lead.toNat (b1 :: more))) :: done) := by
  have htaken : ((more ++ rest).take (t.count - 1)).takeWhile isContinuation = more := by
    have htake : (more ++ rest).take (t.count - 1) = more := List.take_left' (by omega)
    rw [htake, List.takeWhile_eq_self_iff.2 hmore]
  have hpiece : nextPiece lead (b1 :: more ++ rest) =
      (some (Char.ofNat (codePoint lead.toNat (b1 :: more))), (b1 :: more).length) := by
    unfold nextPiece
    rw [if_neg (by omega)]
    simp only [htail, List.cons_append, if_pos hfirst, htaken, List.length_cons, hcount, if_true]
  rw [List.cons_append, List.cons_append, pieces, ← List.cons_append, hpiece]
  exact pieces_skip rest _ (b1 :: more)

theorem pieces_two (hl : lead.toNat = 0xC0 + v / 0x40) (h1 : b1.toNat = 0x80 + v % 0x40)
    (hleast : 0x80 ≤ v) (hless : v < 0x800) :
    pieces (lead :: b1 :: rest) 0 done = pieces rest 0 (some (Char.ofNat v) :: done) := by
  have htail : tailOf lead.toNat = some ⟨1, 0x80, 0xBF⟩ := if_pos (by omega)
  have hv : codePoint lead.toNat [b1] = v := by
    simp only [codePoint, payload]; omega
  have h := pieces_of_tailOf rest done b1 [] (by omega) htail
    (by constructor <;> simp only <;> omega) (by simp) rfl
  rwa [hv] at h

/-- Three bytes spell no surrogate. -/
theorem pieces_three (hl : lead.toNat = 0xE0 + v / 0x1000)
    (h1 : b1.toNat = 0x80 + v / 0x40 % 0x40) (h2 : b2.toNat = 0x80 + v % 0x40)
    (hleast : 0x800 ≤ v) (hless : v < 0x10000) (hplain : v < 0xD800 ∨ 0xDFFF < v) :
    pieces (lead :: b1 :: b2 :: rest) 0 done = pieces rest 0 (some (Char.ofNat v) :: done) := by
  obtain ⟨t, htail, hcount, hfirst⟩ : ∃ t, tailOf lead.toNat = some t ∧ t.count = 2 ∧
      t.least ≤ b1.toNat ∧ b1.toNat ≤ t.greatest := by
    unfold tailOf
    rw [if_neg (by omega)]
    split
    · exact ⟨_, rfl, rfl, by simp only; omega, by simp only; omega⟩
    split
    · exact ⟨_, rfl, rfl, by simp only; omega, by simp only; omega⟩
    rw [if_pos (by omega)]
    exact ⟨_, rfl, rfl, by simp only; omega, by simp only; omega⟩
  have hcont : isContinuation b2 = true := by
    simp only [isContinuation, decide_eq_true_eq]; omega
  have hv : codePoint lead.toNat [b1, b2] = v := by
    simp only [codePoint, payload]; omega
  have h := pieces_of_tailOf rest done b1 [b2] (by omega) htail hfirst
    (by simpa using hcont) (by rw [hcount]; rfl)
  rwa [hv] at h

theorem pieces_four (hl : lead.toNat = 0xF0 + v / 0x40000)
    (h1 : b1.toNat = 0x80 + v / 0x1000 % 0x40) (h2 : b2.toNat = 0x80 + v / 0x40 % 0x40)
    (h3 : b3.toNat = 0x80 + v % 0x40) (hleast : 0x10000 ≤ v) (hless : v < 0x110000) :
    pieces (lead :: b1 :: b2 :: b3 :: rest) 0 done =
      pieces rest 0 (some (Char.ofNat v) :: done) := by
  obtain ⟨t, htail, hcount, hfirst⟩ : ∃ t, tailOf lead.toNat = some t ∧ t.count = 3 ∧
      t.least ≤ b1.toNat ∧ b1.toNat ≤ t.greatest := by
    unfold tailOf
    rw [if_neg (by omega), if_neg (by omega), if_neg (by omega), if_neg (by omega)]
    split
    · exact ⟨_, rfl, rfl, by simp only; omega, by simp only; omega⟩
    split
    · exact ⟨_, rfl, rfl, by simp only; omega, by simp only; omega⟩
    rw [if_pos (by omega)]
    exact ⟨_, rfl, rfl, by simp only; omega, by simp only; omega⟩
  have hcont : ∀ b ∈ [b2, b3], isContinuation b = true := by
    simp only [isContinuation, decide_eq_true_eq, List.mem_cons, List.not_mem_nil, or_false,
      forall_eq_or_imp, forall_eq]
    omega
  have hv : codePoint lead.toNat [b1, b2, b3] = v := by
    simp only [codePoint, payload]; omega
  have h := pieces_of_tailOf rest done b1 [b2, b3] (by omega) htail hfirst
    hcont (by rw [hcount]; rfl)
  rwa [hv] at h

end Pieces

theorem pieces_utf8EncodeChar (c : Char) (rest : Bytes) (done : List (Option Char)) :
    pieces (String.utf8EncodeChar c ++ rest) 0 done = pieces rest 0 (some c :: done) := by
  have hc := c.valid
  simp only [UInt32.isValidChar, Nat.isValidChar] at hc
  have hback : Char.ofNat c.val.toNat = c := Char.ofNat_toNat c
  unfold String.utf8EncodeChar
  generalize c.val.toNat = v at hc hback
  subst hback
  simp only
  split
  · have hb : (UInt8.ofNat v).toNat = v := by
      rw [UInt8.toNat_ofNat']; omega
    rw [List.singleton_append, pieces, nextPiece, hb, if_pos (by omega)]
  split
  · refine pieces_two rest done ?_ ?_ (by omega) (by omega) <;> rw [UInt8.toNat_ofNat'] <;> omega
  split
  · refine pieces_three rest done ?_ ?_ ?_ (by omega) (by omega) (by omega) <;>
      rw [UInt8.toNat_ofNat'] <;> omega
  · refine pieces_four rest done ?_ ?_ ?_ ?_ (by omega) (by omega) <;>
      rw [UInt8.toNat_ofNat'] <;> omega

theorem pieces_encode (cs : List Char) (rest : Bytes) (done : List (Option Char)) :
    pieces (cs.flatMap String.utf8EncodeChar ++ rest) 0 done =
      pieces rest 0 ((cs.map some).reverse ++ done) := by
  induction cs generalizing done with
  | nil => rfl
  | cons c cs ih =>
    rw [List.flatMap_cons, List.append_assoc, pieces_utf8EncodeChar, ih]
    simp

/-- Every text is read as it was written. -/
@[simp] theorem decode?_encode (s : String) : decode? (encode s) = some s := by
  have hpieces := pieces_encode s.toList [] []
  rw [List.append_nil, List.append_nil] at hpieces
  have hread : pieces (encode s) 0 [] = s.toList.map some := by
    rw [encode, hpieces, pieces, List.reverse_reverse]
  have hall : (s.toList.map some).all Option.isSome = true := by simp
  have hchars : (s.toList.map some).filterMap id = s.toList := by
    rw [List.filterMap_map]
    exact List.filterMap_some
  simp only [decode?, hread, hall, hchars, if_true, String.ofList_toList]

theorem encode_append (s t : String) : encode (s ++ t) = encode s ++ encode t := by
  simp [encode]

theorem encode_join (ss : List String) : encode (String.join ss) = ss.flatMap encode := by
  simp only [encode, String.toList_join, List.flatMap_assoc]
  rfl

/-- A byte below 128 is a character of its own. -/
theorem mem_of_mem_encode {s : String} {b : UInt8} (hb : b.toNat < 0x80) (h : b ∈ encode s) :
    Char.ofNat b.toNat ∈ s.toList := by
  obtain ⟨c, hc, hbc⟩ := List.mem_flatMap.1 h
  unfold String.utf8EncodeChar at hbc
  simp only at hbc
  split at hbc
  · rw [List.mem_singleton] at hbc
    subst hbc
    have : (UInt8.ofNat c.val.toNat).toNat = c.toNat := by
      rw [UInt8.toNat_ofNat']
      show c.val.toNat % 256 = c.val.toNat
      omega
    rwa [this, Char.ofNat_toNat]
  · exfalso
    have hhigh : 0x80 ≤ b.toNat := by
      split at hbc
      · simp only [List.mem_cons, List.not_mem_nil, or_false] at hbc
        rcases hbc with rfl | rfl <;> rw [UInt8.toNat_ofNat'] <;> omega
      split at hbc
      · simp only [List.mem_cons, List.not_mem_nil, or_false] at hbc
        rcases hbc with rfl | rfl | rfl <;> rw [UInt8.toNat_ofNat'] <;> omega
      · simp only [List.mem_cons, List.not_mem_nil, or_false] at hbc
        rcases hbc with rfl | rfl | rfl | rfl <;> rw [UInt8.toNat_ofNat'] <;> omega
    omega

end ValueCoverage.Text.Utf8
