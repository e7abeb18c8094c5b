import ValueCoverage.Proofs.Text.ModifiedUtf8
import ValueCoverage.Proofs.Text.Utf8

/-!
# Modified UTF-8 read as UTF-8

Texts that a virtual machine hands out are in modified UTF-8, and lenient reading takes them for
UTF-8. Characters of the first plane are spelled alike in both, but for the zero character. A zero
character has two bytes there that begin nothing in UTF-8, and the surrogates of a character past
the first plane have three such bytes each; every one of them is read as a replacement character.
-/

namespace ValueCoverage.Text

/-- The text that is read from characters that end with a zero byte. -/
def Utf8.pointedTo (chars : Bytes) : String := decodeLenient (chars.takeWhile (· ≠ 0))

namespace ModifiedUtf8

/-- The pieces that a character is read as. -/
def piecesOf (c : Char) : List (Option Char) :=
  if c = '\x00' then List.replicate 2 none
  else if c.toNat < 0x10000 then [some c]
  else List.replicate 6 none

/-- What is read in the place of a character. -/
def misread (c : Char) : List Char :=
  if c = '\x00' then List.replicate 2 replacement
  else if c.toNat < 0x10000 then [c]
  else List.replicate 6 replacement

/-- What is read in the place of a text. -/
def seen (s : String) : String := String.ofList (s.toList.flatMap misread)

/-- The character is spelled alike in both encodings. -/
def PlainChar (c : Char) : Prop := c ≠ '\x00' ∧ c.toNat < 0x10000

/-- All characters are spelled alike in both encodings. -/
def Plain (s : String) : Prop := ∀ c ∈ s.toList, PlainChar c

instance (c : Char) : Decidable (PlainChar c) :=
  inferInstanceAs (Decidable (c ≠ '\x00' ∧ c.toNat < 0x10000))

instance (s : String) : Decidable (Plain s) :=
  List.decidableBAll _ s.toList

/-! ## No zero byte -/

theorem ne_zero_of_mem_unitBytes {u : Nat} {b : UInt8} (hu : u < 0x10000) (h : b ∈ unitBytes u) :
    b ≠ 0 := by
  have hof : ∀ n, 0 < n → n < 0x100 → UInt8.ofNat n ≠ 0 := by
    intro n hpos hlt hzero
    have hval := congrArg UInt8.toNat hzero
    rw [UInt8.toNat_ofNat', UInt8.toNat_zero] at hval
    omega
  unfold unitBytes at h
  split at h
  · rw [List.mem_singleton] at h
    subst h
    exact hof _ (by omega) (by omega)
  split at h
  · simp only [List.mem_cons, List.not_mem_nil, or_false] at h
    rcases h with rfl | rfl <;> exact hof _ (by omega) (by omega)
  · simp only [List.mem_cons, List.not_mem_nil, or_false] at h
    rcases h with rfl | rfl | rfl <;> exact hof _ (by omega) (by omega)

theorem takeWhile_encode (s : String) : (encode s).takeWhile (· ≠ 0) = encode s := by
  have hall : ∀ b ∈ encode s, decide (b ≠ 0) = true := by
    intro b hb
    obtain ⟨u, hu, hb⟩ := List.mem_flatMap.1 hb
    obtain ⟨c, -, hu⟩ := List.mem_flatMap.1 hu
    exact decide_eq_true (ne_zero_of_mem_unitBytes (unitsOf_lt hu) hb)
  exact List.takeWhile_eq_self_iff.2 hall

/-! ## Reading -/

section Pieces

open Utf8

variable (rest : Bytes) (done : List (Option Char))

/-- A byte that neither is a character nor begins one. -/
theorem pieces_stray {b : UInt8} (hleast : 0x80 ≤ b.toNat) (hless : b.toNat < 0xC2) :
    pieces (b :: rest) 0 done = pieces rest 0 (none :: done) := by
  have htail : tailOf b.toNat = none := by
    unfold tailOf
    rw [if_neg (by omega), if_neg (by omega), if_neg (by omega), if_neg (by omega),
      if_neg (by omega), if_neg (by omega), if_neg (by omega)]
  have hpiece : nextPiece b rest = (none, 0) := by
    unfold nextPiece
    rw [if_neg (by omega)]
    simp only [htail]
  rw [pieces, hpiece]

/-- A unit that is neither zero nor a surrogate is a character. -/
theorem pieces_unitBytes {u : Nat} (hpos : u ≠ 0) (hu : u < 0x10000)
    (hplain : u < 0xD800 ∨ 0xDFFF < u) :
    pieces (unitBytes u ++ rest) 0 done = pieces rest 0 (some (Char.ofNat u) :: done) := by
  unfold unitBytes
  split
  · have hb : (UInt8.ofNat u).toNat = u := by
      rw [UInt8.toNat_ofNat']; omega
    rw [List.singleton_append, pieces, nextPiece, hb, if_pos (by omega)]
  split
  · refine pieces_two rest done ?_ ?_ (by omega) (by omega) <;> rw [UInt8.toNat_ofNat'] <;> omega
  · refine pieces_three rest done ?_ ?_ ?_ (by omega) hu hplain <;>
      rw [UInt8.toNat_ofNat'] <;> omega

theorem pieces_zero :
    pieces (unitBytes 0 ++ rest) 0 done = pieces rest 0 (none :: none :: done) := by
  show pieces (0xC0 :: 0x80 :: rest) 0 done = _
  rw [pieces_stray _ _ (by decide) (by decide), pieces_stray _ _ (by decide) (by decide)]

/-- The lead byte of a surrogate admits no second byte that a surrogate has. -/
theorem pieces_surrogate {u : Nat} (hleast : 0xD800 ≤ u) (hgreatest : u ≤ 0xDFFF) :
    pieces (unitBytes u ++ rest) 0 done = pieces rest 0 (none :: none :: none :: done) := by
  have hlead : UInt8.ofNat (0xE0 + u / 0x1000) = 0xED := by
    have hdiv : u / 0x1000 = 0xD := by omega
    rw [hdiv]
    rfl
  have hbytes : unitBytes u =
      [0xED, UInt8.ofNat (0x80 + u / 0x40 % 0x40), UInt8.ofNat (0x80 + u % 0x40)] := by
    rw [unitBytes, if_neg (by omega), if_neg (by omega), hlead]
  have hsecond : (UInt8.ofNat (0x80 + u / 0x40 % 0x40)).toNat = 0x80 + u / 0x40 % 0x40 := by
    rw [UInt8.toNat_ofNat']; omega
  have hthird : (UInt8.ofNat (0x80 + u % 0x40)).toNat = 0x80 + u % 0x40 := by
    rw [UInt8.toNat_ofNat']; omega
  have hpiece : nextPiece 0xED (UInt8.ofNat (0x80 + u / 0x40 % 0x40) ::
      UInt8.ofNat (0x80 + u % 0x40) :: rest) = (none, 0) := by
    have htail : tailOf (0xED : UInt8).toNat = some ⟨2, 0x80, 0x9F⟩ := rfl
    have hout : ¬(0x80 ≤ 0x80 + u / 0x40 % 0x40 ∧ 0x80 + u / 0x40 % 0x40 ≤ 0x9F) := by omega
    unfold nextPiece
    rw [if_neg (by decide)]
    simp only [htail, hsecond, if_neg hout]
    rfl
  rw [hbytes, List.cons_append, List.cons_append, List.cons_append, List.nil_append, pieces, hpiece]
  rw [pieces_stray _ _ (by rw [hsecond]; omega) (by rw [hsecond]; omega),
    pieces_stray _ _ (by rw [hthird]; omega) (by rw [hthird]; omega)]

/-- The pieces of a character do not depend on what follows. -/
theorem pieces_unitsOf (c : Char) :
    pieces ((unitsOf c).flatMap unitBytes ++ rest) 0 done =
      pieces rest 0 ((piecesOf c).reverse ++ done) := by
  have hc := c.valid
  simp only [UInt32.isValidChar, Nat.isValidChar] at hc
  change c.toNat < 0xD800 ∨ (0xDFFF < c.toNat ∧ c.toNat < 0x110000) at hc
  unfold piecesOf unitsOf
  by_cases hzero : c = '\x00'
  · subst hzero
    exact pieces_zero rest done
  have hpos : c.toNat ≠ 0 := by
    intro h
    rw [← Char.ofNat_toNat c, h] at hzero
    exact hzero rfl
  rw [if_neg hzero]
  by_cases hfirst : c.toNat < 0x10000
  · rw [if_pos hfirst, if_pos hfirst]
    have h := pieces_unitBytes rest done hpos hfirst (by omega)
    rw [Char.ofNat_toNat] at h
    simpa using h
  · rw [if_neg hfirst, if_neg hfirst]
    simp only [List.flatMap_cons, List.flatMap_nil, List.append_nil, List.append_assoc]
    rw [pieces_surrogate _ _ (by omega) (by omega), pieces_surrogate _ _ (by omega) (by omega)]
    rfl

theorem pieces_flatMap_unitsOf (cs : List Char) (done : List (Option Char)) :
    pieces ((cs.flatMap unitsOf).flatMap unitBytes) 0 done =
      done.reverse ++ cs.flatMap piecesOf := by
  induction cs generalizing done with
  | nil => simp [pieces]
  | cons c cs ih =>
    rw [List.flatMap_cons, List.flatMap_append, pieces_unitsOf, ih]
    simp

end Pieces

theorem map_piecesOf (c : Char) : (piecesOf c).map (·.getD replacement) = misread c := by
  unfold piecesOf misread
  by_cases hzero : c = '\x00'
  · rw [if_pos hzero, if_pos hzero]
    rfl
  rw [if_neg hzero, if_neg hzero]
  by_cases hfirst : c.toNat < 0x10000
  · rw [if_pos hfirst, if_pos hfirst]
    rfl
  · rw [if_neg hfirst, if_neg hfirst]
    rfl

/-- A text in modified UTF-8 is not read as it was written, but as what is seen of it. -/
theorem pointedTo_encode (s : String) : Utf8.pointedTo (encode s) = seen s := by
  have hpieces := pieces_flatMap_unitsOf s.toList []
  rw [Utf8.pointedTo, takeWhile_encode, Utf8.decodeLenient, encode, hpieces, List.reverse_nil,
    List.nil_append, List.map_flatMap, seen]
  simp only [map_piecesOf]

/-- Read strictly, it is UTF-8 just if its characters are spelled alike in both encodings. -/
theorem utf8_decode?_encode (s : String) :
    Utf8.decode? (encode s) = if Plain s then some s else none := by
  have hpieces := pieces_flatMap_unitsOf s.toList []
  have hall : (s.toList.flatMap piecesOf).all Option.isSome = true ↔ Plain s := by
    rw [List.all_flatMap, List.all_eq_true]
    refine forall₂_congr fun c _ => ?_
    unfold piecesOf PlainChar
    by_cases hzero : c = '\x00'
    · simp [hzero]
    by_cases hfirst : c.toNat < 0x10000
    · simp [hzero, hfirst]
    · simp [hzero, hfirst]
  rw [Utf8.decode?, encode, hpieces, List.reverse_nil, List.nil_append]
  by_cases hplain : Plain s
  · have hchars : ∀ cs : List Char, (∀ c ∈ cs, PlainChar c) →
        (cs.flatMap piecesOf).filterMap id = cs := by
      intro cs hcs
      induction cs with
      | nil => rfl
      | cons c cs ih =>
        have hc := hcs c (by simp)
        rw [List.flatMap_cons, piecesOf, if_neg hc.1, if_pos hc.2, List.filterMap_append,
          ih fun d hd => hcs d (by simp [hd])]
        rfl
    simp only [if_pos (hall.2 hplain), if_pos hplain, hchars s.toList hplain, String.ofList_toList]
  · simp only [if_neg hplain, if_neg (mt hall.1 hplain)]

/-! ## What is seen of a text -/

theorem toList_seen (s : String) : (seen s).toList = s.toList.flatMap misread := by
  rw [seen, String.toList_ofList]

theorem seen_append (s t : String) : seen (s ++ t) = seen s ++ seen t := by
  apply String.toList_inj.1
  simp [toList_seen]

theorem length_misread (c : Char) :
    1 ≤ (misread c).length ∧ ((misread c).length = 1 → PlainChar c ∧ misread c = [c]) := by
  unfold misread PlainChar
  by_cases hzero : c = '\x00'
  · simp [hzero]
  by_cases hfirst : c.toNat < 0x10000
  · simp [hzero, hfirst]
  · simp [hzero, hfirst]

theorem misread_of_plain {c : Char} (h : PlainChar c) : misread c = [c] := by
  rw [misread, if_neg h.1, if_pos h.2]

/-- A text is seen as it is if its characters are spelled alike in both encodings, and only then:
any other character is seen as more than one. -/
theorem seen_eq_self_iff {s : String} : seen s = s ↔ Plain s := by
  have hmore : ∀ cs : List Char, cs.length ≤ (cs.flatMap misread).length ∧
      ((cs.flatMap misread).length = cs.length → ∀ c ∈ cs, PlainChar c) := by
    intro cs
    induction cs with
    | nil => simp
    | cons c cs ih =>
      obtain ⟨hleast, hall⟩ := ih
      obtain ⟨hpos, hone⟩ := length_misread c
      rw [List.flatMap_cons, List.length_append, List.length_cons]
      refine ⟨by omega, ?_⟩
      intro hlength d hd
      rcases List.mem_cons.1 hd with rfl | hd
      · exact (hone (by omega)).1
      · exact hall (by omega) d hd
  constructor
  · intro h
    have hlength := congrArg (fun t => t.toList.length) h
    simp only [toList_seen] at hlength
    exact (hmore s.toList).2 hlength
  · intro h
    apply String.toList_inj.1
    rw [toList_seen]
    have hsame : ∀ cs : List Char, (∀ c ∈ cs, PlainChar c) → cs.flatMap misread = cs := by
      intro cs hcs
      induction cs with
      | nil => rfl
      | cons c cs ih =>
        rw [List.flatMap_cons, misread_of_plain (hcs c (by simp)),
          ih fun d hd => hcs d (by simp [hd])]
        rfl
    exact hsame _ h

end ModifiedUtf8

end ValueCoverage.Text
