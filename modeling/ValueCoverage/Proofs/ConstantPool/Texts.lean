import ValueCoverage.Proofs.ConstantPool.Calls

/-!
# Texts of a pool

A text in a pool is read as UTF-8 if its bytes are that, and as modified UTF-8 if not. Bytes that
are both spell the same text in both: a piece of UTF-8 that modified UTF-8 can read is one unit, of
the value of its character. So what was interned is read back, and whatever modified UTF-8 makes of
the bytes, long forms of small values included, is what the pool answers.
-/

namespace ValueCoverage

namespace Text

namespace Utf8

/-! ## Well-formed pieces -/

/-- How many bytes a lead byte asks for, and what the second one leaves out: short values in long
forms, and surrogates. -/
theorem tailOf_eq_some {lead : Nat} {t : Tail} (h : tailOf lead = some t) :
    (t.count = 1 ∧ 0xC2 ≤ lead ∧ lead ≤ 0xDF ∧ t.least = 0x80 ∧ t.greatest = 0xBF) ∨
    (t.count = 2 ∧ 0xE0 ≤ lead ∧ lead ≤ 0xEF ∧ 0x80 ≤ t.least ∧ t.greatest ≤ 0xBF ∧
      (lead = 0xED → t.greatest = 0x9F)) ∨
    (t.count = 3 ∧ 0xF0 ≤ lead) := by
  unfold tailOf at h
  repeat' split at h
  all_goals
    cases h <;> simp <;> omega

/-- A well-formed piece is a byte of its own, or a lead byte with all the bytes that it asks for. -/
theorem nextPiece_eq_some {lead : UInt8} {rest : Bytes} {c : Char} {n : Nat}
    (h : nextPiece lead rest = (some c, n)) :
    (lead.toNat < 0x80 ∧ n = 0 ∧ c = Char.ofNat lead.toNat) ∨
    0x80 ≤ lead.toNat ∧ ∃ t b more, tailOf lead.toNat = some t ∧ t.least ≤ b.toNat ∧
      b.toNat ≤ t.greatest ∧ (∀ b' ∈ more, isContinuation b' = true) ∧
      t.count = more.length + 1 ∧ n = more.length + 1 ∧ rest = b :: more ++ rest.drop n ∧
      c = Char.ofNat (codePoint lead.toNat (b :: more)) := by
  unfold nextPiece at h
  split at h
  · next hlead =>
    cases h
    exact .inl ⟨hlead, rfl, rfl⟩
  next hlead =>
  cases htail : tailOf lead.toNat with
  | none =>
    rw [htail] at h
    cases h
  | some t =>
    have hcount : 0 ≠ t.count := by
      have := tailOf_eq_some htail
      omega
    simp only [htail] at h
    cases rest with
    | nil =>
      simp only [List.length_nil, if_neg hcount] at h
      cases h
    | cons b rest =>
      by_cases hfirst : t.least ≤ b.toNat ∧ b.toNat ≤ t.greatest
      · simp only [if_pos hfirst] at h
        split at h
        · next hlength =>
          cases h
          rw [List.length_cons] at hlength
          have htake : ((rest.take (t.count - 1)).takeWhile isContinuation) =
              rest.take (t.count - 1) := by
            refine (List.takeWhile_prefix _).eq_of_length ?_
            have hle :=
              (List.takeWhile_prefix isContinuation (l := rest.take (t.count - 1))).length_le
            have htaken := List.length_take_le (t.count - 1) rest
            omega
          refine .inr ⟨by omega, t, b, _, rfl, hfirst.1, hfirst.2,
            fun b' hb' => List.mem_takeWhile_imp hb', hlength.symm, hlength.symm, ?_, rfl⟩
          have hlast : t.count = (t.count - 1) + 1 := by omega
          rw [htake, List.cons_append, hlast, List.drop_succ_cons, Nat.add_sub_cancel,
            List.take_append_drop]
        · cases h
      · simp only [if_neg hfirst, List.length_nil, if_neg hcount] at h
        cases h

/-- The pieces that were found before stand before those that follow. -/
theorem pieces_done (bytes : Bytes) (skip : Nat) (done : List (Option Char)) :
    pieces bytes skip done = done.reverse ++ pieces bytes skip [] := by
  induction bytes generalizing skip done with
  | nil => simp [pieces]
  | cons b rest ih =>
    cases skip with
    | zero =>
      rw [pieces, pieces, ih _ (_ :: done), ih _ [_]]
      simp
    | succ skip => exact ih skip done

/-- Bytes that are UTF-8 are all characters. -/
theorem pieces_of_decode? {bytes : Bytes} {s : String} (h : decode? bytes = some s) :
    pieces bytes 0 [] = s.toList.map some := by
  have hback : ∀ found : List (Option Char), found.all Option.isSome = true →
      found = (found.filterMap id).map some := by
    intro found hfound
    induction found with
    | nil => rfl
    | cons piece rest ih =>
      rw [List.all_cons, Bool.and_eq_true] at hfound
      obtain ⟨c, rfl⟩ := Option.isSome_iff_exists.1 hfound.1
      exact congrArg (some c :: ·) (ih hfound.2)
  unfold decode? at h
  simp only at h
  split at h
  · next hall =>
    cases h
    rw [String.toList_ofList]
    exact hback _ hall
  · cases h

end Utf8

namespace ModifiedUtf8

open Utf8 (nextPiece tailOf codePoint pieces)

/-! ## Bytes that are both -/

theorem payload_lt (b : UInt8) : payload b < 0x40 := Nat.mod_lt _ (by decide)

theorem toNat_ofNat {v : Nat} (h : v < 0xD800 ∨ 0xDFFF < v ∧ v < 0x110000) :
    (Char.ofNat v).toNat = v := by
  rw [Char.ofNat, dif_pos h]
  rfl

section Units

variable {lead b1 b2 : UInt8} (rest : Bytes) (done : List Nat)

theorem readUnits_one (hlow : 0 < lead.toNat) (hhigh : lead.toNat < 0x80) :
    readUnits (lead :: rest) done = readUnits rest (lead.toNat :: done) := by
  rw [readUnits.eq_def]
  simp only
  rw [if_pos ⟨hlow, hhigh⟩]

theorem readUnits_two (hlow : 0xC0 ≤ lead.toNat) (hhigh : lead.toNat ≤ 0xDF)
    (h1 : isContinuation b1 = true) :
    readUnits (lead :: b1 :: rest) done =
      readUnits rest ((lead.toNat % 0x20 * 0x40 + payload b1) :: done) := by
  rw [readUnits.eq_def]
  simp only
  rw [if_neg (by omega), if_pos ⟨hlow, hhigh⟩, if_pos h1]

theorem readUnits_three (hlow : 0xE0 ≤ lead.toNat) (hhigh : lead.toNat ≤ 0xEF)
    (h1 : isContinuation b1 = true) (h2 : isContinuation b2 = true) :
    readUnits (lead :: b1 :: b2 :: rest) done =
      readUnits rest (((lead.toNat % 0x10 * 0x40 + payload b1) * 0x40 + payload b2) :: done) := by
  rw [readUnits.eq_def]
  simp only
  rw [if_neg (by omega), if_neg (by omega), if_pos ⟨hlow, hhigh⟩, if_pos (by rw [h1, h2]; rfl)]

/-- A zero byte and the lead byte of four spell nothing. -/
theorem readUnits_none (h : lead.toNat = 0 ∨ 0xF0 ≤ lead.toNat) :
    readUnits (lead :: rest) done = none := by
  rw [readUnits.eq_def]
  simp only
  rw [if_neg (by omega), if_neg (by omega), if_neg (by omega)]

end Units

/-- A piece that can be read as units is one unit, of the value of its character. -/
theorem readUnits_of_nextPiece {lead : UInt8} {rest : Bytes} {c : Char} {n : Nat}
    {done units : List Nat} (h : nextPiece lead rest = (some c, n))
    (hread : readUnits (lead :: rest) done = some units) :
    c.toNat < 0x10000 ∧ readUnits (rest.drop n) (c.toNat :: done) = some units := by
  rcases Utf8.nextPiece_eq_some h with ⟨hlead, rfl, rfl⟩ |
    ⟨hlead, t, b, more, htail, hleast, hgreatest, hmore, hcount, rfl, hrest, rfl⟩
  · have hpos : lead.toNat ≠ 0 := by
      intro hzero
      rw [readUnits_none _ _ (.inl hzero)] at hread
      cases hread
    rw [readUnits_one _ _ (by omega) hlead] at hread
    rw [toNat_ofNat (.inl (by omega))]
    exact ⟨by omega, hread⟩
  · rw [hrest] at hread
    generalize rest.drop (more.length + 1) = tail at hread hrest ⊢
    have hb := payload_lt b
    rcases Utf8.tailOf_eq_some htail with ⟨htwo, hlow, hhigh, hl, hg⟩ |
      ⟨hthree, hlow, hhigh, hl, hg, hsurrogate⟩ | ⟨hfour, hlow⟩
    · obtain rfl : more = [] := List.length_eq_zero_iff.1 (by omega)
      have hcont : isContinuation b = true := decide_eq_true (by omega)
      have hv : codePoint lead.toNat [b] = lead.toNat % 0x20 * 0x40 + payload b := rfl
      rw [List.cons_append, List.nil_append, readUnits_two _ _ (by omega) hhigh hcont] at hread
      rw [toNat_ofNat (.inl (by omega)), hv]
      exact ⟨by omega, hread⟩
    · obtain ⟨b2, rfl⟩ := List.length_eq_one_iff.1 (show more.length = 1 by omega)
      have hcont : isContinuation b = true := decide_eq_true (by omega)
      have hv : codePoint lead.toNat [b, b2] =
        (lead.toNat % 0x10 * 0x40 + payload b) * 0x40 + payload b2 := rfl
      have hb2 := payload_lt b2
      have hpayload : payload b = b.toNat % 0x40 := rfl
      rw [List.cons_append, List.cons_append, List.nil_append,
        readUnits_three _ _ hlow hhigh hcont (hmore b2 (by simp))] at hread
      rw [hv, toNat_ofNat (by omega)]
      exact ⟨by omega, hread⟩
    · rw [List.cons_append, readUnits_none _ _ (.inr hlow)] at hread
      cases hread

/-- Characters that can be read as units are units of their values. -/
theorem readUnits_of_pieces {bytes : Bytes} {skip : Nat} {cs : List Char} {done units : List Nat}
    (hpieces : pieces bytes skip [] = cs.map some)
    (hread : readUnits (bytes.drop skip) done = some units) :
    units = done.reverse ++ cs.map Char.toNat ∧ ∀ c ∈ cs, c.toNat < 0x10000 := by
  induction bytes generalizing skip cs done with
  | nil =>
    obtain rfl : cs = [] := by simpa [pieces] using hpieces.symm
    rw [List.drop_nil, readUnits] at hread
    cases hread
    simp
  | cons lead rest ih =>
    cases skip with
    | succ skip => exact ih hpieces hread
    | zero =>
      rw [pieces, Utf8.pieces_done] at hpieces
      cases cs with
      | nil => simp at hpieces
      | cons c cs =>
        obtain ⟨hc, hcs⟩ := List.cons.inj hpieces
        have hpiece : nextPiece lead rest = (some c, (nextPiece lead rest).2) :=
          Prod.ext hc rfl
        obtain ⟨hlt, hrest⟩ := readUnits_of_nextPiece hpiece hread
        obtain ⟨hunits, hall⟩ := ih hcs hrest
        refine ⟨by rw [hunits]; simp, ?_⟩
        intro d hd
        rcases List.mem_cons.1 hd with rfl | hd
        · exact hlt
        · exact hall d hd

/-- **Bytes that are UTF-8 and modified UTF-8 spell the same text in both.** -/
theorem eq_of_decode? {bytes : Bytes} {s t : String} (hs : Utf8.decode? bytes = some s)
    (ht : decode? bytes = some t) : s = t := by
  unfold decode? at ht
  obtain ⟨units, hunits, ht⟩ := Option.bind_eq_some_iff.1 ht
  obtain ⟨cs, hcs, ht⟩ := Option.bind_eq_some_iff.1 ht
  cases ht
  obtain ⟨hall, hfirst⟩ := readUnits_of_pieces (Utf8.pieces_of_decode? hs)
    (show readUnits (bytes.drop 0) [] = some units from hunits)
  have hunitsOf : ∀ cs : List Char, (∀ c ∈ cs, c.toNat < 0x10000) →
      cs.flatMap unitsOf = cs.map Char.toNat := by
    intro cs hcs
    have hone : ∀ c ∈ cs, unitsOf c = [c.toNat] := fun c hc => if_pos (hcs c hc)
    rw [List.map_eq_flatMap, List.flatMap_def, List.flatMap_def, List.map_congr_left hone]
  rw [List.reverse_nil, List.nil_append, ← hunitsOf _ hfirst] at hall
  rw [hall, readChars_flatMap, List.reverse_nil, List.nil_append] at hcs
  cases hcs
  rw [String.ofList_toList]

/-! ## What is written -/

/-- The bytes of a unit are neither zero nor above the lead bytes of three. -/
theorem mem_unitBytes {u : Nat} {b : UInt8} (hu : u < 0x10000) (h : b ∈ unitBytes u) :
    b ≠ 0 ∧ b.toNat ≤ 0xEF := by
  refine ⟨ne_zero_of_mem_unitBytes hu h, ?_⟩
  unfold unitBytes at h
  repeat' split at h
  all_goals
    simp only [List.mem_cons, List.not_mem_nil, or_false] at h
    rcases h with rfl | rfl | rfl <;> rw [UInt8.toNat_ofNat'] <;> omega

theorem mem_encode {s : String} {b : UInt8} (h : b ∈ encode s) : b ≠ 0 ∧ b.toNat ≤ 0xEF := by
  obtain ⟨u, hu, hb⟩ := List.mem_flatMap.1 h
  obtain ⟨c, -, hu⟩ := List.mem_flatMap.1 hu
  exact mem_unitBytes (unitsOf_lt hu) hb

/-- A character that is spelled alike in both encodings has the same bytes in both. -/
theorem unitBytes_of_plainChar {c : Char} (h : PlainChar c) :
    (unitsOf c).flatMap unitBytes = String.utf8EncodeChar c := by
  obtain ⟨hzero, hfirst⟩ := h
  have hval : c.val.toNat = c.toNat := rfl
  have hpos : c.toNat ≠ 0 := by
    intro h
    rw [← Char.ofNat_toNat c, h] at hzero
    exact hzero rfl
  rw [unitsOf, if_pos hfirst, List.flatMap_singleton]
  unfold unitBytes String.utf8EncodeChar
  simp only [hval]
  have hlast : 0x80 + c.toNat % 0x40 = c.toNat % 64 + 128 := by omega
  by_cases hone : c.toNat < 0x80
  · rw [if_pos ⟨by omega, hone⟩, if_pos (by omega)]
  by_cases htwo : c.toNat < 0x800
  · have hlead : 0xC0 + c.toNat / 0x40 = c.toNat / 64 % 32 + 192 := by omega
    rw [if_neg (by omega), if_pos htwo, if_neg (by omega), if_pos (by omega), hlead, hlast]
  · have hlead : 0xE0 + c.toNat / 0x1000 = c.toNat / 4096 % 16 + 224 := by omega
    have hmiddle : 0x80 + c.toNat / 0x40 % 0x40 = c.toNat / 64 % 64 + 128 := by omega
    rw [if_neg (by omega), if_neg htwo, if_neg (by omega), if_neg (by omega), if_pos (by omega),
      hlead, hmiddle, hlast]

theorem encode_of_plain {s : String} (h : Plain s) : encode s = Utf8.encode s := by
  rw [encode, List.flatMap_assoc, Utf8.encode, List.flatMap_def, List.flatMap_def,
    List.map_congr_left fun c hc => unitBytes_of_plainChar (h c hc)]

/-- A text without zeros whose bytes are all below 128 is spelled alike in both encodings. -/
theorem plain_of_ascii {s : String} (h : ∀ b ∈ Utf8.encode s, b ≠ 0 ∧ b.toNat < 0x80) :
    Plain s := by
  intro c hc
  have hread := Utf8.decode?_ascii fun b hb => (h b hb).2
  rw [Utf8.decode?_encode] at hread
  rw [Option.some.inj hread, String.toList_ofList] at hc
  obtain ⟨b, hb, rfl⟩ := List.mem_map.1 hc
  obtain ⟨hzero, hless⟩ := h b hb
  have hvalue : (Char.ofNat b.toNat).toNat = b.toNat := toNat_ofNat (.inl (by omega))
  refine ⟨fun hnull => hzero (UInt8.toNat_inj.1 ?_), by omega⟩
  rw [← hvalue, hnull]
  rfl

end ModifiedUtf8

end Text

namespace ConstantPool

open Text

/-- The text of an entry is what modified UTF-8 makes of its bytes, if it makes anything of them. -/
theorem readText_of_decode? {bytes : Bytes} {r : String}
    (h : ModifiedUtf8.decode? bytes = some r) : readText bytes = some r := by
  unfold readText
  cases hs : Utf8.decode? bytes with
  | none => exact h
  | some s => rw [ModifiedUtf8.eq_of_decode? hs h]

/-- A text finds its entry, or a place behind the others; if there is neither, nothing happens. -/
theorem internUtf8_cases {p : ConstantPool} (hp : p.Sound) (s : String) :
    (∃ i q, (internUtf8 s).on p = (.ok i, q) ∧
      q.constantAt i = .ok (.utf8 (ModifiedUtf8.encode s))) ∨
    ((internUtf8 s).on p = (.error .poolFull, p) ∧ p.slots.size = capacity ∧
      some (.utf8 (ModifiedUtf8.encode s)) ∉ p.slots.toList) := by
  obtain ⟨q, -, -, ⟨i, hrun, hget⟩ | hrun⟩ := intern_yields (.utf8 (ModifiedUtf8.encode s)) p hp
  · exact .inl ⟨i, q, hrun, constantAt_of_get? hget⟩
  · cases hfound : p.find? (.utf8 (ModifiedUtf8.encode s)) with
    | some i =>
      rw [on_intern_of_some hfound] at hrun
      cases hrun
    | none =>
      have hnone := on_intern_of_none hfound
      split at hnone
      · next hfull =>
        refine .inr ⟨hnone, Nat.le_antisymm hp.fits hfull, ?_⟩
        intro hmem
        have hall := Array.findIdx?_eq_none_iff.1 hfound _ (Array.mem_toList_iff.1 hmem)
        simp at hall
      · rw [hnone] at hrun
        cases hrun

/-- **Texts in a pool are read as they were written.** A text that is interned is read back from
its index; it finds no index only if the pool is full and has no entry for it. Its bytes are
neither zero nor above those that begin a unit of three bytes, they are its UTF-8 where that is
plain ASCII without zeros, and no other text has them. Whatever an entry holds is read as
modified UTF-8 reads it, if modified UTF-8 reads it at all: where the bytes are UTF-8 as well,
both spell the same text. -/
theorem texts_read_back {p : ConstantPool} (hp : p.Sound) :
    (∀ s, (∃ i q, (internUtf8 s).on p = (.ok i, q) ∧
        q.constantAt i = .ok (.utf8 (ModifiedUtf8.encode s)) ∧ q.getUtf8 i = .ok s) ∨
      ((internUtf8 s).on p = (.error .poolFull, p) ∧ p.slots.size = 65535 ∧
        some (.utf8 (ModifiedUtf8.encode s)) ∉ p.slots.toList)) ∧
    (∀ s, ∀ b ∈ ModifiedUtf8.encode s, b ≠ 0 ∧ b.toNat ≤ 0xEF) ∧
    (∀ s, (∀ b ∈ Utf8.encode s, b ≠ 0 ∧ b.toNat < 0x80) →
      ModifiedUtf8.encode s = Utf8.encode s) ∧
    (∀ s t, ModifiedUtf8.encode s = ModifiedUtf8.encode t → s = t) ∧
    (∀ i bytes r, p.constantAt i = .ok (.utf8 bytes) → ModifiedUtf8.decode? bytes = some r →
      p.getUtf8 i = .ok r) ∧
    ∀ bytes s r, Utf8.decode? bytes = some s → ModifiedUtf8.decode? bytes = some r → s = r := by
  refine ⟨fun s => ?_, fun s b => ModifiedUtf8.mem_encode,
    fun s h => ModifiedUtf8.encode_of_plain (ModifiedUtf8.plain_of_ascii h),
    fun s t => ModifiedUtf8.encode_injective, ?_, fun bytes s r => ModifiedUtf8.eq_of_decode?⟩
  · rcases internUtf8_cases hp s with ⟨i, q, hrun, hi⟩ | hfull
    · refine .inl ⟨i, q, hrun, hi, bind_eq_ok.2 ⟨_, hi, ?_⟩⟩
      simp only [readText_encode]
    · exact .inr hfull
  · intro i bytes r hi hr
    refine bind_eq_ok.2 ⟨_, hi, ?_⟩
    simp only [readText_of_decode? hr]

/-- A pool with a letter in three bytes, which is no UTF-8. -/
def longLetterPool : ConstantPool := ⟨#[none, some (.utf8 [0xE0, 0x81, 0x81])]⟩

/-- Interned there, a zero character and one past the first plane. -/
theorem texts_read_back_longLetterPool :
    longLetterPool.Sound ∧
    (∃ i q, (internUtf8 "\x00😀").on longLetterPool = (.ok i, q) ∧
      q.constantAt i = .ok (.utf8 [0xC0, 0x80, 0xED, 0xA0, 0xBD, 0xED, 0xB8, 0x80]) ∧
      q.getUtf8 i = .ok "\x00😀") ∧
    Utf8.decode? [0xE0, 0x81, 0x81] = none ∧
    ModifiedUtf8.decode? [0xE0, 0x81, 0x81] = some "A" ∧
    longLetterPool.getUtf8 1 = .ok "A" := by
  have hsound : longLetterPool.Sound := ⟨rfl, by decide⟩
  have hletter : ModifiedUtf8.decode? [0xE0, 0x81, 0x81] = some "A" := by decide +kernel
  obtain ⟨hintern, -, -, -, hread, -⟩ := texts_read_back hsound
  refine ⟨hsound, ?_, by decide +kernel, hletter, hread 1 _ _ rfl hletter⟩
  rcases hintern "\x00😀" with hfound | ⟨-, hfull, -⟩
  · exact hfound
  · cases hfull

end ConstantPool

end ValueCoverage
