import ValueCoverage.Proofs.ClassFile.Takes

/-!
# Frames as they are written

Seven forms of frames share one byte, the first. It tells them apart as long as a short delta, the
number of dropped locals and the number of new ones each stay in their own range, and just such
frames are read.
-/

namespace ValueCoverage

namespace Frame

/-- The frame can be written: what its first byte holds stays in the range of its form, and its
lists fit their counts. -/
def Fits : Frame → Prop
  | .same d | .sameItem d _ => d.toNat ≤ shortDelta
  | .chop _ k => 1 ≤ k.toNat ∧ k.toNat ≤ 3
  | .append _ locals => 1 ≤ locals.length ∧ locals.length ≤ 3
  | .full _ locals stack =>
    locals.length ≤ ClassReader.greatestCount ∧ stack.length ≤ ClassReader.greatestCount
  | .sameItemExtended _ _ | .sameExtended _ => True

instance : (frame : Frame) → Decidable frame.Fits
  | .same d | .sameItem d _ => inferInstanceAs (Decidable (d.toNat ≤ shortDelta))
  | .chop _ k => inferInstanceAs (Decidable (1 ≤ k.toNat ∧ k.toNat ≤ 3))
  | .append _ locals => inferInstanceAs (Decidable (1 ≤ locals.length ∧ locals.length ≤ 3))
  | .full _ locals stack =>
    inferInstanceAs (Decidable (locals.length ≤ ClassReader.greatestCount ∧
      stack.length ≤ ClassReader.greatestCount))
  | .sameItemExtended _ _ | .sameExtended _ => isTrue trivial

end Frame

namespace ClassReader

variable {limit : Nat}

/-! ## Types -/

theorem takes_verificationType (t : VerificationType) :
    Takes limit verificationType t.bytes t := by
  cases t with
  | top => exact (takes_u1 0).map fun _ => rfl
  | integer => exact (takes_u1 1).map fun _ => rfl
  | float => exact (takes_u1 2).map fun _ => rfl
  | double => exact (takes_u1 3).map fun _ => rfl
  | long => exact (takes_u1 4).map fun _ => rfl
  | null => exact (takes_u1 5).map fun _ => rfl
  | uninitializedThis => exact (takes_u1 6).map fun _ => rfl
  | object index => exact (takes_u1 7).bind ((takes_u2 index).map fun _ => rfl)
  | uninitialized offset => exact (takes_u1 8).bind ((takes_u2 offset).map fun _ => rfl)

theorem finds_verificationType :
    Finds verificationType VerificationType.bytes fun _ => True := by
  intro bytes t rest h
  refine ⟨trivial, ?_⟩
  obtain ⟨⟨tag, more⟩, htag, h⟩ := bind_eq_ok.1 h
  rw [u1_eq_ok.1 htag]
  have hof (n : UInt8) (hn : tag.toNat = n.toNat) : tag = n := UInt8.toNat_inj.1 hn
  dsimp only at h
  split at h
  · next hn => cases h; rw [hof 0 hn]; rfl
  · next hn => cases h; rw [hof 1 hn]; rfl
  · next hn => cases h; rw [hof 2 hn]; rfl
  · next hn => cases h; rw [hof 3 hn]; rfl
  · next hn => cases h; rw [hof 4 hn]; rfl
  · next hn => cases h; rw [hof 5 hn]; rfl
  · next hn => cases h; rw [hof 6 hn]; rfl
  · next hn =>
    obtain ⟨⟨index, more'⟩, hindex, h⟩ := bind_eq_ok.1 h
    cases h
    rw [hof 7 hn, u2_eq_ok.1 hindex]
    rfl
  · next hn =>
    obtain ⟨⟨offset, more'⟩, hoffset, h⟩ := bind_eq_ok.1 h
    cases h
    rw [hof 8 hn, u2_eq_ok.1 hoffset]
    rfl
  · cases h

/-! ## Forms -/

section Forms

variable {form : Nat}

theorem frameBody_same (h : form ≤ 63) (bytes : Bytes) :
    frameBody form bytes = .ok (.same (UInt16.ofNat form), bytes) := by
  rw [frameBody, if_pos h]

theorem frameBody_sameItem (h : 64 ≤ form) (h' : form ≤ 127) (bytes : Bytes) :
    frameBody form bytes = verificationType bytes >>= fun x =>
      .ok (.sameItem (UInt16.ofNat (form - 64)) x.1, x.2) := by
  rw [frameBody, if_neg (by omega), if_pos h']

theorem frameBody_unused (h : 128 ≤ form) (h' : form ≤ 246) (bytes : Bytes) :
    frameBody form bytes = .error (.invalidAttribute frameTableName) := by
  rw [frameBody, if_neg (by omega), if_neg (by omega), if_pos (by omega)]

theorem frameBody_sameItemExtended (bytes : Bytes) :
    frameBody 247 bytes = u2 bytes >>= fun x => verificationType x.2 >>= fun y =>
      .ok (.sameItemExtended x.1 y.1, y.2) := rfl

theorem frameBody_chop (h : 248 ≤ form) (h' : form ≤ 250) (bytes : Bytes) :
    frameBody form bytes = u2 bytes >>= fun x =>
      .ok (.chop x.1 (UInt8.ofNat (251 - form)), x.2) := by
  obtain rfl | rfl | rfl : form = 248 ∨ form = 249 ∨ form = 250 := by omega
  all_goals rfl

theorem frameBody_sameExtended (bytes : Bytes) :
    frameBody 251 bytes = u2 bytes >>= fun x => .ok (.sameExtended x.1, x.2) := rfl

theorem frameBody_append (h : 252 ≤ form) (h' : form ≤ 254) (bytes : Bytes) :
    frameBody form bytes = u2 bytes >>= fun x =>
      Bytes.many verificationType (form - 251) [] x.2 >>= fun y =>
        .ok (.append x.1 y.1, y.2) := by
  obtain rfl | rfl | rfl : form = 252 ∨ form = 253 ∨ form = 254 := by omega
  all_goals rfl

theorem frameBody_full (bytes : Bytes) :
    frameBody 255 bytes = u2 bytes >>= fun x => table verificationType x.2 >>= fun y =>
      table verificationType y.2 >>= fun z => .ok (.full x.1 y.1 z.1, z.2) := rfl

end Forms

/-! ## Frames -/

/-- A short delta is not cut. -/
theorem toNat_toUInt8_of_le {d : UInt16} (h : d.toNat ≤ Frame.shortDelta) :
    d.toUInt8.toNat = d.toNat := by
  unfold Frame.shortDelta at h
  rw [UInt16.toNat_toUInt8]
  omega

theorem takes_frame {f : Frame} (h : f.Fits) : Takes limit frame f.bytes f := by
  cases f with
  | same d =>
    refine (takes_u1 d.toUInt8).map fun rest => ?_
    show frameBody d.toUInt8.toNat rest = _
    rw [toNat_toUInt8_of_le h, frameBody_same h, UInt16.ofNat_toNat]
  | sameItem d item =>
    have hform : (64 + d.toUInt8).toNat = 64 + d.toNat := by
      have hd : d.toNat ≤ 63 := h
      rw [UInt8.toNat_add, toNat_toUInt8_of_le h]
      show (64 + d.toNat) % 256 = _
      omega
    have hbody : Takes limit (frameBody (64 + d.toUInt8).toNat) item.bytes (.sameItem d item) := by
      have hd : d.toNat ≤ 63 := h
      rw [hform, funext (frameBody_sameItem (by omega) (by omega)), Nat.add_sub_cancel_left,
        UInt16.ofNat_toNat]
      exact (takes_verificationType item).map fun _ => rfl
    exact (takes_u1 _).bind hbody
  | sameItemExtended d item =>
    have hbody : Takes limit (frameBody 247) (Bytes.put16 d ++ item.bytes)
        (.sameItemExtended d item) :=
      (takes_u2 d).bind ((takes_verificationType item).map fun _ => rfl)
    exact (takes_u1 247).bind hbody
  | chop d k =>
    have hk : 1 ≤ k.toNat ∧ k.toNat ≤ 3 := h
    have hform : (251 - k).toNat = 251 - k.toNat := by
      rw [UInt8.toNat_sub]
      show (256 - k.toNat + 251) % 256 = _
      omega
    have hbody : Takes limit (frameBody (251 - k).toNat) (Bytes.put16 d) (.chop d k) := by
      rw [hform, funext (frameBody_chop (by omega) (by omega)),
        show 251 - (251 - k.toNat) = k.toNat from by omega, UInt8.ofNat_toNat]
      exact (takes_u2 d).map fun _ => rfl
    exact (takes_u1 _).bind hbody
  | sameExtended d =>
    have hbody : Takes limit (frameBody 251) (Bytes.put16 d) (.sameExtended d) :=
      (takes_u2 d).map fun _ => rfl
    exact (takes_u1 251).bind hbody
  | append d locals =>
    have hlocals : 1 ≤ locals.length ∧ locals.length ≤ 3 := h
    have hform : (251 + UInt8.ofNat locals.length).toNat = 251 + locals.length := by
      rw [UInt8.toNat_add, UInt8.toNat_ofNat']
      show (251 + locals.length % 256) % 256 = _
      omega
    have hbody : Takes limit (frameBody (251 + UInt8.ofNat locals.length).toNat)
        (Bytes.put16 d ++ locals.flatMap VerificationType.bytes) (.append d locals) := by
      rw [hform, funext (frameBody_append (by omega) (by omega)), Nat.add_sub_cancel_left]
      have htypes : Takes limit (Bytes.many verificationType locals.length [])
          (locals.flatMap VerificationType.bytes) locals :=
        takes_many (fun t _ => takes_verificationType t) []
      refine (takes_u2 d).bind ?_
      dsimp only
      exact htypes.map fun _ => rfl
    exact (takes_u1 _).bind hbody
  | full d locals stack =>
    have htable {types : List VerificationType} (hlen : types.length ≤ greatestCount) :
        Takes limit (table verificationType) (putTable VerificationType.bytes types) types :=
      takes_table hlen fun t _ => takes_verificationType t
    have hbody : Takes limit (frameBody 255) (Bytes.put16 d ++
        (putTable VerificationType.bytes locals ++ putTable VerificationType.bytes stack))
        (.full d locals stack) :=
      (takes_u2 d).bind ((htable h.1).bind ((htable h.2).map fun _ => rfl))
    have hbytes : (Frame.full d locals stack).bytes = [255] ++ (Bytes.put16 d ++
        (putTable VerificationType.bytes locals ++ putTable VerificationType.bytes stack)) := by
      simp [Frame.bytes]
    rw [hbytes]
    exact (takes_u1 255).bind hbody

/-! What is found of each form fits, and its first byte is the one that was read. -/

section Found

variable {form : UInt8} {bytes rest : Bytes} {f : Frame}

theorem found_same (hform : form.toNat ≤ 63) (h : frameBody form.toNat bytes = .ok (f, rest)) :
    f.Fits ∧ [form] ++ bytes = f.bytes ++ rest := by
  rw [frameBody_same hform] at h
  cases h
  have hdelta : (UInt16.ofNat form.toNat).toNat = form.toNat := by
    rw [UInt16.toNat_ofNat']
    omega
  have hbyte : (UInt16.ofNat form.toNat).toUInt8 = form := by
    apply UInt8.toNat_inj.1
    rw [UInt16.toNat_toUInt8]
    omega
  refine ⟨by show _ ≤ 63; omega, ?_⟩
  rw [Frame.bytes, hbyte]

theorem found_sameItem (hle : 64 ≤ form.toNat) (hge : form.toNat ≤ 127)
    (h : frameBody form.toNat bytes = .ok (f, rest)) :
    f.Fits ∧ [form] ++ bytes = f.bytes ++ rest := by
  rw [frameBody_sameItem hle hge] at h
  obtain ⟨⟨item, more⟩, hitem, h⟩ := bind_eq_ok.1 h
  cases h
  have hdelta : (UInt16.ofNat (form.toNat - 64)).toNat = form.toNat - 64 := by
    rw [UInt16.toNat_ofNat']
    omega
  have hbyte : 64 + (UInt16.ofNat (form.toNat - 64)).toUInt8 = form := by
    apply UInt8.toNat_inj.1
    rw [UInt8.toNat_add, UInt16.toNat_toUInt8, hdelta]
    show (64 + (form.toNat - 64) % 256) % 256 = _
    omega
  refine ⟨by show _ ≤ 63; omega, ?_⟩
  rw [Frame.bytes, hbyte, (finds_verificationType hitem).2]
  rfl

theorem found_sameItemExtended (h : frameBody 247 bytes = .ok (f, rest)) :
    f.Fits ∧ [247] ++ bytes = f.bytes ++ rest := by
  rw [frameBody_sameItemExtended] at h
  obtain ⟨⟨delta, more⟩, hdelta, h⟩ := bind_eq_ok.1 h
  obtain ⟨⟨item, more'⟩, hitem, h⟩ := bind_eq_ok.1 h
  cases h
  refine ⟨trivial, ?_⟩
  simp only at hitem
  rw [Frame.bytes, u2_eq_ok.1 hdelta, (finds_verificationType hitem).2]
  simp

theorem found_chop (hle : 248 ≤ form.toNat) (hge : form.toNat ≤ 250)
    (h : frameBody form.toNat bytes = .ok (f, rest)) :
    f.Fits ∧ [form] ++ bytes = f.bytes ++ rest := by
  rw [frameBody_chop hle hge] at h
  obtain ⟨⟨delta, more⟩, hdelta, h⟩ := bind_eq_ok.1 h
  cases h
  have hdropped : (UInt8.ofNat (251 - form.toNat)).toNat = 251 - form.toNat := by
    rw [UInt8.toNat_ofNat']
    omega
  have hbyte : 251 - UInt8.ofNat (251 - form.toNat) = form := by
    apply UInt8.toNat_inj.1
    rw [UInt8.toNat_sub, hdropped]
    show (256 - (251 - form.toNat) + 251) % 256 = _
    omega
  refine ⟨by show 1 ≤ _ ∧ _ ≤ 3; omega, ?_⟩
  rw [Frame.bytes, hbyte, u2_eq_ok.1 hdelta]
  rfl

theorem found_sameExtended (h : frameBody 251 bytes = .ok (f, rest)) :
    f.Fits ∧ [251] ++ bytes = f.bytes ++ rest := by
  rw [frameBody_sameExtended] at h
  obtain ⟨⟨delta, more⟩, hdelta, h⟩ := bind_eq_ok.1 h
  cases h
  refine ⟨trivial, ?_⟩
  rw [Frame.bytes, u2_eq_ok.1 hdelta]
  rfl

theorem found_append (hle : 252 ≤ form.toNat) (hge : form.toNat ≤ 254)
    (h : frameBody form.toNat bytes = .ok (f, rest)) :
    f.Fits ∧ [form] ++ bytes = f.bytes ++ rest := by
  rw [frameBody_append hle hge] at h
  obtain ⟨⟨delta, more⟩, hdelta, h⟩ := bind_eq_ok.1 h
  obtain ⟨⟨locals, more'⟩, hlocals, h⟩ := bind_eq_ok.1 h
  cases h
  obtain ⟨types, htypes, hlen, -, hmore⟩ := finds_many finds_verificationType hlocals
  obtain rfl : locals = types := htypes
  have hbyte : 251 + UInt8.ofNat locals.length = form := by
    apply UInt8.toNat_inj.1
    rw [UInt8.toNat_add, UInt8.toNat_ofNat', hlen]
    show (251 + (form.toNat - 251) % 256) % 256 = _
    omega
  refine ⟨by show 1 ≤ locals.length ∧ locals.length ≤ 3; omega, ?_⟩
  simp only at hmore
  rw [Frame.bytes, hbyte, u2_eq_ok.1 hdelta, hmore]
  simp

theorem found_full (h : frameBody 255 bytes = .ok (f, rest)) :
    f.Fits ∧ [255] ++ bytes = f.bytes ++ rest := by
  rw [frameBody_full] at h
  obtain ⟨⟨delta, more⟩, hdelta, h⟩ := bind_eq_ok.1 h
  obtain ⟨⟨locals, more'⟩, hlocals, h⟩ := bind_eq_ok.1 h
  obtain ⟨⟨stack, more''⟩, hstack, h⟩ := bind_eq_ok.1 h
  cases h
  obtain ⟨hlocals, hmore⟩ := finds_table finds_verificationType hlocals
  obtain ⟨hstack, hmore'⟩ := finds_table finds_verificationType hstack
  refine ⟨⟨hlocals.length_le, hstack.length_le⟩, ?_⟩
  simp only at hmore hmore'
  rw [Frame.bytes, u2_eq_ok.1 hdelta, hmore, hmore']
  simp

/-- The ranges of the forms cover the byte, and the one that no form uses is refused. -/
theorem frameBody_eq_ok (h : frameBody form.toNat bytes = .ok (f, rest)) :
    f.Fits ∧ [form] ++ bytes = f.bytes ++ rest := by
  have hlt := form.toNat_lt
  have hbyte {n : UInt8} (hn : n.toNat = form.toNat) : n = form := UInt8.toNat_inj.1 hn
  rcases Nat.lt_or_ge form.toNat 64 with hsame | h64
  · exact found_same (by omega) h
  rcases Nat.lt_or_ge form.toNat 128 with hitem | h128
  · exact found_sameItem h64 (by omega) h
  rcases Nat.lt_or_ge form.toNat 247 with hunused | h247
  · rw [frameBody_unused h128 (by omega)] at h
    cases h
  rcases Nat.eq_or_lt_of_le h247 with hitem | h248
  · obtain rfl := hbyte (n := 247) hitem
    exact found_sameItemExtended h
  rcases Nat.lt_or_ge form.toNat 251 with hchop | h251
  · exact found_chop h248 (by omega) h
  rcases Nat.eq_or_lt_of_le h251 with hsame | h252
  · obtain rfl := hbyte (n := 251) hsame
    exact found_sameExtended h
  rcases Nat.lt_or_ge form.toNat 255 with happend | h255
  · exact found_append h252 (by omega) h
  · obtain rfl := hbyte (n := 255) (by show 255 = _; omega)
    exact found_full h

end Found

theorem finds_frame : Finds frame Frame.bytes Frame.Fits := by
  intro bytes f rest h
  obtain ⟨⟨form, more⟩, hform, h⟩ := bind_eq_ok.1 h
  obtain ⟨hfits, hbytes⟩ := frameBody_eq_ok h
  exact ⟨hfits, (u1_eq_ok.1 hform).trans hbytes⟩

end ClassReader

end ValueCoverage
