import ValueCoverage.Proofs.Capture.Shift
import ValueCoverage.Proofs.ClassFile.Frame

/-!
# Frames with other deltas

A frame that is given another delta takes the form that holds it, so whatever deltas it has had
before, it is read back as it is written. What it changes is never touched.
-/

namespace ValueCoverage.Frame

/-- The frame after one delta and then the next. -/
def withDeltas (deltas : List UInt16) (frame : Frame) : Frame :=
  deltas.foldl (fun frame d => frame.withDelta d) frame

/-- Whatever the delta is, a form for the change can be written: the numbers of dropped and of new
locals stay in their ranges, and the lists of a full frame fit their counts. -/
def Change.Fits : Change → Prop
  | .nothing | .item _ => True
  | .chop k => 1 ≤ k.toNat ∧ k.toNat ≤ 3
  | .append locals => 1 ≤ locals.length ∧ locals.length ≤ 3
  | .full locals stack =>
    locals.length ≤ ClassReader.greatestCount ∧ stack.length ≤ ClassReader.greatestCount

variable {frame : Frame}

theorem Fits.change (h : frame.Fits) : frame.change.Fits := by
  cases frame with
  | same | sameItem | sameItemExtended | sameExtended => trivial
  | chop | append | full => exact h

/-- A frame leaves the short form for a delta that does not fit, so that no short delta runs into
the range of another form. The delta that it had does not matter. -/
theorem fits_withDelta (h : frame.change.Fits) (d : UInt16) : (frame.withDelta d).Fits := by
  cases frame with
  | same | sameExtended | sameItem =>
    rw [withDelta]
    split
    · assumption
    · trivial
  | sameItemExtended => trivial
  | chop | append | full => exact h

theorem withDeltas_append (front : List UInt16) (last : UInt16) (frame : Frame) :
    frame.withDeltas (front ++ [last]) = (frame.withDeltas front).withDelta last := by
  rw [withDeltas, List.foldl_append]
  rfl

theorem change_withDeltas (deltas : List UInt16) (frame : Frame) :
    (frame.withDeltas deltas).change = frame.change := by
  induction deltas generalizing frame with
  | nil => rfl
  | cons d rest ih => exact (ih (frame.withDelta d)).trans (change_withDelta d frame)

theorem delta_withDeltas (deltas : List UInt16) (frame : Frame) :
    (frame.withDeltas deltas).delta = deltas.getLast?.getD frame.delta := by
  rcases List.eq_nil_or_concat deltas with rfl | ⟨front, last, rfl⟩
  · rfl
  · rw [List.concat_eq_append, withDeltas_append, delta_withDelta, List.getLast?_concat]
    rfl

/-- After any delta the frame fits its form, and before the first one only if it did. -/
theorem fits_withDeltas_iff (h : frame.change.Fits) (deltas : List UInt16) :
    (frame.withDeltas deltas).Fits ↔ deltas ≠ [] ∨ frame.Fits := by
  rcases List.eq_nil_or_concat deltas with rfl | ⟨front, last, rfl⟩
  · exact (or_iff_right fun hne => hne rfl).symm
  · refine iff_of_true ?_ (.inl (by simp))
    rw [List.concat_eq_append, withDeltas_append]
    exact fits_withDelta (by rwa [change_withDeltas]) last

/-- A frame is read back just if it fits its form. -/
theorem read_iff_fits : (∀ rest, ClassReader.frame (frame.bytes ++ rest) = .ok (frame, rest)) ↔
    frame.Fits := by
  constructor
  · intro h
    exact (ClassReader.finds_frame (h [])).1
  · intro h rest
    exact (ClassReader.takes_frame h).whole rest (Nat.le_refl _)

/-- **A frame is read back under any deltas.** If what it changes can be written at all, then
whatever its form and its delta are, and whatever deltas it is given, it has the last of them,
changes what it changed, and is read from what is written, up to where that ends. Without a new
delta, it is read back just if its own delta fits its form. -/
theorem read_withDeltas (h : frame.change.Fits) (deltas : List UInt16) :
    (frame.withDeltas deltas).delta = deltas.getLast?.getD frame.delta ∧
    (frame.withDeltas deltas).change = frame.change ∧
    ((∀ rest, ClassReader.frame ((frame.withDeltas deltas).bytes ++ rest) =
      .ok (frame.withDeltas deltas, rest)) ↔ deltas ≠ [] ∨ frame.Fits) :=
  ⟨delta_withDeltas deltas frame, change_withDeltas deltas frame,
    read_iff_fits.trans (fits_withDeltas_iff h deltas)⟩

/-- A short form with a delta that no short form holds. -/
def spilled : Frame := .sameItem 200 (.object 5)

theorem read_withDeltas_spilled :
    spilled.change.Fits ∧
    spilled.withDeltas [63, 64, 5] = .sameItemExtended 5 (.object 5) ∧
    (spilled.withDeltas [63, 64, 5]).bytes = [247, 0, 5, 7, 0, 5] ∧
    (∀ rest, ClassReader.frame ([247, 0, 5, 7, 0, 5] ++ rest) =
      .ok (.sameItemExtended 5 (.object 5), rest)) ∧
    ¬ ∀ rest, ClassReader.frame (spilled.bytes ++ rest) = .ok (spilled, rest) := by
  have hchange : spilled.change.Fits := trivial
  refine ⟨hchange, rfl, by decide, ?_, fun hread => ?_⟩
  · exact (read_withDeltas hchange [63, 64, 5]).2.2.2 (.inl (by decide))
  · rcases (read_withDeltas hchange []).2.2.1 hread with hne | hfits
    · exact hne rfl
    · exact absurd hfits (by decide)

end ValueCoverage.Frame
