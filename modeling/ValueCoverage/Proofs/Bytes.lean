import ValueCoverage.Bytes

/-!
# What readers take

A word that was read off the front stands there as it is written. A list that is read item by item
is the list whose items stand there one after the other.
-/

namespace ValueCoverage

namespace Bytes

theorem get8?_eq_some_iff {bytes rest : Bytes} {b : UInt8} :
    bytes.get8? = some (b, rest) ↔ bytes = b :: rest := by
  cases bytes <;> simp [get8?]

theorem get16?_eq_some_iff {bytes rest : Bytes} {w : UInt16} :
    bytes.get16? = some (w, rest) ↔ bytes = put16 w ++ rest := by
  refine ⟨fun h => ?_, fun h => by rw [h, get16?_put16]⟩
  unfold get16? at h
  split at h
  · next a b more =>
    simp only [Option.some.injEq, Prod.mk.injEq] at h
    obtain ⟨rfl, rfl⟩ := h
    have ha := a.toNat_lt
    have hb := b.toNat_lt
    have hw : (UInt16.ofNat (a.toNat * 0x100 + b.toNat)).toNat = a.toNat * 0x100 + b.toNat := by
      rw [UInt16.toNat_ofNat']; omega
    simp only [put16, hw, List.cons_append, List.nil_append, List.cons.injEq, and_true]
    constructor <;> apply UInt8.toNat_inj.1 <;> rw [UInt8.toNat_ofNat'] <;> omega
  · cases h

theorem get32?_eq_some_iff {bytes rest : Bytes} {w : UInt32} :
    bytes.get32? = some (w, rest) ↔ bytes = put32 w ++ rest := by
  refine ⟨fun h => ?_, fun h => by rw [h, get32?_put32]⟩
  unfold get32? at h
  split at h
  · next a b c d more =>
    simp only [Option.some.injEq, Prod.mk.injEq] at h
    obtain ⟨rfl, rfl⟩ := h
    have ha := a.toNat_lt
    have hb := b.toNat_lt
    have hc := c.toNat_lt
    have hd := d.toNat_lt
    have hw :
        (UInt32.ofNat (((a.toNat * 0x100 + b.toNat) * 0x100 + c.toNat) * 0x100 + d.toNat)).toNat =
        ((a.toNat * 0x100 + b.toNat) * 0x100 + c.toNat) * 0x100 + d.toNat := by
      rw [UInt32.toNat_ofNat']; omega
    simp only [put32, hw, List.cons_append, List.nil_append, List.cons.injEq, and_true]
    refine ⟨?_, ?_, ?_, ?_⟩ <;> apply UInt8.toNat_inj.1 <;> rw [UInt8.toNat_ofNat'] <;> omega
  · cases h

theorem split?_eq_some_iff {n : Nat} {bytes front rest : Bytes} :
    bytes.split? n = some (front, rest) ↔ bytes = front ++ rest ∧ front.length = n := by
  constructor
  · intro h
    unfold split? at h
    simp only at h
    split at h
    · next hlen =>
      simp only [Option.some.injEq, Prod.mk.injEq] at h
      obtain ⟨rfl, rfl⟩ := h
      exact ⟨(List.take_append_drop n bytes).symm, hlen⟩
    · cases h
  · rintro ⟨rfl, rfl⟩
    exact split?_append front rest

theorem length_put32 (w : UInt32) : (put32 w).length = 4 := rfl

/-- Items of one length. -/
theorem length_flatMap_const {α : Type} {put : α → Bytes} {k : Nat} (h : ∀ a, (put a).length = k)
    (xs : List α) : (xs.flatMap put).length = k * xs.length := by
  induction xs with
  | nil => rfl
  | cons a xs ih =>
    rw [List.flatMap_cons, List.length_append, h, ih, List.length_cons, Nat.mul_succ]
    omega

section Many

variable {ε α : Type} {item : Bytes → Except ε (α × Bytes)}

theorem many_flatMap {put : α → Bytes} (hitem : ∀ a rest, item (put a ++ rest) = .ok (a, rest))
    (xs done : List α) (rest : Bytes) :
    many item xs.length done (xs.flatMap put ++ rest) = .ok (done.reverse ++ xs, rest) := by
  induction xs generalizing done with
  | nil => simp [many]
  | cons a xs ih =>
    simp only [List.length_cons, List.flatMap_cons, List.append_assoc, many, hitem, ih,
      List.reverse_cons, List.nil_append, List.cons_append]

/-- If every item stands as it is written, so do all of them. -/
theorem eq_flatMap_of_many {put : α → Bytes}
    (hitem : ∀ bytes a rest, item bytes = .ok (a, rest) → bytes = put a ++ rest) {n : Nat}
    {done all : List α} {bytes rest : Bytes} (h : many item n done bytes = .ok (all, rest)) :
    ∃ xs, all = done.reverse ++ xs ∧ xs.length = n ∧ bytes = xs.flatMap put ++ rest := by
  induction n generalizing done bytes with
  | zero =>
    simp only [many, Except.ok.injEq, Prod.mk.injEq] at h
    obtain ⟨rfl, rfl⟩ := h
    exact ⟨[], by simp⟩
  | succ n ih =>
    simp only [many] at h
    split at h
    · cases h
    · next a more hone =>
      obtain ⟨xs, rfl, hlen, rfl⟩ := ih h
      exact ⟨a :: xs, by simp, by simp [hlen], by rw [hitem _ _ _ hone]; simp⟩

end Many

end Bytes

end ValueCoverage
