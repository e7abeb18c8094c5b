import ValueCoverage.ClassFile.Reader
import ValueCoverage.Proofs.ConstantPool.Interning
import ValueCoverage.Proofs.Steps

/-!
# What is read of a class file

The pool of a class file that can be read is one that constants may be added to.
-/

namespace ValueCoverage

namespace ClassReader

/-- Constants are only ever put behind the slots that are filled. -/
theorem constants_keeps_first {count bound : Nat} {slots found : Array (Option Constant)}
    {bytes rest : Bytes} {first : Option Constant}
    (h : constants count bound slots bytes = .ok (found, rest))
    (hfirst : slots[0]? = some first) : found[0]? = some first := by
  induction bound generalizing slots bytes with
  | zero =>
    cases h
    exact hfirst
  | succ bound ih =>
    have hpos : 0 < slots.size := (Array.getElem?_eq_some_iff.1 hfirst).1
    have hpush (c : Option Constant) : (slots.push c)[0]? = some first := by
      rw [Array.getElem?_push, if_neg (Nat.ne_of_lt hpos)]
      exact hfirst
    simp only [constants] at h
    split at h
    · split at h
      · cases h
      · next c more hone =>
        refine ih h ?_
        split
        · rw [Array.getElem?_push, if_neg (by simp)]
          exact hpush _
        · exact hpush _
    · cases h
      exact hfirst

theorem sound_of_pool {bytes rest : Bytes} {p : ConstantPool} (h : pool bytes = .ok (p, rest)) :
    p.Sound := by
  obtain ⟨⟨count, rest'⟩, -, h⟩ := bind_eq_ok.1 h
  obtain ⟨⟨slots, rest''⟩, hslots, h⟩ := bind_eq_ok.1 h
  simp only at h
  split at h
  · next hsize =>
    cases h
    refine ⟨constants_keeps_first hslots rfl, ?_⟩
    have hcount := count.toNat_lt
    show slots.size ≤ ConstantPool.capacity
    unfold ConstantPool.capacity
    omega
  · cases h

theorem sound_of_classBody {bytes rest : Bytes} {depth : Nat} {c : ClassFile}
    (h : classBody depth bytes = .ok (c, rest)) : c.pool.Sound := by
  obtain ⟨⟨minor, b⟩, -, h⟩ := bind_eq_ok.1 h
  obtain ⟨⟨major, b⟩, -, h⟩ := bind_eq_ok.1 h
  obtain ⟨⟨pool, b⟩, hpool, h⟩ := bind_eq_ok.1 h
  obtain ⟨⟨access, b⟩, -, h⟩ := bind_eq_ok.1 h
  obtain ⟨⟨this, b⟩, -, h⟩ := bind_eq_ok.1 h
  obtain ⟨⟨super, b⟩, -, h⟩ := bind_eq_ok.1 h
  obtain ⟨⟨interfaces, b⟩, -, h⟩ := bind_eq_ok.1 h
  obtain ⟨⟨fields, b⟩, -, h⟩ := bind_eq_ok.1 h
  obtain ⟨⟨methods, b⟩, -, h⟩ := bind_eq_ok.1 h
  obtain ⟨⟨attributes, b⟩, -, h⟩ := bind_eq_ok.1 h
  cases h
  exact sound_of_pool hpool

end ClassReader

theorem ClassFile.read_eq_ok {bytes : Bytes} {c : ClassFile} :
    ClassFile.read bytes = .ok c ↔ ∃ rest, ClassReader.classFile bytes = .ok (c, rest) := by
  unfold ClassFile.read
  cases ClassReader.classFile bytes with
  | error e => simp [Except.map]
  | ok found =>
    obtain ⟨d, rest⟩ := found
    simp [Except.map]

theorem ClassFile.sound_of_read {bytes : Bytes} {c : ClassFile} (h : ClassFile.read bytes = .ok c) :
    c.pool.Sound := by
  obtain ⟨rest, hread⟩ := ClassFile.read_eq_ok.1 h
  obtain ⟨⟨magic, b⟩, -, h⟩ := bind_eq_ok.1 hread
  simp only at h
  split at h
  · cases h
  · exact ClassReader.sound_of_classBody h

end ValueCoverage
