import ValueCoverage.ClassFile.ConstantPool
import ValueCoverage.Proofs.Steps
import ValueCoverage.Proofs.Text.ModifiedUtf8

/-!
# What interning leaves behind

A computation that interns only adds constants at the end of the pool, fails only on a full pool,
and returns an index that means what was asked for, in the pool that it leaves and in every later
one. Meanings are told as a virtual machine reads them, through the indices that a constant holds.
-/

namespace ValueCoverage

/-- A method by the names that a pool gives it. -/
structure MethodName where
  owner : String
  name : String
  descriptor : String
deriving Repr, DecidableEq

namespace ConstantPool

/-! ## Pools that grow -/

/-- The second pool is the first with constants added at the end. -/
def Grown (p q : ConstantPool) : Prop := p.slots.toList <+: q.slots.toList

theorem Grown.refl (p : ConstantPool) : Grown p p := List.prefix_refl _

theorem Grown.trans {p q s : ConstantPool} (h : Grown p q) (h' : Grown q s) : Grown p s :=
  List.IsPrefix.trans h h'

/-- No constant moves. -/
theorem Grown.get? {p q : ConstantPool} (h : Grown p q) {i : Nat} {c : Constant}
    (hc : p.get? i = some c) : q.get? i = some c := by
  obtain ⟨added, hadded⟩ := h
  unfold ConstantPool.get? at hc ⊢
  split at hc
  · cases hc
  · next hi =>
    rw [if_neg hi, Option.join_eq_some_iff, ← Array.getElem?_toList] at *
    rw [← hadded, List.getElem?_append_left (List.getElem?_eq_some_iff.1 hc).1]
    exact hc

theorem constantAt_of_get? {p : ConstantPool} {i : UInt16} {c : Constant}
    (h : p.get? i.toNat = some c) : p.constantAt i = .ok c := by
  simp only [ConstantPool.constantAt, h]

theorem getUtf8_of_get? {p : ConstantPool} {i : UInt16} {bytes : Bytes} {s : String}
    (h : p.get? i.toNat = some (.utf8 bytes)) (hs : readText bytes = some s) :
    p.getUtf8 i = .ok s :=
  bind_eq_ok.2 ⟨_, constantAt_of_get? h, by simp only [hs]⟩

theorem Grown.constantAt {p q : ConstantPool} (h : p.Grown q) {i : UInt16} {c : Constant}
    (hc : p.constantAt i = .ok c) : q.constantAt i = .ok c := by
  unfold ConstantPool.constantAt at hc ⊢
  split at hc
  · next hget =>
    cases hc
    rw [h.get? hget]
  · cases hc

theorem Grown.getUtf8 {p q : ConstantPool} {i : UInt16} {s : String} (h : p.Grown q)
    (hs : p.getUtf8 i = .ok s) : q.getUtf8 i = .ok s := by
  obtain ⟨c, hc, hs⟩ := bind_eq_ok.1 hs
  exact bind_eq_ok.2 ⟨c, h.constantAt hc, hs⟩

theorem Grown.className {p q : ConstantPool} {i : UInt16} {s : String} (h : p.Grown q)
    (hs : p.className i = .ok s) : q.className i = .ok s := by
  obtain ⟨c, hc, hs⟩ := bind_eq_ok.1 hs
  refine bind_eq_ok.2 ⟨c, h.constantAt hc, ?_⟩
  cases c with
  | classRef name => exact h.getUtf8 hs
  | _ => cases hs

/-- Every index means in the second pool what it means in the first. -/
structure Keeps (p q : ConstantPool) : Prop where
  grown : p.Grown q
  get? : ∀ i c, p.get? i = some c → q.get? i = some c
  getUtf8 : ∀ i s, p.getUtf8 i = .ok s → q.getUtf8 i = .ok s
  className : ∀ i s, p.className i = .ok s → q.className i = .ok s

theorem Grown.keeps {p q : ConstantPool} (h : p.Grown q) : p.Keeps q :=
  ⟨h, fun _ _ => h.get?, fun _ _ => h.getUtf8, fun _ _ => h.className⟩

/-- The pools that are met: the first slot is empty, and indices are words of two bytes. -/
structure Sound (p : ConstantPool) : Prop where
  unused : p.slots[0]? = some none
  fits : p.slots.size ≤ capacity

theorem Sound.get?_of_getElem? {p : ConstantPool} (h : Sound p) {i : Nat} {c : Constant}
    (hi : p.slots[i]? = some (some c)) : p.get? i = some c := by
  have hne : i ≠ 0 := by
    rintro rfl
    rw [h.unused] at hi
    cases hi
  simp [ConstantPool.get?, hne, hi]

theorem Sound.push {p : ConstantPool} (h : Sound p) (hroom : p.slots.size < capacity)
    (c : Option Constant) : Sound ⟨p.slots.push c⟩ where
  unused := by
    have hpos : 0 < p.slots.size := (Array.getElem?_eq_some_iff.1 h.unused).1
    rw [Array.getElem?_push, if_neg (Nat.ne_of_lt hpos)]
    exact h.unused
  fits := by simp only [Array.size_push]; omega

/-! ## What an index means -/

/-- The text at an index. -/
def textAt? (p : ConstantPool) (i : UInt16) : Option String :=
  match p.get? i.toNat with
  | some (.utf8 bytes) => Text.ModifiedUtf8.decode? bytes
  | _ => none

/-- The content of the string constant at an index. -/
def stringAt? (p : ConstantPool) (i : UInt16) : Option String :=
  match p.get? i.toNat with
  | some (.string content) => p.textAt? content
  | _ => none

/-- The internal name of the class at an index. -/
def classAt? (p : ConstantPool) (i : UInt16) : Option String :=
  match p.get? i.toNat with
  | some (.classRef name) => p.textAt? name
  | _ => none

/-- The name and the descriptor at an index. -/
def nameAndTypeAt? (p : ConstantPool) (i : UInt16) : Option (String × String) :=
  match p.get? i.toNat with
  | some (.nameAndType name descriptor) =>
    (p.textAt? name).bind fun n => (p.textAt? descriptor).map fun d => (n, d)
  | _ => none

/-- The method at an index. -/
def methodAt? (p : ConstantPool) (i : UInt16) : Option MethodName :=
  match p.get? i.toNat with
  | some (.methodref owner nameAndType) =>
    (p.classAt? owner).bind fun c => (p.nameAndTypeAt? nameAndType).map fun n => ⟨c, n.1, n.2⟩
  | _ => none

theorem mem_of_get? {p : ConstantPool} {i : Nat} {c : Constant} (h : p.get? i = some c) :
    some c ∈ p.slots.toList := by
  unfold ConstantPool.get? at h
  split at h
  · cases h
  · rw [Option.join_eq_some_iff, ← Array.getElem?_toList] at h
    exact List.mem_of_getElem? h

/-- The content of a string constant is spelled by a text of the pool. -/
theorem exists_text_of_stringAt? {p : ConstantPool} {i : UInt16} {s : String}
    (h : p.stringAt? i = some s) :
    ∃ bytes, some (.utf8 bytes) ∈ p.slots.toList ∧ Text.ModifiedUtf8.decode? bytes = some s := by
  unfold stringAt? at h
  split at h
  · unfold textAt? at h
    split at h
    · next bytes hget => exact ⟨bytes, mem_of_get? hget, h⟩
    · cases h
  · cases h

section Growth

variable {p q : ConstantPool} {i : UInt16} {s : String} {n : String × String} {m : MethodName}

theorem Grown.textAt? (h : Grown p q) (hs : p.textAt? i = some s) :
    q.textAt? i = some s := by
  unfold ConstantPool.textAt? at hs ⊢
  split at hs
  · next hc => rw [h.get? hc]; exact hs
  · cases hs

theorem Grown.stringAt? (h : Grown p q) (hs : p.stringAt? i = some s) :
    q.stringAt? i = some s := by
  unfold ConstantPool.stringAt? at hs ⊢
  split at hs
  · next hc => rw [h.get? hc]; exact h.textAt? hs
  · cases hs

theorem Grown.classAt? (h : Grown p q) (hs : p.classAt? i = some s) :
    q.classAt? i = some s := by
  unfold ConstantPool.classAt? at hs ⊢
  split at hs
  · next hc => rw [h.get? hc]; exact h.textAt? hs
  · cases hs

theorem Grown.nameAndTypeAt? (h : Grown p q)
    (hn : p.nameAndTypeAt? i = some n) : q.nameAndTypeAt? i = some n := by
  unfold ConstantPool.nameAndTypeAt? at hn ⊢
  split at hn
  · next hc =>
    simp only [Option.bind_eq_some_iff, Option.map_eq_some_iff] at hn
    obtain ⟨a, ha, b, hb, rfl⟩ := hn
    rw [h.get? hc]
    simp [h.textAt? ha, h.textAt? hb]
  · cases hn

theorem Grown.methodAt? (h : Grown p q) (hm : p.methodAt? i = some m) :
    q.methodAt? i = some m := by
  unfold ConstantPool.methodAt? at hm ⊢
  split at hm
  · next hc =>
    simp only [Option.bind_eq_some_iff, Option.map_eq_some_iff] at hm
    obtain ⟨a, ha, b, hb, rfl⟩ := hm
    rw [h.get? hc]
    simp [h.classAt? ha, h.nameAndTypeAt? hb]
  · cases hm

end Growth

/-! ## What interning yields -/

namespace Interning

variable {α β : Type}

/-- Whatever pool it starts on, the computation lets it grow, and ends with a result as `post` says
or with a full pool. -/
def Yields (m : Interning α) (post : ConstantPool → α → Prop) : Prop :=
  ∀ p, p.Sound → ∃ q, p.Grown q ∧ q.Sound ∧
    ((∃ a, m.on p = (.ok a, q) ∧ post q a) ∨ m.on p = (.error .poolFull, q))

theorem on_bind (m : Interning α) (f : α → Interning β) (p : ConstantPool) :
    (m >>= f).on p = match m.on p with
      | (.ok a, q) => (f a).on q
      | (.error e, q) => (.error e, q) := by
  show (ExceptT.bindCont f (m p).1) (m p).2 = _
  unfold Interning.on
  show _ = match m p with
    | (.ok a, q) => f a q
    | (.error e, q) => (.error e, q)
  rcases m p with ⟨a | a, q⟩ <;> rfl

theorem Yields.pure {post : ConstantPool → α → Prop} {a : α} (h : ∀ q, post q a) :
    Yields (Pure.pure a) post :=
  fun p hp => ⟨p, .refl p, hp, .inl ⟨a, rfl, h p⟩⟩

/-- What holds of a first result still holds when the second has been found. -/
theorem Yields.bind {m : Interning α} {f : α → Interning β} {first : ConstantPool → α → Prop}
    {post : ConstantPool → β → Prop} (hm : Yields m first)
    (hkeep : ∀ {p q a}, p.Grown q → first p a → first q a)
    (hf : ∀ a, Yields (f a) fun q b => first q a → post q b) : Yields (m >>= f) post := by
  intro p hp
  obtain ⟨q, hpq, hq, ⟨a, hrun, ha⟩ | hrun⟩ := hm p hp
  · obtain ⟨s, hqs, hs, ⟨b, hrun', hb⟩ | hrun'⟩ := hf a q hq
    · exact ⟨s, hpq.trans hqs, hs, .inl ⟨b, by rw [on_bind, hrun]; exact hrun', hb (hkeep hqs ha)⟩⟩
    · exact ⟨s, hpq.trans hqs, hs, .inr (by rw [on_bind, hrun]; exact hrun')⟩
  · exact ⟨q, hpq, hq, .inr (by rw [on_bind, hrun])⟩

theorem Yields.mono {m : Interning α} {post post' : ConstantPool → α → Prop} (hm : Yields m post)
    (h : ∀ q a, post q a → post' q a) : Yields m post' := by
  intro p hp
  obtain ⟨q, hpq, hq, ⟨a, hrun, ha⟩ | hrun⟩ := hm p hp
  · exact ⟨q, hpq, hq, .inl ⟨a, hrun, h q a ha⟩⟩
  · exact ⟨q, hpq, hq, .inr hrun⟩

end Interning

open Interning

theorem on_intern_of_some {c : Constant} {p : ConstantPool} {i : Nat} (h : p.find? c = some i) :
    (intern c).on p = (.ok (UInt16.ofNat i), p) := by
  unfold intern Interning.on
  simp only [ExceptT.run_mk, StateT.run, h]

theorem on_intern_of_none {c : Constant} {p : ConstantPool} (h : p.find? c = none) :
    (intern c).on p = if capacity ≤ p.slots.size then (.error .poolFull, p)
      else (.ok (UInt16.ofNat p.slots.size), ⟨p.slots.push (some c)⟩) := by
  unfold intern Interning.on
  simp only [ExceptT.run_mk, StateT.run, h]

theorem intern_yields (c : Constant) :
    Yields (intern c) fun q i => q.get? i.toNat = some c := by
  intro p hp
  cases hfound : p.find? c with
  | some i =>
    obtain ⟨hi, hc, -⟩ := Array.findIdx?_eq_some_iff_getElem.1 hfound
    have hc' : p.slots[i]? = some (some c) := by
      rw [Array.getElem?_eq_getElem hi, beq_iff_eq.1 hc]
    -- an index of a pool that fits is not cut
    have hlt : (UInt16.ofNat i).toNat = i := by
      have := hp.fits
      unfold capacity at this
      rw [UInt16.toNat_ofNat']; omega
    refine ⟨p, .refl p, hp, .inl ⟨_, on_intern_of_some hfound, ?_⟩⟩
    show p.get? (UInt16.ofNat i).toNat = some c
    rw [hlt]
    exact hp.get?_of_getElem? hc'
  | none =>
    have hrun := on_intern_of_none hfound
    by_cases hroom : capacity ≤ p.slots.size
    · rw [if_pos hroom] at hrun
      exact ⟨p, .refl p, hp, .inr hrun⟩
    · rw [if_neg hroom] at hrun
      have hsound : Sound ⟨p.slots.push (some c)⟩ := hp.push (by omega) _
      have hlt : (UInt16.ofNat p.slots.size).toNat = p.slots.size := by
        unfold capacity at hroom
        rw [UInt16.toNat_ofNat']; omega
      refine ⟨_, ?_, hsound, .inl ⟨_, hrun, ?_⟩⟩
      · simp [Grown]
      · show get? _ (UInt16.ofNat p.slots.size).toNat = some c
        rw [hlt]
        exact hsound.get?_of_getElem? (by simp)

theorem internUtf8_yields (s : String) :
    Yields (internUtf8 s) fun q i => q.textAt? i = some s :=
  (intern_yields _).mono fun q i h => by simp [textAt?, h]

theorem internClass_yields (name : String) :
    Yields (internClass name) fun q i => q.classAt? i = some name :=
  (internUtf8_yields name).bind Grown.textAt? fun n =>
    (intern_yields _).mono fun q i h hn => by simp [classAt?, h, hn]

theorem internString_yields (s : String) :
    Yields (internString s) fun q i => q.stringAt? i = some s :=
  (internUtf8_yields s).bind Grown.textAt? fun n =>
    (intern_yields _).mono fun q i h hn => by simp [stringAt?, h, hn]

theorem internNameAndType_yields (name descriptor : String) :
    Yields (internNameAndType name descriptor) fun q i =>
      q.nameAndTypeAt? i = some (name, descriptor) :=
  (internUtf8_yields name).bind Grown.textAt? fun n =>
    (internUtf8_yields descriptor).bind Grown.textAt? fun d =>
      (intern_yields _).mono fun q i h hd hn => by simp [nameAndTypeAt?, h, hd, hn]

theorem internMethodref_yields (owner name descriptor : String) :
    Yields (internMethodref owner name descriptor) fun q i =>
      q.methodAt? i = some ⟨owner, name, descriptor⟩ :=
  (internClass_yields owner).bind Grown.classAt? fun c =>
    (internNameAndType_yields name descriptor).bind Grown.nameAndTypeAt? fun n =>
      (intern_yields _).mono fun q i h hn hc => by simp [methodAt?, h, hn, hc]

end ConstantPool

end ValueCoverage
