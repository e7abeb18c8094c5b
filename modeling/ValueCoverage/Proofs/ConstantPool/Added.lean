import ValueCoverage.Proofs.ConstantPool.Format
import ValueCoverage.Proofs.ConstantPool.Interning

/-!
# What interning adds

How many constants a computation that interns may add, which ones these are, and that it ends well
if they have room. No constant that is added is wide, so a pool keeps its layout; only its texts may
not fit, since nothing looks at how long a text is.
-/

namespace ValueCoverage

namespace ConstantPool

/-- The second pool is the first with constants added at the end, all of which are allowed. -/
def GrownBy (allowed : Constant → Prop) (p q : ConstantPool) : Prop :=
  ∃ added : List Constant, q.slots.toList = p.slots.toList ++ added.map some ∧
    ∀ c ∈ added, allowed c

namespace GrownBy

variable {allowed : Constant → Prop} {p q s : ConstantPool}

theorem refl (p : ConstantPool) : GrownBy allowed p p :=
  ⟨[], by simp, by simp⟩

theorem trans (h : GrownBy allowed p q) (h' : GrownBy allowed q s) : GrownBy allowed p s := by
  obtain ⟨added, hq, hadded⟩ := h
  obtain ⟨more, hs, hmore⟩ := h'
  refine ⟨added ++ more, by rw [hs, hq, List.map_append, List.append_assoc], fun c hc => ?_⟩
  rcases List.mem_append.1 hc with hc | hc
  · exact hadded c hc
  · exact hmore c hc

theorem mono {allowed' : Constant → Prop} (h : GrownBy allowed p q)
    (hallowed : ∀ c, allowed c → allowed' c) : GrownBy allowed' p q := by
  obtain ⟨added, hq, hadded⟩ := h
  exact ⟨added, hq, fun c hc => hallowed c (hadded c hc)⟩

/-- Every constant is an old one or an allowed one. -/
theorem mem (h : GrownBy allowed p q) {c : Constant} (hc : some c ∈ q.slots.toList) :
    some c ∈ p.slots.toList ∨ allowed c := by
  obtain ⟨added, hq, hadded⟩ := h
  rw [hq, List.mem_append] at hc
  rcases hc with hc | hc
  · exact .inl hc
  · obtain ⟨d, hd, heq⟩ := List.mem_map.1 hc
    cases heq
    exact .inr (hadded c hd)

theorem laid (h : GrownBy allowed p q) (hp : p.Laid) (hnarrow : ∀ c, allowed c → c.isWide = false) :
    q.Laid := by
  obtain ⟨added, hq, hadded⟩ := h
  obtain ⟨slots, hslots, hpaired⟩ := hp
  have hmore : Paired (added.map some) := by
    clear hq
    induction added with
    | nil => exact .nil
    | cons c rest ih =>
      exact .narrow (hnarrow c (hadded c (by simp))) (ih fun d hd => hadded d (by simp [hd]))
  exact ⟨slots ++ added.map some, by rw [hq, hslots, List.cons_append], hpaired.append hmore⟩

end GrownBy

/-! ## Computations -/

namespace Interning

variable {α β : Type} {allowed : Constant → Prop} {n k : Nat}

/-- At most `n` constants are added, all of them allowed, and there is a result if `n` constants
have room. -/
structure Adds (m : Interning α) (n : Nat) (allowed : Constant → Prop) : Prop where
  grownBy : ∀ p, GrownBy allowed p (m.on p).2
  size_le : ∀ p, (m.on p).2.slots.size ≤ p.slots.size + n
  result : ∀ p, p.slots.size + n ≤ capacity → ∃ a, (m.on p).1 = .ok a

theorem Adds.pure (a : α) : Adds (Pure.pure a) 0 allowed where
  grownBy p := .refl p
  size_le _ := Nat.le_refl _
  result _ _ := ⟨a, rfl⟩

theorem Adds.bind {m : Interning α} {f : α → Interning β} (hm : Adds m n allowed)
    (hf : ∀ a, Adds (f a) k allowed) : Adds (m >>= f) (n + k) allowed where
  grownBy p := by
    have hfirst := hm.grownBy p
    rw [on_bind]
    rcases hrun : m.on p with ⟨e | a, q⟩ <;> rw [hrun] at hfirst
    · exact hfirst
    · exact hfirst.trans ((hf a).grownBy q)
  size_le p := by
    have hfirst := hm.size_le p
    rw [on_bind]
    rcases hrun : m.on p with ⟨e | a, q⟩ <;> rw [hrun] at hfirst
    · exact Nat.le_trans hfirst (by omega)
    · have hsecond := (hf a).size_le q
      simp only at hfirst ⊢
      omega
  result p hroom := by
    obtain ⟨a, ha⟩ := hm.result p (by omega)
    have hfirst := hm.size_le p
    rw [on_bind]
    rcases hrun : m.on p with ⟨e | b, q⟩ <;> rw [hrun] at ha hfirst
    · cases ha
    · exact (hf b).result q (by simp only at hfirst; omega)

theorem Adds.mono {allowed' : Constant → Prop} {m : Interning α} (h : Adds m n allowed)
    (hle : n ≤ k) (hallowed : ∀ c, allowed c → allowed' c) : Adds m k allowed' where
  grownBy p := (h.grownBy p).mono hallowed
  size_le p := Nat.le_trans (h.size_le p) (by omega)
  result p hroom := h.result p (by omega)

end Interning

open Interning

theorem intern_adds {allowed : Constant → Prop} {c : Constant} (hc : allowed c) :
    Adds (intern c) 1 allowed := by
  -- either the pool stays as it is, or the constant is put behind it
  have hrun (p : ConstantPool) : ((intern c).on p).2 = p ∨
      ((intern c).on p).2 = ⟨p.slots.push (some c)⟩ := by
    cases hfound : p.find? c with
    | some i => exact .inl (by rw [on_intern_of_some hfound])
    | none =>
      rw [on_intern_of_none hfound]
      split
      · exact .inl rfl
      · exact .inr rfl
  refine ⟨fun p => ?_, fun p => ?_, fun p hroom => ?_⟩
  · rcases hrun p with h | h <;> rw [h]
    · exact .refl p
    · exact ⟨[c], by simp, by simpa using hc⟩
  · rcases hrun p with h | h <;> rw [h]
    · exact Nat.le_succ _
    · simp
  · cases hfound : p.find? c with
    | some i => exact ⟨_, by rw [on_intern_of_some hfound]⟩
    | none => exact ⟨_, by rw [on_intern_of_none hfound, if_neg (by omega)]⟩

/-! ## Texts -/

/-- The constant takes one slot, and if it is a text, it is one of the texts. -/
def OneOf (texts : List String) : Constant → Prop
  | .utf8 bytes => ∃ s ∈ texts, bytes = Text.ModifiedUtf8.encode s
  | c => c.isWide = false

theorem OneOf.isWide {texts : List String} {c : Constant} (h : OneOf texts c) :
    c.isWide = false := by
  cases c <;> first | rfl | exact h

theorem OneOf.mono {texts more : List String} (hsub : ∀ s ∈ texts, s ∈ more) {c : Constant}
    (h : OneOf texts c) : OneOf more c := by
  cases c with
  | utf8 bytes =>
    obtain ⟨s, hs, hbytes⟩ := h
    exact ⟨s, hsub s hs, hbytes⟩
  | _ => exact h

section Texts

variable {texts : List String}

theorem internUtf8_adds {s : String} (hs : s ∈ texts) : Adds (internUtf8 s) 1 (OneOf texts) :=
  intern_adds ⟨s, hs, rfl⟩

theorem internClass_adds {name : String} (hname : name ∈ texts) :
    Adds (internClass name) 2 (OneOf texts) :=
  (internUtf8_adds hname).bind fun n => intern_adds (show OneOf texts (.classRef n) from rfl)

theorem internString_adds {s : String} (hs : s ∈ texts) :
    Adds (internString s) 2 (OneOf texts) :=
  (internUtf8_adds hs).bind fun n => intern_adds (show OneOf texts (.string n) from rfl)

theorem internNameAndType_adds {name descriptor : String} (hname : name ∈ texts)
    (hdescriptor : descriptor ∈ texts) :
    Adds (internNameAndType name descriptor) 3 (OneOf texts) :=
  (internUtf8_adds hname).bind fun n => (internUtf8_adds hdescriptor).bind fun d =>
    intern_adds (show OneOf texts (.nameAndType n d) from rfl)

theorem internMethodref_adds {owner name descriptor : String} (howner : owner ∈ texts)
    (hname : name ∈ texts) (hdescriptor : descriptor ∈ texts) :
    Adds (internMethodref owner name descriptor) 6 (OneOf texts) :=
  (internClass_adds howner).bind fun c => (internNameAndType_adds hname hdescriptor).bind fun n =>
    intern_adds (show OneOf texts (.methodref c n) from rfl)

end Texts

end ConstantPool

end ValueCoverage
