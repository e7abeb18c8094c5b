import ValueCoverage.ClassFile.Reader
import ValueCoverage.ClassFile.Writer
import ValueCoverage.Proofs.Bytes
import ValueCoverage.Proofs.Steps

/-!
# What is taken is what is written

Two properties of a reader beside the writer of the same things. A reader *takes* the bytes of a
thing if it finds the thing wherever they stand in front, and runs out of bytes wherever only a part
of them is left. It *finds* only what the writer writes if all that it returns stood as it is
written. Both pass from the parts of a thing to the thing.

Attributes are read to a depth that the number of bytes bounds, so a reader takes things on inputs
up to a length only; what does not nest has no such limit.
-/

namespace ValueCoverage.ClassReader

variable {α β : Type} {limit : Nat}

/-! ## Taking -/

/-- On inputs of at most `limit` bytes the reader takes `front` for `a`. -/
structure Takes (limit : Nat) (read : ClassReader α) (front : Bytes) (a : α) : Prop where
  /-- Whatever follows is left. -/
  whole : ∀ rest, (front ++ rest).length ≤ limit → read (front ++ rest) = .ok (a, rest)
  /-- A part that is cut off is never taken for something else. -/
  cut : ∀ part, part.length ≤ limit → part <+: front → part ≠ front →
    read part = .error .unexpectedEnd

namespace Takes

variable {read : ClassReader α} {front back : Bytes} {a : α} {b : β}

theorem pure (a : α) : Takes limit (fun rest => .ok (a, rest)) [] a where
  whole _ _ := rfl
  cut _ _ h hne := absurd (List.prefix_nil.1 h) hne

theorem mono {limit' : Nat} (h : Takes limit read front a) (hle : limit' ≤ limit) :
    Takes limit' read front a where
  whole rest hlen := h.whole rest (Nat.le_trans hlen hle)
  cut part hlen := h.cut part (Nat.le_trans hlen hle)

/-- One thing after the other. If the first is longer than the inputs are, the second one is never
reached; if not, less is left for it. -/
theorem bind_of_le {next : α × Bytes → Except ClassFileError (β × Bytes)}
    (h : Takes limit read front a)
    (h' : front.length ≤ limit →
      Takes (limit - front.length) (fun rest => next (a, rest)) back b) :
    Takes limit (fun bytes => read bytes >>= next) (front ++ back) b where
  whole rest hle := by
    have hlen : front.length ≤ limit ∧ (back ++ rest).length ≤ limit - front.length := by
      simp only [List.length_append] at hle ⊢
      omega
    rw [List.append_assoc] at hle ⊢
    rw [h.whole _ hle]
    exact (h' hlen.1).whole rest hlen.2
  cut part hle hpart hne := by
    rcases List.prefix_or_prefix_of_prefix hpart (List.prefix_append front back) with hp | hp
    · by_cases heq : part = front
      · -- all of the first thing is there, and nothing of the second
        have hback : back ≠ [] := by
          rintro rfl
          exact hne (by rw [heq, List.append_nil])
        have hwhole := h.whole [] (by rwa [List.append_nil, ← heq])
        rw [List.append_nil] at hwhole
        rw [heq, hwhole]
        exact (h' (heq ▸ hle)).cut [] (Nat.zero_le _) List.nil_prefix hback.symm
      · rw [h.cut part hle hp heq]
        rfl
    · obtain ⟨more, rfl⟩ := hp
      have hmore : more <+: back := (List.prefix_append_right_inj front).1 hpart
      have hlen : front.length ≤ limit ∧ more.length ≤ limit - front.length := by
        simp only [List.length_append] at hle
        omega
      rw [h.whole more hle]
      exact (h' hlen.1).cut more hlen.2 hmore fun heq => hne (by rw [heq])

theorem bind {next : α × Bytes → Except ClassFileError (β × Bytes)} (h : Takes limit read front a)
    (h' : Takes limit (fun rest => next (a, rest)) back b) :
    Takes limit (fun bytes => read bytes >>= next) (front ++ back) b :=
  h.bind_of_le fun _ => h'.mono (Nat.sub_le _ _)

/-- What is made of a thing without another look at the input. -/
theorem map_of_le {next : α × Bytes → Except ClassFileError (β × Bytes)}
    (h : Takes limit read front a)
    (hnext : front.length ≤ limit → ∀ rest, next (a, rest) = .ok (b, rest)) :
    Takes limit (fun bytes => read bytes >>= next) front b := by
  have h' : Takes limit (fun bytes => read bytes >>= next) (front ++ []) b :=
    h.bind_of_le fun hle => by
      simp only [hnext hle]
      exact .pure b
  rwa [List.append_nil] at h'

theorem map {next : α × Bytes → Except ClassFileError (β × Bytes)} (h : Takes limit read front a)
    (hnext : ∀ rest, next (a, rest) = .ok (b, rest)) :
    Takes limit (fun bytes => read bytes >>= next) front b :=
  h.map_of_le fun _ => hnext

/-- Nothing is left of an input that is just the thing. -/
theorem exact (h : Takes limit read front a) (hle : front.length ≤ limit) :
    read front = .ok (a, []) := by
  have hwhole := h.whole [] (by rwa [List.append_nil])
  rwa [List.append_nil] at hwhole

end Takes

/-- What is shorter than a word is no word. -/
theorem takes_of_length {read : ClassReader α} {front : Bytes} {a : α}
    (hwhole : ∀ rest, read (front ++ rest) = .ok (a, rest))
    (hcut : ∀ part : Bytes, part.length < front.length → read part = .error .unexpectedEnd) :
    Takes limit read front a where
  whole rest _ := hwhole rest
  cut part _ hpart hne :=
    hcut part (Nat.lt_of_le_of_ne hpart.length_le fun heq => hne (hpart.eq_of_length heq))

theorem takes_u1 (b : UInt8) : Takes limit u1 [b] b := by
  refine takes_of_length (fun rest => rfl) fun part hpart => ?_
  cases part with
  | nil => rfl
  | cons c rest => simp at hpart

theorem takes_u2 (w : UInt16) : Takes limit u2 (Bytes.put16 w) w := by
  refine takes_of_length (fun rest => by rw [u2, Bytes.get16?_put16]; rfl) fun part hpart => ?_
  match part with
  | [] | [_] => rfl
  | _ :: _ :: _ =>
    simp only [Bytes.put16, List.length_cons, List.length_nil] at hpart
    omega

theorem takes_u4 (w : UInt32) : Takes limit u4 (Bytes.put32 w) w := by
  refine takes_of_length (fun rest => by rw [u4, Bytes.get32?_put32]; rfl) fun part hpart => ?_
  match part with
  | [] | [_] | [_, _] | [_, _, _] => rfl
  | _ :: _ :: _ :: _ :: _ =>
    simp only [Bytes.put32, List.length_cons, List.length_nil] at hpart
    omega

theorem takes_take {n : Nat} {front : Bytes} (h : front.length = n) :
    Takes limit (take n) front front := by
  subst h
  refine takes_of_length (fun rest => by rw [take, Bytes.split?_append]; rfl) fun part hpart => ?_
  have hshort : (part.take front.length).length ≠ front.length := by
    rw [List.length_take]
    omega
  simp only [take, Bytes.split?, if_neg hshort]
  rfl

/-! ## Finding -/

/-- All that the reader returns fits, and stood as it is written. -/
def Finds (read : ClassReader α) (put : α → Bytes) (fits : α → Prop) : Prop :=
  ∀ ⦃bytes a rest⦄, read bytes = .ok (a, rest) → fits a ∧ bytes = put a ++ rest

theorem orEnd_eq_ok {o : Option α} {a : α} : orEnd o = .ok a ↔ o = some a := by
  cases o <;> simp [orEnd]

theorem u1_eq_ok {bytes rest : Bytes} {b : UInt8} :
    u1 bytes = .ok (b, rest) ↔ bytes = [b] ++ rest := by
  rw [u1, orEnd_eq_ok, Bytes.get8?_eq_some_iff]
  rfl

theorem u2_eq_ok {bytes rest : Bytes} {w : UInt16} :
    u2 bytes = .ok (w, rest) ↔ bytes = Bytes.put16 w ++ rest := by
  rw [u2, orEnd_eq_ok, Bytes.get16?_eq_some_iff]

theorem u4_eq_ok {bytes rest : Bytes} {w : UInt32} :
    u4 bytes = .ok (w, rest) ↔ bytes = Bytes.put32 w ++ rest := by
  rw [u4, orEnd_eq_ok, Bytes.get32?_eq_some_iff]

theorem take_eq_ok {n : Nat} {bytes front rest : Bytes} :
    take n bytes = .ok (front, rest) ↔ bytes = front ++ rest ∧ front.length = n := by
  rw [take, orEnd_eq_ok, Bytes.split?_eq_some_iff]

theorem finds_u2 : Finds u2 Bytes.put16 fun _ => True :=
  fun _ _ _ h => ⟨trivial, u2_eq_ok.1 h⟩

/-! ## Tables -/

/-- The greatest count that two bytes hold. -/
def greatestCount : Nat := 0xFFFF

theorem toNat_ofNat_of_le {n : Nat} (h : n ≤ greatestCount) : (UInt16.ofNat n).toNat = n := by
  unfold greatestCount at h
  rw [UInt16.toNat_ofNat']
  omega

theorem takes_many {item : ClassReader α} {put : α → Bytes} {xs : List α}
    (h : ∀ a ∈ xs, Takes limit item (put a) a) (done : List α) :
    Takes limit (Bytes.many item xs.length done) (xs.flatMap put) (done.reverse ++ xs) := by
  induction xs generalizing done with
  | nil =>
    rw [List.append_nil]
    exact .pure _
  | cons a xs ih =>
    have hrest := ih (fun b hb => h b (List.mem_cons_of_mem _ hb)) (a :: done)
    rw [List.reverse_cons, List.append_assoc] at hrest
    have hstep (bytes : Bytes) : Bytes.many item (xs.length + 1) done bytes =
        item bytes >>= fun x => Bytes.many item xs.length (x.1 :: done) x.2 := by
      rw [Bytes.many]
      cases item bytes <;> rfl
    rw [List.length_cons, List.flatMap_cons, funext hstep]
    exact (h a List.mem_cons_self).bind hrest

theorem takes_table {item : ClassReader α} {put : α → Bytes} {xs : List α}
    (hlen : xs.length ≤ greatestCount) (h : ∀ a ∈ xs, Takes limit item (put a) a) :
    Takes limit (table item) (putTable put xs) xs := by
  have hmany := takes_many h []
  rw [← toNat_ofNat_of_le hlen] at hmany
  exact (takes_u2 _).bind hmany

/-- A list that fits its count. -/
structure Counted (fits : α → Prop) (xs : List α) : Prop where
  length_le : xs.length ≤ greatestCount
  all : ∀ a ∈ xs, fits a

theorem finds_many {item : ClassReader α} {put : α → Bytes} {fits : α → Prop}
    (hitem : Finds item put fits) {n : Nat} {done all : List α} {bytes rest : Bytes}
    (h : Bytes.many item n done bytes = .ok (all, rest)) :
    ∃ xs, all = done.reverse ++ xs ∧ xs.length = n ∧ (∀ a ∈ xs, fits a) ∧
      bytes = xs.flatMap put ++ rest := by
  induction n generalizing done bytes with
  | zero =>
    cases h
    exact ⟨[], by simp⟩
  | succ n ih =>
    simp only [Bytes.many] at h
    split at h
    · cases h
    · next a more hone =>
      obtain ⟨xs, rfl, hlen, hall, rfl⟩ := ih h
      obtain ⟨ha, rfl⟩ := hitem hone
      exact ⟨a :: xs, by simp, by simp [hlen], List.forall_mem_cons.2 ⟨ha, hall⟩, by simp⟩

theorem finds_table {item : ClassReader α} {put : α → Bytes} {fits : α → Prop}
    (hitem : Finds item put fits) : Finds (table item) (putTable put) (Counted fits) := by
  intro bytes all rest h
  obtain ⟨⟨count, more⟩, hcount, h⟩ := bind_eq_ok.1 h
  obtain ⟨xs, hxs, hlen, hall, rfl⟩ := finds_many hitem h
  obtain rfl : all = xs := hxs
  have hle : all.length ≤ greatestCount := by
    have := count.toNat_lt
    unfold greatestCount
    omega
  refine ⟨⟨hle, hall⟩, ?_⟩
  rw [u2_eq_ok.1 hcount, putTable, putCount, hlen, UInt16.ofNat_toNat, List.append_assoc]

end ValueCoverage.ClassReader
