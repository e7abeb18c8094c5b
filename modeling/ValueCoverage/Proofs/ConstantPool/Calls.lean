import ValueCoverage.Proofs.ClassFile.RoundTrip
import ValueCoverage.Proofs.ConstantPool.Interning
import ValueCoverage.Proofs.Text.Lenient

/-!
# Constants asked for one after the other

A pool that is new or that was read, under any requests for constants, of which any may fail half
way. No constant moves, an index that was returned keeps spelling the texts that were asked for, the
same request finds it again, and no pool grows past what an index can tell.
-/

namespace ValueCoverage.ConstantPool

open Interning

/-! ## What the accessors make of an index -/

/-- The bytes that interning writes are read as the text that they were written for: whether or not
they are taken for UTF-8. -/
theorem readText_encode (s : String) : readText (Text.ModifiedUtf8.encode s) = some s := by
  rw [readText, Text.ModifiedUtf8.utf8_decode?_encode]
  by_cases hplain : Text.ModifiedUtf8.Plain s
  · simp only [if_pos hplain]
  · simp only [if_neg hplain, Text.ModifiedUtf8.decode?_encode]

theorem className_of_get? {p : ConstantPool} {i name : UInt16} {s : String}
    (h : p.get? i.toNat = some (.classRef name)) (hname : p.getUtf8 name = .ok s) :
    p.className i = .ok s :=
  bind_eq_ok.2 ⟨_, constantAt_of_get? h, hname⟩

/-- The constant at an index is a string constant with this content. -/
def IsString (p : ConstantPool) (i : UInt16) (s : String) : Prop :=
  ∃ content, p.constantAt i = .ok (.string content) ∧ p.getUtf8 content = .ok s

/-- The constant at an index has this name and this descriptor. -/
def IsNameAndType (p : ConstantPool) (i : UInt16) (name descriptor : String) : Prop :=
  ∃ n d, p.constantAt i = .ok (.nameAndType n d) ∧ p.getUtf8 n = .ok name ∧
    p.getUtf8 d = .ok descriptor

/-- The constant at an index is a reference to this method. -/
def IsMethodref (p : ConstantPool) (i : UInt16) (owner name descriptor : String) : Prop :=
  ∃ c n, p.constantAt i = .ok (.methodref c n) ∧ p.className c = .ok owner ∧
    p.IsNameAndType n name descriptor

section Growth

variable {p q : ConstantPool} {i : UInt16} {s owner name descriptor : String}

theorem Grown.isString (h : p.Grown q) (hs : p.IsString i s) : q.IsString i s := by
  obtain ⟨content, hc, hs⟩ := hs
  exact ⟨content, h.constantAt hc, h.getUtf8 hs⟩

theorem Grown.isNameAndType (h : p.Grown q) (hi : p.IsNameAndType i name descriptor) :
    q.IsNameAndType i name descriptor := by
  obtain ⟨n, d, hc, hn, hd⟩ := hi
  exact ⟨n, d, h.constantAt hc, h.getUtf8 hn, h.getUtf8 hd⟩

theorem Grown.isMethodref (h : p.Grown q) (hi : p.IsMethodref i owner name descriptor) :
    q.IsMethodref i owner name descriptor := by
  obtain ⟨c, n, hc, howner, hn⟩ := hi
  exact ⟨c, n, h.constantAt hc, h.className howner, h.isNameAndType hn⟩

end Growth

/-! ## The same computation again -/

/-- Whatever the computation has returned, it returns again on every pool that has grown from the
one that it left, and adds nothing; and it fails only by leaving a full pool. -/
structure Interning.Settles {α : Type} (m : Interning α) : Prop where
  grown : ∀ p : ConstantPool, p.Grown (m.on p).2
  again : ∀ {p q : ConstantPool} {a : α}, m.on p = (.ok a, q) → ∀ r, q.Grown r →
    m.on r = (.ok a, r)
  full : ∀ {p q : ConstantPool} {e : ClassFileError}, m.on p = (.error e, q) →
    e = .poolFull ∧ capacity ≤ q.slots.size

/-- The first slot that holds a constant stays the first. -/
theorem Grown.find? {p q : ConstantPool} (h : p.Grown q) {c : Constant} {i : Nat}
    (hi : p.find? c = some i) : q.find? c = some i := by
  obtain ⟨added, hadded⟩ := h
  have hslots : q.slots = p.slots ++ added.toArray := by
    apply Array.toList_inj.1
    rw [Array.toList_append, ← hadded]
  unfold ConstantPool.find? at hi ⊢
  rw [hslots, Array.findIdx?_append, hi]
  rfl

/-- A constant that was missing is found where it has been added. -/
theorem find?_push {p : ConstantPool} {c : Constant} (h : p.find? c = none) :
    find? ⟨p.slots.push (some c)⟩ c = some p.slots.size := by
  unfold ConstantPool.find? at h ⊢
  simp [Array.findIdx?_push, h]

theorem intern_settles (c : Constant) : Settles (intern c) where
  grown p := by
    cases hfound : p.find? c with
    | some i => rw [on_intern_of_some hfound]; exact .refl p
    | none =>
      rw [on_intern_of_none hfound]
      split
      · exact .refl p
      · simp [Grown]
  again := by
    intro p q i h r hr
    cases hfound : p.find? c with
    | some j =>
      rw [on_intern_of_some hfound] at h
      cases h
      exact on_intern_of_some (hr.find? hfound)
    | none =>
      rw [on_intern_of_none hfound] at h
      split at h
      · cases h
      · cases h
        exact on_intern_of_some (hr.find? (find?_push hfound))
  full := by
    intro p q e h
    cases hfound : p.find? c with
    | some j =>
      rw [on_intern_of_some hfound] at h
      cases h
    | none =>
      rw [on_intern_of_none hfound] at h
      split at h
      · next hfull =>
        cases h
        exact ⟨rfl, hfull⟩
      · cases h

/-- Nothing is undone when the second step fails, so the first step finds its result again. -/
theorem Interning.Settles.bind {α β : Type} {m : Interning α} {f : α → Interning β}
    (hm : Settles m) (hf : ∀ a, Settles (f a)) : Settles (m >>= f) where
  grown p := by
    have hgrown := hm.grown p
    rw [on_bind]
    cases hrun : m.on p with
    | mk result q =>
      rw [hrun] at hgrown
      cases result with
      | ok a => exact hgrown.trans ((hf a).grown q)
      | error e => exact hgrown
  again := by
    intro p q b h r hr
    rw [on_bind] at h
    cases hrun : m.on p with
    | mk result mid =>
      rw [hrun] at h
      cases result with
      | ok a =>
        have hmid : mid.Grown q := by
          have hgrown := (hf a).grown mid
          simp only at h
          rwa [h] at hgrown
        rw [on_bind, hm.again hrun r (hmid.trans hr)]
        exact (hf a).again h r hr
      | error e => cases h
  full := by
    intro p q e h
    rw [on_bind] at h
    cases hrun : m.on p with
    | mk result mid =>
      rw [hrun] at h
      cases result with
      | ok a => exact (hf a).full h
      | error e' =>
        cases h
        exact hm.full hrun

/-! ## Requests -/

/-- The computation settles, and yields what is asked for. -/
structure Interning.Finds (m : Interning UInt16) (post : ConstantPool → UInt16 → Prop) : Prop where
  yields : Yields m post
  settles : Settles m

theorem intern_finds (c : Constant) {post : ConstantPool → UInt16 → Prop}
    (h : ∀ p i, p.get? i.toNat = some c → post p i) : Finds (intern c) post :=
  ⟨(intern_yields c).mono h, intern_settles c⟩

theorem Interning.Finds.bind {m : Interning UInt16} {f : UInt16 → Interning UInt16}
    {first post : ConstantPool → UInt16 → Prop} (hm : Finds m first)
    (hkeep : ∀ {p q a}, p.Grown q → first p a → first q a)
    (hf : ∀ a, Finds (f a) fun q b => first q a → post q b) :
    Finds (m >>= f) post :=
  ⟨hm.yields.bind hkeep fun a => (hf a).yields, hm.settles.bind fun a => (hf a).settles⟩

theorem internUtf8_finds (s : String) :
    Finds (internUtf8 s) fun p i => p.getUtf8 i = .ok s :=
  intern_finds _ fun _ _ h => getUtf8_of_get? h (readText_encode s)

theorem internClass_finds (name : String) :
    Finds (internClass name) fun p i => p.className i = .ok name :=
  (internUtf8_finds name).bind Grown.getUtf8 fun _ =>
    intern_finds _ fun _ _ h hn => className_of_get? h hn

theorem internString_finds (s : String) :
    Finds (internString s) fun p i => p.IsString i s :=
  (internUtf8_finds s).bind Grown.getUtf8 fun n =>
    intern_finds _ fun _ _ h hn => ⟨n, constantAt_of_get? h, hn⟩

theorem internNameAndType_finds (name descriptor : String) :
    Finds (internNameAndType name descriptor) fun p i =>
      p.IsNameAndType i name descriptor :=
  (internUtf8_finds name).bind Grown.getUtf8 fun n =>
    (internUtf8_finds descriptor).bind Grown.getUtf8 fun d =>
      intern_finds _ fun _ _ h hd hn => ⟨n, d, constantAt_of_get? h, hn, hd⟩

theorem internMethodref_finds (owner name descriptor : String) :
    Finds (internMethodref owner name descriptor) fun p i =>
      p.IsMethodref i owner name descriptor :=
  (internClass_finds owner).bind Grown.className fun c =>
    (internNameAndType_finds name descriptor).bind Grown.isNameAndType fun n =>
      intern_finds _ fun _ _ h hn hc => ⟨c, n, constantAt_of_get? h, hc, hn⟩

/-- A constant that is asked for by the texts that it spells. -/
inductive Request where
  | utf8 (text : String)
  | classRef (name : String)
  | string (text : String)
  | nameAndType (name descriptor : String)
  | methodref (owner name descriptor : String)
deriving Repr, DecidableEq

namespace Request

/-- The call that asks for the constant. -/
def call : Request → Interning UInt16
  | .utf8 text => internUtf8 text
  | .classRef name => internClass name
  | .string text => internString text
  | .nameAndType name descriptor => internNameAndType name descriptor
  | .methodref owner name descriptor => internMethodref owner name descriptor

/-- The accessors find just the texts of the request at the index. -/
def ResolvesTo (p : ConstantPool) (i : UInt16) : Request → Prop
  | .utf8 text => p.getUtf8 i = .ok text
  | .classRef name => p.className i = .ok name
  | .string text => p.IsString i text
  | .nameAndType name descriptor => p.IsNameAndType i name descriptor
  | .methodref owner name descriptor => p.IsMethodref i owner name descriptor

theorem finds (request : Request) :
    Finds request.call fun p i => request.ResolvesTo p i := by
  cases request with
  | utf8 text => exact internUtf8_finds text
  | classRef name => exact internClass_finds name
  | string text => exact internString_finds text
  | nameAndType name descriptor => exact internNameAndType_finds name descriptor
  | methodref owner name descriptor => exact internMethodref_finds owner name descriptor

section

variable {p q : ConstantPool} {i : UInt16} {request : Request}

theorem ResolvesTo.grown (h : request.ResolvesTo p i) (hpq : p.Grown q) :
    request.ResolvesTo q i := by
  cases request with
  | utf8 text => exact hpq.getUtf8 h
  | classRef name => exact hpq.className h
  | string text => exact hpq.isString h
  | nameAndType name descriptor => exact hpq.isNameAndType h
  | methodref owner name descriptor => exact hpq.isMethodref h

theorem ResolvesTo.constantAt (h : request.ResolvesTo p i) : ∃ c, p.constantAt i = .ok c := by
  cases request with
  | utf8 text =>
    obtain ⟨c, hc, -⟩ := bind_eq_ok.1 h
    exact ⟨c, hc⟩
  | classRef name =>
    obtain ⟨c, hc, -⟩ := bind_eq_ok.1 h
    exact ⟨c, hc⟩
  | string text =>
    obtain ⟨content, hc, -⟩ := h
    exact ⟨_, hc⟩
  | nameAndType name descriptor =>
    obtain ⟨n, d, hc, -⟩ := h
    exact ⟨_, hc⟩
  | methodref owner name descriptor =>
    obtain ⟨c, n, hc, -⟩ := h
    exact ⟨_, hc⟩

end

end Request

/-- What the indices of a pool reach. -/
theorem lt_size_of_constantAt {p : ConstantPool} {i : UInt16} {c : Constant}
    (h : p.constantAt i = .ok c) : i.toNat < p.slots.size := by
  unfold constantAt at h
  split at h
  · next hget =>
    unfold ConstantPool.get? at hget
    split at hget
    · cases hget
    · rw [Option.join_eq_some_iff] at hget
      exact (Array.getElem?_eq_some_iff.1 hget).1
  · cases h

/-! ## Any requests in any order -/

/-- The pool that requests leave, whether or not they succeed. -/
def afterRequests (requests : List Request) (p : ConstantPool) : ConstantPool :=
  requests.foldl (fun p request => (request.call.on p).2) p

/-- A pool that is new, or that of a class that was read. -/
def Obtained (p : ConstantPool) : Prop :=
  p = empty ∨ ∃ bytes c, ClassFile.read bytes = .ok c ∧ c.pool = p

theorem Obtained.sound {p : ConstantPool} (h : p.Obtained) : p.Sound := by
  rcases h with rfl | ⟨bytes, c, hread, rfl⟩
  · exact ⟨rfl, by decide⟩
  · exact ClassFile.sound_of_read hread

theorem Sound.call {p : ConstantPool} (h : p.Sound) (request : Request) :
    (request.call.on p).2.Sound := by
  obtain ⟨q, -, hq, ⟨i, hrun, -⟩ | hrun⟩ := request.finds.yields p h
  · rw [hrun]
    exact hq
  · rw [hrun]
    exact hq

theorem Sound.afterRequests {p : ConstantPool} (h : p.Sound) (requests : List Request) :
    (afterRequests requests p).Sound := by
  induction requests generalizing p with
  | nil => exact h
  | cons request rest ih => exact ih (h.call request)

theorem grown_afterRequests (requests : List Request) (p : ConstantPool) :
    p.Grown (afterRequests requests p) := by
  induction requests generalizing p with
  | nil => exact .refl p
  | cons request rest ih => exact (request.finds.settles.grown p).trans (ih _)

/-- **Constants stay, and indices keep their meaning**: whatever is asked for before and later, a
request only adds constants behind those that are there, fails only for a full pool, and returns an
index that spells its texts from then on and that the same request returns again. All along, each
slot has an index, and the number of slots is told as it is. -/
theorem requests_last {p q r s : ConstantPool} {result : Except ClassFileError UInt16}
    (hp : p.Obtained) (before later : List Request) (request : Request)
    (hbefore : afterRequests before p = q) (hcall : request.call.on q = (result, r))
    (hlater : afterRequests later r = s) :
    p.Keeps q ∧ q.Keeps r ∧ r.Keeps s ∧
    s.slots.size ≤ 65535 ∧ s.count.toNat = s.slots.size ∧
    (∀ i, result = .ok i → i.toNat < r.slots.size ∧ request.ResolvesTo r i ∧
      request.ResolvesTo s i ∧ request.call.on s = (.ok i, s)) ∧
    (∀ e, result = .error e → e = .poolFull ∧ r.slots.size = 65535) := by
  subst hbefore hlater
  have hq : (afterRequests before p).Sound := hp.sound.afterRequests before
  have hqr : (afterRequests before p).Grown r := by
    have hgrown := request.finds.settles.grown (afterRequests before p)
    rwa [hcall] at hgrown
  have hr : r.Sound := by
    have hsound := hq.call request
    rwa [hcall] at hsound
  have hs : (afterRequests later r).Sound := hr.afterRequests later
  have hrs : r.Grown (afterRequests later r) := grown_afterRequests later r
  refine ⟨(grown_afterRequests before p).keeps, hqr.keeps, hrs.keeps, hs.fits,
    ClassReader.toNat_ofNat_of_le hs.fits, ?_, ?_⟩
  · rintro i rfl
    have hresolves : request.ResolvesTo r i := by
      obtain ⟨r', -, -, ⟨i', hrun, hpost⟩ | hrun⟩ := request.finds.yields _ hq
      · rw [hcall] at hrun
        cases hrun
        exact hpost
      · rw [hcall] at hrun
        cases hrun
    obtain ⟨c, hc⟩ := hresolves.constantAt
    exact ⟨lt_size_of_constantAt hc, hresolves, hresolves.grown hrs,
      request.finds.settles.again hcall _ hrs⟩
  · rintro e rfl
    obtain ⟨he, hfull⟩ := request.finds.settles.full hcall
    exact ⟨he, Nat.le_antisymm hr.fits hfull⟩

/-- A pool with a wide constant, asked for a string with a zero character and one past the first
plane, then for a class that it has. -/
theorem requests_last_nestedPool :
    ClassFile.nestedPool.Obtained ∧
    ∃ q r s, afterRequests [.utf8 "f", .utf8 "n"] ClassFile.nestedPool = q ∧
      (Request.string "\x00😀").call.on q = (.ok 11, r) ∧
      afterRequests [.classRef "A", .nameAndType "f" "()V"] r = s ∧
      s.slots.size = 13 ∧ ClassFile.nestedPool.Keeps q ∧ q.Keeps r ∧ r.Keeps s ∧
      s.IsString 11 "\x00😀" ∧ (Request.string "\x00😀").call.on s = (.ok 11, s) := by
  have hobtained : ClassFile.nestedPool.Obtained :=
    .inr ⟨_, _, ClassFile.read_bytes ClassFile.nestedClass_fits, rfl⟩
  have hcall : ((Request.string "\x00😀").call.on
      (afterRequests [.utf8 "f", .utf8 "n"] ClassFile.nestedPool)).1 = .ok 11 := by
    decide +kernel
  have hsize : (afterRequests [.classRef "A", .nameAndType "f" "()V"]
      ((Request.string "\x00😀").call.on
        (afterRequests [.utf8 "f", .utf8 "n"] ClassFile.nestedPool)).2).slots.size = 13 := by
    decide +kernel
  obtain ⟨hpq, hqr, hrs, -, -, hok, -⟩ := requests_last hobtained [.utf8 "f", .utf8 "n"]
    [.classRef "A", .nameAndType "f" "()V"] (.string "\x00😀") rfl (Prod.ext hcall rfl) rfl
  obtain ⟨-, -, hresolves, hagain⟩ := hok 11 rfl
  exact ⟨hobtained, _, _, _, rfl, Prod.ext hcall rfl, rfl, hsize, hpq, hqr, hrs, hresolves, hagain⟩

end ValueCoverage.ConstantPool
