import ValueCoverage.Proofs.Capture.Declarations
import ValueCoverage.Proofs.Observation.Typed
import ValueCoverage.Proofs.Store.Format

/-!
# Which members a file tells apart

A header line is a class, a separator and a member, and it is read up to its first separator. Names
in class files may hold separators, too. A member's name does no harm there; but where the name of a
class holds one, the line is read as that of a member of another class, and if that member is in the
store as well, what the two have observed becomes one.
-/

namespace ValueCoverage

namespace MemberKey

variable {a b key : MemberKey}

/-! ## Equal header lines -/

/-- The header line of `a` is that of `b`, cut at an earlier separator: the class of `b` begins with
that of `a`, and the rest of its name is in front of the member. -/
def CutBefore (a b : MemberKey) : Prop :=
  ∃ middle : String, b.owner = a.owner ++ separator.toString ++ middle ∧
    a.member = middle ++ separator.toString ++ b.member

theorem CutBefore.separator_mem (h : a.CutBefore b) : separator ∈ b.owner.toList := by
  obtain ⟨middle, howner, -⟩ := h
  rw [howner]
  simp

theorem CutBefore.text_eq (h : a.CutBefore b) : a.text = b.text := by
  obtain ⟨middle, howner, hmember⟩ := h
  rw [text, text, howner, hmember]
  simp only [String.append_assoc]

/-- Where one line is cut in two ways, the rest of the longer class has a separator in front. -/
theorem cut_of_owner_eq {rest : List Char} (howner : b.owner.toList = a.owner.toList ++ rest)
    (hmember : separator :: a.member.toList = rest ++ separator :: b.member.toList) :
    a = b ∨ a.CutBefore b := by
  cases rest with
  | nil =>
    have ho : a.owner = b.owner := String.toList_inj.1 (by rw [howner, List.append_nil])
    have hm : a.member = b.member := String.toList_inj.1 (List.cons_inj_right _ |>.1 hmember)
    obtain ⟨owner, member⟩ := a
    obtain ⟨owner', member'⟩ := b
    cases ho
    cases hm
    exact .inl rfl
  | cons c rest =>
    obtain ⟨rfl, hrest⟩ := List.cons_eq_cons.1 hmember
    refine .inr ⟨String.ofList rest, String.toList_inj.1 ?_, String.toList_inj.1 ?_⟩
    · simp [howner]
    · simp [hrest]

/-- Two members have one header line only if it is cut in two ways. -/
theorem text_eq_iff : a.text = b.text ↔ a = b ∨ a.CutBefore b ∨ b.CutBefore a := by
  constructor
  · intro h
    have hlists := congrArg String.toList h
    rw [toList_text, toList_text] at hlists
    rcases List.append_eq_append_iff.1 hlists with ⟨rest, howner, hmember⟩ | ⟨rest, howner, hmember⟩
    · rcases cut_of_owner_eq howner hmember with heq | hcut
      · exact .inl heq
      · exact .inr (.inl hcut)
    · rcases cut_of_owner_eq howner hmember with heq | hcut
      · exact .inl heq.symm
      · exact .inr (.inr hcut)
  · intro h
    rcases h with rfl | hcut | hcut
    · rfl
    · exact hcut.text_eq
    · exact hcut.text_eq.symm

theorem eq_of_text_eq (ha : separator ∉ a.owner.toList) (hb : separator ∉ b.owner.toList)
    (h : a.text = b.text) : a = b := by
  rcases text_eq_iff.1 h with heq | hcut | hcut
  · exact heq
  · exact absurd hcut.separator_mem hb
  · exact absurd hcut.separator_mem ha

end MemberKey

/-! ## What can be declared -/

/-- A class file may have a class of this name, with slashes between the parts of the name. -/
def IsInternalName (internal : String) : Prop := ∀ c ∈ internal.toList, c ∉ ['.', ';', '[']

-- As for lines of text, only the characters of the name are tried.
instance (internal : String) : Decidable (IsInternalName internal) := List.decidableBAll _ _

/-- The name of a class in a class file, with points in place of slashes. -/
def IsBinaryName (owner : String) : Prop :=
  ∃ internal : String, IsInternalName internal ∧ owner = Text.pointed internal

namespace DeclaredMember

/-- The class has a binary name, and a method a descriptor that can be read. -/
def Accepted : DeclaredMember → Prop
  | field owner _ _ => IsBinaryName owner
  | method owner _ descriptor =>
    IsBinaryName owner ∧ ∃ type, Descriptor.readMethod descriptor = .ok type

theorem Accepted.member_ne {m : DeclaredMember} (h : m.Accepted) :
    m.declaration.key.member ≠ "" := by
  -- every member has a mark in front of its descriptor
  have hmark : ∃ mark, mark ∈ m.declaration.key.member.toList := by
    cases m with
    | field owner name descriptor => exact ⟨':', by simp [declaration, MemberKey.field]⟩
    | method owner name descriptor =>
      obtain ⟨-, type, htype⟩ := h
      obtain ⟨rest, rfl⟩ := Descriptor.eq_of_readMethod htype
      exact ⟨'(', by simp [declaration, MemberKey.method]⟩
  intro hempty
  obtain ⟨mark, hmem⟩ := hmark
  rw [hempty] at hmem
  cases hmem

end DeclaredMember

/-- Whatever is declared of a class with a binary name is accepted. -/
theorem Instrumenter.Treats.accepted {r : Instrumenter} {c : ClassFile} {w : Rewriting}
    {ts : List Treatment} (h : Treats r c w ts) (howner : IsBinaryName w.owner) {m : DeclaredMember}
    (hm : m.DeclaredIn c w) : m.Accepted := by
  cases m with
  | field owner name descriptor =>
    obtain ⟨rfl, -⟩ := hm
    exact howner
  | method owner name descriptor =>
    obtain ⟨rfl, hd, -⟩ := hm
    obtain ⟨-, -, method, type, -, -, -, -, heq, -, -, -, htype, -⟩ := h.exists_of_mem_declared hd
    have hdescriptor : descriptor = method.descriptor := congrArg Declaration.descriptor heq
    rw [← hdescriptor] at htype
    exact ⟨howner, type, htype⟩

namespace CoverageFile

variable {codec : Codec} {back : Observation → Observation} {s : Store} {key : MemberKey}

/-! ## Classes that header lines tell -/

/-- The header lines of the members of a class are read as such: the class has a name, which holds
no separator and does not begin as the line of an observation does. -/
structure Told (owner : String) : Prop where
  ne_empty : owner ≠ ""
  plain : MemberKey.separator ∉ owner.toList
  no_arrow : Text.startsWith arrow owner = false

theorem startsWith_iff {start s : String} :
    Text.startsWith start s = true ↔ ∃ rest, s.toList = start.toList ++ rest := by
  rw [Text.startsWith, Option.isSome_iff_exists]
  simp only [Text.dropPrefix?_eq_some_iff]

/-- An arrow in front of a header line is in front of the class. -/
theorem startsWith_arrow_text (key : MemberKey) :
    Text.startsWith arrow key.text = Text.startsWith arrow key.owner := by
  rw [Bool.eq_iff_iff, startsWith_iff, startsWith_iff, MemberKey.toList_text]
  constructor
  · rintro ⟨rest, h⟩
    rcases List.append_eq_append_iff.1 h with ⟨more, harrow, hmore⟩ | ⟨more, howner, -⟩
    · cases more with
      | nil => exact ⟨[], by rw [harrow, List.append_nil, List.append_nil]⟩
      | cons c more =>
        -- the class is shorter than the arrow, which has no separator in it
        obtain ⟨rfl, -⟩ := List.cons_eq_cons.1 hmore
        have hmem : MemberKey.separator ∈ arrow.toList := by
          rw [harrow]
          simp
        exact absurd hmem (by decide)
    · exact ⟨more, howner⟩
  · rintro ⟨rest, h⟩
    exact ⟨rest ++ MemberKey.separator :: key.member.toList, by rw [h, List.append_assoc]⟩

theorem Told.headed (h : Told key.owner) (hmember : key.member ≠ "")
    (hline : Text.InLine key.text.toList) : key.Headed where
  owner_ne := h.ne_empty
  member_ne := hmember
  owner_plain := h.plain
  inLine := hline
  no_arrow := by rw [startsWith_arrow_text, h.no_arrow]

/-- A header line is the text of the key that it names. -/
theorem text_of_named {line : List Char} (h : named line = .ok key) :
    key.text.toList = line ∧ key.owner ≠ "" ∧ MemberKey.separator ∉ key.owner.toList := by
  unfold named at h
  split at h
  · cases h
  · next owner member hsplit =>
    obtain ⟨hplain, rfl⟩ := Text.eq_of_splitFirst hsplit
    split at h
    · cases h
    · next hempty =>
      cases h
      refine ⟨by simp [MemberKey.toList_text], ?_, by rwa [String.toList_ofList]⟩
      intro heq
      rw [← String.toList_inj, String.toList_ofList] at heq
      rw [heq] at hempty
      exact hempty rfl

theorem told_of_named {line : List Char} (harrow : Text.dropPrefix? arrow.toList line = none)
    (h : named line = .ok key) : Told key.owner := by
  obtain ⟨rfl, hempty, hplain⟩ := text_of_named h
  refine ⟨hempty, hplain, ?_⟩
  rw [← startsWith_arrow_text, Text.startsWith, harrow]
  rfl

/-- Readers know of no other classes. -/
theorem told_of_read {file : Bytes} (h : read codec file = .ok s) (hkey : s.contains key = true) :
    Told key.owner := by
  have htold : Invariant fun p => (∀ k, p.current = some k → Told k.owner) ∧
      ∀ k, p.store.contains k = true → Told k.owner := by
    constructor
    · intro key s o hp
      refine ⟨hp.1, ?_⟩
      intro k hk
      rcases Store.contains_addAll.1 hk with hk | rfl
      · exact hp.2 k hk
      · exact hp.1 k rfl
    · intro p line key harrow hnamed hp
      have hnew := told_of_named harrow hnamed
      refine ⟨?_, ?_⟩
      · rintro k ⟨⟩
        exact hnew
      · intro k hk
        rcases Store.contains_addAll.1 hk with hk | rfl
        · exact hp.2 k hk
        · exact hnew
  obtain ⟨_, -, hs⟩ := htold.read ⟨nofun, nofun⟩ h
  exact hs key hkey

end CoverageFile

namespace Store

open CoverageFile

variable {codec : Codec} {back : Observation → Observation}

/-- **Which members a file tells apart.** Two members have one header line exactly if the line can
be cut at two separators, and then one of the two classes has a separator in its name; members of
other classes have lines of their own. Whatever a store holds of members that can be declared is
read back under the members that it was stored under, if the names of all classes are told by header
lines, and only then. -/
theorem told_apart_iff (hcodec : codec.Legible back) :
    (∀ a b : MemberKey, a.text = b.text ↔ a = b ∨ a.CutBefore b ∨ b.CutBefore a) ∧
    (∀ a b : MemberKey, MemberKey.separator ∉ a.owner.toList →
      MemberKey.separator ∉ b.owner.toList → a.text = b.text → a = b) ∧
    ∀ s : Store, s.Built →
      (∀ key, s.contains key = true → Text.InLine key.text.toList ∧
        ∃ m : DeclaredMember, m.Accepted ∧ m.declaration.key = key) →
      ((∃ again, read codec (bytesOf codec s) = .ok again ∧
          ∀ key, again.contains key = s.contains key ∧ ∀ o, again.holds key o = true ↔
            ∃ o', s.holds key o' = true ∧ codec.read (codec.write o') = .ok o) ↔
        ∀ key, s.contains key = true → Told key.owner) := by
  refine ⟨fun a b => MemberKey.text_eq_iff, fun a b ha hb => MemberKey.eq_of_text_eq ha hb, ?_⟩
  intro s hs hkeys
  constructor
  · rintro ⟨again, hread, hagain⟩ key hkey
    rw [← (hagain key).1] at hkey
    exact told_of_read hread hkey
  · intro htold
    have hheaded : ∀ e ∈ s.contents, e.1.Headed := by
      intro e he
      have hkey := (mem_contents he).1
      obtain ⟨hline, m, hm, heq⟩ := hkeys e.1 hkey
      have hmember := hm.member_ne
      rw [heq] at hmember
      exact (htold e.1 hkey).headed hmember hline
    refine ⟨_, CoverageFile.read_write hcodec hs.full hheaded, ?_⟩
    intro key
    refine ⟨?_, ?_⟩
    · rw [Bool.eq_iff_iff, contains_mapObservations]
    · intro o
      rw [holds_mapObservations]
      simp only [hcodec.read_write, Except.ok.injEq]

/-- A method with a separator in its name, observed once, and a field of the same class. -/
def sharpMethod : Store :=
  (empty.add (.method "a.B" "m#n" "(I)V") [.int 5]).declare (.field "a.B" "f" "I")

theorem sharpMethod_keys {key : MemberKey} (h : sharpMethod.contains key = true) :
    key = .method "a.B" "m#n" "(I)V" ∨ key = .field "a.B" "f" "I" := by
  rw [sharpMethod, declare_eq_addAll, contains_addAll, add_eq_addAll, contains_addAll] at h
  rcases h with (h | h) | h
  · cases h
  · exact .inl h
  · exact .inr h

theorem sharpMethod_accepted {key : MemberKey} (h : sharpMethod.contains key = true) :
    Text.InLine key.text.toList ∧ ∃ m : DeclaredMember, m.Accepted ∧ m.declaration.key = key := by
  have howner : IsBinaryName "a.B" := ⟨"a/B", by decide, by decide⟩
  rcases sharpMethod_keys h with rfl | rfl
  · have hreads : Descriptor.readMethod "(I)V" = .ok ⟨[⟨0, .primitive .int⟩], none⟩ := by decide
    exact ⟨by decide, .method "a.B" "m#n" "(I)V", ⟨howner, _, hreads⟩, rfl⟩
  · exact ⟨by decide, .field "a.B" "f" "I", howner, rfl⟩

theorem told_apart_sharpMethod :
    Codec.typed.Legible (List.map Value.quieted) ∧ sharpMethod.Built ∧
      ∃ again, read .typed (bytesOf .typed sharpMethod) = .ok again ∧
        ∀ key, again.contains key = sharpMethod.contains key ∧ ∀ o, again.holds key o = true ↔
          ∃ o', sharpMethod.holds key o' = true ∧
            Codec.typed.read (Codec.typed.write o') = .ok o := by
  have hbuilt : sharpMethod.Built := .update _ _ (.update _ _ .empty)
  have htold : Told "a.B" := ⟨by decide, by decide, by decide⟩
  obtain ⟨-, -, hiff⟩ := told_apart_iff Codec.typed_legible
  refine ⟨Codec.typed_legible, hbuilt, (hiff _ hbuilt fun key => sharpMethod_accepted).2 ?_⟩
  intro key hkey
  rcases sharpMethod_keys hkey with rfl | rfl
  · exact htold
  · exact htold

/-- A method of a class with a separator in its name. -/
def sharpClass : MemberKey := .method "a#b" "m" "(I)V"

/-- A method with a separator in its name, of a class with the first part of that name. -/
def sharpName : MemberKey := .method "a" "b#m" "(I)V"

/-- Both methods are told apart in a store and not in its file: what the first has observed is read
as the other's. -/
theorem folds_sharpClass_sharpName :
    (Text.InLine sharpClass.text.toList ∧
        ∃ m : DeclaredMember, m.Accepted ∧ m.declaration.key = sharpClass) ∧
      (Text.InLine sharpName.text.toList ∧
        ∃ m : DeclaredMember, m.Accepted ∧ m.declaration.key = sharpName) ∧
      sharpClass ≠ sharpName ∧ sharpClass.text = sharpName.text ∧
      read .typed (bytesOf .typed ((empty.add sharpClass [.int 5]).add sharpName [.int 6])) =
        .ok ((empty.add sharpName [.int 5]).add sharpName [.int 6]) := by
  have hreads : ∃ type, Descriptor.readMethod "(I)V" = .ok type :=
    ⟨⟨[⟨0, .primitive .int⟩], none⟩, by decide⟩
  refine ⟨⟨by decide, .method "a#b" "m" "(I)V", ⟨⟨"a#b", by decide, by decide⟩, hreads⟩, rfl⟩,
    ⟨by decide, .method "a" "b#m" "(I)V", ⟨⟨"a", by decide, by decide⟩, hreads⟩, rfl⟩,
    by decide, by decide, ?_⟩
  decide +kernel

end Store

end ValueCoverage
