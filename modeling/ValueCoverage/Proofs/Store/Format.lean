import ValueCoverage.Proofs.Observation.Canonical
import ValueCoverage.Proofs.Store.Reading
import ValueCoverage.Proofs.Text.Utf8

/-!
# Coverage files are read as they were written

A file is lines, each with its end; a header line adds no observation to its member, and a line
below it adds the canonical form of the observation that it was made of. So a file says to a reader
which members to add to, one after the other. For a store in canonical form that is what the store
is made of.
-/

namespace ValueCoverage

/-- The key makes a header line that is read as a header, and as this one. -/
structure MemberKey.Headed (key : MemberKey) : Prop where
  owner_ne : key.owner ≠ ""
  member_ne : key.member ≠ ""
  owner_plain : separator ∉ key.owner.toList
  inLine : Text.InLine key.text.toList
  no_arrow : Text.startsWith CoverageFile.arrow key.text = false

theorem MemberKey.toList_text (key : MemberKey) :
    key.text.toList = key.owner.toList ++ separator :: key.member.toList := by
  simp [text]

namespace CoverageFile

variable {codec : Codec} {back : Observation → Observation} {s : Store}

/-! ## Lines -/

theorem rawLines_append {line : Bytes} (h : (10 : UInt8) ∉ line) (rest front : Bytes)
    (done : List Bytes) :
    rawLines (line ++ 10 :: rest) front done =
      rawLines rest [] (dropReturn (front.reverse ++ line) :: done) := by
  induction line generalizing front with
  | nil => simp [rawLines]
  | cons b line ih =>
    rw [List.mem_cons, not_or] at h
    obtain ⟨hb, hline⟩ := h
    -- the byte is no line feed, so it goes to what is in front of the line
    rw [List.cons_append, rawLines, if_neg (Ne.symm hb), ih hline]
    simp

theorem dropReturn_eq_self {line : Bytes} (h : (13 : UInt8) ∉ line) : dropReturn line = line := by
  unfold dropReturn
  split
  · next rest heq =>
    have hmem : (13 : UInt8) ∈ line.reverse := by rw [heq]; exact List.mem_cons_self ..
    exact absurd (List.mem_reverse.1 hmem) h
  · rfl

theorem rawLines_flatMap {lines : List Bytes}
    (h : ∀ line ∈ lines, (10 : UInt8) ∉ line ∧ (13 : UInt8) ∉ line) (done : List Bytes) :
    rawLines (lines.flatMap (· ++ [10])) [] done = done.reverse ++ lines := by
  induction lines generalizing done with
  | nil => simp [rawLines]
  | cons line lines ih =>
    obtain ⟨hfeed, hreturn⟩ := h line (by simp)
    rw [List.flatMap_cons, List.append_assoc, List.singleton_append, rawLines_append hfeed,
      List.reverse_nil, List.nil_append, dropReturn_eq_self hreturn,
      ih fun other hother => h other (by simp [hother])]
    simp

/-- A line without its end. -/
def Line.content (codec : Codec) : Line → String
  | .header key => key.text
  | .observed o => arrow ++ codec.write o

theorem Line.text_eq (codec : Codec) (line : Line) :
    line.text codec = line.content codec ++ "\n" := by
  cases line <;> rfl

/-- The lines of one member. -/
def linesOfEntry (e : MemberKey × List Observation) : List Line :=
  .header e.1 :: e.2.map .observed

theorem linesOf_eq (s : Store) : linesOf s = s.contents.flatMap linesOfEntry := by
  simp only [linesOf, Store.contents, List.flatMap_map]
  rfl

/-- The file of a store. -/
def bytesOf (codec : Codec) (s : Store) : Bytes := Text.Utf8.encode (write codec s)

theorem bytesOf_eq (codec : Codec) (s : Store) :
    bytesOf codec s =
      ((linesOf s).map fun line => Text.Utf8.encode (line.content codec)).flatMap (· ++ [10]) := by
  rw [bytesOf, write, Text.Utf8.encode_join, List.flatMap_map, List.flatMap_map]
  refine List.flatMap_congr ?_
  intro line _
  rw [Line.text_eq, Text.Utf8.encode_append]
  rfl

theorem inLine_content (hcodec : codec.Legible back) {e : MemberKey × List Observation}
    (he : e.1.Headed) {line : Line} (h : line ∈ linesOfEntry e) :
    Text.InLine (line.content codec).toList := by
  intro c hc
  rcases List.mem_cons.1 h with rfl | h
  · exact he.inLine c hc
  · obtain ⟨o, -, rfl⟩ := List.mem_map.1 h
    rw [Line.content, String.toList_append, List.mem_append] at hc
    rcases hc with hc | hc
    · have harrow : Text.InLine arrow.toList := by decide
      exact harrow c hc
    · exact hcodec.inLine o c hc

theorem not_mem_encode {text : String} (h : Text.InLine text.toList) :
    (10 : UInt8) ∉ Text.Utf8.encode text ∧ (13 : UInt8) ∉ Text.Utf8.encode text := by
  constructor
  · intro hmem
    exact (h _ (Text.Utf8.mem_of_mem_encode (by decide) hmem)).1 rfl
  · intro hmem
    exact (h _ (Text.Utf8.mem_of_mem_encode (by decide) hmem)).2 rfl

/-! ## Reading -/

theorem step_header {key : MemberKey} (h : key.Headed) (p : Progress) :
    p.step codec key.text.toList = .ok ⟨some key, p.store.addAll key []⟩ := by
  have hmem : '#' ∈ key.text.toList := by
    simp [MemberKey.text, MemberKey.separator]
  have hblank : Text.isBlankLine key.text.toList = false := by
    rw [Text.isBlankLine, List.all_eq_false]
    exact ⟨'#', hmem, by decide⟩
  have harrow : Text.dropPrefix? arrow.toList key.text.toList = none := by
    simpa [Text.startsWith] using h.no_arrow
  have hsplit : Text.splitFirst MemberKey.separator key.text.toList =
      some (key.owner.toList, key.member.toList) := by
    rw [MemberKey.toList_text, Text.splitFirst_append h.owner_plain]
  have hnonempty : (key.owner.toList.isEmpty || key.member.toList.isEmpty) = false := by
    simp [h.owner_ne, h.member_ne]
  simp only [Progress.step, hblank, harrow, hsplit, hnonempty, String.ofList_toList]
  rfl

theorem step_observed (hcodec : codec.Legible back) (key : MemberKey) (s : Store)
    (o : Observation) :
    Progress.step codec ⟨some key, s⟩ (Line.content codec (.observed o)).toList =
      .ok ⟨some key, s.addAll key [back o]⟩ := by
  have hblank : Text.isBlankLine (arrow ++ codec.write o).toList = false := by
    rw [Text.isBlankLine, List.all_eq_false]
    exact ⟨'-', by simp [arrow], by decide⟩
  have harrow : Text.dropPrefix? arrow.toList (arrow ++ codec.write o).toList =
      some (codec.write o).toList :=
    Text.dropPrefix?_eq_some_iff.2 (by simp)
  simp only [Progress.step, Line.content, hblank, harrow, String.ofList_toList,
    hcodec.read_write]
  rfl

/-- The bytes of lines, as a reader has them. -/
def lineBytes (codec : Codec) (lines : List Line) : List Bytes :=
  lines.map fun line => Text.Utf8.encode (line.content codec)

theorem readLines_cons (line : Line) {p p' : Progress}
    (h : p.step codec (line.content codec).toList = .ok p') (rest : List Bytes) (number : Nat) :
    readLines codec (Text.Utf8.encode (line.content codec) :: rest) number p =
      readLines codec rest (number + 1) p' := by
  simp only [readLines, Text.Utf8.decode?_encode, h]

theorem readLines_observed (hcodec : codec.Legible back) (key : MemberKey) (os : List Observation)
    (rest : List Bytes) (number : Nat) (s : Store) (before : List Observation) :
    readLines codec (lineBytes codec (os.map .observed) ++ rest) number
        ⟨some key, s.addAll key before⟩ =
      readLines codec rest (number + os.length)
        ⟨some key, s.addAll key (before ++ os.map back)⟩ := by
  induction os generalizing number before with
  | nil => simp [lineBytes]
  | cons o os ih =>
    have hstep := step_observed hcodec key (s.addAll key before) o
    rw [Store.addAll_addAll] at hstep
    simp only [lineBytes, List.map_cons, List.cons_append] at ih ⊢
    rw [readLines_cons _ hstep, ih]
    simp only [List.append_assoc, List.singleton_append, List.length_cons]
    rw [Nat.add_assoc, Nat.add_comm 1]

/-- A member of the file is a member to add to. -/
theorem readLines_entry (hcodec : codec.Legible back) {e : MemberKey × List Observation}
    (he : e.1.Headed) (rest : List Bytes) (number : Nat) (p : Progress) :
    readLines codec (lineBytes codec (linesOfEntry e) ++ rest) number p =
      readLines codec rest (number + 1 + e.2.length)
        ⟨some e.1, p.store.addAll e.1 (e.2.map back)⟩ := by
  have hobserved := readLines_observed hcodec e.1 e.2 rest (number + 1) p.store []
  rw [List.nil_append] at hobserved
  rw [← hobserved]
  exact readLines_cons (.header e.1) (step_header he p) _ _

theorem readLines_entries (hcodec : codec.Legible back) {es : List (MemberKey × List Observation)}
    (hes : ∀ e ∈ es, e.1.Headed) (number : Nat) (p : Progress) :
    readLines codec (lineBytes codec (es.flatMap linesOfEntry)) number p =
      .ok (p.store.addEntries (es.map fun e => (e.1, e.2.map back))) := by
  induction es generalizing number p with
  | nil => rfl
  | cons e es ih =>
    have hbytes : lineBytes codec ((e :: es).flatMap linesOfEntry) =
        lineBytes codec (linesOfEntry e) ++ lineBytes codec (es.flatMap linesOfEntry) := by
      simp [lineBytes]
    have hrest : ∀ e' ∈ es, e'.1.Headed := by
      intro e' he'
      exact hes e' (by simp [he'])
    -- a header starts a new member, so it does not matter which member the lines before are about
    rw [hbytes, readLines_entry hcodec (hes e (by simp)), ih hrest]
    rfl

/-- **What a reader makes of a file**: each member has its own observations, as they are read
back. -/
theorem read_write (hcodec : codec.Legible back) (hs : s.Full)
    (hheaded : ∀ e ∈ s.contents, e.1.Headed) :
    read codec (bytesOf codec s) = .ok (s.mapObservations back) := by
  have hlines :
      ∀ line ∈ lineBytes codec (linesOf s), (10 : UInt8) ∉ line ∧ (13 : UInt8) ∉ line := by
    intro bytes hbytes
    obtain ⟨line, hline, rfl⟩ := List.mem_map.1 hbytes
    rw [linesOf_eq] at hline
    obtain ⟨e, he, hmem⟩ := List.mem_flatMap.1 hline
    exact not_mem_encode (inLine_content hcodec (hheaded e he) hmem)
  have hraw : rawLines (bytesOf codec s) [] [] = lineBytes codec (linesOf s) := by
    rw [bytesOf_eq]
    exact rawLines_flatMap hlines []
  rw [read, hraw, linesOf_eq, readLines_entries hcodec hheaded, hs.mapObservations_eq_addEntries]

end CoverageFile

namespace Store

variable {codec : Codec} {s : Store}

/-! ## What is read again -/

/-- A store that a file holds without loss. -/
structure Writable (codec : Codec) (s : Store) : Prop where
  full : s.Full
  headed : ∀ key, s.contains key = true → key.Headed
  canonical : ∀ key o, s.holds key o = true → codec.canonical o = o

theorem writable_empty (codec : Codec) : empty.Writable codec where
  full := full_empty
  headed _ h := nomatch h
  canonical _ _ h := nomatch h

theorem Writable.addAll {key : MemberKey} {os : List Observation} (h : s.Writable codec)
    (hkey : key.Headed) (hos : ∀ o ∈ os, codec.canonical o = o) :
    (s.addAll key os).Writable codec where
  full := h.full.update key _
  headed k hk := by
    rcases contains_addAll.1 hk with hk | rfl
    · exact h.headed k hk
    · exact hkey
  canonical k o ho := by
    rcases holds_addAll.1 ho with ho | ⟨-, ho⟩
    · exact h.canonical k o ho
    · exact hos o ho

theorem Writable.addEntries {es : List (MemberKey × List Observation)} (h : s.Writable codec)
    (hes : ∀ e ∈ es, e.1.Headed ∧ ∀ o ∈ e.2, codec.canonical o = o) :
    (s.addEntries es).Writable codec := by
  induction es generalizing s with
  | nil => exact h
  | cons e es ih =>
    obtain ⟨hkey, hos⟩ := hes e (by simp)
    exact ih (h.addAll hkey hos) fun e' he' => hes e' (by simp [he'])

theorem Writable.canonicalize_eq_self (h : s.Writable codec) : s.canonicalize codec = s :=
  mapObservations_eq_self h.canonical

theorem mem_contents {e : MemberKey × List Observation} (h : e ∈ s.contents) :
    s.contains e.1 = true ∧ ∀ o ∈ e.2, s.holds e.1 o = true := by
  obtain ⟨entry, hentry, rfl⟩ := List.mem_map.1 h
  have hlookup := mem_entries_iff.1 hentry
  exact ⟨contains_iff.2 ⟨_, hlookup⟩, fun o ho => holds_iff.2 ⟨_, hlookup, ho⟩⟩

/-- A store in canonical form is read from its file as it was. -/
theorem Writable.read_write (hcodec : codec.Stable) (h : s.Writable codec) :
    CoverageFile.read codec (CoverageFile.bytesOf codec s) = .ok s := by
  have hheaded : ∀ e ∈ s.contents, e.1.Headed := fun e he => h.headed e.1 (mem_contents he).1
  rw [CoverageFile.read_write hcodec.legible h.full hheaded, mapObservations_eq_self h.canonical]

theorem Full.writable_canonicalize (hcodec : codec.Stable) (h : s.Full)
    (hheaded : ∀ key, s.contains key = true → key.Headed) :
    (s.canonicalize codec).Writable codec where
  full := h.mapObservations codec.canonical
  headed key hkey := hheaded key (contains_mapObservations.1 hkey)
  canonical key o ho := by
    obtain ⟨o', -, rfl⟩ := holds_mapObservations.1 ho
    exact hcodec.canonical_canonical o'

/-! ## Stores that are built -/

/-- What can be done to stores: members are declared and observed, stores are merged, brought into
canonical form and read from files. -/
inductive Built : Store → Prop where
  | empty : Built .empty
  | update {s : Store} (key : MemberKey) (f : Observations → Observations) :
    Built s → Built (s.update key f)
  | merge {s other : Store} : Built s → Built other → Built (s.merge other)
  | mapObservations {s : Store} (f : Observation → Observation) :
    Built s → Built (s.mapObservations f)
  | read {codec : Codec} {bytes : Bytes} {s : Store} :
    CoverageFile.read codec bytes = .ok s → Built s

theorem full_of_read {file : Bytes} (h : CoverageFile.read codec file = .ok s) : s.Full := by
  have hfull : CoverageFile.Invariant fun p => p.store.Full :=
    ⟨fun _ hs => hs.update _ _, fun _ _ hp => hp.update _ _⟩
  obtain ⟨_, hs⟩ := hfull.read full_empty h
  exact hs

theorem Built.full (h : s.Built) : s.Full := by
  induction h with
  | empty => exact full_empty
  | update key f _ ih => exact ih.update key f
  | merge _ _ ih ih' => exact ih.merge ih'
  | mapObservations f _ ih => exact ih.mapObservations f
  | read h => exact full_of_read h

/-- **A file holds a canonical store without loss.** Whatever store is brought into the form of a
codec that keeps texts, reading its file gives it back, in its order, and its file is the same when
it is written again. -/
theorem read_write_canonicalize (hcodec : codec = .plain ∨ ∃ limit, codec = .truncate limit)
    (hs : s.Built) (hheaded : ∀ e ∈ s.entries, e.key.Headed) :
    ∃ again, CoverageFile.read codec (CoverageFile.bytesOf codec (s.canonicalize codec)) =
        .ok again ∧
      again = s.canonicalize codec ∧
      CoverageFile.bytesOf codec again = CoverageFile.bytesOf codec (s.canonicalize codec) := by
  have hstable := Codec.stable_of_keeps hcodec
  have hkeys : ∀ key, s.contains key = true → key.Headed := by
    intro key hkey
    obtain ⟨l, hl⟩ := contains_iff.1 hkey
    exact hheaded ⟨key, l⟩ (mem_entries_iff.2 hl)
  exact ⟨s.canonicalize codec, (hs.full.writable_canonicalize hstable hkeys).read_write hstable,
    rfl, rfl⟩

/-- A method, observed once with separators in its texts, and a field that was only declared. -/
def twoMembers : Store :=
  (empty.add ⟨"a.B", "m(I)V"⟩ [.text "x, y\\", .text "", .int 5]).declare ⟨"a.B", "f:I"⟩

theorem twoMembers_headed : ∀ e ∈ twoMembers.entries, e.key.Headed := by
  intro e he
  have hkey : e.key ∈ ([⟨"a.B", "m(I)V"⟩, ⟨"a.B", "f:I"⟩] : List MemberKey) :=
    List.mem_map_of_mem he
  simp only [List.mem_cons, List.not_mem_nil, or_false] at hkey
  rcases hkey with heq | heq <;> rw [heq] <;> exact
    { owner_ne := by decide
      member_ne := by decide
      owner_plain := by decide
      inLine := by decide
      no_arrow := by decide }

theorem read_write_twoMembers :
    ∃ again, CoverageFile.read .plain
        (CoverageFile.bytesOf .plain (twoMembers.canonicalize .plain)) = .ok again ∧
      again = twoMembers.canonicalize .plain ∧
      CoverageFile.bytesOf .plain again =
        CoverageFile.bytesOf .plain (twoMembers.canonicalize .plain) :=
  read_write_canonicalize (.inl rfl) (.update _ _ (.update _ _ .empty)) twoMembers_headed

example :
    CoverageFile.write .plain (twoMembers.canonicalize .plain) =
      "a.B#m(I)V\n -> [x\\, y\\\\, \\e, 5]\na.B#f:I\n" := by
  decide

end Store

end ValueCoverage
