import ValueCoverage.Proofs.Steps
import ValueCoverage.Proofs.Store.Merge
import ValueCoverage.Store.Format

/-!
# Readers of coverage files

What a line says does not depend on the lines before it; only an observation needs a header
somewhere before. What a reader keeps from line to line it keeps over a whole file. And a reader
that goes on with a second file does what a reader of that file alone does, with all line numbers
moved and with the first file's store in front, unless the second file begins with observations.
-/

namespace ValueCoverage

/-- The fault as it is reported when `lines` lines stand in front. -/
def ReadFault.behind (lines : Nat) : ReadFault → ReadFault
  | .notText => .notText
  | .line number fault => .line (lines + number) fault

namespace CoverageFile

variable {codec : Codec} {s : Store} {p p' q q' : Progress}

/-! ## What a line says -/

/-- What a line says to whoever reads it. -/
inductive Said where
  | nothing
  | observed (found : Except CodecError Observation)
  | header (found : Except LineFault MemberKey)

/-- The member that a header line names. -/
def named (line : List Char) : Except LineFault MemberKey :=
  match Text.splitFirst MemberKey.separator line with
  | none => .error .noSeparator
  | some (owner, member) =>
    if owner.isEmpty || member.isEmpty then .error .emptyPart
    else .ok ⟨String.ofList owner, String.ofList member⟩

def said (codec : Codec) (line : List Char) : Said :=
  if Text.isBlankLine line then .nothing
  else
    match Text.dropPrefix? arrow.toList line with
    | some text => .observed (codec.read (String.ofList text))
    | none => .header (named line)

/-- Takes in what a line says. -/
def Progress.hear (p : Progress) : Said → Except LineFault Progress
  | .nothing => .ok p
  | .observed found =>
    match p.current, found with
    | none, _ => .error .orphanObservation
    | some _, .error e => .error (.codec e)
    | some key, .ok o => .ok ⟨some key, p.store.add key o⟩
  | .header (.error fault) => .error fault
  | .header (.ok key) => .ok ⟨some key, p.store.declare key⟩

theorem step_eq (p : Progress) (line : List Char) :
    p.step codec line = p.hear (said codec line) := by
  obtain ⟨current, store⟩ := p
  rw [Progress.step, said]
  split
  · rfl
  cases Text.dropPrefix? arrow.toList line with
  | some text =>
    cases current with
    | none => rfl
    | some key =>
      simp only [Progress.hear]
      cases codec.read (String.ofList text) <;> rfl
  | none =>
    simp only [named]
    cases Text.splitFirst MemberKey.separator line with
    | none => rfl
    | some parts =>
      obtain ⟨owner, member⟩ := parts
      simp only
      split <;> rfl

/-! ## Reading on -/

/-- Takes line after line in and tells how far that has come. -/
def progress (codec : Codec) : List Bytes → (number : Nat) → Progress → Except ReadFault Progress
  | [], _, p => .ok p
  | line :: rest, number, p =>
    match Text.Utf8.decode? line with
    | none => .error .notText
    | some text =>
      match p.hear (said codec text.toList) with
      | .error fault => .error (.line number fault)
      | .ok p => progress codec rest (number + 1) p

theorem readLines_eq (lines : List Bytes) (number : Nat) (p : Progress) :
    readLines codec lines number p = (progress codec lines number p).map Progress.store := by
  induction lines generalizing number p with
  | nil => rfl
  | cons line rest ih =>
    unfold readLines progress
    cases Text.Utf8.decode? line with
    | none => rfl
    | some text =>
      simp only [step_eq]
      cases p.hear (said codec text.toList) with
      | error fault => rfl
      | ok p' => exact ih (number + 1) p'

theorem progress_append (lines more : List Bytes) (number : Nat) (p : Progress) :
    progress codec (lines ++ more) number p =
      (progress codec lines number p).bind fun p' =>
        progress codec more (number + lines.length) p' := by
  induction lines generalizing number p with
  | nil => rfl
  | cons line rest ih =>
    simp only [List.cons_append, progress]
    cases Text.Utf8.decode? line with
    | none => rfl
    | some text =>
      simp only
      cases p.hear (said codec text.toList) with
      | error fault => rfl
      | ok p' =>
        simp only [ih, List.length_cons, Nat.add_assoc, Nat.add_comm 1]

/-- A fault is reported with the number of a line that was read. -/
theorem number_of_progress {lines : List Bytes} {first number : Nat} {fault : LineFault}
    (h : progress codec lines first p = .error (.line number fault)) :
    first ≤ number ∧ number < first + lines.length := by
  induction lines generalizing first p with
  | nil => cases h
  | cons line rest ih =>
    unfold progress at h
    split at h
    · cases h
    split at h
    · cases h
      exact ⟨Nat.le_refl _, by simp⟩
    · obtain ⟨hfirst, hlast⟩ := ih h
      rw [List.length_cons]
      omega

/-- What a reader keeps, whatever lines it takes in. -/
structure Invariant (inv : Progress → Prop) : Prop where
  observed : ∀ {key s} (o), inv ⟨some key, s⟩ → inv ⟨some key, s.addAll key [o]⟩
  header : ∀ {p line key}, Text.dropPrefix? arrow.toList line = none → named line = .ok key →
    inv p → inv ⟨some key, p.store.addAll key []⟩

theorem Invariant.hear {inv : Progress → Prop} (h : Invariant inv) {line : List Char} (hp : inv p)
    (hhear : p.hear (said codec line) = .ok p') : inv p' := by
  unfold said at hhear
  split at hhear
  · cases hhear
    exact hp
  split at hhear
  · next text harrow =>
    obtain ⟨current, s⟩ := p
    cases current with
    | none => cases hhear
    | some key =>
      cases hfound : codec.read (String.ofList text) with
      | error e =>
        rw [hfound] at hhear
        cases hhear
      | ok o =>
        rw [hfound] at hhear
        cases hhear
        exact h.observed o hp
  · next harrow =>
    cases hnamed : named line with
    | error fault =>
      rw [hnamed] at hhear
      cases hhear
    | ok key =>
      rw [hnamed] at hhear
      cases hhear
      exact h.header harrow hnamed hp

theorem Invariant.progress {inv : Progress → Prop} (h : Invariant inv) {lines : List Bytes}
    {number : Nat} (hp : inv p) (hread : progress codec lines number p = .ok p') : inv p' := by
  induction lines generalizing number p with
  | nil =>
    cases hread
    exact hp
  | cons line rest ih =>
    unfold CoverageFile.progress at hread
    split at hread
    · cases hread
    split at hread
    · cases hread
    · next hhear => exact ih (h.hear hp hhear) hread

/-- How far the reader of a file comes. -/
def outcome (codec : Codec) (file : Bytes) : Except ReadFault Progress :=
  progress codec (rawLines file [] []) 1 ⟨none, .empty⟩

theorem read_eq (codec : Codec) (file : Bytes) :
    read codec file = (outcome codec file).map Progress.store :=
  readLines_eq _ _ _

theorem outcome_of_read_error {file : Bytes} {fault : ReadFault}
    (h : read codec file = .error fault) : outcome codec file = .error fault := by
  rw [read_eq] at h
  cases hfile : outcome codec file with
  | ok p => simp [hfile, Except.map] at h
  | error e => simpa [hfile, Except.map] using h

theorem outcome_of_read_ok {file : Bytes} (h : read codec file = .ok s) :
    ∃ p, outcome codec file = .ok p ∧ p.store = s := by
  rw [read_eq] at h
  cases hfile : outcome codec file with
  | ok p => exact ⟨p, rfl, by simpa [hfile, Except.map] using h⟩
  | error e => simp [hfile, Except.map] at h

theorem Invariant.read {inv : Progress → Prop} (h : Invariant inv) (hstart : inv ⟨none, .empty⟩)
    {file : Bytes} (hread : read codec file = .ok s) : ∃ current, inv ⟨current, s⟩ := by
  obtain ⟨p, hp, rfl⟩ := outcome_of_read_ok hread
  exact ⟨p.current, h.progress hstart hp⟩

/-! ## Two readers of the same lines -/

/-- The reader `p` has read other lines before, which gave `s`, and the reader `q` has not. -/
structure Beside (s : Store) (p q : Progress) : Prop where
  store : p.store = s.merge q.store
  current : q.current = none ∨ p.current = q.current

theorem beside_start (p : Progress) : Beside p.store p ⟨none, .empty⟩ where
  store := p.store.merge_empty.symm
  current := .inl rfl

/-- Observations are of one member for both, if the second reader knows of which. -/
theorem Beside.current_eq (h : Beside s p q) {key : MemberKey} (hq : q.current = some key) :
    p.current = some key := by
  rcases h.current with hnone | heq
  · rw [hnone] at hq
    cases hq
  · rw [heq, hq]

theorem Beside.addAll (h : Beside s p q) (key : MemberKey) (os : List Observation) :
    Beside s ⟨some key, p.store.addAll key os⟩ ⟨some key, q.store.addAll key os⟩ where
  store := by rw [h.store, Store.merge_addAll]
  current := .inr rfl

theorem Beside.hear_ok {line : Said} (h : Beside s p q) (hq : q.hear line = .ok q') :
    ∃ p', p.hear line = .ok p' ∧ Beside s p' q' := by
  cases line with
  | nothing =>
    cases hq
    exact ⟨p, rfl, h⟩
  | observed found =>
    simp only [Progress.hear] at hq ⊢
    split at hq
    · cases hq
    · cases hq
    · next key o hcurrent =>
      cases hq
      rw [h.current_eq hcurrent]
      exact ⟨_, rfl, h.addAll key [o]⟩
  | header found =>
    cases found with
    | error fault => cases hq
    | ok key =>
      cases hq
      exact ⟨_, rfl, h.addAll key []⟩

theorem Beside.hear_error {line : Said} {fault : LineFault} (h : Beside s p q)
    (hq : q.hear line = .error fault) (hfault : fault ≠ .orphanObservation) :
    p.hear line = .error fault := by
  cases line with
  | nothing => cases hq
  | observed found =>
    simp only [Progress.hear] at hq ⊢
    split at hq
    · cases hq
      exact absurd rfl hfault
    · next key e hcurrent =>
      rw [h.current_eq hcurrent]
      exact hq
    · cases hq
  | header found =>
    cases found with
    | error fault' => exact hq
    | ok key => cases hq

/-- Both readers read the lines, or neither does, the one with moved numbers. -/
theorem Beside.progress_ok {lines : List Bytes} {number : Nat} (h : Beside s p q)
    (hq : progress codec lines number q = .ok q') (moved : Nat) :
    ∃ p', progress codec lines (moved + number) p = .ok p' ∧ Beside s p' q' := by
  induction lines generalizing number p q with
  | nil =>
    cases hq
    exact ⟨p, rfl, h⟩
  | cons line rest ih =>
    unfold progress at hq ⊢
    cases hline : Text.Utf8.decode? line with
    | none => simp [hline] at hq
    | some text =>
      cases hhear : q.hear (said codec text.toList) with
      | error fault => simp [hline, hhear] at hq
      | ok q₁ =>
        obtain ⟨p₁, hp₁, hbeside⟩ := h.hear_ok hhear
        simp only [hline, hhear] at hq
        simp only [hp₁]
        exact ih hbeside hq

theorem Beside.progress_error {lines : List Bytes} {number : Nat} {fault : ReadFault}
    (h : Beside s p q) (hq : progress codec lines number q = .error fault)
    (hfault : ∀ k, fault ≠ .line k .orphanObservation) (moved : Nat) :
    progress codec lines (moved + number) p = .error (fault.behind moved) := by
  induction lines generalizing number p q with
  | nil => cases hq
  | cons line rest ih =>
    unfold progress at hq ⊢
    cases hline : Text.Utf8.decode? line with
    | none =>
      simp only [hline] at hq
      cases hq
      rfl
    | some text =>
      simp only [hline] at hq
      cases hhear : q.hear (said codec text.toList) with
      | error reason =>
        simp only [hhear] at hq
        cases hq
        have hreason : reason ≠ .orphanObservation := by
          rintro rfl
          exact hfault number rfl
        simp only [h.hear_error hhear hreason]
        rfl
      | ok q₁ =>
        obtain ⟨p₁, hp₁, hbeside⟩ := h.hear_ok hhear
        simp only [hhear] at hq
        simp only [hp₁]
        exact ih hbeside hq

/-! ## Files behind one another -/

/-- Every line of the file has its end. -/
def Whole (file : Bytes) : Prop := file = [] ∨ file.getLast? = some 10

theorem rawLines_done (bytes line : Bytes) (done : List Bytes) :
    rawLines bytes line done = done.reverse ++ rawLines bytes line [] := by
  induction bytes generalizing line done with
  | nil => cases line <;> simp [rawLines]
  | cons b rest ih =>
    simp only [rawLines]
    split
    · rw [ih, ih [] [_]]
      simp
    · rw [ih]

/-- Nothing of a line stands behind its end. -/
theorem rawLines_feed (front rest line : Bytes) (done : List Bytes) :
    rawLines (front ++ 10 :: rest) line done =
      rawLines rest [] (rawLines (front ++ [10]) line done).reverse := by
  induction front generalizing line done with
  | nil => simp [rawLines]
  | cons b front ih =>
    simp only [List.cons_append, rawLines]
    split <;> rw [ih]

theorem length_rawLines_feed (front line : Bytes) (done : List Bytes) :
    (rawLines (front ++ [10]) line done).length = done.length + (front ++ [10]).count 10 := by
  induction front generalizing line done with
  | nil => simp [rawLines]
  | cons b front ih =>
    simp only [List.cons_append, rawLines]
    split
    · next hb => rw [ih, hb, List.count_cons_self, List.length_cons, Nat.add_assoc, Nat.add_comm 1]
    · next hb => rw [ih, List.count_cons_of_ne hb]

theorem Whole.rawLines_append {file : Bytes} (h : Whole file) (more : Bytes) :
    rawLines (file ++ more) [] [] = rawLines file [] [] ++ rawLines more [] [] := by
  rcases h with rfl | hlast
  · rfl
  · obtain ⟨front, rfl⟩ := List.getLast?_eq_some_iff.1 hlast
    rw [List.append_assoc, List.singleton_append, rawLines_feed, rawLines_done,
      List.reverse_reverse]

/-- A file has as many lines as it has ends of lines. -/
theorem Whole.length_rawLines {file : Bytes} (h : Whole file) :
    (rawLines file [] []).length = file.count 10 := by
  rcases h with rfl | hlast
  · rfl
  · obtain ⟨front, rfl⟩ := List.getLast?_eq_some_iff.1 hlast
    rw [length_rawLines_feed, List.length_nil, Nat.zero_add]

/-- A reader of two files goes on with the second where it has come with the first. -/
theorem Whole.outcome_append {file : Bytes} (h : Whole file) (more : Bytes) :
    outcome codec (file ++ more) =
      (outcome codec file).bind fun p =>
        progress codec (rawLines more [] []) (file.count 10 + 1) p := by
  rw [outcome, h.rawLines_append, progress_append, h.length_rawLines, Nat.add_comm 1]
  rfl

theorem Whole.read_append_ok {file more : Bytes} {s' : Store} (h : Whole file)
    (hs : read codec file = .ok s) (hs' : read codec more = .ok s') :
    read codec (file ++ more) = .ok (s.merge s') := by
  obtain ⟨p, hp, rfl⟩ := outcome_of_read_ok hs
  obtain ⟨q, hq, rfl⟩ := outcome_of_read_ok hs'
  obtain ⟨p', hp', hbeside⟩ := (beside_start p).progress_ok hq (file.count 10)
  rw [read_eq, h.outcome_append, hp, Except.bind, hp', ← hbeside.store]
  rfl

theorem Whole.read_append_error {file more : Bytes} {fault : ReadFault} (h : Whole file)
    (hs : read codec file = .ok s) (hmore : read codec more = .error fault)
    (hfault : ∀ k, fault ≠ .line k .orphanObservation) :
    read codec (file ++ more) = .error (fault.behind (file.count 10)) := by
  obtain ⟨p, hp, rfl⟩ := outcome_of_read_ok hs
  have hq := outcome_of_read_error hmore
  have hp' := (beside_start p).progress_error hq hfault (file.count 10)
  rw [read_eq, h.outcome_append, hp, Except.bind, hp']
  rfl

theorem Whole.read_append_of_error {file : Bytes} {fault : ReadFault} (h : Whole file)
    (hfile : read codec file = .error fault) (more : Bytes) :
    read codec (file ++ more) = .error fault := by
  rw [read_eq, h.outcome_append, outcome_of_read_error hfile]
  rfl

/-- The line that is reported is the first that does not fit: files that end before it are read, and
those that it belongs to are rejected for it. -/
theorem Whole.first_fault {file more : Bytes} {number : Nat} {fault : LineFault} (h : Whole file)
    (hfault : read codec (file ++ more) = .error (.line number fault)) :
    (file.count 10 < number → ∃ s, read codec file = .ok s) ∧
      (number ≤ file.count 10 → read codec file = .error (.line number fault)) := by
  cases hfile : read codec file with
  | error e =>
    rw [h.read_append_of_error hfile] at hfault
    cases hfault
    have hnumber := number_of_progress (outcome_of_read_error hfile)
    rw [h.length_rawLines] at hnumber
    exact ⟨fun hlt => by omega, fun _ => rfl⟩
  | ok s =>
    obtain ⟨p, hp, -⟩ := outcome_of_read_ok hfile
    have hmore := outcome_of_read_error hfault
    rw [h.outcome_append, hp, Except.bind] at hmore
    have hnumber := number_of_progress hmore
    exact ⟨fun _ => ⟨s, rfl⟩, fun hle => by omega⟩

/-- **To read files behind one another is to merge them.** If a file whose lines all have their ends
is read, and another one, then both together are read as the merged store. A file that is rejected
is rejected with whatever stands behind it, for the same reason, and a fault of the second file is
reported behind the lines of the first, unless the fault is that the second file begins with
observations. The line that is reported is always the first that does not fit, blank lines
counted. -/
theorem read_together (codec : Codec) {file : Bytes} (hfile : Whole file) (more : Bytes) :
    (∀ s s', read codec file = .ok s → read codec more = .ok s' →
      read codec (file ++ more) = .ok (s.merge s')) ∧
    (∀ fault, read codec file = .error fault → read codec (file ++ more) = .error fault) ∧
    (∀ s number fault, read codec file = .ok s → read codec more = .error (.line number fault) →
      fault ≠ .orphanObservation →
      read codec (file ++ more) = .error (.line (file.count 10 + number) fault)) ∧
    (∀ s, read codec file = .ok s → read codec more = .error .notText →
      read codec (file ++ more) = .error .notText) ∧
    ∀ number fault, read codec (file ++ more) = .error (.line number fault) →
      (1 ≤ number ∧ number ≤ (rawLines (file ++ more) [] []).length) ∧
      (file.count 10 < number → ∃ s, read codec file = .ok s) ∧
      (number ≤ file.count 10 → read codec file = .error (.line number fault)) := by
  refine ⟨?_, ?_, ?_, ?_, ?_⟩
  · intro s s' hs hs'
    exact hfile.read_append_ok hs hs'
  · intro fault hfault
    exact hfile.read_append_of_error hfault more
  · intro s number fault hs hmore hfault
    refine hfile.read_append_error hs hmore ?_
    rintro k heq
    cases heq
    exact hfault rfl
  · intro s hs hmore
    exact hfile.read_append_error hs hmore fun k => nofun
  · intro number fault hfault
    have hnumber := number_of_progress (outcome_of_read_error hfault)
    exact ⟨⟨hnumber.1, by omega⟩, hfile.first_fault hfault⟩

/-- One file with a blank line, and two to put behind it, of which the second has a line that is not
read. -/
def oneMember : Bytes := Text.Utf8.encode "A#m(I)V\n -> [5]\n\n"

def sameMember : Bytes := Text.Utf8.encode "B#n:I\r\nA#m(I)V\n -> [6]\n -> [5]"

def noList : Bytes := Text.Utf8.encode "B#n:I\n -> 5\n"

theorem read_together_oneMember :
    Whole oneMember ∧
      read .plain (oneMember ++ sameMember) = .ok (((Store.empty.add ⟨"A", "m(I)V"⟩ [.text "5"]).add
        ⟨"A", "m(I)V"⟩ [.text "6"]).declare ⟨"B", "n:I"⟩) ∧
      read .plain (oneMember ++ noList) =
        .error (.line 5 (.codec (.malformed "5" (.list .noBrackets)))) := by
  have hwhole : Whole oneMember := .inr (by decide)
  have hone : read .plain oneMember = .ok (Store.empty.add ⟨"A", "m(I)V"⟩ [.text "5"]) := by
    decide
  have hsame : read .plain sameMember = .ok (((Store.empty.declare ⟨"B", "n:I"⟩).add
      ⟨"A", "m(I)V"⟩ [.text "6"]).add ⟨"A", "m(I)V"⟩ [.text "5"]) := by
    decide
  have hnoList : read .plain noList =
      .error (.line 2 (.codec (.malformed "5" (.list .noBrackets)))) := by
    decide
  obtain ⟨hmerge, -, -⟩ := read_together .plain hwhole sameMember
  obtain ⟨-, -, hfault, -⟩ := read_together .plain hwhole noList
  refine ⟨hwhole, ?_, ?_⟩
  · rw [hmerge _ _ hone hsame]
    decide
  · rw [hfault _ _ _ hone hnoList (by decide)]
    decide

end CoverageFile

end ValueCoverage
