import ValueCoverage.Proofs.Store.Format

/-!
# What lines a canonical store has

Observations have one canonical form exactly if they are written alike. So a store in canonical form
is written as the store was, but that of equal lines of a member only the first is left.
-/

namespace ValueCoverage

namespace CoverageFile

variable {codec : Codec} {e : StoreEntry}

/-- The lines of a member's observations. -/
def observedLines (codec : Codec) (e : StoreEntry) : List String :=
  e.observations.items.map fun o => (Line.observed o).text codec

theorem write_eq (codec : Codec) (s : Store) :
    write codec s = String.join (s.entries.flatMap fun e =>
      (Line.header e.key).text codec :: observedLines codec e) := by
  rw [write, linesOf, List.map_flatMap]
  simp only [List.map_cons, List.map_map]
  rfl

theorem text_observed_eq_iff {o o' : Observation} :
    (Line.observed o).text codec = (Line.observed o').text codec ↔
      codec.write o = codec.write o' := by
  simp only [Line.text, ← String.toList_inj, String.toList_append, List.append_left_inj,
    List.append_right_inj]

/-- Of equal lines of a member, the first is left when its observations become canonical. -/
theorem observedLines_canonical (hcodec : codec.Stable) (e : StoreEntry) :
    observedLines codec ⟨e.key, .ofList (e.observations.items.map codec.canonical)⟩ =
      (observedLines codec e).eraseDups := by
  have hline : ∀ o, (Line.observed (codec.canonical o)).text codec = (Line.observed o).text codec :=
    fun o => text_observed_eq_iff.2 (hcodec.write_canonical o)
  have hinj : ∀ a ∈ e.observations.items.map codec.canonical,
      ∀ b ∈ e.observations.items.map codec.canonical,
        (Line.observed a).text codec = (Line.observed b).text codec → a = b := by
    intro a ha b hb heq
    obtain ⟨o, -, rfl⟩ := List.mem_map.1 ha
    obtain ⟨o', -, rfl⟩ := List.mem_map.1 hb
    rw [hline, hline, text_observed_eq_iff] at heq
    exact hcodec.canonical_eq_iff.2 heq
  rw [observedLines, DistinctList.items_ofList, ← eraseDups_map_of_injOn hinj, List.map_map]
  exact congrArg List.eraseDups (List.map_congr_left fun o _ => hline o)

end CoverageFile

namespace Store

open CoverageFile

variable {codec : Codec} {s : Store}

theorem entries_mapObservations (f : Observation → Observation) (s : Store) :
    (s.mapObservations f).entries =
      s.entries.map fun e => ⟨e.key, .ofList (e.observations.items.map f)⟩ := by
  rw [mapObservations_eq]
  simp only [entries, OrderedMap.mapValues, List.flatMap_map, List.map_flatMap, List.map_map]
  rfl

/-- **Canonical forms are told apart by their lines, and lines by canonical forms.** For a codec
that keeps texts, every observation is read back as its canonical form, which is its own canonical
form and is written as the observation is. So the file of a store in canonical form has, member by
member, the lines of the store's file without those that were there before, and no member has one
line twice. -/
theorem write_canonicalize (hcodec : codec = .plain ∨ ∃ limit, codec = .truncate limit) :
    (∀ a b : Observation, codec.read (codec.write a) = .ok (codec.canonical a) ∧
      codec.canonical (codec.canonical a) = codec.canonical a ∧
      codec.write (codec.canonical a) = codec.write a ∧
      (codec.canonical a = codec.canonical b ↔ codec.write a = codec.write b)) ∧
    ∀ s : Store,
      write codec s = String.join (s.entries.flatMap fun e =>
        (Line.header e.key).text codec :: observedLines codec e) ∧
      write codec (s.canonicalize codec) = String.join (s.entries.flatMap fun e =>
        (Line.header e.key).text codec :: (observedLines codec e).eraseDups) ∧
      ∀ e ∈ (s.canonicalize codec).entries, (observedLines codec e).Nodup := by
  have hstable := Codec.stable_of_keeps hcodec
  refine ⟨?_, ?_⟩
  · intro a b
    exact ⟨hstable.read_write a, hstable.canonical_canonical a, hstable.write_canonical a,
      hstable.canonical_eq_iff⟩
  intro s
  have hentries := entries_mapObservations codec.canonical s
  refine ⟨write_eq codec s, ?_, ?_⟩
  · rw [write_eq, canonicalize, hentries, List.flatMap_map]
    simp only [observedLines_canonical hstable]
  · intro e he
    rw [canonicalize, hentries] at he
    obtain ⟨e', -, rfl⟩ := List.mem_map.1 he
    rw [observedLines_canonical hstable]
    exact nodup_eraseDups _

/-- A method of which four observations are kept apart that have two lines when they are cut to four
characters. -/
def cutAlike : Store :=
  (((empty.add ⟨"a.B", "m(Ljava/lang/String;)V"⟩ [.text "nullable"]).add
    ⟨"a.B", "m(Ljava/lang/String;)V"⟩ [.text ""]).add
    ⟨"a.B", "m(Ljava/lang/String;)V"⟩ [.null]).add ⟨"a.B", "m(Ljava/lang/String;)V"⟩ [.text "null"]

theorem write_canonicalize_cutAlike :
    (Codec.truncate 4 = .plain ∨ ∃ limit, Codec.truncate 4 = .truncate limit) ∧
      write (.truncate 4) cutAlike =
        "a.B#m(Ljava/lang/String;)V\n -> [null]\n -> [\\e]\n -> [null]\n -> [null]\n" ∧
      write (.truncate 4) (cutAlike.canonicalize (.truncate 4)) =
        "a.B#m(Ljava/lang/String;)V\n -> [null]\n -> [\\e]\n" := by
  have hcodec : Codec.truncate 4 = .plain ∨ ∃ limit, Codec.truncate 4 = .truncate limit :=
    .inr ⟨4, rfl⟩
  obtain ⟨hwrite, hcanonical, -⟩ := (write_canonicalize hcodec).2 cutAlike
  rw [hwrite, hcanonical]
  exact ⟨hcodec, by decide, by decide⟩

end Store

end ValueCoverage
