import ValueCoverage.Observation.Codec
import ValueCoverage.Proofs.Observation.ItemList

/-!
# Canonical observations

What is written is read back as the canonical form, and the canonical form is written as the
observation was. `plain` and `truncate` keep of every value a text, which is the text of what is
kept.
-/

namespace ValueCoverage.Codec

/-- Whatever the codec writes takes one line, and what is read of it is told by `back`. -/
structure Legible (codec : Codec) (back : Observation → Observation) : Prop where
  read_write : ∀ o, codec.read (codec.write o) = .ok (back o)
  inLine : ∀ o, Text.InLine (codec.write o).toList

/-- Whatever the codec writes is read, takes one line, and is written again as it was. -/
structure Stable (codec : Codec) : Prop where
  read_write : ∀ o, codec.read (codec.write o) = .ok (codec.canonical o)
  write_canonical : ∀ o, codec.write (codec.canonical o) = codec.write o
  inLine : ∀ o, Text.InLine (codec.write o).toList

theorem Stable.legible {codec : Codec} (h : codec.Stable) : codec.Legible codec.canonical :=
  ⟨h.read_write, h.inLine⟩

theorem Stable.canonical_canonical {codec : Codec} (h : codec.Stable) (o : Observation) :
    codec.canonical (codec.canonical o) = codec.canonical o := by
  have hagain := h.read_write (codec.canonical o)
  rw [h.write_canonical, h.read_write] at hagain
  exact (Except.ok.inj hagain).symm

/-- Two observations have one canonical form if they are written alike. -/
theorem Stable.canonical_eq_iff {codec : Codec} (h : codec.Stable) {a b : Observation} :
    codec.canonical a = codec.canonical b ↔ codec.write a = codec.write b := by
  constructor
  · intro heq
    rw [← h.write_canonical a, heq, h.write_canonical]
  · intro heq
    have hread := h.read_write a
    rw [heq, h.read_write] at hread
    exact (Except.ok.inj hread).symm

section Texts

variable {name : String} {shown : Value → List Char}

/-- What is left of a value of which only a text is kept. -/
def kept (shown : Value → List Char) (v : Value) : Value := plainValue (String.ofList (shown v))

theorem readPlain_writeItems (o : Observation) :
    readPlain (writeItems (fun v => ItemList.escape (shown v)) o) = .ok (o.map (kept shown)) := by
  have hitems : ItemList.split (ItemList.bracket (o.map fun v => ItemList.escape (shown v))) =
      .ok (o.map shown) := by
    rw [← ItemList.split_bracket (o.map shown), List.map_map]
    rfl
  rw [readPlain, readItems, writeItems, String.toList_ofList, hitems]
  show Except.ok _ = Except.ok _
  simp [kept]

theorem canonical_shown (o : Observation) :
    (Codec.ofPair name (writeItems fun v => ItemList.escape (shown v)) readPlain).canonical o =
      o.map (kept shown) := by
  simp only [ofPair, readBack, readPlain_writeItems]

/-- A codec that writes texts and reads them as they are, where what is read has the text that was
written. -/
theorem stable_of_shown (shown : Value → List Char) (hshown : ∀ v, shown (kept shown v) = shown v) :
    (Codec.ofPair name (writeItems fun v => ItemList.escape (shown v)) readPlain).Stable where
  read_write o := by
    rw [canonical_shown]
    exact readPlain_writeItems o
  write_canonical o := by
    rw [canonical_shown]
    show writeItems _ (o.map (kept shown)) = writeItems _ o
    simp only [writeItems, List.map_map]
    congr 3
    funext v
    rw [Function.comp_apply, hshown]
  inLine o := by
    have hwritten : (writeItems (fun v => ItemList.escape (shown v)) o).toList =
        ItemList.bracket ((o.map shown).map ItemList.escape) := by
      simp [writeItems, Function.comp_def]
    show Text.InLine (writeItems (fun v => ItemList.escape (shown v)) o).toList
    rw [hwritten]
    exact ItemList.inLine_bracket (o.map shown)

end Texts

/-- A value of which only the text is known has that text. -/
theorem display_plainValue (s : String) : (plainValue s).display = s := by
  unfold plainValue
  split
  · next h => rw [h, Value.display]
  · rw [Value.display]

theorem plain_stable : plain.Stable :=
  stable_of_shown (fun v => v.display.toList) fun v => by
    simp [kept, display_plainValue]

theorem truncate_stable (limit : Nat) : (truncate limit).Stable :=
  stable_of_shown (fun v => v.display.toList.take limit) fun v => by
    simp [kept, display_plainValue, List.take_take]

/-- Both codecs that keep texts are stable. -/
theorem stable_of_keeps {codec : Codec} (h : codec = .plain ∨ ∃ limit, codec = .truncate limit) :
    codec.Stable := by
  rcases h with rfl | ⟨limit, rfl⟩
  · exact plain_stable
  · exact truncate_stable limit

end ValueCoverage.Codec
