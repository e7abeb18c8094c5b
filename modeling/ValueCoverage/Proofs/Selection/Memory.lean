import Mathlib.Data.List.Forall2
import ValueCoverage.Proofs.Selection.Spelling
import ValueCoverage.Selection.Basic

/-!
# What a selection remembers never shows

A filter for types remembers its answers, and a selection may hold many of them. Each answer that is
remembered is the one that would be worked out, so a selection that is asked about any members in
any order answers as one that remembers nothing: a member is taken if a type that it lists is
spelled among the wanted ones, in either spelling.
-/

namespace ValueCoverage

/-! ## One filter -/

namespace TypeFilter

/-- What is remembered is what would be worked out. -/
def Sound (f : TypeFilter) : Prop :=
  ∀ descriptor answer, f.known.lookup descriptor = some answer → answer = meets f.types descriptor

theorem sound_ofSpellings (spellings : List String) : (ofSpellings spellings).Sound := by
  intro descriptor answer h
  cases h

theorem types_ask (f : TypeFilter) (descriptor : String) :
    (f.ask descriptor).2.types = f.types := by
  unfold ask
  cases f.known.lookup descriptor <;> rfl

variable {f : TypeFilter}

theorem Sound.ask_fst (h : f.Sound) (descriptor : String) :
    (f.ask descriptor).1 = meets f.types descriptor := by
  unfold ask
  cases hknown : f.known.lookup descriptor with
  | none => rfl
  | some answer => exact h descriptor answer hknown

theorem Sound.ask_snd (h : f.Sound) (descriptor : String) : (f.ask descriptor).2.Sound := by
  intro other answer
  rw [types_ask]
  unfold ask
  cases hknown : f.known.lookup descriptor with
  | some found => exact h other answer
  | none =>
    intro hlookup
    simp only [List.lookup_cons] at hlookup
    by_cases heq : other = descriptor
    · rw [heq, beq_self_eq_true] at hlookup
      cases hlookup
      rw [heq]
    · rw [beq_eq_false_iff_ne.2 heq] at hlookup
      exact h other answer hlookup

end TypeFilter

/-! ## All filters of a selection -/

namespace Selection

/-- What the filters of a selection remember is what they would work out. -/
def Sound : Selection → Prop
  | .withType filter => filter.Sound
  | .both a b | .either a b => a.Sound ∧ b.Sound
  | .negate a => a.Sound
  | .any | .ownerIs _ | .ownerPrefix _ | .notUnder _ | .nameIs _ | .written | .isStatic
  | .isField => True

/-- Asked about a member, the selection gives its answer and stays the same to all members. -/
structure Answers (s : Selection) (m : Member) (asked : Bool × Selection) : Prop where
  answer : asked.1 = s.accepts m
  sound : asked.2.Sound
  accepts : ∀ other, asked.2.accepts other = s.accepts other

variable {s a b : Selection} {m : Member}

theorem answers_withType {filter : TypeFilter} (h : filter.Sound) :
    (Selection.withType filter).Answers m ((Selection.withType filter).ask m) where
  answer := h.ask_fst m.descriptor
  sound := h.ask_snd m.descriptor
  accepts other := congrArg (TypeFilter.meets · other.descriptor) (filter.types_ask m.descriptor)

/-- Two parts, the second of which is asked unless the first gives the answer that decides. -/
theorem answers_parts {join : Selection → Selection → Selection} (decides : Bool)
    (haccepts : ∀ a b m, (join a b).accepts m =
      if a.accepts m = decides then decides else b.accepts m)
    (hsound : ∀ a b, a.Sound → b.Sound → (join a b).Sound)
    (hask : (join a b).ask m = if (a.ask m).1 = decides then (decides, join (a.ask m).2 b)
      else ((b.ask m).1, join (a.ask m).2 (b.ask m).2))
    (ha : a.Answers m (a.ask m)) (hb : b.Answers m (b.ask m)) (hfresh : b.Sound) :
    (join a b).Answers m ((join a b).ask m) := by
  rw [hask, ha.answer]
  by_cases hdecides : a.accepts m = decides
  · rw [if_pos hdecides]
    exact ⟨by rw [haccepts, if_pos hdecides], hsound _ _ ha.sound hfresh,
      fun other => by rw [haccepts, haccepts, ha.accepts]⟩
  · rw [if_neg hdecides]
    exact ⟨by rw [haccepts, if_neg hdecides, hb.answer], hsound _ _ ha.sound hb.sound,
      fun other => by rw [haccepts, haccepts, ha.accepts, hb.accepts]⟩

theorem answers_both (ha : a.Answers m (a.ask m)) (hb : b.Answers m (b.ask m)) (hsound : b.Sound) :
    (Selection.both a b).Answers m ((Selection.both a b).ask m) := by
  refine answers_parts false ?_ (fun _ _ => And.intro) ?_ ha hb hsound
  · intro a b m
    cases hanswer : a.accepts m <;> simp [accepts, hanswer]
  · rw [ask]
    rcases a.ask m with ⟨_ | _, a'⟩ <;> rfl

theorem answers_either (ha : a.Answers m (a.ask m)) (hb : b.Answers m (b.ask m))
    (hsound : b.Sound) : (Selection.either a b).Answers m ((Selection.either a b).ask m) := by
  refine answers_parts true ?_ (fun _ _ => And.intro) ?_ ha hb hsound
  · intro a b m
    cases hanswer : a.accepts m <;> simp [accepts, hanswer]
  · rw [ask]
    rcases a.ask m with ⟨_ | _, a'⟩ <;> rfl

/-- One question: the answer is the selection's own, and no later answer changes. -/
theorem Sound.answers (h : s.Sound) (m : Member) : s.Answers m (s.ask m) := by
  induction s with
  | withType filter => exact answers_withType h
  | both a b iha ihb => exact answers_both (iha h.1) (ihb h.2) h.2
  | either a b iha ihb => exact answers_either (iha h.1) (ihb h.2) h.2
  | negate a iha =>
    have ha := iha h
    exact ⟨by simp only [ask, accepts, ha.answer], ha.sound,
      fun other => by simp only [ask, accepts, ha.accepts]⟩
  | any | ownerIs | ownerPrefix | notUnder | nameIs | written | isStatic | isField =>
    exact ⟨rfl, trivial, fun _ => rfl⟩

/-- Any questions in any order. -/
theorem Sound.askAll_eq (h : s.Sound) (members : List Member) :
    s.askAll members = members.map s.accepts := by
  induction members generalizing s with
  | nil => rfl
  | cons m rest ih =>
    have hm := h.answers m
    simp only [askAll, List.map_cons]
    rw [hm.answer, ih hm.sound, funext hm.accepts]

end Selection

/-! ## Types that are listed -/

namespace TypeFilter

open Descriptor (readMethod readField)

/-- A descriptor that is read lists this type: it is one of the parameters if a parenthesis opens
the descriptor, and all of it if not. -/
def Lists (descriptor : String) (t : FieldType) : Prop :=
  (descriptor.toList.head? = some '(' ∧ ∃ m, readMethod descriptor = .ok m ∧ t ∈ m.params) ∨
    (descriptor.toList.head? ≠ some '(' ∧ readField descriptor = .ok t)

theorem isMethodDescriptor_iff {descriptor : String} :
    Member.isMethodDescriptor descriptor = true ↔ descriptor.toList.head? = some '(' := by
  rw [Member.isMethodDescriptor, Text.startsWith]
  cases descriptor.toList with
  | nil => decide
  | cons c rest =>
    show (if '(' = c then some rest else none).isSome = true ↔ some c = some '('
    by_cases hc : c = '('
    · subst hc
      simp
    · rw [if_neg (Ne.symm hc)]
      simp [hc]

variable {descriptor : String} {t : FieldType} {types : List String}

theorem mem_listed_iff : t ∈ listed descriptor ↔ Lists descriptor t := by
  unfold listed Lists
  by_cases hopen : Member.isMethodDescriptor descriptor = true
  · rw [if_pos hopen]
    rw [isMethodDescriptor_iff] at hopen
    cases hread : readMethod descriptor <;> simp [hopen]
  · rw [if_neg hopen]
    rw [isMethodDescriptor_iff] at hopen
    cases hread : readField descriptor <;> simp [hopen, eq_comm]

theorem meets_iff :
    meets types descriptor = true ↔ ∃ t, Lists descriptor t ∧ t.descriptor ∈ types := by
  simp only [meets, List.any_eq_true, mem_listed_iff, List.contains_iff_mem]

/-- Only well-formed types are listed. -/
theorem Lists.wellFormed (h : Lists descriptor t) : t.WellFormed := by
  rcases h with ⟨-, m, hread, ht⟩ | ⟨-, hread⟩
  · exact (Descriptor.readMethod_eq_ok.1 hread).1.params t ht
  · exact (Descriptor.readField_eq_ok.1 hread).1

end TypeFilter

/-! ## Wanted types -/

/-- No two types have one descriptor. -/
theorem FieldType.eq_of_descriptor_eq {t t' : FieldType} (h : t.WellFormed) (h' : t'.WellFormed)
    (heq : t.descriptor = t'.descriptor) : t = t' := by
  have hread {t : FieldType} (h : t.WellFormed) : Descriptor.readField t.descriptor = .ok t :=
    Descriptor.readField_eq_ok.2 ⟨h, by rw [FieldType.descriptor, String.toList_ofList]⟩
  have hsame := hread h
  rw [heq, hread h'] at hsame
  cases hsame
  rfl

namespace TypeSpelling

/-- The text names the type as descriptors do, or as source code does. -/
def Spells (spelling : String) (t : FieldType) : Prop :=
  spelling = t.descriptor ∨ spelling = t.sourceText

theorem Spells.descriptor_eq {spelling : String} {t : FieldType} (h : Spells spelling t)
    (ht : t.Spellable) : descriptor spelling = t.descriptor := by
  rcases h with rfl | rfl
  · exact descriptor_descriptor ht
  · exact descriptor_sourceText ht

theorem map_descriptor_eq {spellings : List String} {types : List FieldType}
    (h : List.Forall₂ Spells spellings types) (htypes : ∀ t ∈ types, t.Spellable) :
    spellings.map descriptor = types.map FieldType.descriptor := by
  induction h with
  | nil => rfl
  | cons hspells _ ih =>
    rw [List.forall_mem_cons] at htypes
    rw [List.map_cons, List.map_cons, hspells.descriptor_eq htypes.1, ih htypes.2]

end TypeSpelling

namespace Selection

/-- Takes the members that list a type spelled so. -/
abbrev ofTypes (spellings : List String) : Selection := .withType (.ofSpellings spellings)

variable {spellings : List String} {types : List FieldType}

theorem accepts_ofTypes (m : Member) : (ofTypes spellings).accepts m = true ↔
    ∃ t, TypeFilter.Lists m.descriptor t ∧
      ∃ spelling ∈ spellings, TypeSpelling.descriptor spelling = t.descriptor := by
  show TypeFilter.meets (spellings.map TypeSpelling.descriptor) m.descriptor = true ↔ _
  simp only [TypeFilter.meets_iff, List.mem_map]

theorem accepts_ofTypes_of_spells (h : List.Forall₂ TypeSpelling.Spells spellings types)
    (htypes : ∀ t ∈ types, t.Spellable) (m : Member) :
    (ofTypes spellings).accepts m = true ↔ ∃ t ∈ types, TypeFilter.Lists m.descriptor t := by
  show TypeFilter.meets (spellings.map TypeSpelling.descriptor) m.descriptor = true ↔ _
  rw [TypeSpelling.map_descriptor_eq h htypes, TypeFilter.meets_iff]
  constructor
  · rintro ⟨t, hlists, hmem⟩
    obtain ⟨wanted, hwanted, heq⟩ := List.mem_map.1 hmem
    obtain rfl : wanted = t := FieldType.eq_of_descriptor_eq
      (TypeSpelling.wellFormed_of_spellable (htypes wanted hwanted)) hlists.wellFormed heq
    exact ⟨wanted, hwanted, hlists⟩
  · rintro ⟨t, ht, hlists⟩
    exact ⟨t, hlists, List.mem_map_of_mem ht⟩

theorem forall₂_askAll {s : Selection} (h : s.Sound) {p : Member → Prop}
    (hp : ∀ m, s.accepts m = true ↔ p m) (members : List Member) :
    List.Forall₂ (fun m answer => answer = true ↔ p m) members (s.askAll members) := by
  rw [h.askAll_eq, List.forall₂_map_right_iff]
  exact List.forall₂_same.2 fun m _ => hp m

/-- **A member is taken if it lists a wanted type.** Whatever was asked before, the answer is yes
just if the member's descriptor is read, as a method's or as a field's, and lists a type whose
descriptor is that of one of the spellings. A type that has no other meaning is found in both of
its spellings, and so the answer is yes just if the descriptor lists one of the types that were
spelled. -/
theorem spelled_types_taken :
    (∀ (spellings : List String) (members : List Member),
      List.Forall₂ (fun m answer => answer = true ↔
        ∃ t, TypeFilter.Lists m.descriptor t ∧
          ∃ spelling ∈ spellings, TypeSpelling.descriptor spelling = t.descriptor)
        members ((ofTypes spellings).askAll members)) ∧
    (∀ t : FieldType, t.Spellable → TypeSpelling.descriptor t.descriptor = t.descriptor ∧
      TypeSpelling.descriptor t.sourceText = t.descriptor) ∧
    ∀ (spellings : List String) (types : List FieldType) (members : List Member),
      List.Forall₂ TypeSpelling.Spells spellings types → (∀ t ∈ types, t.Spellable) →
      List.Forall₂ (fun m answer => answer = true ↔
        ∃ t ∈ types, TypeFilter.Lists m.descriptor t)
        members ((ofTypes spellings).askAll members) := by
  have hsound (spellings : List String) : (ofTypes spellings).Sound :=
    TypeFilter.sound_ofSpellings spellings
  refine ⟨fun spellings => forall₂_askAll (hsound spellings) accepts_ofTypes,
    fun t ht => ⟨TypeSpelling.descriptor_descriptor ht, TypeSpelling.descriptor_sourceText ht⟩,
    fun spellings types members hspells htypes => ?_⟩
  exact forall₂_askAll (hsound spellings) (accepts_ofTypes_of_spells hspells htypes) members

/-- A class that looks like the beginning of a descriptor, one that looks like two of them, and an
array. -/
def lookalikes : List FieldType :=
  [⟨2, .object "La/I"⟩, ⟨0, .object "II"⟩, ⟨1, .primitive .int⟩]

/-- Methods and fields, one of them asked about twice and one without a closing parenthesis. -/
def lookalikeMembers : List Member :=
  ["(J[[LLa/I;)V", "I", "[I", "(J[[LLa/I;)V", "([I", "(JLII;)I", "LII;"].map (Member.mk 0 "A" "m")

theorem spelled_types_taken_lookalikes :
    (∀ t ∈ lookalikes, t.Spellable) ∧
    ["La.I[][]", "LII;", "int[]"].map TypeSpelling.descriptor = ["[[LLa/I;", "LII;", "[I"] ∧
    (ofTypes ["La.I[][]", "LII;", "int[]"]).askAll lookalikeMembers =
      [true, false, true, true, false, true, true] ∧
    List.Forall₂ (fun m answer => answer = true ↔
      ∃ t ∈ lookalikes, TypeFilter.Lists m.descriptor t)
      lookalikeMembers [true, false, true, true, false, true, true] := by
  have hspellable : ∀ t ∈ lookalikes, t.Spellable := by
    simp only [lookalikes, List.forall_mem_cons, List.not_mem_nil, false_imp_iff, implies_true,
      and_true]
    exact ⟨⟨by decide, by decide, by decide, by decide, by decide, by decide, by decide⟩,
      ⟨by decide, by decide, by decide, by decide, by decide, by decide, by decide⟩, trivial⟩
  have hspells : List.Forall₂ TypeSpelling.Spells ["La.I[][]", "LII;", "int[]"] lookalikes :=
    .cons (.inr (by decide)) (.cons (.inl (by decide)) (.cons (.inr (by decide)) .nil))
  obtain ⟨-, hboth, htaken⟩ := spelled_types_taken
  have hanswers : (ofTypes ["La.I[][]", "LII;", "int[]"]).askAll lookalikeMembers =
      [true, false, true, true, false, true, true] := by decide +kernel
  refine ⟨hspellable, ?_, hanswers, hanswers ▸ htaken _ _ lookalikeMembers hspells hspellable⟩
  have hclass : TypeSpelling.descriptor "La.I[][]" = "[[LLa/I;" :=
    (hboth ⟨2, .object "La/I"⟩ (hspellable _ (by simp [lookalikes]))).2
  have hdescriptor : TypeSpelling.descriptor "LII;" = "LII;" :=
    (hboth ⟨0, .object "II"⟩ (hspellable _ (by simp [lookalikes]))).1
  have harray : TypeSpelling.descriptor "int[]" = "[I" :=
    (hboth ⟨1, .primitive .int⟩ (hspellable _ (by simp [lookalikes]))).2
  rw [List.map_cons, List.map_cons, List.map_cons, List.map_nil, hclass, hdescriptor, harray]

end Selection

end ValueCoverage
