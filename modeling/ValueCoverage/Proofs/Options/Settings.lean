import ValueCoverage.Proofs.Options.Pieces

/-!
# What an option string sets

The options of a string are entries of keys and values. A key other than `include` ends with the
value that its last entry gives it, whatever there was before, and the rules are those of all
`include` entries, in order. So the outcome depends on the order of the entries of each key alone,
and an option string that is applied twice does no more than once.
-/

namespace ValueCoverage.Options

/-! ## Settings -/

/-- What a key is set to. -/
inductive Setting where
  | path (path : Option String)
  | text (text : String)
  | mode (mode : Mode)
  | rules (rules : List String)
  | switch (on : Bool)
deriving Repr, DecidableEq

/-- What a key is set to, if there is such a key. -/
def get? (o : Options) (key : String) : Option Setting :=
  match key with
  | "output" => some (.path o.output)
  | "input" => some (.path o.input)
  | "serializer" => some (.text o.serializer)
  | "deserializer" => some (.text o.deserializer)
  | "mode" => some (.mode o.mode)
  | "include" => some (.rules o.rules)
  | "fields" => some (.switch o.fields)
  | "log" => some (.text o.log)
  | _ => none

/-- The keys tell all of the options. -/
theorem ext_get? {o o' : Options} (h : ∀ key, o.get? key = o'.get? key) : o = o' := by
  have houtput := h "output"
  have hinput := h "input"
  have hserializer := h "serializer"
  have hdeserializer := h "deserializer"
  have hmode := h "mode"
  have hrules := h "include"
  have hfields := h "fields"
  have hlog := h "log"
  simp only [get?, Option.some.injEq, Setting.path.injEq, Setting.text.injEq, Setting.mode.injEq,
    Setting.rules.injEq, Setting.switch.injEq] at *
  cases o
  cases o'
  simp_all

section Set

variable {o o' r r' : Options} {key value : String}

/-- A value changes its own key alone. -/
theorem get?_set_of_ne (h : o.set key value = .ok r) {k : String} (hk : k ≠ key) :
    r.get? k = o.get? k := by
  unfold set at h
  -- what a text is trimmed to does not matter, and must not be looked into
  generalize nonBlank value = text at h
  simp only at h
  repeat' split at h
  -- a refused value is none of the cases; for the others, the field of each other key is looked up
  all_goals
    cases h <;> unfold get? <;> split <;> simp_all

theorem get?_withRules {k : String} (hk : k ≠ "include") (o : Options) (rules : List String) :
    ({ o with rules } : Options).get? k = o.get? k := by
  unfold get?
  split <;> simp_all

/-- A key takes a value or refuses it, whatever there was, and but for rules, which are added, it is
then set to the same. -/
theorem exists_set (h : o.set key value = .ok r) (o' : Options) :
    ∃ r', o'.set key value = .ok r' ∧ (key ≠ "include" → r'.get? key = r.get? key) := by
  unfold set at h ⊢
  generalize nonBlank value = text at h ⊢
  simp only at h ⊢
  repeat' split at h
  all_goals
    cases h <;> first
      | exact ⟨_, rfl, fun _ => rfl⟩
      | exact ⟨_, rfl, fun hrules => absurd rfl hrules⟩

end Set

/-! ## Entries -/

/-- The key and the value of an option. -/
def entry? (option : String) : Option (String × String) :=
  (Text.splitFirst '=' option.toList).map fun cut =>
    (Text.trim (String.ofList cut.1), Text.trim (String.ofList cut.2))

/-- The values of a key, in order. -/
def valuesOf (key : String) (entries : List (String × String)) : List String :=
  (entries.filter fun e => e.1 = key).map Prod.snd

theorem valuesOf_cons (key k value : String) (entries : List (String × String)) :
    valuesOf key ((k, value) :: entries) =
      if k = key then value :: valuesOf key entries else valuesOf key entries := by
  unfold valuesOf
  by_cases h : k = key <;> simp [h]

/-- What entries make of options, if an `include` has been `seen` or has not: a key without values
is as it was, another one has what its last value gives it, and of the rules that were there before,
only those are left that an entry has added. -/
structure Follows (o : Options) (seen : Bool) (entries : List (String × String)) (r : Options) :
    Prop where
  kept : ∀ key, key ≠ "include" → valuesOf key entries = [] → r.get? key = o.get? key
  given : ∀ key, key ≠ "include" → ∀ value, (valuesOf key entries).getLast? = some value →
    ∀ o' : Options, ∃ alone, o'.set key value = .ok alone ∧ r.get? key = alone.get? key
  rules : r.rules = (if seen = true ∨ valuesOf "include" entries = [] then o.rules else []) ++
    (valuesOf "include" entries).flatMap readRules

namespace Follows

variable {o o' r r' : Options} {seen seen' : Bool} {entries entries' : List (String × String)}

/-- Options that follow from entries are one. -/
theorem unique (h : o.Follows seen entries r) (h' : o.Follows seen entries r') : r = r' := by
  refine ext_get? fun key => ?_
  by_cases hkey : key = "include"
  · subst hkey
    show some (Setting.rules r.rules) = some (Setting.rules r'.rules)
    rw [h.rules, h'.rules]
  cases hlast : (valuesOf key entries).getLast? with
  | none =>
    have hnone := List.getLast?_eq_none_iff.1 hlast
    rw [h.kept key hkey hnone, h'.kept key hkey hnone]
  | some value =>
    obtain ⟨alone, hset, hr⟩ := h.given key hkey value hlast o
    obtain ⟨alone', hset', hr'⟩ := h'.given key hkey value hlast o
    rw [hset] at hset'
    cases hset'
    rw [hr, hr']

/-- Only the values of each key count, and their order. -/
theorem congr (h : o.Follows seen entries r)
    (hvalues : ∀ key, valuesOf key entries = valuesOf key entries') :
    o.Follows seen entries' r where
  kept key := by
    rw [← hvalues]
    exact h.kept key
  given key := by
    rw [← hvalues]
    exact h.given key
  rules := by
    rw [← hvalues]
    exact h.rules

/-- What follows from entries follows again from the same. -/
theorem again (h : o.Follows false entries r) : r.Follows false entries r where
  kept _ _ _ := rfl
  given := h.given
  rules := by
    rw [h.rules]
    by_cases hnone : valuesOf "include" entries = [] <;> simp [hnone]

theorem nil (o : Options) (seen : Bool) : o.Follows seen [] o where
  kept _ _ _ := rfl
  given _ _ value h := by cases h
  rules := by simp [valuesOf]

/-- What the first entry does comes before what the others do. -/
theorem cons {key value : String} (h : o.set key value = .ok o') (hkey : key ≠ "include")
    (hrest : o'.Follows seen entries r) : o.Follows seen ((key, value) :: entries) r where
  kept k hk hnone := by
    rw [valuesOf_cons] at hnone
    split at hnone
    · cases hnone
    · next hne => rw [hrest.kept k hk hnone, get?_set_of_ne h (Ne.symm hne)]
  given k hk last hlast := by
    rw [valuesOf_cons] at hlast
    split at hlast
    · next heq =>
      subst heq
      cases hvalues : valuesOf key entries with
      | nil =>
        rw [hvalues] at hlast
        cases hlast
        intro o''
        obtain ⟨alone, hset, hself⟩ := exists_set h o''
        exact ⟨alone, hset, by rw [hrest.kept key hk hvalues, hself hk]⟩
      | cons v more =>
        rw [hvalues, List.getLast?_cons_cons, ← hvalues] at hlast
        exact hrest.given key hk last hlast
    · exact hrest.given k hk last hlast
  rules := by
    have hrules : o'.rules = o.rules := by
      have hget := get?_set_of_ne h (Ne.symm hkey)
      simpa [get?] using hget
    rw [valuesOf_cons, if_neg hkey, hrest.rules, hrules]

/-- The first `include` drops the rules that were there, and each adds its own. -/
theorem cons_include {value : String}
    (hrest : ({ o with rules := (if seen then o.rules else []) ++ readRules value } :
      Options).Follows true entries r) :
    o.Follows seen (("include", value) :: entries) r where
  kept k hk hnone := by
    rw [valuesOf_cons, if_neg (Ne.symm hk)] at hnone
    rw [hrest.kept k hk hnone, get?_withRules hk]
  given k hk last hlast := by
    rw [valuesOf_cons, if_neg (Ne.symm hk)] at hlast
    exact hrest.given k hk last hlast
  rules := by
    rw [valuesOf_cons, if_pos rfl, hrest.rules]
    cases seen <;> simp

/-- What a key is set to at first stays if it has no value later. -/
theorem set_first {key value : String} (h : o.Follows seen entries r) (hkey : key ≠ "include")
    (hnone : valuesOf key entries = []) (ho : o.set key value = .ok o')
    (hr : r.set key value = .ok r') : o'.Follows seen entries r' where
  kept k hk hvalues := by
    by_cases heq : k = key
    · obtain ⟨r'', hr'', hget⟩ := exists_set ho r
      rw [hr] at hr''
      cases hr''
      rw [heq, hget hkey]
    · rw [get?_set_of_ne hr heq, get?_set_of_ne ho heq, h.kept k hk hvalues]
  given k hk last hlast := by
    have heq : k ≠ key := by
      rintro rfl
      rw [hnone] at hlast
      cases hlast
    rw [get?_set_of_ne hr heq]
    exact h.given k hk last hlast
  rules := by
    have hrules : r'.rules = r.rules ∧ o'.rules = o.rules := by
      have hgetr := get?_set_of_ne hr (Ne.symm hkey)
      have hgeto := get?_set_of_ne ho (Ne.symm hkey)
      exact ⟨by simpa [get?] using hgetr, by simpa [get?] using hgeto⟩
    rw [hrules.1, hrules.2]
    exact h.rules

end Follows

/-! ## One option after the other -/

section Step

variable {o o' r : Options} {seen : Bool} {option key value : String}

/-- A key takes this value, whatever the other options are. -/
def Settable (entry : String × String) : Prop :=
  ∀ o : Options, ∃ r, o.set entry.1 entry.2 = .ok r

theorem settable_of_set (h : o.set key value = .ok r) : Settable (key, value) := by
  intro o'
  obtain ⟨r', hset, -⟩ := exists_set h o'
  exact ⟨r', hset⟩

theorem step_missing (h : entry? option = none) :
    Applied.step ⟨o, seen, none⟩ option = ⟨o, seen, some (.missingValue option)⟩ := by
  have hcut : Text.splitFirst '=' option.toList = none := Option.map_eq_none_iff.1 h
  simp only [Applied.step, hcut]
  rfl

theorem exists_cut (h : entry? option = some (key, value)) : ∃ front back,
    Text.splitFirst '=' option.toList = some (front, back) ∧
      key = Text.trim (String.ofList front) ∧ value = Text.trim (String.ofList back) := by
  obtain ⟨⟨front, back⟩, hcut, heq⟩ := Option.map_eq_some_iff.1 h
  cases heq
  exact ⟨front, back, hcut, rfl, rfl⟩

theorem step_include (h : entry? option = some ("include", value)) :
    Applied.step ⟨o, seen, none⟩ option =
      ⟨{ o with rules := (if seen then o.rules else []) ++ readRules value }, true, none⟩ := by
  obtain ⟨front, back, hcut, hkey, hvalue⟩ := exists_cut h
  simp only [Applied.step, hcut, ← hkey, ← hvalue]
  cases seen <;> simp [set]

theorem step_plain (h : entry? option = some (key, value)) (hkey : key ≠ "include") :
    (∀ r, o.set key value = .ok r → Applied.step ⟨o, seen, none⟩ option = ⟨r, seen, none⟩) ∧
    ∀ e, o.set key value = .error e →
      Applied.step ⟨o, seen, none⟩ option = ⟨o, seen, some e⟩ := by
  obtain ⟨front, back, hcut, rfl, rfl⟩ := exists_cut h
  constructor
  · intro r hset
    simp [Applied.step, hcut, hkey, hset]
  · intro e hset
    simp [Applied.step, hcut, hkey, hset]

/-- After an error nothing more is applied. -/
theorem foldl_step_failed (e : OptionError) (options : List String) (o : Options) (seen : Bool) :
    options.foldl Applied.step ⟨o, seen, some e⟩ = ⟨o, seen, some e⟩ := by
  induction options with
  | nil => rfl
  | cons option rest ih => exact ih

end Step

/-- An option that can be applied, whatever the other options are. -/
def Applies (option : String) : Prop := ∃ entry, entry? option = some entry ∧ Settable entry

theorem foldl_step_follows {options : List String} {o r : Options} {seen seen' : Bool}
    (h : options.foldl Applied.step ⟨o, seen, none⟩ = ⟨r, seen', none⟩) :
    (∀ option ∈ options, Applies option) ∧ o.Follows seen (options.filterMap entry?) r := by
  induction options generalizing o seen with
  | nil =>
    cases h
    exact ⟨by simp, .nil _ _⟩
  | cons option rest ih =>
    rw [List.foldl_cons] at h
    cases hentry : entry? option with
    | none =>
      rw [step_missing hentry, foldl_step_failed] at h
      cases h
    | some entry =>
      obtain ⟨key, value⟩ := entry
      rw [List.filterMap_cons_some hentry, List.forall_mem_cons]
      by_cases hkey : key = "include"
      · subst hkey
        rw [step_include hentry] at h
        obtain ⟨hall, hfollows⟩ := ih h
        exact ⟨⟨⟨_, hentry, fun o => ⟨_, rfl⟩⟩, hall⟩, .cons_include hfollows⟩
      · cases hset : o.set key value with
        | error e =>
          rw [(step_plain hentry hkey).2 e hset, foldl_step_failed] at h
          cases h
        | ok o' =>
          rw [(step_plain hentry hkey).1 o' hset] at h
          obtain ⟨hall, hfollows⟩ := ih h
          exact ⟨⟨⟨_, hentry, settable_of_set hset⟩, hall⟩, .cons hset hkey hfollows⟩

theorem exists_foldl_step {options : List String} (hall : ∀ option ∈ options, Applies option)
    (o : Options) (seen : Bool) :
    ∃ r seen', options.foldl Applied.step ⟨o, seen, none⟩ = ⟨r, seen', none⟩ := by
  induction options generalizing o seen with
  | nil => exact ⟨o, seen, rfl⟩
  | cons option rest ih =>
    obtain ⟨⟨⟨key, value⟩, hentry, hsettable⟩, hrest⟩ := List.forall_mem_cons.1 hall
    rw [List.foldl_cons]
    by_cases hkey : key = "include"
    · subst hkey
      rw [step_include hentry]
      exact ih hrest _ _
    · obtain ⟨o', hset⟩ := hsettable o
      rw [(step_plain hentry hkey).1 o' hset]
      exact ih hrest o' seen

/-! ## Option strings -/

/-- The key and the value in a piece of an option string, unless it is blank. -/
def entryOf? (piece : List Char) : Option (String × String) :=
  (nonBlank (String.ofList piece)).bind entry?

/-- A piece of an option string that is blank or can be applied. -/
def Fine (piece : List Char) : Prop :=
  ∀ option, nonBlank (String.ofList piece) = some option → Applies option

theorem apply_eq_ok_iff {o r : Options} {s : String} :
    o.apply s = .ok r ↔ ∃ pieces, splitOutside s.toList 0 [] [] = some pieces ∧
      (∀ p ∈ pieces, Fine p) ∧ o.Follows false (pieces.filterMap entryOf?) r := by
  have hfine : ∀ pieces : List (List Char), (∀ p ∈ pieces, Fine p) ↔
      ∀ option ∈ pieces.filterMap (fun piece => nonBlank (String.ofList piece)),
        Applies option := by
    intro pieces
    simp only [List.mem_filterMap, Fine]
    exact ⟨fun h option ⟨p, hp, hoption⟩ => h p hp option hoption,
      fun h p hp option hoption => h option ⟨p, hp, hoption⟩⟩
  have hentries : ∀ pieces : List (List Char), pieces.filterMap entryOf? =
      (pieces.filterMap fun piece => nonBlank (String.ofList piece)).filterMap entry? := by
    intro pieces
    rw [List.filterMap_filterMap]
    rfl
  have happly : o.apply s = .ok r ↔ o.applyAll s = (r, none) := by
    unfold apply
    rcases o.applyAll s with ⟨o', _ | e⟩ <;> simp
  rw [happly]
  unfold applyAll
  cases hsplit : split s with
  | error e =>
    obtain ⟨-, hopen⟩ := split_eq_error.1 hsplit
    constructor
    · intro h
      cases h
    rintro ⟨pieces, hcut, -⟩
    exact absurd (isSome_splitOutside.1 (Option.isSome_iff_exists.2 ⟨_, hcut⟩)) hopen
  | ok options =>
    obtain ⟨pieces, hcut, rfl⟩ := split_eq_ok.1 hsplit
    simp only [hcut, Option.some.injEq, exists_eq_left']
    rw [hfine, hentries]
    constructor
    · intro h
      generalize hfold : List.foldl Applied.step ⟨o, false, none⟩ _ = a at h
      obtain ⟨o', seen, e⟩ := a
      cases h
      exact foldl_step_follows hfold
    · rintro ⟨hall, hfollows⟩
      obtain ⟨r', seen, hfold⟩ := exists_foldl_step hall o false
      rw [hfold, (foldl_step_follows hfold).2.unique hfollows]

section Front

variable {o o' r r' : Options} {piece : List Char} {key value others : String}

theorem fine_of_set (hentry : entryOf? piece = some (key, value))
    (hset : o.set key value = .ok o') : Fine piece := by
  intro option hoption
  rw [entryOf?, hoption, Option.bind_some] at hentry
  exact ⟨_, hentry, settable_of_set hset⟩

/-- A piece alone is applied as its entry is. -/
theorem apply_piece (hpiece : IsPiece 0 piece) (hentry : entryOf? piece = some (key, value))
    (hkey : key ≠ "include") (hset : o.set key value = .ok o') :
    o.apply (String.ofList piece) = .ok o' := by
  refine apply_eq_ok_iff.2 ⟨[piece], ?_, ?_, ?_⟩
  · rw [String.toList_ofList]
    exact splitOutside_iff.2 ⟨by simp, by simpa using hpiece, rfl⟩
  · simpa using fine_of_set hentry hset
  · rw [List.filterMap_cons_some hentry]
    exact .cons hset hkey (.nil _ _)

/-- None of the options has this key. -/
def Lacks (key others : String) : Prop :=
  ∀ options, split others = .ok options → ∀ option ∈ options, ∀ entry,
    entry? option = some entry → entry.1 ≠ key

theorem valuesOf_of_lacks {pieces : List (List Char)} (h : Lacks key others)
    (hcut : splitOutside others.toList 0 [] [] = some pieces) :
    valuesOf key (pieces.filterMap entryOf?) = [] := by
  have hnone := h _ (split_eq_ok.2 ⟨pieces, hcut, rfl⟩)
  rw [valuesOf, List.map_eq_nil_iff, List.filter_eq_nil_iff]
  intro entry hentry
  obtain ⟨piece, hpiece, hentry⟩ := List.mem_filterMap.1 hentry
  obtain ⟨option, hoption, hentry⟩ := Option.bind_eq_some_iff.1 hentry
  simpa using hnone option (List.mem_filterMap.2 ⟨piece, hpiece, hoption⟩) entry hentry

/-- A piece in front of options without its key adds its entry to what they come to. -/
theorem apply_piece_append (hpiece : IsPiece 0 piece)
    (hentry : entryOf? piece = some (key, value)) (hkey : key ≠ "include")
    (hothers : o.apply others = .ok r) (hlacks : Lacks key others)
    (hset : r.set key value = .ok r') :
    o.apply (String.ofList piece ++ "," ++ others) = .ok r' := by
  obtain ⟨pieces, hcut, hfine, hfollows⟩ := apply_eq_ok_iff.1 hothers
  obtain ⟨hne, hpieces, hjoin⟩ := splitOutside_iff.1 hcut
  obtain ⟨o', ho, -⟩ := exists_set hset o
  refine apply_eq_ok_iff.2 ⟨piece :: pieces, splitOutside_iff.2 ⟨by simp, ?_, ?_⟩, ?_, ?_⟩
  · exact List.forall_mem_cons.2 ⟨hpiece, hpieces⟩
  · obtain ⟨first, more, rfl⟩ := List.exists_cons_of_ne_nil hne
    show piece ++ [','] ++ Text.joinWith [','] (first :: more) = _
    rw [hjoin]
    simp
  · exact List.forall_mem_cons.2 ⟨fine_of_set hentry hset, hfine⟩
  · rw [List.filterMap_cons_some hentry]
    exact .cons ho hkey (hfollows.set_first hkey (valuesOf_of_lacks hlacks hcut) ho hset)

end Front

/-- The values of a key stand in the pieces of an option string, in order. -/
theorem valuesOf_pieces (key : String) (pieces : List (List Char)) :
    valuesOf key (pieces.filterMap entryOf?) =
      pieces.flatMap fun p => valuesOf key (entryOf? p).toList := by
  induction pieces with
  | nil => rfl
  | cons p rest ih =>
    rw [List.flatMap_cons, ← ih]
    cases hentry : entryOf? p with
    | none => rw [List.filterMap_cons_none hentry]; rfl
    | some entry =>
      obtain ⟨k, value⟩ := entry
      rw [List.filterMap_cons_some hentry, valuesOf_cons]
      split <;> simp [valuesOf, *]

/-- A piece has values of its own key only. -/
theorem valuesOf_piece_of_ne {key : String} {p : List Char}
    (h : (entryOf? p).map Prod.fst ≠ some key) : valuesOf key (entryOf? p).toList = [] := by
  cases hentry : entryOf? p with
  | none => rfl
  | some entry =>
    rw [hentry] at h
    simpa [valuesOf] using h

/-- Pieces of different keys can change places, and blank ones between them count for nothing. -/
theorem valuesOf_exchange {a b : List Char} {between : List (List Char)}
    (hblank : ∀ p ∈ between, entryOf? p = none)
    (hkeys : (entryOf? a).map Prod.fst ≠ (entryOf? b).map Prod.fst) (key : String)
    (front back : List (List Char)) :
    valuesOf key ((front ++ a :: (between ++ b :: back)).filterMap entryOf?) =
      valuesOf key ((front ++ b :: (between ++ a :: back)).filterMap entryOf?) := by
  have hbetween : (between.flatMap fun p => valuesOf key (entryOf? p).toList) = [] := by
    rw [List.flatMap_eq_nil_iff]
    intro p hp
    rw [hblank p hp]
    rfl
  simp only [valuesOf_pieces, List.flatMap_append, List.flatMap_cons, hbetween, List.nil_append]
  by_cases ha : (entryOf? a).map Prod.fst = some key
  · have hb := valuesOf_piece_of_ne fun hb => hkeys (ha.trans hb.symm)
    rw [hb, List.nil_append, List.nil_append]
  · rw [valuesOf_piece_of_ne ha, List.nil_append, List.nil_append]

/-- **The last value of a key counts, and all rules do.** An option string that applies is cut at
the commas outside parentheses, which match: its pieces are the only texts that give it when joined
by commas, have parentheses that match, and hold no comma outside parentheses. A key other than
`include` ends with what its last value gives it on any options, or as it was if it has none; the
rules are those of all `include` options, in order, or as they were if there is none. So the string
does no more when it is applied again, and two options of different keys with nothing but blank
pieces between them can change places. -/
theorem last_value_counts {o r : Options} {s : String} (h : o.apply s = .ok r) :
    Balanced s.toList ∧
    ∃ pieces, splitOutside s.toList 0 [] [] = some pieces ∧
      (∀ others, others = pieces ↔ others ≠ [] ∧ Text.joinWith [','] others = s.toList ∧
        ∀ p ∈ others, Balanced p ∧ CommasInside 0 p) ∧
      (∀ p ∈ pieces, nonBlank (String.ofList p) = none ∨ ∃ entry, entryOf? p = some entry) ∧
      (∀ key, key ≠ "include" →
        (valuesOf key (pieces.filterMap entryOf?) = [] → r.get? key = o.get? key) ∧
        ∀ value, (valuesOf key (pieces.filterMap entryOf?)).getLast? = some value →
          ∀ o' : Options, ∃ alone, o'.set key value = .ok alone ∧ r.get? key = alone.get? key) ∧
      r.rules = (if valuesOf "include" (pieces.filterMap entryOf?) = [] then o.rules
        else (valuesOf "include" (pieces.filterMap entryOf?)).flatMap readRules) ∧
      r.apply s = .ok r ∧
      ∀ front a between b back, pieces = front ++ a :: (between ++ b :: back) →
        (∀ p ∈ between, entryOf? p = none) →
        (entryOf? a).map Prod.fst ≠ (entryOf? b).map Prod.fst →
        o.apply (String.ofList (Text.joinWith [','] (front ++ b :: (between ++ a :: back)))) =
          .ok r := by
  obtain ⟨pieces, hcut, hfine, hfollows⟩ := apply_eq_ok_iff.1 h
  refine ⟨isSome_splitOutside.1 (Option.isSome_iff_exists.2 ⟨_, hcut⟩), pieces, hcut, ?_, ?_,
    fun key hkey => ⟨hfollows.kept key hkey, hfollows.given key hkey⟩, ?_,
    apply_eq_ok_iff.2 ⟨pieces, hcut, hfine, hfollows.again⟩, ?_⟩
  · intro others
    have hothers : splitOutside s.toList 0 [] [] = some others ↔ _ := splitOutside_iff
    simp only [hcut, Option.some.injEq, isPiece_iff] at hothers
    rw [eq_comm, hothers, and_left_comm, and_comm, and_assoc, and_comm]
  · intro p hp
    cases hoption : nonBlank (String.ofList p) with
    | none => exact .inl rfl
    | some option =>
      obtain ⟨entry, hentry, -⟩ := hfine p hp option hoption
      exact .inr ⟨entry, by rw [entryOf?, hoption, Option.bind_some, hentry]⟩
  · rw [hfollows.rules]
    by_cases hnone : valuesOf "include" (pieces.filterMap entryOf?) = [] <;> simp [hnone]
  · rintro front a between b back rfl hblank hkeys
    -- the pieces are the same ones, and so are the values of each key
    have hsame : ∀ p, p ∈ front ++ b :: (between ++ a :: back) →
        p ∈ front ++ a :: (between ++ b :: back) := by
      intro p hp
      simp only [List.mem_append, List.mem_cons] at hp ⊢
      rcases hp with hp | hp | hp | hp | hp <;> simp [hp]
    obtain ⟨-, hpieces, -⟩ := splitOutside_iff.1 hcut
    refine apply_eq_ok_iff.2 ⟨front ++ b :: (between ++ a :: back), ?_,
      fun p hp => hfine p (hsame p hp),
      hfollows.congr fun key => valuesOf_exchange hblank hkeys key front back⟩
    rw [String.toList_ofList]
    exact splitOutside_iff.2 ⟨by simp, fun p hp => hpieces p (hsame p hp), rfl⟩

/-- Options with a rule. -/
def ruled : Options := { standard with rules := ["all"] }

/-- Two rules, a blank piece, a comma inside parentheses and a mode that does not last. -/
def manyOptions : String :=
  "include=owner=A, mode=template,, serializer=truncate(4,x),include = name=m; ,mode=Coverage"

/-- The same with two options in each other's place. -/
def manyExchanged : String :=
  "include=owner=A, serializer=truncate(4,x),, mode=template,include = name=m; ,mode=Coverage"

/-- What they come to. -/
def manyApplied : Options :=
  { standard with rules := ["owner=A", "name=m"], serializer := "truncate(4,x)" }

theorem last_value_counts_manyOptions :
    ruled.apply manyOptions = .ok manyApplied ∧ Balanced manyOptions.toList ∧
    (∃ pieces, splitOutside manyOptions.toList 0 [] [] = some pieces ∧ pieces.length = 6 ∧
      Text.joinWith [','] pieces = manyOptions.toList ∧
      (∀ p ∈ pieces, Balanced p ∧ CommasInside 0 p) ∧
      manyApplied.rules =
        (valuesOf "include" (pieces.filterMap entryOf?)).flatMap readRules) ∧
    manyApplied.apply manyOptions = .ok manyApplied ∧
    ruled.apply manyExchanged = .ok manyApplied := by
  have hall : ruled.applyAll manyOptions = (manyApplied, none) := by decide +kernel
  have happly : ruled.apply manyOptions = .ok manyApplied := by rw [apply, hall]
  obtain ⟨hbalanced, pieces, hcut, honly, -, -, hrules, hagain, hexchange⟩ :=
    last_value_counts happly
  have hpieces : pieces = ["include=owner=A".toList, " mode=template".toList, [],
      " serializer=truncate(4,x)".toList, "include = name=m; ".toList, "mode=Coverage".toList] := by
    refine Option.some.inj (hcut.symm.trans ?_)
    decide +kernel
  obtain ⟨-, hjoin, hmatch⟩ := (honly pieces).1 rfl
  refine ⟨happly, hbalanced, ⟨pieces, hcut, by rw [hpieces]; rfl, hjoin, hmatch, ?_⟩, hagain, ?_⟩
  · rw [hrules, if_neg]
    rw [hpieces]
    decide +kernel
  · have hstring : manyExchanged = String.ofList (Text.joinWith [','] (["include=owner=A".toList] ++
        " serializer=truncate(4,x)".toList :: ([[]] ++ " mode=template".toList ::
          ["include = name=m; ".toList, "mode=Coverage".toList]))) := by decide +kernel
    rw [hstring]
    refine hexchange _ _ _ _ _ hpieces (by decide +kernel) (by decide +kernel)

end ValueCoverage.Options
