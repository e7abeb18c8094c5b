/-!
# Maps in order of insertion

Entries with distinct keys, in the order in which the keys first came. Changing the value of a key
leaves every other entry, and the order, as it was.
-/

namespace ValueCoverage

/-- Entries with distinct keys, first come first. -/
structure OrderedMap (κ ν : Type) where
  entries : List (κ × ν)
  nodup : (entries.map Prod.fst).Nodup

namespace OrderedMap

variable {κ ν : Type}

@[ext] theorem ext {a b : OrderedMap κ ν} (h : a.entries = b.entries) : a = b := by
  cases a; cases b; cases h; rfl

/-- No entries. -/
def empty : OrderedMap κ ν := ⟨[], List.nodup_nil⟩

instance : Inhabited (OrderedMap κ ν) := ⟨empty⟩

instance [DecidableEq κ] [DecidableEq ν] : DecidableEq (OrderedMap κ ν) := fun a b =>
  if h : a.entries = b.entries then isTrue (ext h) else isFalse fun e => h (e ▸ rfl)

instance [Repr κ] [Repr ν] : Repr (OrderedMap κ ν) := ⟨fun m n => reprPrec m.entries n⟩

/-- The keys, first come first. -/
def keys (m : OrderedMap κ ν) : List κ := m.entries.map Prod.fst

@[simp] theorem keys_empty : (empty : OrderedMap κ ν).keys = [] := rfl

/-- The values, in the order of their keys. -/
def values (m : OrderedMap κ ν) : List ν := m.entries.map Prod.snd

/-- How many entries there are. -/
def size (m : OrderedMap κ ν) : Nat := m.entries.length

/-- Whether there are no entries. -/
def isEmpty (m : OrderedMap κ ν) : Bool := m.entries.isEmpty

variable [DecidableEq κ]

/-- The value of a key. -/
def get? (m : OrderedMap κ ν) (k : κ) : Option ν := m.entries.lookup k

/-- Whether the key has a value. -/
def contains (m : OrderedMap κ ν) (k : κ) : Bool := (m.get? k).isSome

/-- Replaces the value of the key, or puts a new entry at the end. -/
def upsert (k : κ) (f : Option ν → ν) : List (κ × ν) → List (κ × ν)
  | [] => [(k, f none)]
  | (k', v) :: rest => if k' = k then (k', f (some v)) :: rest else (k', v) :: upsert k f rest

theorem keys_upsert (k : κ) (f : Option ν → ν) (l : List (κ × ν)) :
    (upsert k f l).map Prod.fst =
      if k ∈ l.map Prod.fst then l.map Prod.fst else l.map Prod.fst ++ [k] := by
  induction l with
  | nil => simp [upsert]
  | cons e rest ih =>
    obtain ⟨k', v⟩ := e
    by_cases h : k' = k
    · subst h; simp [upsert]
    · simp only [upsert, if_neg h, List.map_cons, ih, List.mem_cons, Ne.symm h, false_or]
      split <;> rfl

theorem nodup_upsert {k : κ} {f : Option ν → ν} {l : List (κ × ν)}
    (h : (l.map Prod.fst).Nodup) : ((upsert k f l).map Prod.fst).Nodup := by
  rw [keys_upsert]
  by_cases hk : k ∈ l.map Prod.fst
  · rwa [if_pos hk]
  · rw [if_neg hk]
    refine List.nodup_append.2 ⟨h, List.pairwise_singleton _ _, ?_⟩
    intro x hx y hy
    rw [List.mem_singleton.1 hy]
    exact fun e => hk (e ▸ hx)

/-- Gives the key the value that `f` makes of its old one. -/
def alter (m : OrderedMap κ ν) (k : κ) (f : Option ν → ν) : OrderedMap κ ν :=
  ⟨upsert k f m.entries, nodup_upsert m.nodup⟩

/-- Gives the key a value. -/
def insert (m : OrderedMap κ ν) (k : κ) (v : ν) : OrderedMap κ ν :=
  m.alter k fun _ => v

/-- Whether both have the same keys, in any order, with values that `same` accepts. -/
def sameEntries (same : ν → ν → Bool) (a b : OrderedMap κ ν) : Bool :=
  decide (a.size = b.size) && a.entries.all fun e =>
    match b.get? e.1 with
    | some v => same e.2 v
    | none => false

theorem keys_alter (m : OrderedMap κ ν) (k : κ) (f : Option ν → ν) :
    (m.alter k f).keys = if k ∈ m.keys then m.keys else m.keys ++ [k] :=
  keys_upsert k f m.entries

theorem lookup_upsert_self (k : κ) (f : Option ν → ν) (l : List (κ × ν)) :
    (upsert k f l).lookup k = some (f (l.lookup k)) := by
  induction l with
  | nil => simp [upsert]
  | cons e rest ih =>
    obtain ⟨k', v⟩ := e
    by_cases h : k' = k
    · subst h; simp [upsert]
    · have hb : (k == k') = false := by simpa using Ne.symm h
      simp [upsert, if_neg h, List.lookup_cons, hb, ih]

theorem lookup_upsert_of_ne {k k₂ : κ} (hne : k₂ ≠ k) (f : Option ν → ν) (l : List (κ × ν)) :
    (upsert k f l).lookup k₂ = l.lookup k₂ := by
  induction l with
  | nil =>
    have hb : (k₂ == k) = false := by simpa using hne
    simp [upsert, List.lookup_cons, hb]
  | cons e rest ih =>
    obtain ⟨k', v⟩ := e
    by_cases h : k' = k
    · subst h
      have hb : (k₂ == k') = false := by simpa using hne
      simp [upsert, List.lookup_cons, hb]
    · simp only [upsert, if_neg h, List.lookup_cons]
      rw [ih]

@[simp] theorem get?_alter_self (m : OrderedMap κ ν) (k : κ) (f : Option ν → ν) :
    (m.alter k f).get? k = some (f (m.get? k)) :=
  lookup_upsert_self k f m.entries

theorem get?_alter_of_ne (m : OrderedMap κ ν) {k k₂ : κ} (h : k₂ ≠ k) (f : Option ν → ν) :
    (m.alter k f).get? k₂ = m.get? k₂ :=
  lookup_upsert_of_ne h f m.entries

end OrderedMap

end ValueCoverage
