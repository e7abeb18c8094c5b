import Mathlib.Data.List.Induction
import Mathlib.Data.List.Nodup
import Mathlib.Data.List.Perm.Basic
import ValueCoverage.Ordered.DistinctList
import ValueCoverage.Ordered.OrderedMap

/-!
# Laws of lists and maps in order of insertion

What is new goes to the end; what is there already stays where it is. Putting in again what is
there changes nothing, and putting the entries of a map one by one into an empty one gives the map.
-/

namespace ValueCoverage

/-! ## First occurrences -/

section EraseDups

variable {α : Type} [BEq α] [LawfulBEq α] {xs : List α} {a : α}

theorem eraseDups_concat_of_mem (h : a ∈ xs) : (xs ++ [a]).eraseDups = xs.eraseDups := by
  rw [List.eraseDups_append]
  simp [List.removeAll, h]

theorem eraseDups_concat_of_not_mem (h : a ∉ xs) :
    (xs ++ [a]).eraseDups = xs.eraseDups ++ [a] := by
  rw [List.eraseDups_append]
  simp [List.removeAll, h, List.eraseDups_cons]

/-- Behind the first occurrences of one list stand those of the other that are new. -/
theorem eraseDups_append_filter (xs ys : List α) :
    (xs ++ ys).eraseDups = xs.eraseDups ++ ys.eraseDups.filter (· ∉ xs.eraseDups) := by
  -- from the back, since a first occurrence is told by what stands before it
  induction ys using List.reverseRecOn with
  | nil => simp
  | append_singleton ys y ih =>
    rw [← List.append_assoc]
    by_cases hys : y ∈ ys
    · rw [eraseDups_concat_of_mem (List.mem_append_right xs hys), eraseDups_concat_of_mem hys, ih]
    rw [eraseDups_concat_of_not_mem hys, List.filter_append, ← List.append_assoc, ← ih]
    by_cases hxs : y ∈ xs
    · rw [eraseDups_concat_of_mem (List.mem_append_left ys hxs)]
      simp [hxs]
    · have hnew : y ∉ xs ++ ys := by simp [hxs, hys]
      rw [eraseDups_concat_of_not_mem hnew]
      simp [hxs]

/-- Taking each element once leaves none twice. -/
theorem nodup_eraseDups (xs : List α) : xs.eraseDups.Nodup := by
  induction xs using List.reverseRecOn with
  | nil => exact List.nodup_nil
  | append_singleton xs x ih =>
    by_cases hx : x ∈ xs
    · rwa [eraseDups_concat_of_mem hx]
    · rw [eraseDups_concat_of_not_mem hx, List.nodup_append]
      refine ⟨ih, List.pairwise_singleton _ _, ?_⟩
      intro a ha b hb heq
      rw [List.mem_singleton.1 hb] at heq
      exact hx (heq ▸ List.mem_eraseDups.1 ha)

section Map

variable {β : Type} [BEq β] [LawfulBEq β] {f : α → β}

/-- What is dropped before a change would be dropped after it. -/
theorem eraseDups_map_eraseDups (f : α → β) (xs : List α) :
    (xs.eraseDups.map f).eraseDups = (xs.map f).eraseDups := by
  induction xs using List.reverseRecOn with
  | nil => rfl
  | append_singleton xs x ih =>
    rw [List.map_append, List.map_singleton]
    by_cases hx : x ∈ xs
    · rw [eraseDups_concat_of_mem hx, ih, eraseDups_concat_of_mem (List.mem_map_of_mem hx)]
    · rw [eraseDups_concat_of_not_mem hx, List.map_append, List.map_singleton,
        eraseDups_append_filter, eraseDups_append_filter, ih]

/-- Nothing else is dropped after a change that keeps the elements apart. -/
theorem eraseDups_map_of_injOn {xs : List α}
    (h : ∀ a ∈ xs, ∀ b ∈ xs, f a = f b → a = b) : (xs.map f).eraseDups = xs.eraseDups.map f := by
  induction xs using List.reverseRecOn with
  | nil => rfl
  | append_singleton xs x ih =>
    have hxs : (xs.map f).eraseDups = xs.eraseDups.map f :=
      ih fun a ha b hb => h a (by simp [ha]) b (by simp [hb])
    rw [List.map_append, List.map_singleton]
    by_cases hx : x ∈ xs
    · rw [eraseDups_concat_of_mem hx, eraseDups_concat_of_mem (List.mem_map_of_mem hx), hxs]
    · have hfx : f x ∉ xs.map f := by
        intro hmem
        obtain ⟨a, ha, heq⟩ := List.mem_map.1 hmem
        exact hx (h a (by simp [ha]) x (by simp) heq ▸ ha)
      rw [eraseDups_concat_of_not_mem hx, eraseDups_concat_of_not_mem hfx, hxs, List.map_append,
        List.map_singleton]

end Map

end EraseDups

namespace DistinctList

variable {α : Type} [DecidableEq α] {l : DistinctList α} {as : List α}

theorem insert_eq_self {a : α} (h : a ∈ l.items) : l.insert a = l := by
  ext1
  rw [items_insert, if_pos h]

theorem insertAll_cons (l : DistinctList α) (a : α) (as : List α) :
    l.insertAll (a :: as) = (l.insert a).insertAll as := rfl

theorem insertAll_append (l : DistinctList α) (as bs : List α) :
    l.insertAll (as ++ bs) = (l.insertAll as).insertAll bs :=
  List.foldl_append

theorem mem_items_insertAll {b : α} : b ∈ (l.insertAll as).items ↔ b ∈ l.items ∨ b ∈ as := by
  induction as generalizing l with
  | nil => simp [insertAll]
  | cons a as ih => rw [insertAll_cons, ih, mem_items_insert, List.mem_cons, or_assoc]

theorem insertAll_eq_self (h : ∀ a ∈ as, a ∈ l.items) : l.insertAll as = l := by
  induction as with
  | nil => rfl
  | cons a as ih =>
    rw [insertAll_cons, insert_eq_self (h a (by simp))]
    exact ih fun b hb => h b (by simp [hb])

theorem items_insertAll_of_fresh (hnodup : as.Nodup) (hfresh : ∀ a ∈ as, a ∉ l.items) :
    (l.insertAll as).items = l.items ++ as := by
  induction as generalizing l with
  | nil => simp [insertAll]
  | cons a as ih =>
    obtain ⟨ha, has⟩ := List.nodup_cons.1 hnodup
    have hitems : (l.insert a).items = l.items ++ [a] := by
      rw [items_insert, if_neg (hfresh a (by simp))]
    rw [insertAll_cons, ih has, hitems, List.append_assoc, List.singleton_append]
    intro b hb hmem
    rw [hitems, List.mem_append, List.mem_singleton] at hmem
    rcases hmem with hmem | rfl
    · exact hfresh b (by simp [hb]) hmem
    · exact ha hb

@[simp] theorem empty_insertAll_items (l : DistinctList α) : empty.insertAll l.items = l := by
  ext1
  rw [items_insertAll_of_fresh l.nodup (by simp)]
  rfl

/-- Two lists with the same members have the same elements, as often as they are there. -/
theorem sameElements_of_mem_iff {a b : DistinctList α} (h : ∀ x, x ∈ a.items ↔ x ∈ b.items) :
    a.sameElements b = true := by
  have hperm : a.items.Perm b.items := (List.perm_ext_iff_of_nodup a.nodup b.nodup).2 h
  simp only [sameElements, Bool.and_eq_true, decide_eq_true_eq, List.all_eq_true, contains_eq_true]
  exact ⟨hperm.length_eq, fun x hx => (h x).1 hx⟩

end DistinctList

namespace OrderedMap

variable {κ ν μ : Type}

/-- Every value changed, each entry where it was. -/
def mapValues (f : ν → μ) (m : OrderedMap κ ν) : OrderedMap κ μ :=
  ⟨m.entries.map fun e => (e.1, f e.2), by
    rw [List.map_map]
    exact m.nodup⟩

variable [DecidableEq κ] {m : OrderedMap κ ν} {k : κ} {v : ν}

@[simp] theorem get?_empty (k : κ) : (empty : OrderedMap κ ν).get? k = none := rfl

theorem get?_eq_some_iff : m.get? k = some v ↔ (k, v) ∈ m.entries := by
  have hall : ∀ {l : List (κ × ν)}, (l.map Prod.fst).Nodup →
      (l.lookup k = some v ↔ (k, v) ∈ l) := by
    intro l hl
    induction l with
    | nil => simp
    | cons e rest ih =>
      obtain ⟨k', v'⟩ := e
      obtain ⟨hk, hrest⟩ := List.nodup_cons.1 hl
      by_cases h : k = k'
      · subst h
        have hnot : (k, v) ∉ rest := fun hmem => hk (List.mem_map.2 ⟨_, hmem, rfl⟩)
        simp [hnot, eq_comm]
      · simp [List.lookup_cons, beq_false_of_ne h, h, ih hrest]
  exact hall m.nodup

theorem mapValues_eq_self {f : ν → ν} (h : ∀ k v, m.get? k = some v → f v = v) :
    m.mapValues f = m := by
  ext1
  refine List.map_congr_left ?_ |>.trans (List.map_id _)
  rintro ⟨k, v⟩ hmem
  rw [h k v (get?_eq_some_iff.2 hmem), id_eq]

theorem mem_keys_iff : k ∈ m.keys ↔ ∃ v, m.get? k = some v := by
  simp only [keys, List.mem_map, get?_eq_some_iff, Prod.exists, exists_and_right, exists_eq_right]

theorem mem_keys_alter {f : Option ν → ν} {k₂ : κ} :
    k₂ ∈ (m.alter k f).keys ↔ k₂ ∈ m.keys ∨ k₂ = k := by
  rw [keys_alter]
  by_cases h : k ∈ m.keys
  · rw [if_pos h]
    constructor
    · exact Or.inl
    · rintro (hk | rfl)
      · exact hk
      · exact h
  · rw [if_neg h, List.mem_append, List.mem_singleton]

theorem alter_eq_self {f : Option ν → ν} (hget : m.get? k = some v) (hf : f (some v) = v) :
    m.alter k f = m := by
  have hall : ∀ {l : List (κ × ν)}, l.lookup k = some v → upsert k f l = l := by
    intro l hl
    induction l with
    | nil => cases hl
    | cons e rest ih =>
      obtain ⟨k', v'⟩ := e
      by_cases h : k' = k
      · subst h
        simp only [List.lookup_cons_self, Option.some.injEq] at hl
        simp [upsert, hl, hf]
      · rw [upsert, if_neg h, ih]
        rwa [List.lookup_cons, beq_false_of_ne (Ne.symm h)] at hl
  ext1
  exact hall hget

/-- Of two changes of one key, the second sees what the first made. -/
theorem alter_alter (m : OrderedMap κ ν) (k : κ) (f g : Option ν → ν) :
    (m.alter k f).alter k g = m.alter k fun v => g (some (f v)) := by
  have hall : ∀ l : List (κ × ν),
      upsert k g (upsert k f l) = upsert k (fun v => g (some (f v))) l := by
    intro l
    induction l with
    | nil => simp [upsert]
    | cons e rest ih =>
      obtain ⟨k', v'⟩ := e
      by_cases h : k' = k
      · simp [upsert, h]
      · simp [upsert, h, ih]
  ext1
  exact hall m.entries

theorem entries_alter_of_fresh (h : k ∉ m.keys) (f : Option ν → ν) :
    (m.alter k f).entries = m.entries ++ [(k, f none)] := by
  have hall : ∀ {l : List (κ × ν)}, k ∉ l.map Prod.fst → upsert k f l = l ++ [(k, f none)] := by
    intro l hl
    induction l with
    | nil => rfl
    | cons e rest ih =>
      obtain ⟨k', v'⟩ := e
      rw [List.map_cons, List.mem_cons, not_or] at hl
      rw [upsert, if_neg (Ne.symm hl.1), ih hl.2, List.cons_append]
  exact hall h

/-! ## Putting many entries in -/

/-- Changes one key after the other; `f` is told what stands beside the key in the list. -/
def alterAll (f : μ → Option ν → ν) (m : OrderedMap κ ν) (es : List (κ × μ)) : OrderedMap κ ν :=
  es.foldl (fun m e => m.alter e.1 (f e.2)) m

variable {f : μ → Option ν → ν} {es : List (κ × μ)}

theorem alterAll_cons (f : μ → Option ν → ν) (m : OrderedMap κ ν) (e : κ × μ)
    (es : List (κ × μ)) : m.alterAll f (e :: es) = (m.alter e.1 (f e.2)).alterAll f es := rfl

theorem entries_alterAll_of_fresh (hnodup : (es.map Prod.fst).Nodup)
    (hfresh : ∀ e ∈ es, e.1 ∉ m.keys) :
    (m.alterAll f es).entries = m.entries ++ es.map fun e => (e.1, f e.2 none) := by
  induction es generalizing m with
  | nil => simp [alterAll]
  | cons e es ih =>
    obtain ⟨he, hes⟩ := List.nodup_cons.1 hnodup
    have hnew : e.1 ∉ m.keys := hfresh e (by simp)
    rw [alterAll_cons, ih hes, entries_alter_of_fresh hnew, List.append_assoc]
    · rfl
    intro e' he' hmem
    rw [keys_alter, if_neg hnew, List.mem_append, List.mem_singleton] at hmem
    rcases hmem with hmem | heq
    · exact hfresh e' (by simp [he']) hmem
    · exact he (heq ▸ List.mem_map_of_mem he')

/-- Into an empty map the entries of another go in their order. -/
theorem alterAll_empty (f : μ → Option ν → ν) (m : OrderedMap κ μ) :
    empty.alterAll f m.entries = m.mapValues fun v => f v none := by
  ext1
  rw [entries_alterAll_of_fresh m.nodup (by simp)]
  rfl

theorem get?_alterAll (f : μ → Option ν → ν) (m : OrderedMap κ ν) (other : OrderedMap κ μ) (k : κ) :
    (m.alterAll f other.entries).get? k =
      match other.get? k with
      | none => m.get? k
      | some v => some (f v (m.get? k)) := by
  have hall : ∀ {l : List (κ × μ)} (m : OrderedMap κ ν), (l.map Prod.fst).Nodup →
      (m.alterAll f l).get? k =
        match l.lookup k with
        | none => m.get? k
        | some v => some (f v (m.get? k)) := by
    intro l m hl
    induction l generalizing m with
    | nil => rfl
    | cons e rest ih =>
      obtain ⟨k', v'⟩ := e
      obtain ⟨hk, hrest⟩ := List.nodup_cons.1 hl
      rw [alterAll_cons, ih _ hrest]
      by_cases h : k = k'
      · subst h
        have hnone : rest.lookup k = none := by
          rw [List.lookup_eq_none_iff]
          intro e he
          rw [bne_iff_ne]
          intro heq
          exact hk (List.mem_map.2 ⟨e, he, heq.symm⟩)
        simp [hnone]
      · simp [List.lookup_cons, beq_false_of_ne h, get?_alter_of_ne m h]
  exact hall m other.nodup

/-- Gives keys their values, one after the other. -/
def insertAll (m : OrderedMap κ ν) (es : List (κ × ν)) : OrderedMap κ ν :=
  es.foldl (fun m e => m.insert e.1 e.2) m

theorem insertAll_append (m : OrderedMap κ ν) (es es' : List (κ × ν)) :
    m.insertAll (es ++ es') = (m.insertAll es).insertAll es' :=
  List.foldl_append

theorem get?_insert (m : OrderedMap κ ν) (k : κ) (v : ν) (k₂ : κ) :
    (m.insert k v).get? k₂ = if k₂ = k then some v else m.get? k₂ := by
  by_cases h : k₂ = k
  · subst h
    rw [if_pos rfl, OrderedMap.insert, get?_alter_self]
  · rw [if_neg h, OrderedMap.insert, get?_alter_of_ne m h]

theorem mem_of_get?_insertAll {es : List (κ × ν)} (h : (m.insertAll es).get? k = some v) :
    (k, v) ∈ es ∨ m.get? k = some v := by
  induction es generalizing m with
  | nil => exact .inr h
  | cons e rest ih =>
    rcases ih h with hmem | hget
    · exact .inl (List.mem_cons_of_mem _ hmem)
    rw [get?_insert] at hget
    by_cases hk : k = e.1
    · rw [if_pos hk, Option.some.injEq] at hget
      exact .inl (by simp [hk, ← hget])
    · rw [if_neg hk] at hget
      exact .inr hget

theorem isSome_get?_insertAll {es : List (κ × ν)}
    (h : k ∈ es.map Prod.fst ∨ (m.get? k).isSome) : ((m.insertAll es).get? k).isSome := by
  induction es generalizing m with
  | nil => simpa [insertAll] using h
  | cons e rest ih =>
    refine ih ?_
    rw [get?_insert]
    by_cases hk : k = e.1
    · exact .inr (by simp [hk])
    · simpa [hk] using h

theorem get?_mapValues (f : ν → μ) (m : OrderedMap κ ν) (k : κ) :
    (m.mapValues f).get? k = (m.get? k).map f := by
  have hall : ∀ l : List (κ × ν), (l.map fun e => (e.1, f e.2)).lookup k = (l.lookup k).map f := by
    intro l
    induction l with
    | nil => rfl
    | cons e rest ih =>
      obtain ⟨k', v⟩ := e
      by_cases h : k = k'
      · simp [h]
      · simp [List.lookup_cons, beq_false_of_ne h, ih]
  exact hall m.entries

/-- Two maps with the same keys, and under each of them values that `same` accepts, have the same
entries. -/
theorem sameEntries_of_get? {same : ν → ν → Bool} {a b : OrderedMap κ ν}
    (hkeys : ∀ k, k ∈ a.keys ↔ k ∈ b.keys)
    (hsame : ∀ k v w, a.get? k = some v → b.get? k = some w → same v w = true) :
    sameEntries same a b = true := by
  have hperm : a.keys.Perm b.keys := (List.perm_ext_iff_of_nodup a.nodup b.nodup).2 hkeys
  have hsize : a.size = b.size := by
    have hlength := hperm.length_eq
    rwa [keys, keys, List.length_map, List.length_map] at hlength
  simp only [sameEntries, Bool.and_eq_true, decide_eq_true_eq, List.all_eq_true]
  refine ⟨hsize, ?_⟩
  rintro ⟨k, v⟩ hmem
  have hv : a.get? k = some v := get?_eq_some_iff.2 hmem
  obtain ⟨w, hw⟩ := mem_keys_iff.1 ((hkeys k).1 (mem_keys_iff.2 ⟨v, hv⟩))
  simp only [hw]
  exact hsame k v w hv hw

end OrderedMap

end ValueCoverage
