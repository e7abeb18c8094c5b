/-!
# Lists of distinct elements

Elements in the order in which they first came, none of them twice.
-/

namespace ValueCoverage

/-- Distinct elements, first come first. -/
structure DistinctList (α : Type) where
  items : List α
  nodup : items.Nodup

namespace DistinctList

variable {α : Type}

@[ext] theorem ext {a b : DistinctList α} (h : a.items = b.items) : a = b := by
  cases a; cases b; cases h; rfl

def empty : DistinctList α := ⟨[], List.nodup_nil⟩

@[simp] theorem items_empty : (empty : DistinctList α).items = [] := rfl

instance : Inhabited (DistinctList α) := ⟨empty⟩

instance [Repr α] : Repr (DistinctList α) := ⟨fun l n => reprPrec l.items n⟩

variable [DecidableEq α]

instance : DecidableEq (DistinctList α) := fun a b =>
  if h : a.items = b.items then isTrue (ext h) else isFalse fun e => h (e ▸ rfl)

/-- Whether the element is there. -/
def contains (l : DistinctList α) (a : α) : Bool := l.items.contains a

/-- Puts an element at the end unless it is there already. -/
def insert (l : DistinctList α) (a : α) : DistinctList α :=
  if h : a ∈ l.items then l
  else ⟨l.items ++ [a], List.nodup_append.2 ⟨l.nodup, List.pairwise_singleton _ _,
    fun x hx y hy => by
      rw [List.mem_singleton.1 hy]; exact fun e => h (e ▸ hx)⟩⟩

/-- Inserts one element after the other. -/
def insertAll (l : DistinctList α) (as : List α) : DistinctList α :=
  as.foldl insert l

/-- The elements of a list in the order of their first occurrence. -/
def ofList (as : List α) : DistinctList α := empty.insertAll as

/-- Whether both hold the same elements, in any order. -/
def sameElements (a b : DistinctList α) : Bool :=
  decide (a.items.length = b.items.length) && a.items.all b.contains

theorem items_insert (l : DistinctList α) (a : α) :
    (l.insert a).items = if a ∈ l.items then l.items else l.items ++ [a] := by
  by_cases h : a ∈ l.items <;> simp [insert, h]

theorem mem_items_insert {l : DistinctList α} {a b : α} :
    b ∈ (l.insert a).items ↔ b ∈ l.items ∨ b = a := by
  rw [items_insert]
  by_cases h : a ∈ l.items
  · rw [if_pos h]
    constructor
    · exact Or.inl
    · rintro (hb | rfl)
      · exact hb
      · exact h
  · rw [if_neg h]; simp

@[simp] theorem contains_eq_true {l : DistinctList α} {a : α} :
    l.contains a = true ↔ a ∈ l.items := by
  simp [contains]

end DistinctList

end ValueCoverage
