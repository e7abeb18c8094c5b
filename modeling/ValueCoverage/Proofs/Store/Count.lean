import ValueCoverage.Proofs.Store.Update

/-!
# How many observations there are

A change of one member's observations changes the number of all observations by as much; one that is
new to its member adds one.
-/

namespace ValueCoverage

/-! ## Sums over maps -/

namespace OrderedMap

variable {κ ν : Type}

/-- The sum of the weights of all values. -/
def total (w : ν → Nat) (m : OrderedMap κ ν) : Nat := m.entries.foldr (fun e n => w e.2 + n) 0

variable [DecidableEq κ]

/-- A change of one value changes the sum by that. -/
theorem total_alter (w : ν → Nat) (m : OrderedMap κ ν) (k : κ) (f : Option ν → ν) :
    (m.alter k f).total w + (m.get? k).elim 0 w = m.total w + w (f (m.get? k)) := by
  -- as an equation of sums, so that no subtraction is cut off
  have hall : ∀ l : List (κ × ν),
      (upsert k f l).foldr (fun e n => w e.2 + n) 0 + (l.lookup k).elim 0 w =
        l.foldr (fun e n => w e.2 + n) 0 + w (f (l.lookup k)) := by
    intro l
    induction l with
    | nil => simp [upsert]
    | cons e rest ih =>
      obtain ⟨k', v⟩ := e
      by_cases h : k' = k
      · subst h
        simp only [upsert, if_pos, List.foldr_cons, List.lookup_cons_self, Option.elim_some]
        omega
      · rw [upsert, if_neg h, List.lookup_cons, beq_false_of_ne (Ne.symm h)]
        simp only [List.foldr_cons]
        omega
  exact hall m.entries

end OrderedMap

namespace Store

variable {s : Store} {key : MemberKey} {o : Observation}

/-! ## Observations -/

/-- How many observations the members of a class have. -/
def countIn (members : MemberTable) : Nat := members.total fun l => l.items.length

theorem observationCount_eq (s : Store) : s.observationCount = s.owners.total countIn := by
  have hmembers : ∀ (owner : String) (ms : List (String × Observations)) (n : Nat),
      (ms.map fun m => (⟨⟨owner, m.1⟩, m.2⟩ : StoreEntry)).foldr
          (fun e n => e.observations.items.length + n) n =
        ms.foldr (fun m n => m.2.items.length + n) 0 + n := by
    intro owner ms n
    induction ms with
    | nil => exact (Nat.zero_add n).symm
    | cons m ms ih => rw [List.map_cons, List.foldr_cons, ih, List.foldr_cons, Nat.add_assoc]
  rw [observationCount, entries, OrderedMap.total]
  induction s.owners.entries with
  | nil => rfl
  | cons e es ih =>
    rw [List.flatMap_cons, List.foldr_append, ih, hmembers]
    rfl

theorem observationCount_update (s : Store) (key : MemberKey) (f : Observations → Observations) :
    (s.update key f).observationCount + ((s.lookup key).getD .empty).items.length =
      s.observationCount + (f ((s.lookup key).getD .empty)).items.length := by
  let members := (s.owners.get? key.owner).getD .empty
  have howner := OrderedMap.total_alter countIn s.owners key.owner fun t =>
    (t.getD .empty).alter key.member fun l => f (l.getD .empty)
  have hmember := OrderedMap.total_alter (fun l : Observations => l.items.length) members key.member
    fun l => f (l.getD .empty)
  have hold : (s.owners.get? key.owner).elim 0 countIn = countIn members := by
    simp only [members]
    cases s.owners.get? key.owner <;> rfl
  have hlookup : s.lookup key = members.get? key.member := s.lookup_eq key
  have hitems : (members.get? key.member).elim 0 (fun l : Observations => l.items.length) =
      ((s.lookup key).getD .empty).items.length := by
    rw [hlookup]
    cases members.get? key.member <;> rfl
  rw [hold] at howner
  rw [hitems, ← hlookup] at hmember
  have hcount : (s.update key f).observationCount =
      (s.owners.alter key.owner fun t =>
        (t.getD .empty).alter key.member fun l => f (l.getD .empty)).total countIn :=
    observationCount_eq _
  rw [hcount, observationCount_eq s]
  simp only [countIn, members] at howner hmember ⊢
  omega

theorem observationCount_add_of_not_holds (h : ¬s.holds key o = true) :
    (s.add key o).observationCount = s.observationCount + 1 := by
  have hcount := s.observationCount_update key (·.insert o)
  have hnot : o ∉ ((s.lookup key).getD .empty).items := by
    rw [holds_iff] at h
    cases hl : s.lookup key with
    | none => simp
    | some l => exact fun hmem => h ⟨l, hl, hmem⟩
  rw [DistinctList.items_insert, if_neg hnot, List.length_append, List.length_singleton] at hcount
  rw [add]
  omega

end Store

end ValueCoverage
