import ValueCoverage.Collector.Interleaving
import ValueCoverage.Proofs.Store.Count

/-!
# Records in turn

Records that are made one after the other add their observations to the store. An observation that
was not there at first is reported as new just once, by the first record that brings it; so the
store grows by one observation for every record that is reported as new.
-/

namespace ValueCoverage

/-- What records that are made one after the other are told, and what they leave; `form` is the form
in which observations are kept. -/
def inTurn (form : Observation → Observation) (s : Store) : List RecordCall → List Report × Store
  | [] => ([], s)
  | call :: rest =>
    let (outcome, next) := Collector.insert call.key (form call.values) s
    let (reports, last) := inTurn form next rest
    (⟨call, outcome⟩ :: reports, last)

namespace Report

/-- Whether a record was told that its observation is new. -/
def isNew (r : Report) : Bool := r.outcome = .recorded

/-- Whether a record was told that this observation is new. -/
def tells (form : Observation → Observation) (key : MemberKey) (o : Observation) (r : Report) :
    Bool :=
  r.isNew && r.call.key = key && form r.call.values = o

end Report

variable {form : Observation → Observation} {s : Store} {call : RecordCall}
  {rest calls : List RecordCall} {key : MemberKey} {o : Observation}

theorem inTurn_cons (form : Observation → Observation) (s : Store) (call : RecordCall)
    (rest : List RecordCall) :
    inTurn form s (call :: rest) =
      let answer := Collector.insert call.key (form call.values) s
      (⟨call, answer.1⟩ :: (inTurn form answer.2 rest).1, (inTurn form answer.2 rest).2) := rfl

theorem inTurn_cons_of_holds (h : s.holds call.key (form call.values) = true) :
    inTurn form s (call :: rest) =
      (⟨call, .duplicate⟩ :: (inTurn form s rest).1, (inTurn form s rest).2) := by
  obtain ⟨l, hl, hmem⟩ := Store.holds_iff.1 h
  have hself : s.add call.key (form call.values) = s :=
    Store.update_eq_self hl (DistinctList.insert_eq_self hmem)
  rw [inTurn, Collector.insert, if_pos h, hself]

theorem inTurn_cons_of_not_holds (h : ¬s.holds call.key (form call.values) = true) :
    inTurn form s (call :: rest) =
      (⟨call, .recorded⟩ :: (inTurn form (s.add call.key (form call.values)) rest).1,
        (inTurn form (s.add call.key (form call.values)) rest).2) := by
  rw [inTurn, Collector.insert, if_neg h]

theorem inTurn_concat (form : Observation → Observation) (s : Store) (calls : List RecordCall)
    (call : RecordCall) :
    inTurn form s (calls ++ [call]) =
      let left := (inTurn form s calls).2
      let answer := Collector.insert call.key (form call.values) left
      ((inTurn form s calls).1 ++ [⟨call, answer.1⟩], answer.2) := by
  induction calls generalizing s with
  | nil => rfl
  | cons first rest ih =>
    simp only [List.cons_append, inTurn_cons, ih]

/-! ## What they leave -/

/-- What records add to a store. -/
def RecordCall.entries (form : Observation → Observation) (calls : List RecordCall) :
    List (MemberKey × List Observation) :=
  calls.map fun call => (call.key, [form call.values])

theorem inTurn_snd (form : Observation → Observation) (s : Store) (calls : List RecordCall) :
    (inTurn form s calls).2 = s.addEntries (RecordCall.entries form calls) := by
  induction calls generalizing s with
  | nil => rfl
  | cons call rest ih => exact ih (s.add call.key (form call.values))

theorem exists_mem_entries (form : Observation → Observation) (calls : List RecordCall)
    (p : MemberKey → List Observation → Prop) :
    (∃ e ∈ RecordCall.entries form calls, p e.1 e.2) ↔
      ∃ call ∈ calls, p call.key [form call.values] := by
  simp [RecordCall.entries]

theorem contains_inTurn :
    (inTurn form s calls).2.contains key = true ↔
      s.contains key = true ∨ ∃ call ∈ calls, call.key = key := by
  rw [inTurn_snd, Store.contains_addEntries]
  exact or_congr_right (exists_mem_entries form calls fun k _ => k = key)

theorem holds_inTurn :
    (inTurn form s calls).2.holds key o = true ↔
      s.holds key o = true ∨ ∃ call ∈ calls, call.key = key ∧ form call.values = o := by
  rw [inTurn_snd, Store.holds_addEntries]
  have hentries := exists_mem_entries form calls fun k os => k = key ∧ o ∈ os
  simp only [List.mem_singleton, @eq_comm _ o] at hentries
  exact or_congr_right hentries

theorem mem_keys_inTurn {owner : String} :
    owner ∈ (inTurn form s calls).2.owners.keys ↔
      owner ∈ s.owners.keys ∨ ∃ call ∈ calls, call.key.owner = owner := by
  rw [inTurn_snd, Store.mem_keys_addEntries]
  exact or_congr_right (exists_mem_entries form calls fun k _ => k.owner = owner)

/-! ## What they are told -/

theorem map_call_inTurn (form : Observation → Observation) (s : Store) (calls : List RecordCall) :
    (inTurn form s calls).1.map Report.call = calls := by
  induction calls generalizing s with
  | nil => rfl
  | cons call rest ih => exact congrArg (call :: ·) (ih _)

theorem outcome_of_mem_inTurn {r : Report} (h : r ∈ (inTurn form s calls).1) :
    r.outcome = .recorded ∨ r.outcome = .duplicate := by
  induction calls generalizing s with
  | nil => cases h
  | cons call rest ih =>
    by_cases hholds : s.holds call.key (form call.values) = true
    · rw [inTurn_cons_of_holds hholds] at h
      rcases List.mem_cons.1 h with rfl | h
      · exact .inr rfl
      · exact ih h
    · rw [inTurn_cons_of_not_holds hholds] at h
      rcases List.mem_cons.1 h with rfl | h
      · exact .inl rfl
      · exact ih h

/-- The store grows with every record that is told that its observation is new. -/
theorem observationCount_inTurn (form : Observation → Observation) (s : Store)
    (calls : List RecordCall) :
    (inTurn form s calls).2.observationCount =
      s.observationCount + (inTurn form s calls).1.countP Report.isNew := by
  induction calls generalizing s with
  | nil => rfl
  | cons call rest ih =>
    by_cases hholds : s.holds call.key (form call.values) = true
    · rw [inTurn_cons_of_holds hholds, List.countP_cons_of_neg (by simp [Report.isNew])]
      exact ih s
    · rw [inTurn_cons_of_not_holds hholds, List.countP_cons_of_pos (by simp [Report.isNew])]
      simp only [ih, Store.observationCount_add_of_not_holds hholds]
      omega

/-- What is there already is new to nobody. -/
theorem countP_tells_of_holds (h : s.holds key o = true) (calls : List RecordCall) :
    (inTurn form s calls).1.countP (Report.tells form key o) = 0 := by
  induction calls generalizing s with
  | nil => rfl
  | cons call rest ih =>
    by_cases hholds : s.holds call.key (form call.values) = true
    · rw [inTurn_cons_of_holds hholds,
        List.countP_cons_of_neg (by simp [Report.tells, Report.isNew])]
      exact ih h
    · -- a record that is told so brings something else
      have hother : ¬Report.tells form key o ⟨call, .recorded⟩ = true := by
        simp only [Report.tells, Report.isNew, Bool.and_eq_true, decide_eq_true_eq, not_and]
        rintro ⟨-, rfl⟩ rfl
        exact hholds h
      rw [inTurn_cons_of_not_holds hholds, List.countP_cons_of_neg hother]
      exact ih (by rw [Store.add_eq_addAll]; exact Store.holds_addAll.2 (.inl h))

/-- What was not there at first is new to one of those that bring it. -/
theorem countP_tells_of_not_holds (h : ¬s.holds key o = true)
    (hcalls : ∃ call ∈ calls, call.key = key ∧ form call.values = o) :
    (inTurn form s calls).1.countP (Report.tells form key o) = 1 := by
  induction calls generalizing s with
  | nil => simp at hcalls
  | cons call rest ih =>
    by_cases hthis : call.key = key ∧ form call.values = o
    · obtain ⟨rfl, rfl⟩ := hthis
      have hnext : (s.add call.key (form call.values)).holds call.key (form call.values) =
          true := by
        rw [Store.add_eq_addAll]
        exact Store.holds_addAll.2 (.inr ⟨rfl, by simp⟩)
      rw [inTurn_cons_of_not_holds h,
        List.countP_cons_of_pos (by simp [Report.tells, Report.isNew]),
        countP_tells_of_holds hnext]
    · have hrest : ∃ call ∈ rest, call.key = key ∧ form call.values = o := by
        obtain ⟨other, hmem, hother⟩ := hcalls
        rcases List.mem_cons.1 hmem with rfl | hmem
        · exact absurd hother hthis
        · exact ⟨other, hmem, hother⟩
      have hother : ∀ outcome, ¬Report.tells form key o ⟨call, outcome⟩ = true := by
        intro outcome
        simp only [Report.tells, Bool.and_eq_true, decide_eq_true_eq, not_and]
        rintro ⟨-, hkey⟩ hform
        exact hthis ⟨hkey, hform⟩
      by_cases hholds : s.holds call.key (form call.values) = true
      · rw [inTurn_cons_of_holds hholds, List.countP_cons_of_neg (hother _)]
        exact ih h hrest
      · rw [inTurn_cons_of_not_holds hholds, List.countP_cons_of_neg (hother _)]
        refine ih ?_ hrest
        rw [Store.add_eq_addAll, Store.holds_addAll, not_or]
        refine ⟨h, ?_⟩
        rintro ⟨rfl, hmem⟩
        exact hthis ⟨rfl, (List.mem_singleton.1 hmem).symm⟩

end ValueCoverage
