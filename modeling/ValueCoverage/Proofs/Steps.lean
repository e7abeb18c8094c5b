/-!
# Steps that may fail

What a computation that ends well has gone through, and where a list of steps leads.
-/

namespace ValueCoverage

theorem bind_eq_ok {ε α β : Type} {x : Except ε α} {f : α → Except ε β} {b : β} :
    x >>= f = .ok b ↔ ∃ a, x = .ok a ∧ f a = .ok b := by
  cases x with
  | error e => simp [bind, Except.bind]
  | ok a => simp [bind, Except.bind]

theorem toOption_eq_some {ε α : Type} {x : Except ε α} {a : α} :
    x.toOption = some a ↔ x = .ok a := by
  cases x <;> simp [Except.toOption]

theorem map_eq_ok {ε α β : Type} {f : α → β} {x : Except ε α} {b : β} :
    x.map f = .ok b ↔ ∃ a, x = .ok a ∧ f a = b := by
  cases x <;> simp [Except.map]

theorem mapError_eq_ok {ε ε' α : Type} {f : ε → ε'} {x : Except ε α} {a : α} :
    x.mapError f = .ok a ↔ x = .ok a := by
  cases x with
  | error e =>
    show Except.error (f e) = _ ↔ _
    simp
  | ok b =>
    show Except.ok b = _ ↔ _
    simp

/-- What a list was made of, item by item. -/
theorem getElem?_of_mapM {ε α β : Type} {f : α → Except ε β} {xs : List α} {ys : List β}
    (h : xs.mapM f = .ok ys) {i : Nat} {b : β} (hb : ys[i]? = some b) :
    ∃ a, xs[i]? = some a ∧ f a = .ok b := by
  induction xs generalizing ys i with
  | nil =>
    cases h
    cases hb
  | cons a xs ih =>
    rw [List.mapM_cons] at h
    obtain ⟨b', hb', h⟩ := bind_eq_ok.1 h
    obtain ⟨ys', hys, h⟩ := bind_eq_ok.1 h
    cases h
    cases i with
    | zero =>
      cases hb
      exact ⟨a, rfl, hb'⟩
    | succ i => exact ih hys hb

theorem exists_of_mapM {ε α β : Type} {f : α → Except ε β} {xs : List α} {ys : List β}
    (h : xs.mapM f = .ok ys) {a : α} (ha : a ∈ xs) : ∃ b, f a = .ok b := by
  induction xs generalizing ys with
  | nil => cases ha
  | cons a' xs ih =>
    rw [List.mapM_cons] at h
    obtain ⟨b, hb, h⟩ := bind_eq_ok.1 h
    obtain ⟨ys', hys, -⟩ := bind_eq_ok.1 h
    rcases List.mem_cons.1 ha with rfl | ha
    · exact ⟨b, hb⟩
    · exact ih hys ha

theorem exists_of_mem_mapM {ε α β : Type} {f : α → Except ε β} {xs : List α} {ys : List β}
    (h : xs.mapM f = .ok ys) {b : β} (hb : b ∈ ys) : ∃ a ∈ xs, f a = .ok b := by
  obtain ⟨i, hi⟩ := List.mem_iff_getElem?.1 hb
  obtain ⟨a, ha, hfa⟩ := getElem?_of_mapM h hi
  exact ⟨a, List.mem_of_getElem? ha, hfa⟩

/-- What is true of each item of a list, in view of the items before it. -/
theorem forall_place_cons {α : Type} {p : List α → α → Prop} {first : α} {rest : List α}
    (hfirst : p [] first)
    (hrest : ∀ before a after, rest = before ++ a :: after → p (first :: before) a) :
    ∀ before a after, first :: rest = before ++ a :: after → p before a := by
  intro before a after heq
  cases before with
  | nil =>
    obtain ⟨rfl, -⟩ := List.cons.inj heq
    exact hfirst
  | cons b before =>
    obtain ⟨rfl, hrest'⟩ := List.cons.inj heq
    exact hrest before a after hrest'

/-- Of two calls in a row that keep a state and may fail, the second sees what the first has left,
if it does not fail. -/
theorem run_bind_fallible {ε σ α β : Type} (x : ExceptT ε (StateM σ) α)
    (f : α → ExceptT ε (StateM σ) β) (s : σ) :
    (x >>= f).run.run s =
      match (x.run.run s).1 with
      | .ok a => (f a).run.run (x.run.run s).2
      | .error e => (.error e, (x.run.run s).2) := by
  show (ExceptT.bindCont f (x.run.run s).1).run (x.run.run s).2 = _
  cases (x.run.run s).1 <;> rfl

/-- Step after step, the list leads from one state to another. -/
def Leads {ε σ ι : Type} (step : σ → ι → Except ε σ) (code : List ι) (s s' : σ) : Prop :=
  code.foldlM step s = .ok s'

namespace Leads

variable {ε σ ι : Type} {step : σ → ι → Except ε σ} {i : ι} {code front back : List ι}
  {s s' s'' : σ}

theorem nil : Leads step [] s s := rfl

theorem one (h : step s i = .ok s') : Leads step [i] s s' := by
  simp [Leads, h]

theorem append (h : Leads step front s s') (h' : Leads step back s' s'') :
    Leads step (front ++ back) s s'' := by
  unfold Leads at *
  rw [List.foldlM_append, h]
  exact h'

theorem cons (h : step s i = .ok s') (h' : Leads step code s' s'') :
    Leads step (i :: code) s s'' :=
  (one h).append h'

end Leads

end ValueCoverage
