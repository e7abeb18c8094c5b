/-!
# Guards of threads

Turning an argument into text may run code that is itself observed. A thread that is collecting
holds its guard, and what is called meanwhile on the same thread is not recorded.
-/

namespace ValueCoverage

/-- How often the guard of a thread is held. -/
structure Guard where
  depth : Nat
deriving Repr, DecidableEq

namespace Guard

/-- The guard of a new thread. -/
def free : Guard := ⟨0⟩

instance : Inhabited Guard := ⟨free⟩

/-- Takes the guard unless it is held. -/
def enter? (g : Guard) : Option Guard :=
  if g.depth = 0 then some ⟨1⟩ else none

/-- Gives the guard back once; a guard that is not held stays so. -/
def exit (g : Guard) : Guard := ⟨g.depth - 1⟩

theorem enter?_eq_some_iff {g h : Guard} : g.enter? = some h ↔ g = free ∧ h = ⟨1⟩ := by
  cases g with
  | mk depth =>
    unfold enter? free
    by_cases hd : depth = 0
    · subst hd
      exact ⟨fun e => ⟨rfl, (Option.some.inj e).symm⟩, fun e => by rw [e.2]; rfl⟩
    · simp [hd]

theorem enter?_eq_none {g : Guard} (h : g ≠ free) : g.enter? = none := by
  rw [Option.eq_none_iff_forall_ne_some]
  intro g' hg'
  exact h (enter?_eq_some_iff.1 hg').1

@[simp] theorem exit_enter : (Guard.mk 1).exit = free := rfl

end Guard

end ValueCoverage
