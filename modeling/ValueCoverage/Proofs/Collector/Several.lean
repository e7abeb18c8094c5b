import ValueCoverage.Collector.Several
import ValueCoverage.Proofs.Collector.Thread

/-!
# One collector of several

A record asks of its thread no more than its guard and its collector. So a thread that reaches a
single collector by name does with it what a script of calls does.
-/

namespace ValueCoverage

variable {σ τ ι α β : Type} {e : σ → τ}

/-! ## The same done elsewhere -/

/-- What `x` does where it sees `s`, `y` does where it sees `e s`. -/
def Mirrors (e : σ → τ) (y : ThreadM τ α) (x : ThreadM σ α) : Prop :=
  ∀ s, y.run.run (e s) = ((x.run.run s).1, e (x.run.run s).2)

namespace Mirrors

variable {x : ThreadM σ α} {y : ThreadM τ α}

theorem pure (a : α) : Mirrors e (pure a) (pure a) := fun _ => rfl

theorem throw (a : Abrupt) : Mirrors e (throw a : ThreadM τ α) (throw a) := fun _ => rfl

theorem bind {f : α → ThreadM σ β} {g : α → ThreadM τ β} (h : Mirrors e y x)
    (hf : ∀ a, Mirrors e (g a) (f a)) : Mirrors e (y >>= g) (x >>= f) := by
  intro s
  rw [run_bind_fallible, run_bind_fallible, h s]
  cases (x.run.run s).1 with
  | ok a => exact hf a _
  | error a => rfl

theorem map (f : α → β) (h : Mirrors e y x) : Mirrors e (f <$> y) (f <$> x) := by
  rw [map_eq_pure_bind, map_eq_pure_bind]
  exact h.bind fun a => pure (f a)

theorem set (s : σ) : Mirrors e (set (e s) : ThreadM τ PUnit) (set s) := fun _ => rfl

theorem get_bind {f : σ → ThreadM σ β} {g : τ → ThreadM τ β}
    (h : ∀ s, (g (e s)).run.run (e s) = (((f s).run.run s).1, e ((f s).run.run s).2)) :
    Mirrors e (get >>= g) (get >>= f) := h

theorem andThen {f : σ → σ} {g : τ → τ} (h : Mirrors e y x) (hf : ∀ s, g (e s) = e (f s)) :
    Mirrors e (y.andThen g) (x.andThen f) := by
  intro s
  rw [ThreadM.run_andThen, ThreadM.run_andThen, h s, hf]

theorem lock (hold : Hold) : Mirrors e (ThreadM.lock hold) (ThreadM.lock hold) := by
  cases hold with
  | nobody => exact pure ()
  | own => exact pure ()
  | other => exact throw .stuck

end Mirrors

/-! ## Records elsewhere -/

/-- Where one thread sees `s`, another sees `e s`, with the same guard and the same collector. -/
structure Site.Shows (site : Site σ ι) (site' : Site τ ι) (e : σ → τ) : Prop where
  get_guard : ∀ s, site'.guard.get (e s) = site.guard.get s
  put_guard : ∀ g s, site'.guard.put g (e s) = e (site.guard.put g s)
  get_collector : ∀ s, site'.collector.get (e s) = site.collector.get s
  put_collector : ∀ c s, site'.collector.put c (e s) = e (site.collector.put c s)

/-- One thread runs initializers as the other does. -/
def StartAlike (e : σ → τ) (start' : Option (Starter τ ι)) (start : Option (Starter σ ι)) : Prop :=
  Option.Rel (fun f' f => ∀ hold i, Mirrors e (f' hold i) (f hold i)) start' start

namespace Site.Shows

variable {site : Site σ ι} {site' : Site τ ι} (h : site.Shows site' e)

include h

theorem onCollector (f : Collector ι → α × Collector ι) :
    Mirrors e (site'.onCollector f) (site.onCollector f) := by
  intro s
  rw [run_onCollector, run_onCollector, h.get_collector, h.put_collector]

theorem ensureReady {start : Option (Starter σ ι)} {start' : Option (Starter τ ι)}
    (hstart : StartAlike e start' start) (hold : Hold) :
    Mirrors e (site'.ensureReady start' hold) (site.ensureReady start hold) := by
  refine Mirrors.get_bind ?_
  intro s
  simp only [h.get_collector]
  cases (site.collector.get s).readiness with
  | done failure => rfl
  | waiting initializer =>
    cases hstart with
    | none => rfl
    | some hrun =>
      -- with an initializer or without, both threads claim, run and settle
      cases initializer with
      | none =>
        exact (h.onCollector _).bind
          (fun _ => (Mirrors.pure (Except.ok ())).bind fun result => h.onCollector _) s
      | some i =>
        exact (h.onCollector _).bind
          (fun _ => (hrun hold i).bind fun result => h.onCollector _) s

theorem underGuard {x : ThreadM σ α} {y : ThreadM τ α} (hx : Mirrors e y x) :
    Mirrors e (site'.underGuard y) (site.underGuard x) := by
  refine Mirrors.get_bind ?_
  intro s
  simp only [h.get_guard]
  cases (site.guard.get s).enter? with
  | none => rfl
  | some guard =>
    have hexit : ∀ s, site'.guard.put (site'.guard.get (e s)).exit (e s) =
        e (site.guard.put (site.guard.get s).exit s) := by
      intro s
      rw [h.get_guard, h.put_guard]
    simp only [h.put_guard]
    exact (Mirrors.set _).bind (fun _ => (hx.andThen hexit).map some) s

theorem observe {x : ThreadM σ α} {y : ThreadM τ α} (hx : Mirrors e y x) (hold : Hold)
    (key : MemberKey) (values : Observation) :
    Mirrors e (site'.observe hold key values y) (site.observe hold key values x) := by
  refine Mirrors.get_bind ?_
  intro s
  simp only [h.get_collector]
  cases (site.collector.get s).mode with
  | template =>
    exact (Mirrors.lock hold).bind (fun _ => (h.onCollector _).bind fun outcome => .pure _) s
  | coverage =>
    exact hx.bind (fun a => (Mirrors.lock hold).bind fun _ =>
      (h.onCollector _).bind fun outcome => .pure _) s

/-- A record asks for nothing but the guard and its collector. -/
theorem record {start : Option (Starter σ ι)} {start' : Option (Starter τ ι)}
    (hstart : StartAlike e start' start) {x : ThreadM σ α} {y : ThreadM τ α} (hx : Mirrors e y x)
    (hold : Hold) (key : MemberKey) (values : Observation) :
    Mirrors e (site'.record start' hold key values y) (site.record start hold key values x) :=
  (h.ensureReady hstart hold).bind fun _ =>
    (h.underGuard (h.observe hx hold key values)).bind fun _ => .pure _

end Site.Shows

/-! ## A single collector -/

open Script (Initializer World)

/-- A script's world, as it is seen by a thread that reaches its collector by name. -/
def Script.World.reach (w : World) : Reach Unit Initializer := ⟨fun _ => w.collector, w.guard⟩

theorem Script.World.shows : World.site.Shows (Reach.site ()) World.reach where
  get_guard _ := rfl
  put_guard _ _ := rfl
  get_collector _ := rfl
  put_collector _ _ := rfl

namespace SharedCall

mutual

/-- The call in a script for the only collector. -/
def inScript : SharedCall Unit → Script.Call
  | .record _ key values during => .recordWith key values (allInScript during)
  | .declare _ key => .declare key
  | .depth => .depth

/-- The calls in such a script. -/
def allInScript : List (SharedCall Unit) → List Script.Call
  | [] => []
  | call :: rest => call.inScript :: allInScript rest

end

mutual

/-- A call on the only collector does what it does in a script. -/
theorem mirrors_run {start : Option (Starter World Initializer)}
    {start' : Unit → Option (Starter (Reach Unit Initializer) Initializer)}
    (hstart : StartAlike World.reach (start' ()) start) : ∀ call : SharedCall Unit,
      Mirrors World.reach (call.run start') (call.inScript.run start .nobody)
  | .record () key values during => by
    rw [run, inScript, Script.Call.run]
    exact (Script.World.shows.record hstart (mirrors_runAll hstart during) .nobody key values).bind
      fun _ => .pure _
  | .declare () key => by
    rw [run, inScript, Script.Call.run]
    exact (Script.World.shows.onCollector _).bind fun _ => .pure _
  | .depth => fun w => rfl

theorem mirrors_runAll {start : Option (Starter World Initializer)}
    {start' : Unit → Option (Starter (Reach Unit Initializer) Initializer)}
    (hstart : StartAlike World.reach (start' ()) start) : ∀ calls : List (SharedCall Unit),
      Mirrors World.reach (runAll start' calls) (Script.runAll start .nobody (allInScript calls))
  | [] => .pure _
  | call :: rest => by
    rw [runAll, allInScript, Script.runAll]
    exact (mirrors_run hstart call).bind fun _ => (mirrors_runAll hstart rest).bind fun _ => .pure _

end

end SharedCall

end ValueCoverage
