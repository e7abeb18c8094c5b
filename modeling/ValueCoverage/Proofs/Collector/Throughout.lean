import ValueCoverage.Collector.Script
import ValueCoverage.Proofs.Collector.Thread
import ValueCoverage.Proofs.Store.Merge

/-!
# Calls and the calls during them

A call runs code that makes calls, in any depth. All of them change the world by a few means only:
they take the guard and give it back, mark the store as being written, add to the store if it is
free, ask for the initialization, or set something up anew. What each of these keeps is kept by
every call; and where each does the same for two ways of running initializers, so does every call.
-/

namespace ValueCoverage

open ThreadM

theorem DistinctList.items_prefix_insertAll {α : Type} [DecidableEq α] (l : DistinctList α)
    (as : List α) : l.items <+: (l.insertAll as).items := by
  induction as generalizing l with
  | nil => exact List.prefix_refl _
  | cons a as ih =>
    refine List.IsPrefix.trans ?_ (ih (l.insert a))
    rw [items_insert]
    by_cases ha : a ∈ l.items
    · simp only [if_pos ha, List.prefix_refl]
    · simp only [if_neg ha, List.prefix_append]

namespace Store

/-- All that was observed is still there, in front of what has been added. -/
def Grows (s s' : Store) : Prop := ∀ key, s.observationsOf key <+: s'.observationsOf key

theorem Grows.refl (s : Store) : s.Grows s := fun _ => List.prefix_refl _

theorem Grows.trans {s s' s'' : Store} (h : s.Grows s') (h' : s'.Grows s'') : s.Grows s'' :=
  fun key => (h key).trans (h' key)

theorem grows_merge (s other : Store) : s.Grows (s.merge other) := by
  intro key
  rw [observationsOf_merge]
  exact List.prefix_append _ _

theorem grows_addAll (s : Store) (key : MemberKey) (os : List Observation) :
    s.Grows (s.addAll key os) := by
  intro k
  rw [observationsOf_addAll]
  by_cases hk : k = key
  · rw [if_pos hk, hk]
    exact DistinctList.items_prefix_insertAll _ os
  · simp only [if_neg hk, List.prefix_refl]

theorem grows_add (s : Store) (key : MemberKey) (o : Observation) : s.Grows (s.add key o) := by
  rw [add_eq_addAll]
  exact s.grows_addAll key [o]

theorem grows_declare (s : Store) (key : MemberKey) : s.Grows (s.declare key) := by
  rw [declare_eq_addAll]
  exact s.grows_addAll key []

end Store

namespace Collector

variable {ι : Type}

/-- A store that somebody holds is not changed, and no other part of a collector is. -/
theorem change_grows (c : Collector ι) (hold : Hold) {f : Store → Outcome × Store}
    (hf : ∀ s : Store, s.Grows (f s).2) :
    (c.change hold f).2 = c ∨
      hold = .nobody ∧ ∃ s, c.store.Grows s ∧ (c.change hold f).2 = { c with store := s } := by
  unfold change
  by_cases hwriting : c.writing = true
  · rw [if_pos hwriting]
    exact .inl rfl
  · rw [if_neg hwriting]
    by_cases hhold : hold = .nobody
    · rw [if_pos hhold]
      exact .inr ⟨hhold, _, hf c.store, rfl⟩
    · rw [if_neg hhold]
      exact .inl rfl

theorem declare_grows (c : Collector ι) (hold : Hold) (key : MemberKey) :
    (c.declare hold key).2 = c ∨
      hold = .nobody ∧ ∃ s, c.store.Grows s ∧ (c.declare hold key).2 = { c with store := s } := by
  unfold declare
  by_cases hhold : hold = .nobody
  · rw [if_pos hhold]
    exact .inr ⟨hhold, _, c.store.grows_declare key, rfl⟩
  · rw [if_neg hhold]
    exact .inl rfl

theorem merge_grows (c : Collector ι) (other : Store) :
    ∃ s, c.store.Grows s ∧ c.merge other = { c with store := s } :=
  ⟨_, c.store.grows_merge _, rfl⟩

end Collector

namespace Script

/-! ## All calls during a call -/

/-- Whether a call asks for the initialization. -/
def Call.asks : Call → Bool
  | .record .. | .recordWith .. | .ensureReady => true
  | _ => false

/-- Whether a call sets something up anew: the store, the initializer or the log. -/
def Call.setsUp : Call → Bool
  | .reset | .replace _ | .setInitializer .. | .initLog => true
  | _ => false

/-- Whether a call is made by the code that another runs. What a new initializer calls, it calls
later. -/
def Call.IsDuring (inner : Call) : Call → Prop
  | .recordWith _ _ during | .withStore during | .guarded during | .onThread during
  | .attempt during => inner ∈ during
  | .write _ _ during => ∃ calls ∈ during, ∃ n, inner ∈ calls n
  | _ => False

/-- A call satisfies `p`, and so do all calls during it, in any depth. -/
inductive Call.Throughout (p : Call → Prop) : Call → Prop
  | intro {call : Call} (h : p call)
      (hduring : ∀ inner : Call, inner.IsDuring call → inner.Throughout p) : Throughout p call

section Throughout

variable {p q : Call → Prop} {call : Call}

theorem Call.Throughout.here (h : call.Throughout p) : p call := by
  cases h with
  | intro h _ => exact h

theorem Call.Throughout.during (h : call.Throughout p) {inner : Call}
    (hinner : inner.IsDuring call) : inner.Throughout p := by
  cases h with
  | intro _ hduring => exact hduring inner hinner

/-- A call during which no other is made. -/
theorem Call.Throughout.alone (h : p call) (halone : ∀ inner : Call, ¬ inner.IsDuring call) :
    call.Throughout p :=
  .intro h fun inner hinner => absurd hinner (halone inner)

theorem Call.Throughout.mono (hpq : ∀ call, p call → q call) (h : call.Throughout p) :
    call.Throughout q := by
  induction h with
  | intro h _ ih => exact .intro (hpq _ h) ih

mutual

/-- What is true of every call is true of every call during it. -/
theorem Call.throughout_of_forall (h : ∀ call, p call) : ∀ call : Call, call.Throughout p
  | .recordWith _ _ during => .intro (h _) (throughout_of_forall h during)
  | .withStore during => .intro (h _) (throughout_of_forall h during)
  | .guarded during => .intro (h _) (throughout_of_forall h during)
  | .onThread during => .intro (h _) (throughout_of_forall h during)
  | .attempt during => .intro (h _) (throughout_of_forall h during)
  | .write _ _ none => .intro (h _) fun _ ⟨_, hnone, _⟩ => by cases hnone
  | .write _ _ (some during) => .intro (h _) fun inner ⟨_, hcalls, n, hinner⟩ => by
    cases hcalls
    exact throughout_of_forall h (during n) inner hinner
  | .record .. | .declare _ | .announce _ | .merge _ | .reset | .replace _ | .snapshot | .mode
  | .isInitialized | .depth | .shown | .enter | .exit | .setInitializer .. | .initLog
  | .ensureReady | .unwind => .intro (h _) fun _ hinner => hinner.elim

theorem throughout_of_forall (h : ∀ call, p call) :
    ∀ calls : List Call, ∀ call ∈ calls, call.Throughout p
  | [] => fun _ hcall => by cases hcall
  | call :: rest =>
    List.forall_mem_cons.2 ⟨call.throughout_of_forall h, throughout_of_forall h rest⟩

end

end Throughout

/-! ## What is kept -/

/-- Where `inv` holds, the two computations do the same, and it holds afterwards. -/
def AgreeOn {α : Type} (inv : World → Prop) (x y : Run α) : Prop :=
  ∀ w, inv w → y.run.run w = x.run.run w ∧ inv (x.run.run w).2

/-- The world in which the store counts as being written, or does not. -/
def World.mark (writing : Bool) (w : World) : World :=
  { w with collector := { w.collector with writing } }

/-- The world with another store. -/
def World.withStore (w : World) (store : Store) : World :=
  { w with collector := { w.collector with store } }

namespace AgreeOn

variable {α β : Type} {inv : World → Prop} {x y : Run α}

theorem pure (a : α) : AgreeOn inv (Pure.pure a) (Pure.pure a) := fun _ hw => ⟨rfl, hw⟩

theorem throw (e : Abrupt) : AgreeOn inv (throw e : Run α) (throw e) := fun _ hw => ⟨rfl, hw⟩

theorem bind {f g : α → Run β} (h : AgreeOn inv x y) (hf : ∀ a, AgreeOn inv (f a) (g a)) :
    AgreeOn inv (x >>= f) (y >>= g) := by
  intro w hw
  obtain ⟨hrun, hinv⟩ := h w hw
  rw [run_bind_fallible, run_bind_fallible, hrun]
  cases (x.run.run w).1 with
  | ok a => exact hf a _ hinv
  | error e => exact ⟨rfl, hinv⟩

theorem map (f : α → β) (h : AgreeOn inv x y) : AgreeOn inv (f <$> x) (f <$> y) := by
  rw [map_eq_pure_bind, map_eq_pure_bind]
  exact h.bind fun a => pure (f a)

/-- What is done next may depend on the world, and need only agree there. -/
theorem get_bind {f g : World → Run β}
    (h : ∀ w, inv w → (g w).run.run w = (f w).run.run w ∧ inv ((f w).run.run w).2) :
    AgreeOn inv (get >>= f) (get >>= g) := h

theorem andThen {f : World → World} (h : AgreeOn inv x y) (hf : ∀ w, inv w → inv (f w)) :
    AgreeOn inv (x.andThen f) (y.andThen f) := by
  intro w hw
  obtain ⟨hrun, hinv⟩ := h w hw
  rw [run_andThen, run_andThen, hrun]
  exact ⟨rfl, hf _ hinv⟩

theorem lock (hold : Hold) : AgreeOn inv (ThreadM.lock hold) (ThreadM.lock hold) := by
  cases hold with
  | nobody => exact pure ()
  | own => exact pure ()
  | other => exact throw .stuck

theorem onCollector {f : Collector Initializer → α × Collector Initializer}
    (hf : ∀ w, inv w → inv { w with collector := (f w.collector).2 }) :
    AgreeOn inv (World.site.onCollector f) (World.site.onCollector f) :=
  fun w hw => ⟨rfl, hf w hw⟩

theorem writeLines (codec : Codec) (device : Device) {x y : Nat → Run α}
    (hx : ∀ n, AgreeOn inv (x n) (y n)) (lines : List CoverageFile.Line) (reached : Bytes)
    (done : List α) :
    AgreeOn inv (Run.writeLines codec device x lines reached done)
      (Run.writeLines codec device y lines reached done) := by
  induction lines generalizing reached done with
  | nil => exact .pure _
  | cons line rest ih =>
    have hbefore : AgreeOn inv (Run.beforeLine x line done) (Run.beforeLine y line done) := by
      cases line with
      | header key => exact .pure _
      | observed o => exact (hx done.length).map _
    refine hbefore.bind fun done' => ?_
    simp only
    cases device.refuses? reached (Text.Utf8.encode (line.text codec)) with
    | none => exact ih _ _
    | some refusal => exact .pure _

/-- What all calls of a list keep is kept by the list. -/
theorem runAll {start start' : Option (Starter World Initializer)} {hold : Hold}
    {calls : List Call}
    (hcalls : ∀ call ∈ calls, AgreeOn inv (call.run start hold) (call.run start' hold)) :
    AgreeOn inv (Script.runAll start hold calls) (Script.runAll start' hold calls) := by
  induction calls with
  | nil => exact .pure _
  | cons call rest ih =>
    rw [Script.runAll, Script.runAll]
    refine (hcalls call (by simp)).bind fun _ => ?_
    exact (ih fun call' hcall' => hcalls call' (by simp [hcall'])).bind fun _ => .pure _

end AgreeOn

/-- What each means by which calls change the world keeps, with both ways of running initializers.
The store is free to nobody, unless `free`; of the calls that are not `allowed`, none is made. -/
structure Upheld (inv : World → Prop) (start start' : Option (Starter World Initializer))
    (free : Prop) (allowed : Call → Prop) : Prop where
  guard : ∀ {w : World} (guard : Guard), inv w → inv { w with guard }
  mark : ∀ {w : World} (writing : Bool), inv w → inv (w.mark writing)
  grow : free → ∀ {w : World} {s : Store}, inv w → w.collector.store.Grows s → inv (w.withStore s)
  ready : ∀ {call : Call}, allowed call → call.asks = true → ∀ {hold : Hold},
    (hold = .nobody → free) →
      AgreeOn inv (World.site.ensureReady start hold) (World.site.ensureReady start' hold)
  setUp : ∀ {call : Call}, allowed call → call.setsUp = true → ∀ {hold : Hold},
    (hold = .nobody → free) → AgreeOn inv (call.run start hold) (call.run start' hold)

namespace Upheld

variable {α : Type} {inv : World → Prop} {start start' : Option (Starter World Initializer)}
  {free : Prop} {allowed : Call → Prop} (u : Upheld inv start start' free allowed) {hold : Hold}

include u

/-- What changes a collector by adding to its store, if that is free. -/
theorem onCollector (hhold : hold = .nobody → free)
    {f : Collector Initializer → α × Collector Initializer}
    (hf : ∀ c, (f c).2 = c ∨
      hold = .nobody ∧ ∃ s, c.store.Grows s ∧ (f c).2 = { c with store := s }) :
    AgreeOn inv (World.site.onCollector f) (World.site.onCollector f) := by
  refine .onCollector fun w hw => ?_
  rcases hf w.collector with hsame | ⟨hfree, s, hgrows, hstore⟩
  · rw [hsame]
    exact hw
  · rw [hstore]
    exact u.grow (hhold hfree) hw hgrows

theorem underGuard {x y : Run α} (hx : AgreeOn inv x y) :
    AgreeOn inv (World.site.underGuard x) (World.site.underGuard y) := by
  refine .get_bind fun w hw => ?_
  cases (World.site.guard.get w).enter? with
  | none => exact ⟨rfl, hw⟩
  | some guard =>
    refine AgreeOn.bind (x := set _) (fun _ _ => ⟨rfl, u.guard guard hw⟩) (fun _ => ?_) w hw
    exact (hx.andThen fun w' hw' => u.guard _ hw').map some

theorem observe (hhold : hold = .nobody → free) (key : MemberKey) (values : Observation)
    {x y : Run α} (hx : AgreeOn inv x y) :
    AgreeOn inv (World.site.observe hold key values x) (World.site.observe hold key values y) := by
  refine .get_bind fun w hw => ?_
  cases (World.site.collector.get w).mode with
  | template =>
    refine (AgreeOn.lock hold).bind (fun _ => ?_) w hw
    exact (u.onCollector hhold fun c => c.change_grows hold fun s => s.grows_declare key).bind
      fun _ => .pure _
  | coverage =>
    refine hx.bind (fun a => (AgreeOn.lock hold).bind fun _ => ?_) w hw
    exact (u.onCollector hhold fun c => c.change_grows hold fun s => s.grows_add key _).bind
      fun _ => .pure _

theorem record (hhold : hold = .nobody → free) {call : Call} (hcall : allowed call)
    (hasks : call.asks = true) (key : MemberKey) (values : Observation) {x y : Run α}
    (hx : AgreeOn inv x y) :
    AgreeOn inv (World.site.record start hold key values x)
      (World.site.record start' hold key values y) :=
  (u.ready hcall hasks hhold).bind fun _ =>
    (u.underGuard (u.observe hhold key values hx)).bind fun _ => .pure _

theorem write (codec : Codec) (device : Device) {x y : Nat → Run α}
    (hx : ∀ n, AgreeOn inv (x n) (y n)) :
    AgreeOn inv (Run.write hold codec device x) (Run.write hold codec device y) := by
  refine (AgreeOn.lock hold).bind fun _ => ?_
  refine (AgreeOn.onCollector fun w hw => u.mark true hw).bind fun _ => ?_
  refine .get_bind fun w hw => ?_
  exact ((AgreeOn.writeLines codec device hx _ [] []).andThen fun w' hw' => u.mark false hw').bind
    (fun _ => .pure _) w hw

/-- Every call keeps what the means keep by which it changes the world. -/
theorem run {call : Call} (hcall : call.Throughout allowed) (hold : Hold)
    (hhold : hold = .nobody → free) :
    AgreeOn inv (call.run start hold) (call.run start' hold) := by
  induction hcall generalizing hold with
  | @intro call hcall hduring ih =>
    -- what runs while the store is lent finds it held by its own thread, never free
    have hheld : Hold.own = .nobody → free := fun hown => by cases hown
    cases call with
    | record key values =>
      exact (u.record hhold hcall rfl key values (.pure ())).bind fun _ => .pure _
    | recordWith key values during =>
      have hcapture := AgreeOn.runAll fun inner hinner => ih inner hinner _ hhold
      exact (u.record hhold hcall rfl key values hcapture).bind fun _ => .pure _
    | declare key =>
      exact (AgreeOn.lock hold).bind fun _ =>
        (u.onCollector hhold fun c => c.declare_grows hold key).bind fun _ => .pure _
    | announce key =>
      exact (AgreeOn.lock hold).bind fun _ =>
        (u.onCollector hhold fun c => c.declare_grows hold key).bind fun _ => .pure _
    | merge other =>
      cases hold with
      | nobody =>
        exact (AgreeOn.pure ()).bind fun _ =>
          u.onCollector hhold fun c => .inr ⟨rfl, c.merge_grows other⟩
      | own => exact .throw .conflict
      | other => exact .throw .stuck
    | reset | replace other | setInitializer during failure | initLog =>
      exact u.setUp hcall rfl hhold
    | snapshot => exact (AgreeOn.lock hold).bind fun _ => .get_bind fun w hw => ⟨rfl, hw⟩
    | mode | isInitialized | depth | shown => exact fun w hw => ⟨rfl, hw⟩
    | withStore during =>
      rw [Call.run, Call.run]
      refine (AgreeOn.lock hold).bind fun _ => .get_bind fun w hw => ?_
      have hduring := AgreeOn.runAll fun inner hinner => ih inner hinner _ hheld
      exact hduring.bind (fun _ => .pure _) w hw
    | enter =>
      refine .get_bind fun w hw => ?_
      cases w.guard.enter? with
      | none => exact ⟨rfl, hw⟩
      | some guard => exact ⟨rfl, u.guard guard hw⟩
    | exit => exact fun w hw => ⟨rfl, u.guard _ hw⟩
    | guarded during =>
      rw [Call.run, Call.run]
      have hduring := AgreeOn.runAll fun inner hinner => ih inner hinner _ hhold
      exact (u.underGuard hduring).bind fun _ => .pure _
    | onThread during =>
      rw [Call.run, Call.run]
      have hseen : (if hold = .nobody then Hold.nobody else .other) = .nobody → free := by
        cases hold <;> simp at hhold ⊢
        exact hhold
      have hduring := AgreeOn.runAll fun inner hinner => ih inner hinner _ hseen
      refine AgreeOn.bind (.get_bind fun w hw => ?_) fun _ => .pure _
      refine AgreeOn.bind (x := set _) (fun _ _ => ⟨rfl, u.guard .free hw⟩) (fun _ => ?_) w hw
      exact hduring.andThen fun w' hw' => u.guard _ hw'
    | ensureReady =>
      rw [Call.run, Call.run]
      refine (u.ready hcall rfl hhold).bind fun result => ?_
      cases result <;> exact .pure _
    | write codec device during =>
      cases during with
      | none =>
        rw [Call.run, Call.run]
        exact (u.write codec device fun _ => .pure ()).bind fun _ => .pure _
      | some during =>
        rw [Call.run, Call.run]
        have hcodec : ∀ n, AgreeOn inv (Script.runAll start .own (during n))
            (Script.runAll start' .own (during n)) :=
          fun n => AgreeOn.runAll fun inner hinner => ih inner ⟨during, rfl, n, hinner⟩ _ hheld
        exact (u.write codec device hcodec).bind fun _ => .pure _
    | unwind => exact .throw .unwound
    | attempt during =>
      intro w hw
      obtain ⟨hrun, hinv⟩ := AgreeOn.runAll (fun inner hinner => ih inner hinner _ hhold) w hw
      rw [Call.run, Call.run, ExceptT.run_mk, ExceptT.run_mk, StateT.run_bind, StateT.run_bind,
        hrun]
      generalize (Script.runAll start hold during).run.run w = left at hinv
      obtain ⟨result, w'⟩ := left
      cases result with
      | ok answers => exact ⟨rfl, hinv⟩
      | error e => cases e <;> exact ⟨rfl, hinv⟩

theorem runAll {calls : List Call} (hcalls : ∀ call ∈ calls, call.Throughout allowed)
    (hold : Hold) (hhold : hold = .nobody → free) :
    AgreeOn inv (Script.runAll start hold calls) (Script.runAll start' hold calls) :=
  AgreeOn.runAll fun call hcall => u.run (hcalls call hcall) hold hhold

end Upheld

end Script

end ValueCoverage
