import ValueCoverage.Collector.Script

/-!
# Several collectors on one thread

The guard belongs to the thread, so that it turns away records on any collector while the values for
a record on another one are captured. Here a thread reaches collectors by name, and the code that
captures values records and declares on any of them, to any depth.
-/

namespace ValueCoverage

/-- What a thread sees that reaches several collectors. -/
structure Reach (κ ι : Type) where
  collectors : κ → Collector ι
  guard : Guard

namespace Reach

variable {κ ι : Type} [DecidableEq κ]

/-- Puts another collector in the place of one. -/
def put (on : κ) (c : Collector ι) (r : Reach κ ι) : Reach κ ι :=
  { r with collectors := fun k => if k = on then c else r.collectors k }

theorem collectors_put (on : κ) (c : Collector ι) (r : Reach κ ι) (k : κ) :
    (r.put on c).collectors k = if k = on then c else r.collectors k := rfl

/-- Where the thread finds its guard and one of the collectors. -/
def site (on : κ) : Site (Reach κ ι) ι where
  guard := ⟨Reach.guard, fun guard r => { r with guard },
    fun _ _ => rfl, fun _ => rfl, fun _ _ _ => rfl⟩
  collector :=
    { get := fun r => r.collectors on
      put := put on
      get_put := fun c r => by rw [collectors_put, if_pos rfl]
      put_get := fun r => by
        have hsame : (fun k => if k = on then r.collectors on else r.collectors k) =
            r.collectors := by
          funext k
          by_cases h : k = on
          · rw [if_pos h, h]
          · rw [if_neg h]
        rw [put, hsame]
      put_put := fun c c' r => by
        have hlast : (fun k => if k = on then c else if k = on then c' else r.collectors k) =
            fun k => if k = on then c else r.collectors k := by
          funext k
          by_cases h : k = on
          · rw [if_pos h, if_pos h]
          · rw [if_neg h, if_neg h, if_neg h]
        exact congrArg (Reach.mk · r.guard) hlast }
  guard_collector _ _ := rfl
  collector_guard _ _ := rfl

end Reach

/-- A call on one of several collectors, and the calls that are made during it. -/
inductive SharedCall (κ : Type) where
  /-- The values come from code that makes calls. -/
  | record (on : κ) (key : MemberKey) (values : Observation) (during : List (SharedCall κ))
  | declare (on : κ) (key : MemberKey)
  /-- How often the guard is held. -/
  | depth

namespace SharedCall

variable {κ ι : Type} [DecidableEq κ]

open Script (Answer)

mutual

/-- What a call does on a thread that reads none of the stores. -/
def run (start : κ → Option (Starter (Reach κ ι) ι)) : SharedCall κ → ThreadM (Reach κ ι) Answer
  | .record on key values during => do
    let (outcome, answers) ←
      (Reach.site on).record (start on) .nobody key values (runAll start during)
    return .captured outcome answers
  | .declare on key => return .flag (← (Reach.site on).onCollector (·.declare .nobody key))
  | .depth => return .number (← get).guard.depth

/-- What calls do one after the other. -/
def runAll (start : κ → Option (Starter (Reach κ ι) ι)) :
    List (SharedCall κ) → ThreadM (Reach κ ι) (List Answer)
  | [] => return []
  | call :: rest => do
    let answer ← call.run start
    return answer :: (← runAll start rest)

end

end SharedCall

end ValueCoverage
