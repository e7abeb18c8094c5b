import ValueCoverage.Number.Integer
import ValueCoverage.Text.Split

/-!
# Log levels and events

How much is logged, and what there is to log.
-/

namespace ValueCoverage

/-- How much is logged. -/
inductive LogLevel where
  | off
  | error
  | warn
  | info
  | debug
  | trace
deriving Repr, DecidableEq

namespace LogLevel

/-- All of them, each with its name and the next one logging more. -/
def named : List (String × LogLevel) :=
  [("off", off), ("error", error), ("warn", warn), ("info", info), ("debug", debug),
    ("trace", trace)]

/-- How many levels log less. -/
def rank : LogLevel → Nat
  | off => 0
  | error => 1
  | warn => 2
  | info => 3
  | debug => 4
  | trace => 5

/-- The level with the name, in letters of either case, or with the rank. -/
def ofString? (s : String) : Option LogLevel :=
  match Number.readNatural 5 s with
  | .ok n => (named.map (·.2)).find? fun l => l.rank = n
  | .error _ => named.lookup (Text.lowerAscii s)

end LogLevel

/-- What can be logged: where it comes from, from which level on, and the names of what it tells. -/
structure LogEvent where
  target : String
  level : LogLevel
  fields : List String
deriving Repr, DecidableEq

end ValueCoverage
