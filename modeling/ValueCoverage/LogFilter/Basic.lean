import ValueCoverage.LogFilter.Directive

/-!
# Log filters

A filter is a list of directives, separated by commas. Of the directives that speak of an event the
one with the longest target counts; of those one that asks for a field; of two that ask for the same
the later.
-/

namespace ValueCoverage

/-- What is logged. -/
structure LogFilter where
  directives : List LogDirective
deriving Repr, DecidableEq

namespace LogFilter

/-- What is logged if nothing that can be read is said about it. -/
def standard : LogFilter := ⟨[⟨some "argcov", .info, none, none⟩]⟩

/-- Reads a filter. Without directives errors are logged. -/
def read? (s : String) : Option LogFilter :=
  match (Text.splitOn ',' s.toList).filter fun cs => !cs.isEmpty with
  | [] => some ⟨[.ofLevel .error]⟩
  | pieces => (pieces.mapM LogDirective.read?).map LogFilter.mk

/-- The filter that is spelled, or the standard one. -/
def ofString (s : String) : LogFilter := (read? s).getD standard

/-- The directive that counts for an event outside all spans. -/
def directiveFor (f : LogFilter) (e : LogEvent) : Option LogDirective :=
  (f.directives.filter (·.applies e)).foldl
    (fun best d => if best.all (·.yieldsTo d) then some d else best) none

/-- Whether an event is logged. -/
def logs (f : LogFilter) (e : LogEvent) : Bool :=
  (f.directiveFor e).any fun d => e.level.rank ≤ d.level.rank

end LogFilter

end ValueCoverage
