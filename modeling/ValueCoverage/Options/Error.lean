import ValueCoverage.Text.Quoted

/-!
# Rejected options
-/

namespace ValueCoverage

/-- Why options are rejected. -/
inductive OptionError where
  | unknownKey (key : String)
  | invalidValue (key value : String)
  | missingValue (option : String)
  | unbalanced (options : String)
  | invalidRule (rule : String)
deriving Repr, DecidableEq

def OptionError.kind : OptionError → String
  | .unknownKey _ => "UnknownKey"
  | .invalidValue _ _ => "InvalidValue"
  | .missingValue _ => "MissingValue"
  | .unbalanced _ => "Unbalanced"
  | .invalidRule _ => "InvalidRule"

open Text in
def OptionError.message : OptionError → String
  | .unknownKey key => s!"unknown configuration key {quoted key}"
  | .invalidValue key value => s!"invalid value {quoted value} for {key}"
  | .missingValue option => s!"option {quoted option} is not key=value"
  | .unbalanced options => s!"unbalanced parentheses in {quoted options}"
  | .invalidRule rule => s!"invalid member rule {quoted rule}"

end ValueCoverage
