import ValueCoverage.Options.Error
import ValueCoverage.Selection.Basic

/-!
# Rules of options

A rule is one condition on members in text: `all`, `nosynthetic`, or a key and a value. The
selection of a list of rules takes the members that meet all of them.
-/

namespace ValueCoverage.Selection

/-- The condition of a key and a value. -/
def ofSetting? (key value : String) : Option Selection :=
  if value.isEmpty then none
  else
    match key with
    | "owner" => some (.ownerIs value)
    | "prefix" => some (.ownerPrefix value)
    | "exclude" => some (.notUnder [value])
    | "name" => some (.nameIs value)
    | "params" =>
      some (.withType (.ofSpellings ((Text.splitOn '|' value.toList).map String.ofList)))
    | _ => none

/-- The condition of a rule, blanks around it aside. -/
def ofRule (rule : String) : Except OptionError Selection :=
  let rule := Text.trim rule
  let found :=
    match Text.splitFirst '=' rule.toList with
    | none =>
      if rule = "all" then some .any else if rule = "nosynthetic" then some .written else none
    | some (key, value) => ofSetting? (String.ofList key) (String.ofList value)
  match found with
  | some s => .ok s
  | none => .error (.invalidRule rule)

/-- The selection of members that meet all rules; the first bad rule is reported. -/
def ofRules (rules : List String) : Except OptionError Selection :=
  (rules.mapM ofRule).map allOf

end ValueCoverage.Selection
