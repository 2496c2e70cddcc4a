import FuzzyInference.Rule.Language

/-! Soft conditions. They fail nothing: a stand-in value is used, and a diagnostic says so. -/

namespace FuzzyInference

inductive Diagnostic (α : Type) where
  /-- A variable without sets was read. -/
  | emptyFuzzification (variableName : String) (value : α)
  /-- A line of a rule file was left out. Lines count from one. -/
  | skippedRuleLine (line : Nat) (error : RuleError)
  /-- No rule spoke of an output, and the middle of its domain stands in. -/
  | noRuleFired (variableName : String) (midpoint : α)

namespace Diagnostic

variable {α : Type} [Numeral α]

def message : Diagnostic α → String
  | .emptyFuzzification name value =>
    "Variable '" ++ name ++ "' has no fuzzy sets; fuzzification of " ++ Numeral.text value
      ++ " is empty"
  | .skippedRuleLine _ error => error.fault.text
  | .noRuleFired name midpoint =>
    "No rule fired for '" ++ name ++ "'; using domain midpoint " ++ Numeral.text midpoint

def text (d : Diagnostic α) : String :=
  match d with
  | .skippedRuleLine line _ => s!"line {line}: " ++ d.message
  | _ => d.message

end Diagnostic

end FuzzyInference
