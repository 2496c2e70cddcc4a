import FuzzyInference.Text.LowerCase

/-! The two methods of inference. A rule speaks the language of one of them. -/

namespace FuzzyInference

inductive Mode where
  /-- Conclusions are fuzzy sets, to be defuzzified. -/
  | mamdani
  /-- Conclusions are numbers, to be averaged. -/
  | sugeno
deriving DecidableEq, Repr

namespace Mode

def name : Mode → String
  | .mamdani => "mamdani"
  | .sugeno => "sugeno"

def title : Mode → String
  | .mamdani => "Mamdani"
  | .sugeno => "Sugeno"

def all : List Mode := [.mamdani, .sugeno]

def ofName? (s : String) : Option Mode :=
  match Text.lowerCase s with
  | "mamdani" => some .mamdani
  | "sugeno" | "tsk" => some .sugeno
  | _ => none

end Mode

end FuzzyInference
