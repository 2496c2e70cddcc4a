import FuzzyInference.Engine.Basic

/-! Putting an engine together. Each mode needs parts of its own; what is missing is named all at
once. -/

namespace FuzzyInference

inductive Part where
  | mode
  | ruleBase
  | mamdaniInference
  | defuzzifier
  | sugenoInference
deriving DecidableEq, Repr

namespace Part

def name : Part → String
  | .mode => "mode"
  | .ruleBase => "rule_base"
  | .mamdaniInference => "mamdani_inference"
  | .defuzzifier => "defuzzifier"
  | .sugenoInference => "sugeno_inference"

/-- The parts of an engine, in the order in which they are asked for. -/
def required : Option Mode → List Part
  | none => [.mode, .ruleBase]
  | some .mamdani => [.mode, .ruleBase, .mamdaniInference, .defuzzifier]
  | some .sugeno => [.mode, .ruleBase, .sugenoInference]

end Part

/-- Parts of an engine, as far as they are given. Those of the other mode do no harm. -/
structure EngineParts (α : Type) [Scalar α] where
  mode : Option Mode := none
  base : Option (RuleBase α) := none
  /-- Without it, inputs name the variables of the language of the rule base. -/
  vocabulary : Option (Vocabulary α) := none
  mamdani : Option MamdaniOperators := none
  sugeno : Option Norms := none
  defuzzifier : Option Defuzzifier := none
  silentReadings : Bool := false

namespace EngineParts

variable {α : Type} [Scalar α]

def has (p : EngineParts α) : Part → Bool
  | .mode => p.mode.isSome
  | .ruleBase => p.base.isSome
  | .mamdaniInference => p.mamdani.isSome
  | .defuzzifier => p.defuzzifier.isSome
  | .sugenoInference => p.sugeno.isSome

def missing (p : EngineParts α) : List Part := (Part.required p.mode).filter fun part => !p.has part

def pipeline? (p : EngineParts α) : Option Pipeline :=
  match p.mode with
  | some .mamdani => do some (.mamdani (← p.mamdani) (← p.defuzzifier))
  | some .sugeno => p.sugeno.map .sugeno
  | none => none

/-- The variables that inputs may name. -/
def inputVocabulary (p : EngineParts α) (base : RuleBase α) : Vocabulary α :=
  (p.vocabulary.or (base.language.map (·.vocabulary))).getD {}

def build (p : EngineParts α) : Except (List Part) (Engine α) :=
  match p.pipeline?, p.base with
  | some pipeline, some base => .ok
    { pipeline, base, vocabulary := p.inputVocabulary base, silentReadings := p.silentReadings }
  | _, _ => .error p.missing

end EngineParts

end FuzzyInference
