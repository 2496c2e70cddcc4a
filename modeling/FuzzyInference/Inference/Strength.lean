import FuzzyInference.Reading

/-! How strongly a rule fires: its conditions joined from left to right, times its weight. -/

namespace FuzzyInference

/-- The meaning of AND and OR. -/
structure Norms where
  and : TNorm := .min
  or : SNorm := .max
deriving DecidableEq, Repr

inductive EvaluationError (α : Type) [Scalar α] where
  | unknownInput (name : String)
  /-- A consequent of the other method of inference. -/
  | consequentMismatch (mode : Mode) (consequent : Consequent α) (rule : Rule α)
  /-- The connectives are not one fewer than the antecedents. -/
  | connectiveCount (rule : Rule α)
  /-- The variable of the antecedent has no set of its label. -/
  | unknownSet (antecedent : Antecedent α)
  | modeMismatch (expected actual : Mode)
  /-- An engine of this mode got the conclusions of the other one. -/
  | foreignConclusions (mode : Mode)
  | noOutput (variableName : String)

namespace EvaluationError

variable {α : Type} [Scalar α]

def code : EvaluationError α → Code
  | .unknownInput _ => .unknownInput
  | .consequentMismatch .. => .consequentMismatch
  | .connectiveCount _ => .evaluationError
  | .unknownSet _ => .unknownSetAtEvaluation
  | .modeMismatch .. | .foreignConclusions _ => .modeMismatch
  | .noOutput _ => .unknownVariable

def message [Numeral α] : EvaluationError α → String
  | .unknownInput name => s!"Unknown input variable: {name}"
  | .consequentMismatch mode c _ => (Fault.consequentMismatch mode.title c.text).message
  | .connectiveCount r => "Rule has " ++ toString r.antecedents.length ++ " antecedents but "
      ++ toString r.connectives.length ++ " connectors"
  | .unknownSet a => "Antecedent '" ++ a.text ++ "' references a set that variable '"
      ++ a.subject.name ++ "' does not define"
  | .modeMismatch expected actual =>
    "Expected " ++ expected.title ++ " inference output, got " ++ actual.title
  | .foreignConclusions mode => mode.name ++ " engine produced mismatched inference output"
  | .noOutput name => s!"No Sugeno output for variable '{name}'"

/-- The rule concerned, where the rule as a whole is at fault. -/
def rule? : EvaluationError α → Option (Rule α)
  | .consequentMismatch _ _ r | .connectiveCount r => some r
  | _ => none

def fault [Numeral α] (e : EvaluationError α) : Fault :=
  let f := Fault.evaluation e.code e.message
  match e.rule? with
  | some r => f.withContext "rule" r.text
  | none => f

end EvaluationError

variable {α : Type} [Scalar α]

/-- An unread variable has degree zero, an unknown set is an error. -/
def Antecedent.degree (readings : Readings α) (a : Antecedent α) :
    Except (EvaluationError α) α :=
  match a.subject.set? a.label with
  | some s => .ok (readings.degree a.subject.name s.label)
  | none => .error (.unknownSet a)

namespace Rule

def joinDegrees (norms : Norms) (readings : Readings α) (degree : α) :
    List Connective → List (Antecedent α) → Except (EvaluationError α) α
  | c :: cs, a :: rest => do
    let next ← a.degree readings
    joinDegrees norms readings (c.combine norms.and norms.or degree next) cs rest
  | _, _ => .ok degree

/-- A rule without antecedents has degree zero. -/
def condition (norms : Norms) (readings : Readings α) (r : Rule α) :
    Except (EvaluationError α) α :=
  match r.antecedents with
  | [] => .ok 0
  | first :: rest =>
    if r.connectives.length = rest.length then do
      let degree ← first.degree readings
      joinDegrees norms readings degree r.connectives rest
    else .error (.connectiveCount r)

def strength (norms : Norms) (readings : Readings α) (r : Rule α) :
    Except (EvaluationError α) α := do
  let degree ← r.condition norms readings
  .ok (degree * r.weight)

end Rule

/-- Only a strictly positive strength has an effect. -/
def fires (strength : α) : Bool := decide (0 < strength)

end FuzzyInference
