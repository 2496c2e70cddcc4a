import FuzzyInference.RuleBase
import FuzzyInference.Inference.Sugeno
import FuzzyInference.Defuzzify

/-! A fuzzy system ready to run: it reads named inputs, infers from its rules and answers one crisp
value per output. -/

namespace FuzzyInference

/-- What happens between the readings and the crisp values. -/
inductive Pipeline where
  | mamdani (operators : MamdaniOperators) (defuzzifier : Defuzzifier)
  | sugeno (norms : Norms)

structure Engine (α : Type) [Scalar α] where
  pipeline : Pipeline
  base : RuleBase α
  /-- The variables that inputs may name. -/
  vocabulary : Vocabulary α
  /-- Whether reading a variable without sets is reported elsewhere. -/
  silentReadings : Bool := false

/-- What rules conclude, before any defuzzification. -/
inductive Conclusions (α : Type) [Scalar α] where
  | fuzzy (aggregates : List (Aggregate α))
  | crisp (means : List (WeightedMean α))

/-- A result, or the error in its place, with what was reported on the way. -/
structure Outcome (α β : Type) [Scalar α] where
  reported : List (Diagnostic α)
  result : Except (EvaluationError α) β

namespace Pipeline

def mode : Pipeline → Mode
  | .mamdani .. => .mamdani
  | .sugeno _ => .sugeno

def norms : Pipeline → Norms
  | .mamdani operators _ => operators.toNorms
  | .sugeno norms => norms

def defuzzifier? : Pipeline → Option Defuzzifier
  | .mamdani _ d => some d
  | .sugeno _ => none

end Pipeline

variable {α : Type} [Scalar α]

namespace Conclusions

def mode : Conclusions α → Mode
  | .fuzzy _ => .mamdani
  | .crisp _ => .sugeno

def aggregates : Conclusions α → Except (EvaluationError α) (List (Aggregate α))
  | .fuzzy aggregates => .ok aggregates
  | .crisp _ => .error (.modeMismatch .mamdani .sugeno)

def means : Conclusions α → Except (EvaluationError α) (List (WeightedMean α))
  | .crisp means => .ok means
  | .fuzzy _ => .error (.modeMismatch .sugeno .mamdani)

end Conclusions

namespace Aggregate

/-- The entry of an output by its name, in any case. -/
def find? (aggregates : List (Aggregate α)) (name : String) : Option (Aggregate α) :=
  Keyed.get? key (Text.lowerCase name) aggregates

end Aggregate

namespace WeightedMean

/-- The value of an output by its name, in any case. -/
def valueOf (means : List (WeightedMean α)) (name : String) : Except (EvaluationError α) α :=
  match Keyed.get? key (Text.lowerCase name) means with
  | some m => .ok m.value
  | none => .error (.noOutput name)

end WeightedMean

namespace Engine

def mode (e : Engine α) : Mode := e.pipeline.mode

/-- The variable that an input means: one of the vocabulary or, failing that, one that a condition of
some rule speaks of. -/
def resolveInput (e : Engine α) (name : String) : Except (EvaluationError α) (Variable α) :=
  match e.vocabulary.get? name with
  | some v => .ok v
  | none =>
    let antecedents := e.base.rules.flatMap (·.antecedents)
    match antecedents.find? fun a => Text.eqIgnoringCase a.subject.name name with
    | some a => .ok a.subject
    | none => .error (.unknownInput name)

/-- What a reading reports to the engine. -/
def notices (e : Engine α) (r : Reading α) : List (Diagnostic α) :=
  if e.silentReadings then [] else r.diagnostic?.toList

/-- Reads inputs in turn on top of earlier readings, up to the first unknown name. -/
def readOnto (e : Engine α) (readings : Readings α) :
    List (String × α) → Outcome α (Readings α)
  | [] => ⟨[], .ok readings⟩
  | (name, x) :: rest =>
    match e.resolveInput name with
    | .error error => ⟨[], .error error⟩
    | .ok v =>
      let r := v.fuzzify x
      let further := readOnto e (readings.insert r) rest
      ⟨e.notices r ++ further.reported, further.result⟩

def read (e : Engine α) (inputs : List (String × α)) : Outcome α (Readings α) :=
  e.readOnto {} inputs

def inferFrom (e : Engine α) (readings : Readings α) :
    Except (EvaluationError α) (Conclusions α) :=
  match e.pipeline with
  | .mamdani operators _ => (operators.infer e.base.rules readings).map .fuzzy
  | .sugeno norms => (norms.infer e.base.rules readings).map .crisp

def infer (e : Engine α) (inputs : List (String × α)) : Outcome α (Conclusions α) :=
  let read := e.read inputs
  ⟨read.reported, read.result.bind e.inferFrom⟩

def noRuleFired (v : Variable α) : Diagnostic α := .noRuleFired v.name v.midpoint

/-- Outputs of which no rule spoke. -/
def unfired : Conclusions α → List (Diagnostic α)
  | .fuzzy aggregates =>
    (aggregates.filter (·.activations.isEmpty)).map fun g => noRuleFired g.target
  | .crisp means => (means.filter fun m => !m.fired).map fun m => noRuleFired m.target

/-- One crisp value per output, under its name. The conclusions must be those of the pipeline. -/
def crispValues (e : Engine α) (conclusions : Conclusions α) :
    Except (EvaluationError α) (List (String × α)) :=
  match e.pipeline, conclusions with
  | .mamdani _ d, .fuzzy aggregates => .ok (Keyed.collect Prod.fst
      (aggregates.map fun g => (g.target.name, d.apply g.target g.activations)))
  | .sugeno _, .crisp means => .ok (Keyed.collect Prod.fst
      (means.map fun m => (m.target.name, m.value)))
  | _, _ => .error (.foreignConclusions e.mode)

/-- The crisp outputs for named crisp inputs. -/
def evaluate (e : Engine α) (inputs : List (String × α)) : Outcome α (List (String × α)) :=
  let inferred := e.infer inputs
  match inferred.result with
  | .error error => ⟨inferred.reported, .error error⟩
  | .ok conclusions =>
    match e.crispValues conclusions with
    | .error error => ⟨inferred.reported, .error error⟩
    | .ok values => ⟨inferred.reported ++ unfired conclusions, .ok values⟩

/-- The firing strength of a rule under the operators of the engine. -/
def strength (e : Engine α) (readings : Readings α) (r : Rule α) :
    Except (EvaluationError α) α :=
  r.strength e.pipeline.norms readings

end Engine

end FuzzyInference
