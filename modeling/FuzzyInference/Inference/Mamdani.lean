import FuzzyInference.Inference.Strength

/-! Inference with fuzzy conclusions: what all rules together say of each set of each output. -/

namespace FuzzyInference

structure MamdaniOperators extends Norms where
  implication : Implication := .min
  /-- Gathers what several conclusions say about one set. -/
  aggregation : SNorm := .max
deriving DecidableEq, Repr

/-- The sets of one output that some rule activates, in the order of their first activation. -/
structure Aggregate (α : Type) [Scalar α] where
  target : Variable α
  activations : List (FuzzySet α × α) := []

variable {α : Type} [Scalar α]

/-- Sets are told apart by their exact label. -/
def activationKey (a : FuzzySet α × α) : String := a.1.label

namespace Aggregate

def key (g : Aggregate α) : String := g.target.key

/-- The activation of a label in any case, zero if the set is not activated. -/
def activation (g : Aggregate α) (label : String) : α :=
  ((g.activations.find? fun a => a.1.isNamed label).map Prod.snd).getD 0

def activate (aggregation : SNorm) (set : FuzzySet α) (implied : α) (g : Aggregate α) :
    Aggregate α :=
  let merge : Option (FuzzySet α × α) → FuzzySet α × α
    | some (s, current) => (s, aggregation.apply current implied)
    | none => (set, aggregation.apply 0 implied)
  { g with activations := Keyed.upsert activationKey set.label merge g.activations }

end Aggregate

namespace MamdaniOperators

/-- Revises the entry of an output, which is made at its first mention. -/
def revise (v : Variable α) (f : Aggregate α → Aggregate α) (out : List (Aggregate α)) :
    List (Aggregate α) :=
  Keyed.upsert Aggregate.key v.key (fun entry => f (entry.getD { target := v })) out

def conclude (ops : MamdaniOperators) (implied : α) (out : List (Aggregate α)) :
    Consequent α → List (Aggregate α)
  | .fuzzy v s => revise v (Aggregate.activate ops.aggregation s implied) out
  | .crisp .. => out

/-- The effect of one rule. Its outputs are mentioned even if it does not fire. -/
def step (ops : MamdaniOperators) (readings : Readings α) (out : List (Aggregate α))
    (r : Rule α) : Except (EvaluationError α) (List (Aggregate α)) :=
  match r.consequents.find? fun c => c.mode != .mamdani with
  | some c => .error (.consequentMismatch .mamdani c r)
  | none => do
    let strength ← r.strength ops.toNorms readings
    let mentioned := r.consequents.foldl (fun out c => revise c.target id out) out
    .ok (if fires strength then
      r.consequents.foldl (ops.conclude (ops.implication.apply strength 1)) mentioned
    else mentioned)

/-- One entry for each output that an enabled rule mentions. -/
def infer (ops : MamdaniOperators) (rules : List (Rule α)) (readings : Readings α) :
    Except (EvaluationError α) (List (Aggregate α)) :=
  (rules.filter (·.enabled)).foldlM (ops.step readings) []

end MamdaniOperators

end FuzzyInference
