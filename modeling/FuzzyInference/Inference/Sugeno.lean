import FuzzyInference.Inference.Strength

/-! Inference with crisp conclusions: the mean of the concluded values, weighted by firing strength. -/

namespace FuzzyInference

/-- The weighted sum and the total weight of what rules conclude about one output. -/
structure WeightedMean (α : Type) [Scalar α] where
  target : Variable α
  weightedSum : α := 0
  totalWeight : α := 0

variable {α : Type} [Scalar α]

namespace WeightedMean

def key (m : WeightedMean α) : String := m.target.key

/-- Whether some rule contributed. -/
def fired (m : WeightedMean α) : Bool := decide (0 < m.totalWeight)

/-- The middle of the domain if no rule contributed. -/
def value (m : WeightedMean α) : α :=
  if m.fired then m.weightedSum / m.totalWeight else m.target.midpoint

def add (strength value : α) (m : WeightedMean α) : WeightedMean α :=
  { m with
    weightedSum := m.weightedSum + strength * value
    totalWeight := m.totalWeight + strength }

end WeightedMean

namespace Norms

/-- Revises the entry of an output, which is made at its first mention. -/
def revise (v : Variable α) (f : WeightedMean α → WeightedMean α)
    (out : List (WeightedMean α)) : List (WeightedMean α) :=
  Keyed.upsert WeightedMean.key v.key (fun entry => f (entry.getD { target := v })) out

def conclude (strength : α) (out : List (WeightedMean α)) : Consequent α → List (WeightedMean α)
  | .crisp v x => revise v (WeightedMean.add strength x) out
  | .fuzzy .. => out

/-- The effect of one rule. Its outputs are mentioned even if it does not fire. -/
def step (norms : Norms) (readings : Readings α) (out : List (WeightedMean α)) (r : Rule α) :
    Except (EvaluationError α) (List (WeightedMean α)) :=
  match r.consequents.find? fun c => c.mode != .sugeno with
  | some c => .error (.consequentMismatch .sugeno c r)
  | none => do
    let strength ← r.strength norms readings
    let mentioned := r.consequents.foldl (fun out c => revise c.target id out) out
    .ok (if fires strength then r.consequents.foldl (conclude strength) mentioned else mentioned)

/-- One entry for each output that an enabled rule mentions. -/
def infer (norms : Norms) (rules : List (Rule α)) (readings : Readings α) :
    Except (EvaluationError α) (List (WeightedMean α)) :=
  (rules.filter (·.enabled)).foldlM (norms.step readings) []

end Norms

end FuzzyInference
