import FuzzyInference.Inference.Mamdani

/-! From activated sets to one crisp value. The sampling methods look at one surface, whatever
operators made the activations: each set clipped at its activation, and the greatest of all. -/

namespace FuzzyInference

variable {α : Type} [Scalar α]

/-- The height of the surface at `x`. -/
def surface (activations : List (FuzzySet α × α)) (x : α) : α :=
  (activations.map fun (s, strength) => Scalar.least strength (s.degree x)).foldl
    Scalar.greatest 0

/-- Enough samples for both ends of a domain and something between them. -/
abbrev SampleCount := { n : Nat // 3 ≤ n }

namespace SampleCount

def ofNat? (n : Nat) : Option SampleCount := if h : 3 ≤ n then some ⟨n, h⟩ else none

def default : SampleCount := ⟨1001, by decide⟩

end SampleCount

inductive Defuzzifier where
  /-- The centre of gravity of the sampled surface. -/
  | centroid (samples : SampleCount)
  /-- The mean of the samples at which the surface is highest. -/
  | meanOfMax (samples : SampleCount)
  /-- The mean of fixed values for well-known labels, weighted by activation. -/
  | weightedAverage

namespace Defuzzifier

def name : Defuzzifier → String
  | .centroid _ => "centroid"
  | .meanOfMax _ => "mean_of_max"
  | .weightedAverage => "weighted_average"

def samples? : Defuzzifier → Option Nat
  | .centroid n | .meanOfMax n => some n
  | .weightedAverage => none

/-- Stands in for unknown labels and for no activation at all. -/
def fallback : α := 50

/-- The value that a label stands for, in any case. -/
def representative (label : String) : α :=
  match Text.lowerCase label with
  | "low" => 15
  | "medium" => 45
  | "high" => 70
  | "extreme" => 95
  | _ => fallback

def centroidOf (v : Variable α) (activations : List (FuzzySet α × α)) (samples : Nat) : α :=
  let (moment, mass) := (v.samplePoints samples).foldl (fun (moment, mass) x =>
    let height := surface activations x
    (moment + x * height, mass + height)) ((0, 0) : α × α)
  if Scalar.negligible mass then v.midpoint else moment / mass

def meanOfMaxOf (v : Variable α) (activations : List (FuzzySet α × α)) (samples : Nat) : α :=
  let points := (v.samplePoints samples).map fun x => (x, surface activations x)
  let peak := (points.map Prod.snd).foldl Scalar.greatest 0
  if peak < Scalar.tolerance then v.midpoint
  else
    let highest := points.filter fun (_, height) => Scalar.negligible (height - peak)
    if highest.isEmpty then v.midpoint
    else (highest.map Prod.fst).foldl (· + ·) 0 / Scalar.ofNat highest.length

def weightedAverageOf (activations : List (FuzzySet α × α)) : α :=
  let (sum, weight) := activations.foldl (fun (sum, weight) (s, strength) =>
    (sum + strength * representative s.label, weight + strength)) ((0, 0) : α × α)
  if weight == 0 then fallback else sum / weight

/-- The crisp value of an output. -/
def apply (d : Defuzzifier) (v : Variable α) (activations : List (FuzzySet α × α)) : α :=
  match d with
  | .centroid n => centroidOf v activations n
  | .meanOfMax n => meanOfMaxOf v activations n
  | .weightedAverage => weightedAverageOf activations

end Defuzzifier

end FuzzyInference
