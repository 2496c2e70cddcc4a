import FuzzyInference.Scalar
import FuzzyInference.Text.LowerCase

/-! Fuzzy operators: triangular norms and conorms, implications, and the connectives of a rule. Each
has one canonical name and further names that are read in any case. -/

namespace FuzzyInference

/-- Fuzzy conjunction. -/
inductive TNorm where
  | min
  | product
  /-- The part by which two degrees together exceed one. -/
  | lukasiewicz
deriving DecidableEq, Repr

/-- Fuzzy disjunction, also used to gather what several rules say about one set. -/
inductive SNorm where
  | max
  /-- The sum, cut at one. -/
  | boundedSum
  | probabilisticSum
deriving DecidableEq, Repr

/-- How the strength of a rule bears on the degree of its conclusion. -/
inductive Implication where
  /-- Clipping at the strength. -/
  | min
  /-- Scaling by the strength. -/
  | product
deriving DecidableEq, Repr

/-- Joins two conditions of a rule. -/
inductive Connective where
  | and
  | or
deriving DecidableEq, Repr

variable {α : Type} [Scalar α]

namespace TNorm

def apply : TNorm → α → α → α
  | .min, a, b => Scalar.least a b
  | .product, a, b => a * b
  | .lukasiewicz, a, b => Scalar.greatest (a + b - 1) 0

def name : TNorm → String
  | .min => "min"
  | .product => "product"
  | .lukasiewicz => "lukasiewicz"

def all : List TNorm := [.min, .product, .lukasiewicz]

def ofName? (s : String) : Option TNorm :=
  match Text.lowerCase s with
  | "min" | "minimum" => some .min
  | "product" | "prod" => some .product
  | "lukasiewicz" | "bounded" => some .lukasiewicz
  | _ => none

end TNorm

namespace SNorm

def apply : SNorm → α → α → α
  | .max, a, b => Scalar.greatest a b
  | .boundedSum, a, b => Scalar.least (a + b) 1
  | .probabilisticSum, a, b => a + b - a * b

def name : SNorm → String
  | .max => "max"
  | .boundedSum => "bounded_sum"
  | .probabilisticSum => "probabilistic_sum"

def all : List SNorm := [.max, .boundedSum, .probabilisticSum]

def ofName? (s : String) : Option SNorm :=
  match Text.lowerCase s with
  | "max" | "maximum" => some .max
  | "sum" | "bounded_sum" | "bounded-sum" => some .boundedSum
  | "probabilistic_sum" | "probabilistic-sum" | "probor" => some .probabilisticSum
  | _ => none

end SNorm

namespace Implication

def apply : Implication → α → α → α
  | .min, strength, degree => Scalar.least strength degree
  | .product, strength, degree => strength * degree

def name : Implication → String
  | .min => "min"
  | .product => "product"

def all : List Implication := [.min, .product]

def ofName? (s : String) : Option Implication :=
  match Text.lowerCase s with
  | "min" | "mamdani" => some .min
  | "product" | "larsen" => some .product
  | _ => none

end Implication

namespace Connective

def keyword : Connective → String
  | .and => "AND"
  | .or => "OR"

def ofKeyword? (s : String) : Option Connective :=
  if Text.eqIgnoringCase s "AND" then some .and
  else if Text.eqIgnoringCase s "OR" then some .or
  else none

def combine (tnorm : TNorm) (snorm : SNorm) : Connective → α → α → α
  | .and => tnorm.apply
  | .or => snorm.apply

end Connective

end FuzzyInference
