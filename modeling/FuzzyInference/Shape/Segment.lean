import FuzzyInference.Scalar
import FuzzyInference.Decimal.Literal

/-! Straight pieces of a membership function. -/

namespace FuzzyInference

/-- The line `y = slope * x + intercept` on the closed interval from `start` to `stop`. -/
structure Segment (α : Type) where
  start : α
  stop : α
  slope : α
  intercept : α

namespace Segment

variable {α : Type} [Scalar α]

/-- The line through two points, the first to the left of the second. -/
def through (x₀ y₀ x₁ y₁ : α) : Segment α :=
  let slope := (y₁ - y₀) / (x₁ - x₀)
  ⟨x₀, x₁, slope, y₀ - slope * x₀⟩

def covers (s : Segment α) (x : α) : Bool := decide (s.start ≤ x) && decide (x ≤ s.stop)

def height (s : Segment α) (x : α) : α := s.slope * x + s.intercept

def text [Numeral α] (s : Segment α) : String :=
  let n := Numeral.text (α := α)
  "LineSegment[" ++ n s.start ++ ", " ++ n s.stop ++ "] y = " ++ n s.slope ++ "x + "
    ++ n s.intercept

end Segment

end FuzzyInference
