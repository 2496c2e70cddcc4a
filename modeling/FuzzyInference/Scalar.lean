/-! The arithmetic of degrees and crisp values. The calculus is written once over this interface:
binary64 runs it and exact rationals carry its laws. -/

namespace FuzzyInference

/-- Numbers with comparisons that may fail to be total, as a value can be no number at all. -/
class Scalar (α : Type) extends Add α, Sub α, Mul α, Div α, Neg α, LE α, LT α, BEq α where
  numeral : ∀ n : Nat, OfNat α n
  decidableLe : DecidableLE α
  decidableLt : DecidableLT α
  /-- The lesser of two values; if one is no number, the other. -/
  least : α → α → α
  /-- The greater of two values; if one is no number, the other. -/
  greatest : α → α → α
  isFinite : α → Bool
  /-- Amounts of membership below this count as none, 10⁻⁹. -/
  tolerance : α

attribute [reducible, instance] Scalar.numeral Scalar.decidableLe Scalar.decidableLt

namespace Scalar

variable {α : Type} [Scalar α]

/-- A count as a scalar, rounded to nearest if it is not representable. -/
def ofNat (n : Nat) : α := OfNat.ofNat n

/-- A value that is no number stays as it is. -/
def clamp (low high x : α) : α :=
  if x < low then low else if high < x then high else x

/-- Whether `x` lies strictly within the tolerance around zero. -/
def negligible (x : α) : Bool :=
  decide (-tolerance < x) && decide (x < tolerance)

end Scalar

end FuzzyInference
