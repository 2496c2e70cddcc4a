import FuzzyInference.Scalar
import Mathlib.Algebra.Order.Ring.Rat

/-! Exact rationals as a scalar, with the bridge from the interface to their own operations. -/

namespace FuzzyInference

instance : Scalar Rat where
  numeral _ := inferInstance
  decidableLe := inferInstance
  decidableLt := inferInstance
  least := min
  greatest := max
  isFinite _ := true
  tolerance := 1 / 1000000000

namespace Scalar

@[simp] theorem least_rat (a b : Rat) : least a b = min a b := rfl

@[simp] theorem greatest_rat (a b : Rat) : greatest a b = max a b := rfl

@[simp] theorem isFinite_rat (a : Rat) : isFinite a = true := rfl

@[simp] theorem ofNat_rat (n : Nat) : (ofNat n : Rat) = n := rfl

end Scalar

end FuzzyInference
