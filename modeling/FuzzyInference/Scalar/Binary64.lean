import FuzzyInference.Scalar

/-! Binary64 as a scalar. Each operation is rounded once, and nothing is fused or reordered. -/

namespace FuzzyInference

/-- Of two zeros of opposite sign, `least` and `greatest` keep the first. -/
instance : Scalar Float where
  numeral _ := inferInstance
  decidableLe := inferInstance
  decidableLt := inferInstance
  least a b := if a.isNaN then b else if b < a then b else a
  greatest a b := if a.isNaN then b else if a < b then b else a
  isFinite := Float.isFinite
  tolerance := 1e-9

end FuzzyInference
