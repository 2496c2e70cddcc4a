import FuzzyInference.Scalar.Rational
import Mathlib.Algebra.BigOperators.Ring.List
import Mathlib.Algebra.Order.BigOperators.Group.List
import Mathlib.Tactic.Linarith
import Mathlib.Tactic.Ring

/-! Points of balance: means of values by weights that are not negative. They lie between the values
that have any weight, move along with all values, and do not depend on their order. -/

namespace FuzzyInference

/-- The mean of values, each given behind its weight. -/
def balance (ds : List (Rat × Rat)) : Rat := (ds.map fun d => d.1 * d.2).sum / (ds.map Prod.fst).sum

variable {ds ds' : List (Rat × Rat)} {c : Rat}

/-! ## Bounds of lists -/

theorem exists_isLeast_of_mem {xs : List Rat} {x : Rat} (h : x ∈ xs) :
    ∃ low, IsLeast {x | x ∈ xs} low := by
  obtain ⟨low, hlow⟩ := Option.isSome_iff_exists.mp
    (List.isSome_min?_of_ne_nil (List.ne_nil_of_mem h))
  exact ⟨low, List.min?_eq_some_iff.mp hlow⟩

theorem exists_isGreatest_of_mem {xs : List Rat} {x : Rat} (h : x ∈ xs) :
    ∃ high, IsGreatest {x | x ∈ xs} high := by
  obtain ⟨high, hhigh⟩ := Option.isSome_iff_exists.mp
    (List.isSome_max?_of_ne_nil (List.ne_nil_of_mem h))
  exact ⟨high, List.max?_eq_some_iff.mp hhigh⟩

/-! ## Means -/

theorem exists_pos_of_mass_pos (hmass : 0 < (ds.map Prod.fst).sum) : ∃ d ∈ ds, 0 < d.1 := by
  refine List.exists_lt_of_sum_lt (fun _ => 0) Prod.fst ?_
  rwa [List.sum_map_zero]

theorem balance_perm (h : ds.Perm ds') : balance ds = balance ds' := by
  rw [balance, (h.map _).sum_eq, (h.map Prod.fst).sum_eq, balance]

/-- With equal weights the point of balance is the plain mean. -/
theorem balance_weights_one (xs : List Rat) :
    balance (xs.map fun x => (1, x)) = xs.sum / xs.length := by
  simp [balance, Function.comp_def]

/-- Stretching and shifting all values does the same to their mean. -/
theorem balance_map (k t : Rat) (hmass : (ds.map Prod.fst).sum ≠ 0) :
    balance (ds.map fun d => (d.1, k * d.2 + t)) = k * balance ds + t := by
  have hmoment : (ds.map fun d => d.1 * (k * d.2 + t)).sum =
      k * (ds.map fun d => d.1 * d.2).sum + t * (ds.map Prod.fst).sum := by
    rw [← List.sum_map_mul_left, ← List.sum_map_mul_left, ← List.sum_map_add]
    congr 1
    exact List.map_congr_left fun d _ => by ring
  simp only [balance, List.map_map, Function.comp_def]
  rw [hmoment, add_div, mul_div_assoc, mul_div_cancel_right₀ t hmass]

theorem le_balance (hmass : 0 < (ds.map Prod.fst).sum) (hnonneg : ∀ d ∈ ds, 0 ≤ d.1)
    (hle : ∀ d ∈ ds, 0 < d.1 → c ≤ d.2) : c ≤ balance ds := by
  rw [balance, le_div_iff₀ hmass]
  calc c * (ds.map Prod.fst).sum = (ds.map fun d => c * d.1).sum :=
        (List.sum_map_mul_left ..).symm
    _ ≤ (ds.map fun d => d.1 * d.2).sum := List.sum_le_sum fun d hd => by
        rw [mul_comm]
        rcases (hnonneg d hd).eq_or_lt with hzero | hpos
        · rw [← hzero, zero_mul, zero_mul]
        · exact mul_le_mul_of_nonneg_left (hle d hd hpos) hpos.le

/-- Mirrored at zero, an upper bound is a lower one. -/
theorem balance_le (hmass : 0 < (ds.map Prod.fst).sum) (hnonneg : ∀ d ∈ ds, 0 ≤ d.1)
    (hle : ∀ d ∈ ds, 0 < d.1 → d.2 ≤ c) : balance ds ≤ c := by
  have hmirrored : -c ≤ balance (ds.map fun d => (d.1, -1 * d.2 + 0)) := by
    refine le_balance ?_ (List.forall_mem_map.mpr hnonneg) (List.forall_mem_map.mpr ?_)
    · rwa [List.map_map]
    · intro d hd hpos
      linarith [hle d hd hpos]
  rw [balance_map _ _ hmass.ne'] at hmirrored
  linarith

theorem balance_mem_Icc {low high : Rat} (hmass : 0 < (ds.map Prod.fst).sum)
    (hnonneg : ∀ d ∈ ds, 0 ≤ d.1) (h : ∀ d ∈ ds, 0 < d.1 → d.2 ∈ Set.Icc low high) :
    balance ds ∈ Set.Icc low high :=
  ⟨le_balance hmass hnonneg fun d hd hpos => (h d hd hpos).1,
    balance_le hmass hnonneg fun d hd hpos => (h d hd hpos).2⟩

end FuzzyInference
