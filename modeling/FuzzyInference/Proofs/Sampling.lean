import FuzzyInference.Proofs.Balance
import FuzzyInference.Proofs.Fallback
import FuzzyInference.Proofs.Shapes

/-! Defuzzification by samples. Both methods answer a point of balance of sample points, by the
heights of the surface or with equal weights on its summit, so they stay in the domain and among the
supports of the sets that are activated. -/

namespace FuzzyInference

open Scalar.Grounded (negligible_zero zero_lt_tolerance)

variable {activations : List (FuzzySet Rat × Rat)} {x y : Rat}

theorem Scalar.negligible_iff : negligible x = true ↔ -tolerance < x ∧ x < tolerance := by
  rw [negligible, Bool.and_eq_true, decide_eq_true_eq, decide_eq_true_eq]

/-! ## The surface -/

theorem foldl_greatest_spec (xs : List Rat) : xs.foldl Scalar.greatest 0 ∈ 0 :: xs ∧
    ∀ x ∈ 0 :: xs, x ≤ xs.foldl Scalar.greatest 0 :=
  List.max?_eq_some_iff.mp List.max?_cons'

theorem surface_nonneg (activations : List (FuzzySet Rat × Rat)) (x : Rat) :
    0 ≤ surface activations x := (foldl_greatest_spec _).2 0 List.mem_cons_self

/-- The sets that some rule activates with a strictly positive strength. -/
def activated (activations : List (FuzzySet Rat × Rat)) : List (FuzzySet Rat) :=
  (activations.filter fun a => decide (0 < a.2)).map Prod.fst

/-- Where the surface has any height, it is that of an activated set around the point. -/
theorem exists_activated_of_surface_pos (h : 0 < surface activations x) :
    ∃ s ∈ activated activations, s.shape.left < x ∧ x < s.shape.right := by
  rcases List.mem_cons.mp (foldl_greatest_spec _).1 with hzero | hmem
  · exact absurd hzero h.ne'
  · obtain ⟨⟨s, strength⟩, ha, hheight⟩ := List.mem_map.mp hmem
    have hpos : 0 < min strength (s.degree x) := h.trans_eq hheight.symm
    obtain ⟨hstrength, hdegree⟩ := lt_min_iff.mp hpos
    refine ⟨s, List.mem_map.mpr ⟨_, List.mem_filter.mpr ⟨ha, ?_⟩, rfl⟩,
      s.shape.lt_and_lt_of_degree_pos hdegree⟩
    exact decide_eq_true hstrength

/-- Whether a value lies between the least left and the greatest right end of the supports of
activated sets. -/
def AmongSupports (activations : List (FuzzySet Rat × Rat)) (y : Rat) : Prop :=
  ∃ low high, IsLeast {x | x ∈ (activated activations).map (·.shape.left)} low ∧
    IsGreatest {x | x ∈ (activated activations).map (·.shape.right)} high ∧ y ∈ Set.Icc low high

/-! ## Samples -/

namespace Variable

variable (v : Variable Rat)

theorem midpoint_mem : v.midpoint ∈ Set.Icc v.start v.stop := by
  have h := v.start_le_stop
  unfold midpoint
  constructor
  · rw [le_div_iff₀ two_pos]
    linarith
  · rw [div_le_iff₀ two_pos]
    linarith

theorem samplePoints_eq (count : Nat) : v.samplePoints count =
    (List.range count).map fun i : Nat =>
      v.start + i * ((v.stop - v.start) / (count - 1 : Nat)) := by
  unfold samplePoints
  simp only [Scalar.ofNat_rat]
  split
  · rfl
  · rename_i hcount
    have hzero : count - 1 = 0 := by omega
    rw [hzero, Nat.cast_zero, div_zero]

/-- All steps between samples together are as long as the domain. -/
theorem mem_samplePoints {count : Nat} (hx : x ∈ v.samplePoints count) :
    x ∈ Set.Icc v.start v.stop := by
  have hdomain : 0 ≤ v.stop - v.start := sub_nonneg.mpr v.start_le_stop
  rw [samplePoints_eq, List.mem_map] at hx
  obtain ⟨i, hi, rfl⟩ := hx
  have hsteps : (i : Rat) ≤ (count - 1 : Nat) :=
    Nat.cast_le.mpr (Nat.le_sub_one_of_lt (List.mem_range.mp hi))
  have hshare : (i : Rat) / (count - 1 : Nat) ≤ 1 := div_le_one_of_le₀ hsteps (Nat.cast_nonneg _)
  have hlength := mul_le_of_le_one_right hdomain hshare
  rw [mul_div_left_comm] at hlength
  constructor
  · exact le_add_of_nonneg_right
      (mul_nonneg (Nat.cast_nonneg _) (div_nonneg hdomain (Nat.cast_nonneg _)))
  · linarith

/-- The heights of the surface at the sample points, each with its point. -/
def samples (activations : List (FuzzySet Rat × Rat)) (count : Nat) : List (Rat × Rat) :=
  (v.samplePoints count).map fun x => (surface activations x, x)

def mass (activations : List (FuzzySet Rat × Rat)) (count : Nat) : Rat :=
  ((v.samples activations count).map Prod.fst).sum

def peak (activations : List (FuzzySet Rat × Rat)) (count : Nat) : Rat :=
  ((v.samples activations count).map Prod.fst).foldl Scalar.greatest 0

/-- The sample points at which the surface is about as high as at its peak. -/
def summit (activations : List (FuzzySet Rat × Rat)) (count : Nat) : List Rat :=
  ((v.samples activations count).filter fun d =>
    Scalar.negligible (d.1 - v.peak activations count)).map Prod.snd

variable {v} {count : Nat}

theorem mem_samples {d : Rat × Rat} : d ∈ v.samples activations count ↔
    d.2 ∈ v.samplePoints count ∧ d.1 = surface activations d.2 := by
  simp only [samples, List.mem_map]
  constructor
  · rintro ⟨x, hx, rfl⟩
    exact ⟨hx, rfl⟩
  · rintro ⟨hx, hheight⟩
    exact ⟨d.2, hx, Prod.ext hheight.symm rfl⟩

theorem mem_summit : x ∈ v.summit activations count ↔
    x ∈ v.samplePoints count ∧
      Scalar.negligible (surface activations x - v.peak activations count) = true := by
  simp only [summit, List.mem_map, List.mem_filter, mem_samples]
  constructor
  · rintro ⟨d, ⟨⟨hx, hheight⟩, hnear⟩, rfl⟩
    exact ⟨hx, hheight ▸ hnear⟩
  · rintro ⟨hx, hnear⟩
    exact ⟨(_, x), ⟨⟨hx, rfl⟩, hnear⟩, rfl⟩

theorem samples_nonneg : ∀ d ∈ v.samples activations count, 0 ≤ d.1 := fun d hd =>
  (surface_nonneg activations d.2).trans_eq (mem_samples.mp hd).2.symm

theorem mass_pos (h : ¬ Scalar.negligible (v.mass activations count) = true) :
    0 < v.mass activations count := by
  refine (List.sum_nonneg (List.forall_mem_map.mpr samples_nonneg)).lt_of_ne fun hzero => h ?_
  rw [mass, ← hzero, negligible_zero]

/-- The surface has its peak at a sample, unless it has no height at all. -/
theorem exists_sample_at_peak (h : 0 < v.peak activations count) :
    ∃ x ∈ v.samplePoints count, surface activations x = v.peak activations count := by
  rcases List.mem_cons.mp (foldl_greatest_spec _).1 with hzero | hmem
  · exact absurd hzero h.ne'
  · obtain ⟨d, hd, hheight⟩ := List.mem_map.mp hmem
    obtain ⟨hx, hsurface⟩ := mem_samples.mp hd
    exact ⟨d.2, hx, hsurface.symm.trans hheight⟩

/-- The second pass selects what the first one found. -/
theorem summit_ne_nil (h : Scalar.tolerance ≤ v.peak activations count) :
    v.summit activations count ≠ [] := by
  obtain ⟨x, hx, hpeak⟩ := exists_sample_at_peak (zero_lt_tolerance.trans_le h)
  refine List.ne_nil_of_mem (mem_summit.mpr ⟨hx, ?_⟩)
  rw [hpeak, sub_self, negligible_zero]

theorem surface_pos_of_mem_summit (h : Scalar.tolerance ≤ v.peak activations count)
    (hx : x ∈ v.summit activations count) : 0 < surface activations x := by
  have hnear := (Scalar.negligible_iff.mp (mem_summit.mp hx).2).1
  linarith

end Variable

/-! ## Defuzzifiers -/

namespace Defuzzifier

variable {v : Variable Rat} {count : Nat}

/-- The sums of one pass: the moment and the mass of the samples. -/
theorem foldl_moment_mass (activations : List (FuzzySet Rat × Rat)) (xs : List Rat)
    (moment mass : Rat) :
    xs.foldl (fun (p : Rat × Rat) x =>
        (p.1 + x * surface activations x, p.2 + surface activations x)) (moment, mass) =
      (moment + (xs.map fun x => surface activations x * x).sum,
        mass + (xs.map (surface activations)).sum) := by
  induction xs generalizing moment mass with
  | nil => simp
  | cons x xs ih =>
      rw [List.foldl_cons, ih, List.map_cons, List.map_cons, List.sum_cons, List.sum_cons,
        mul_comm x, add_assoc, add_assoc]

theorem centroidOf_eq : centroidOf v activations count =
    if Scalar.negligible (v.mass activations count) then v.midpoint
    else balance (v.samples activations count) := by
  have hmass : v.mass activations count =
      ((v.samplePoints count).map (surface activations)).sum := by
    rw [Variable.mass, Variable.samples, List.map_map]
    rfl
  have hbalance : balance (v.samples activations count) =
      ((v.samplePoints count).map fun x => surface activations x * x).sum /
        v.mass activations count := by
    rw [balance, Variable.mass, Variable.samples, List.map_map]
    rfl
  have hpass := foldl_moment_mass activations (v.samplePoints count) 0 0
  rw [zero_add, zero_add, ← hmass] at hpass
  rw [hbalance]
  unfold centroidOf
  dsimp only
  rw [hpass]

/-- The third answer, for a summit without samples, is never given. -/
theorem meanOfMaxOf_eq : meanOfMaxOf v activations count =
    if v.peak activations count < Scalar.tolerance then v.midpoint
    else (v.summit activations count).sum / (v.summit activations count).length := by
  have hpeak : (((v.samplePoints count).map fun x => (x, surface activations x)).map
      Prod.snd).foldl Scalar.greatest 0 = v.peak activations count := by
    rw [Variable.peak, Variable.samples, List.map_map, List.map_map]
    rfl
  have hsummit : (((v.samplePoints count).map fun x => (x, surface activations x)).filter
      fun p => Scalar.negligible (p.2 - v.peak activations count)).map Prod.fst =
        v.summit activations count := by
    rw [Variable.summit, Variable.samples, List.filter_map, List.filter_map, List.map_map,
      List.map_map]
    rfl
  unfold meanOfMaxOf
  dsimp only
  rw [hpeak]
  split
  · rfl
  · rename_i h
    have hne := Variable.summit_ne_nil (not_lt.mp h)
    rw [← hsummit] at hne ⊢
    rw [if_neg (by simpa using hne), List.length_map, List.sum_eq_foldl]
    rfl

/-! ## Where results lie -/

/-- Whether a value balances sample points at which the surface has some height. -/
def Balances (v : Variable Rat) (activations : List (FuzzySet Rat × Rat)) (count : Nat)
    (y : Rat) : Prop :=
  ∃ ds : List (Rat × Rat), 0 < (ds.map Prod.fst).sum ∧ (∀ d ∈ ds, 0 ≤ d.1) ∧
    (∀ d ∈ ds, 0 < d.1 → d.2 ∈ v.samplePoints count ∧ 0 < surface activations d.2) ∧
    balance ds = y

theorem Balances.mem_domain (h : Balances v activations count y) :
    y ∈ Set.Icc v.start v.stop := by
  obtain ⟨ds, hmass, hnonneg, hpoints, rfl⟩ := h
  exact balance_mem_Icc hmass hnonneg fun d hd hpos => v.mem_samplePoints (hpoints d hd hpos).1

theorem Balances.amongSupports (h : Balances v activations count y) :
    AmongSupports activations y := by
  obtain ⟨ds, hmass, hnonneg, hpoints, rfl⟩ := h
  have hinside : ∀ d ∈ ds, 0 < d.1 →
      ∃ s ∈ activated activations, s.shape.left < d.2 ∧ d.2 < s.shape.right :=
    fun d hd hpos => exists_activated_of_surface_pos (hpoints d hd hpos).2
  obtain ⟨d, hd, hpos⟩ := exists_pos_of_mass_pos hmass
  obtain ⟨s, hs, -⟩ := hinside d hd hpos
  obtain ⟨low, hlow⟩ := exists_isLeast_of_mem (List.mem_map.mpr ⟨s, hs, rfl⟩)
  obtain ⟨high, hhigh⟩ := exists_isGreatest_of_mem (List.mem_map.mpr ⟨s, hs, rfl⟩)
  refine ⟨low, high, hlow, hhigh, balance_mem_Icc hmass hnonneg fun d hd hpos => ?_⟩
  obtain ⟨s, hs, hleft, hright⟩ := hinside d hd hpos
  exact ⟨(hlow.2 (List.mem_map.mpr ⟨s, hs, rfl⟩)).trans hleft.le,
    hright.le.trans (hhigh.2 (List.mem_map.mpr ⟨s, hs, rfl⟩))⟩

theorem balances_centroidOf (h : ¬ Scalar.negligible (v.mass activations count) = true) :
    Balances v activations count (centroidOf v activations count) := by
  refine ⟨_, Variable.mass_pos h, Variable.samples_nonneg, fun d hd hpos => ?_, ?_⟩
  · obtain ⟨hx, hheight⟩ := Variable.mem_samples.mp hd
    exact ⟨hx, hheight ▸ hpos⟩
  · rw [centroidOf_eq, if_neg h]

theorem balances_meanOfMaxOf (h : Scalar.tolerance ≤ v.peak activations count) :
    Balances v activations count (meanOfMaxOf v activations count) := by
  have hne := Variable.summit_ne_nil h
  refine ⟨(v.summit activations count).map fun x => (1, x), ?_, ?_, ?_, ?_⟩
  · simpa [Function.comp_def] using List.length_pos_iff.mpr hne
  · exact List.forall_mem_map.mpr fun x _ => zero_le_one
  · exact List.forall_mem_map.mpr fun x hx _ =>
      ⟨(Variable.mem_summit.mp hx).1, Variable.surface_pos_of_mem_summit h hx⟩
  · rw [balance_weights_one, meanOfMaxOf_eq, if_neg h.not_gt]

theorem centroidOf_mem_domain : centroidOf v activations count ∈ Set.Icc v.start v.stop := by
  by_cases h : Scalar.negligible (v.mass activations count) = true
  · rw [centroidOf_eq, if_pos h]
    exact v.midpoint_mem
  · exact (balances_centroidOf h).mem_domain

theorem meanOfMaxOf_mem_domain : meanOfMaxOf v activations count ∈ Set.Icc v.start v.stop := by
  rcases lt_or_ge (v.peak activations count) Scalar.tolerance with h | h
  · rw [meanOfMaxOf_eq, if_pos h]
    exact v.midpoint_mem
  · exact (balances_meanOfMaxOf h).mem_domain

/-- The results lie in the domain and, unless they are the fallback, among the supports of activated
sets. Once there is a peak, some sample is on the summit, so the mean of the summit has a divisor. -/
theorem apply_mem_domain_and_supports (v : Variable Rat) (activations : List (FuzzySet Rat × Rat))
    (n : SampleCount) :
    ((centroid n).apply v activations ∈ Set.Icc v.start v.stop ∧
        (meanOfMax n).apply v activations ∈ Set.Icc v.start v.stop) ∧
      (centroid n).apply v activations =
        (if Scalar.negligible (v.mass activations n) then v.midpoint
        else balance (v.samples activations n)) ∧
      (¬ Scalar.negligible (v.mass activations n) = true →
        AmongSupports activations ((centroid n).apply v activations)) ∧
      (meanOfMax n).apply v activations =
        (if v.peak activations n < Scalar.tolerance then v.midpoint
        else (v.summit activations n).sum / (v.summit activations n).length) ∧
      (Scalar.tolerance ≤ v.peak activations n → v.summit activations n ≠ [] ∧
        AmongSupports activations ((meanOfMax n).apply v activations)) := by
  exact ⟨⟨centroidOf_mem_domain, meanOfMaxOf_mem_domain⟩, centroidOf_eq,
    fun h => (balances_centroidOf h).amongSupports, meanOfMaxOf_eq,
    fun h => ⟨Variable.summit_ne_nil h, (balances_meanOfMaxOf h).amongSupports⟩⟩

end Defuzzifier

/-! ## Unfolding an awning -/

namespace Awning

def width : Variable Rat := ⟨"Width", 24, 32,
  [⟨"Half", .triangle 24 28 32, by decide +kernel, by decide +kernel, by decide +kernel⟩],
  rfl, rfl, by decide +kernel, by simp⟩

/-- Sets that are none of the variable, one with a strength below zero. -/
def pulls : List (FuzzySet Rat × Rat) := [
  (⟨"Shut", .triangle 15 20 40, by decide +kernel, by decide +kernel, by decide +kernel⟩, -1),
  (⟨"Wide", .triangle 27 31 51, by decide +kernel, by decide +kernel, by decide +kernel⟩, 1 / 2)]

def nine : SampleCount := ⟨9, by decide⟩

/-- The surface has a height of a quarter at twenty-eight and of a half at each sample from there
on. -/
theorem apply_mem_domain_and_supports_width :
    (Defuzzifier.centroid nine).apply width pulls = 272 / 9 ∧
      (Defuzzifier.meanOfMax nine).apply width pulls = 61 / 2 ∧
      AmongSupports pulls (272 / 9) ∧ AmongSupports pulls (61 / 2) ∧
      width.summit pulls nine ≠ [] := by
  obtain ⟨-, hcentroid, hmass, hmean, hpeak⟩ :=
    Defuzzifier.apply_mem_domain_and_supports width pulls nine
  have hcentroid := hcentroid.trans (show _ = (272 / 9 : Rat) by decide +kernel)
  have hmean := hmean.trans (show _ = (61 / 2 : Rat) by decide +kernel)
  have hmass := hmass (by decide +kernel)
  have hpeak := hpeak (by decide +kernel)
  rw [hcentroid] at hmass
  rw [hmean] at hpeak
  exact ⟨hcentroid, hmean, hmass, hpeak.2, hpeak.1⟩

end Awning

end FuzzyInference
