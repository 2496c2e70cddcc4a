import FuzzyInference.Proofs.Sampling

/-! Changes of scale. If an affine map is applied to a domain and to all corners over it, the sampled
results move along, also where it turns the axis around. So a symmetric surface is answered by the
middle of its domain. -/

namespace FuzzyInference

/-- An affine change of scale, which turns the axis around if the factor is negative. -/
structure Scale where
  factor : Rat
  offset : Rat
  factor_ne_zero : factor ≠ 0

namespace Scale

def apply (f : Scale) (x : Rat) : Rat := f.factor * x + f.offset

instance : CoeFun Scale fun _ => Rat → Rat := ⟨apply⟩

/-- The ends of an interval on the new scale, from left to right. -/
def ends (f : Scale) (a b : Rat) : Rat × Rat := if f.factor < 0 then (f b, f a) else (f a, f b)

variable {f : Scale} {a b x : Rat}

theorem le_iff_of_pos (h : 0 < f.factor) : f a ≤ f b ↔ a ≤ b := by
  rw [apply, apply, add_le_add_iff_right, mul_le_mul_iff_right₀ h]

theorem le_iff_of_neg (h : f.factor < 0) : f a ≤ f b ↔ b ≤ a := by
  rw [apply, apply, add_le_add_iff_right, mul_le_mul_left_of_neg h]

theorem factor_pos (h : ¬ f.factor < 0) : 0 < f.factor :=
  (not_lt.mp h).lt_of_ne' f.factor_ne_zero

theorem injective (f : Scale) : Function.Injective f := fun _ _ h =>
  mul_left_cancel₀ f.factor_ne_zero (add_right_cancel h)

/-- Differences are stretched by the factor, so their proportions stay. -/
theorem sub_div_sub (f : Scale) (a b c d : Rat) :
    (f a - f b) / (f c - f d) = (a - b) / (c - d) := by
  unfold apply
  rw [add_sub_add_right_eq_sub, add_sub_add_right_eq_sub, ← mul_sub, ← mul_sub,
    mul_div_mul_left _ _ f.factor_ne_zero]

theorem ends_le (f : Scale) (h : a ≤ b) : (f.ends a b).1 ≤ (f.ends a b).2 := by
  unfold ends
  split
  · rename_i hfactor
    exact (le_iff_of_neg hfactor).mpr h
  · rename_i hfactor
    exact (le_iff_of_pos (factor_pos hfactor)).mpr h

end Scale

/-! ## Shapes on a new scale -/

variable {f : Scale} {x : Rat}

/-- The profile on the new scale has the same height at the new place of each point. -/
theorem profile_rescale (f : Scale) {a b c d : Rat} (hbc : b ≤ c) :
    profile (f.ends a d).1 (f.ends b c).1 (f.ends b c).2 (f.ends a d).2 (f x) =
      profile a b c d x := by
  unfold Scale.ends
  split
  · rename_i hfactor
    simp only [profile, ← not_le, Scale.le_iff_of_neg hfactor, Scale.sub_div_sub]
    by_cases houtside : x ≤ a ∨ d ≤ x
    · rw [if_pos houtside.symm, if_pos houtside]
    · -- On the new scale the falling side is tried first, and only one of the sides has the point.
      rw [if_neg (mt Or.symm houtside), if_neg houtside]
      rcases lt_or_ge x b with hb | hb
      · rw [if_neg (not_not.mpr (hb.le.trans hbc)), if_neg hb.not_ge, if_pos hb.not_ge,
          ← neg_sub, ← neg_sub b, neg_div_neg_eq]
      · rw [if_pos hb, if_neg (not_not.mpr hb), ite_not]
        split
        · rfl
        · rw [← neg_sub, ← neg_sub d, neg_div_neg_eq]
  · rename_i hfactor
    simp only [profile, ← not_le, Scale.le_iff_of_pos (Scale.factor_pos hfactor),
      Scale.sub_div_sub]

namespace Corners

def map (g : Rat → Rat) : Corners Rat → Corners Rat
  | .triangle a b c => .triangle (g a) (g b) (g c)
  | .trapezoid a b c d => .trapezoid (g a) (g b) (g c) (g d)

def reverse : Corners Rat → Corners Rat
  | .triangle a b c => .triangle c b a
  | .trapezoid a b c d => .trapezoid d c b a

/-- The corners on the new scale, from left to right. -/
def rescale (f : Scale) (cs : Corners Rat) : Corners Rat :=
  if f.factor < 0 then (cs.map f).reverse else cs.map f

variable (cs : Corners Rat)

theorem support_rescale : (cs.rescale f).support = f.ends cs.support.1 cs.support.2 := by
  unfold rescale Scale.ends
  split <;> cases cs <;> rfl

theorem core_rescale : (cs.rescale f).core = f.ends cs.core.1 cs.core.2 := by
  unfold rescale Scale.ends
  split <;> cases cs <;> rfl

theorem finite_rational : cs.finite = true := by
  cases cs <;> rfl

theorem Ordered.map {cs : Corners Rat} {g : Rat → Rat} (hg : Monotone g) (h : cs.Ordered) :
    (cs.map g).Ordered := by
  cases cs with
  | triangle a b c => exact ⟨hg h.1, hg h.2⟩
  | trapezoid a b c d => exact ⟨hg h.1, hg h.2.1, hg h.2.2⟩

theorem Ordered.reverse_map {cs : Corners Rat} {g : Rat → Rat} (hg : Antitone g)
    (h : cs.Ordered) : (cs.map g).reverse.Ordered := by
  cases cs with
  | triangle a b c => exact ⟨hg h.2, hg h.1⟩
  | trapezoid a b c d => exact ⟨hg h.2.2, hg h.2.1, hg h.1⟩

theorem Ordered.rescale {cs : Corners Rat} (h : cs.Ordered) (f : Scale) :
    (cs.rescale f).Ordered := by
  unfold Corners.rescale
  split
  · rename_i hfactor
    exact h.reverse_map fun a b hab => (Scale.le_iff_of_neg hfactor).mpr hab
  · rename_i hfactor
    exact h.map fun a b hab => (Scale.le_iff_of_pos (Scale.factor_pos hfactor)).mpr hab

theorem degenerate_iff : cs.degenerate = true ↔ ∀ a ∈ cs.toList, ∀ b ∈ cs.toList, a = b := by
  cases cs <;> simp [degenerate, toList] <;> grind

theorem mem_toList_rescale {a : Rat} :
    a ∈ (cs.rescale f).toList ↔ ∃ b ∈ cs.toList, f b = a := by
  have hmap : (cs.map f).toList = cs.toList.map f := by cases cs <;> rfl
  have hreverse : (cs.map f).reverse.toList = (cs.map f).toList.reverse := by cases cs <;> rfl
  unfold rescale
  split
  · rw [hreverse, hmap, List.mem_reverse, List.mem_map]
  · rw [hmap, List.mem_map]

theorem degenerate_rescale : (cs.rescale f).degenerate = cs.degenerate := by
  rw [Bool.eq_iff_iff, degenerate_iff, degenerate_iff]
  simp only [mem_toList_rescale]
  constructor
  · intro h a ha b hb
    exact f.injective (h _ ⟨a, ha, rfl⟩ _ ⟨b, hb, rfl⟩)
  · rintro h _ ⟨a, ha, rfl⟩ _ ⟨b, hb, rfl⟩
    rw [h a ha b hb]

end Corners

def Shape.rescale (f : Scale) (s : Shape Rat) : Shape Rat where
  corners := s.corners.rescale f
  finite := Corners.finite_rational _
  ordered := s.ordered.rescale f
  spread := (Corners.degenerate_rescale _).trans s.spread

theorem Shape.degree_rescale (f : Scale) (s : Shape Rat) (x : Rat) :
    (s.rescale f).degree (f x) = s.degree x := by
  rw [degree_eq_profile, degree_eq_profile, left, leftTop, rightTop, right]
  change profile (s.corners.rescale f).support.1 (s.corners.rescale f).core.1
    (s.corners.rescale f).core.2 (s.corners.rescale f).support.2 (f x) = _
  rw [Corners.support_rescale, Corners.core_rescale]
  exact profile_rescale f s.leftTop_le_rightTop

namespace FuzzySet

def rescale (f : Scale) (s : FuzzySet Rat) : FuzzySet Rat := { s with shape := s.shape.rescale f }

theorem map_key_rescale (f : Scale) (sets : List (FuzzySet Rat)) :
    (sets.map (rescale f)).map key = sets.map key := by
  rw [List.map_map]
  rfl

end FuzzySet

/-- The variable on the new scale: its domain and all its sets. -/
def Variable.rescale (f : Scale) (v : Variable Rat) : Variable Rat where
  name := v.name
  start := (f.ends v.start v.stop).1
  stop := (f.ends v.start v.stop).2
  sets := v.sets.map (FuzzySet.rescale f)
  finite_start := rfl
  finite_stop := rfl
  start_le_stop := f.ends_le v.start_le_stop
  distinct := by
    rw [FuzzySet.map_key_rescale]
    exact v.distinct

/-! ## Samples on a new scale -/

/-- Activated sets on the new scale, each with its strength. -/
def rescaled (f : Scale) (activations : List (FuzzySet Rat × Rat)) : List (FuzzySet Rat × Rat) :=
  activations.map fun a => (a.1.rescale f, a.2)

theorem surface_rescaled (f : Scale) (activations : List (FuzzySet Rat × Rat)) (x : Rat) :
    surface (rescaled f activations) (f x) = surface activations x := by
  unfold surface rescaled
  rw [List.map_map]
  congr 1
  refine List.map_congr_left fun a _ => ?_
  exact congrArg (Scalar.least a.2) (a.1.shape.degree_rescale f x)

theorem Variable.midpoint_rescaled {v v' : Variable Rat} (f : Scale)
    (hends : (v'.start, v'.stop) = f.ends v.start v.stop) : v'.midpoint = f v.midpoint := by
  unfold Scale.ends at hends
  unfold midpoint
  split at hends <;> rw [Prod.mk.injEq] at hends <;> rw [hends.1, hends.2] <;>
    unfold Scale.apply <;> ring

/-- Sample points move along with the ends of the domain; if the axis is turned around, they are met
from the other end. -/
theorem Variable.samplePoints_rescaled {v v' : Variable Rat} (f : Scale)
    (hends : (v'.start, v'.stop) = f.ends v.start v.stop) {count : Nat} (hcount : 2 ≤ count) :
    (v'.samplePoints count).Perm ((v.samplePoints count).map f) := by
  unfold Scale.ends at hends
  rw [samplePoints_eq, samplePoints_eq, List.map_map]
  split at hends <;> rw [Prod.mk.injEq] at hends <;> rw [hends.1, hends.2]
  · have hback := (List.range count).reverse_perm
    rw [List.range_eq_range', List.reverse_range', ← List.range_eq_range', Nat.zero_add] at hback
    have hpoints : ∀ i ∈ List.range count,
        f v.stop + i * ((f v.start - f v.stop) / (count - 1 : Nat)) =
          f (v.start + (count - 1 - i : Nat) * ((v.stop - v.start) / (count - 1 : Nat))) := by
      intro i hi
      have hsteps : ((count - 1 : Nat) : Rat) ≠ 0 := Nat.cast_ne_zero.mpr (by omega)
      rw [Nat.cast_sub (Nat.le_sub_one_of_lt (List.mem_range.mp hi))]
      unfold Scale.apply
      field_simp
      ring
    rw [List.map_congr_left hpoints]
    have hperm := hback.map fun i : Nat =>
      f (v.start + i * ((v.stop - v.start) / (count - 1 : Nat)))
    rwa [List.map_map] at hperm
  · refine List.Perm.of_eq (List.map_congr_left fun i _ => ?_)
    unfold Function.comp Scale.apply
    ring

/-- Whether a scale carries the samples of one surface to those of another one. -/
structure Scale.Carries (f : Scale) (v : Variable Rat) (activations : List (FuzzySet Rat × Rat))
    (v' : Variable Rat) (activations' : List (FuzzySet Rat × Rat)) (count : Nat) : Prop where
  samples : (v'.samples activations' count).Perm
    ((v.samples activations count).map fun d => (d.1, f d.2))
  midpoint : v'.midpoint = f v.midpoint

theorem Scale.carries_of_surface {v v' : Variable Rat}
    {activations activations' : List (FuzzySet Rat × Rat)} (f : Scale)
    (hends : (v'.start, v'.stop) = f.ends v.start v.stop) {count : Nat} (hcount : 2 ≤ count)
    (hsurface : ∀ x ∈ v.samplePoints count, surface activations' (f x) = surface activations x) :
    f.Carries v activations v' activations' count := by
  refine ⟨?_, Variable.midpoint_rescaled f hends⟩
  have hperm := (Variable.samplePoints_rescaled f hends hcount).map
    fun x => (surface activations' x, x)
  have hheights : (v.samplePoints count).map (fun x => (surface activations' (f x), f x)) =
      (v.samplePoints count).map fun x => (surface activations x, f x) :=
    List.map_congr_left fun x hx => by rw [hsurface x hx]
  unfold Variable.samples
  rw [List.map_map] at hperm ⊢
  exact hperm.trans (List.Perm.of_eq hheights)

namespace Scale.Carries

variable {v v' : Variable Rat} {activations activations' : List (FuzzySet Rat × Rat)}
  {count : Nat} (h : f.Carries v activations v' activations' count)
include h

theorem heights : ((v'.samples activations' count).map Prod.fst).Perm
    ((v.samples activations count).map Prod.fst) := by
  have hheights := h.samples.map Prod.fst
  rwa [List.map_map] at hheights

theorem mass_eq : v'.mass activations' count = v.mass activations count := h.heights.sum_eq

theorem peak_eq : v'.peak activations' count = v.peak activations count :=
  h.heights.foldl_eq' (fun a _ b _ c => max_right_comm c a b) 0

theorem summit_perm : (v'.summit activations' count).Perm
    ((v.summit activations count).map f) := by
  have hsummit := (h.samples.filter fun d =>
    Scalar.negligible (d.1 - v.peak activations count)).map Prod.snd
  rw [List.filter_map, List.map_map] at hsummit
  unfold Variable.summit
  rw [h.peak_eq, List.map_map]
  exact hsummit

theorem centroidOf_eq : Defuzzifier.centroidOf v' activations' count =
    f (Defuzzifier.centroidOf v activations count) := by
  rw [Defuzzifier.centroidOf_eq, Defuzzifier.centroidOf_eq, h.mass_eq]
  split
  · exact h.midpoint
  · rename_i hmass
    rw [balance_perm h.samples]
    exact balance_map f.factor f.offset (Variable.mass_pos hmass).ne'

theorem meanOfMaxOf_eq : Defuzzifier.meanOfMaxOf v' activations' count =
    f (Defuzzifier.meanOfMaxOf v activations count) := by
  rw [Defuzzifier.meanOfMaxOf_eq, Defuzzifier.meanOfMaxOf_eq, h.peak_eq]
  split
  · exact h.midpoint
  · rename_i hpeak
    have hne := Variable.summit_ne_nil (not_lt.mp hpeak)
    rw [← balance_weights_one, ← balance_weights_one,
      balance_perm (h.summit_perm.map fun x => (1, x)), List.map_map]
    have hmass : (((v.summit activations count).map fun x => ((1 : Rat), x)).map
        Prod.fst).sum ≠ 0 := by
      simpa [Function.comp_def] using hne
    have hmean := balance_map f.factor f.offset hmass
    rwa [List.map_map] at hmean

end Scale.Carries

/-! ## Symmetric surfaces -/

namespace Variable

variable (v : Variable Rat)

/-- Turns the domain around its middle. -/
def turn : Scale := ⟨-1, v.start + v.stop, by decide⟩

theorem turn_apply (x : Rat) : v.turn x = v.start + v.stop - x := by
  change -1 * x + (v.start + v.stop) = _
  ring

theorem ends_turn : (v.start, v.stop) = v.turn.ends v.start v.stop := by
  have hends : v.turn.ends v.start v.stop = (v.turn v.stop, v.turn v.start) :=
    if_pos (show (-1 : Rat) < 0 by decide)
  rw [hends, turn_apply, turn_apply, add_sub_cancel_right, add_sub_cancel_left]

theorem eq_midpoint_of_turn {y : Rat} (h : y = v.turn y) : y = v.midpoint := by
  rw [turn_apply] at h
  unfold midpoint
  linarith

end Variable

namespace Defuzzifier

/-- The results on a new scale are the old ones, read on the new scale. A surface that is symmetric
about the middle of the domain is answered by the middle. -/
theorem apply_rescale (f : Scale) (v : Variable Rat) (activations : List (FuzzySet Rat × Rat))
    (n : SampleCount) :
    (centroid n).apply (v.rescale f) (rescaled f activations) =
        f ((centroid n).apply v activations) ∧
      (meanOfMax n).apply (v.rescale f) (rescaled f activations) =
        f ((meanOfMax n).apply v activations) ∧
      ((∀ x ∈ Set.Icc v.start v.stop,
          surface activations (v.start + v.stop - x) = surface activations x) →
        (centroid n).apply v activations = v.midpoint ∧
          (meanOfMax n).apply v activations = v.midpoint) := by
  have hcount : 2 ≤ n.val := Nat.le_of_succ_le n.property
  have hcarries : f.Carries v activations (v.rescale f) (rescaled f activations) n :=
    f.carries_of_surface rfl hcount fun x _ => surface_rescaled f activations x
  refine ⟨hcarries.centroidOf_eq, hcarries.meanOfMaxOf_eq, fun hsymmetric => ?_⟩
  have hturned : v.turn.Carries v activations v activations n :=
    v.turn.carries_of_surface v.ends_turn hcount fun x hx => by
      rw [v.turn_apply, hsymmetric x (v.mem_samplePoints hx)]
  exact ⟨v.eq_midpoint_of_turn hturned.centroidOf_eq,
    v.eq_midpoint_of_turn hturned.meanOfMaxOf_eq⟩

end Defuzzifier

/-! ## Balancing a beam -/

namespace Beam

def beam : Variable Rat := ⟨"Beam", -20, 20,
  [⟨"Middle", .triangle (-20) 0 20, by decide +kernel, by decide +kernel, by decide +kernel⟩],
  rfl, rfl, by decide +kernel, by simp⟩

/-- A load at the left end. -/
def side : FuzzySet Rat × Rat :=
  (⟨"Load", .triangle (-20) (-20) 0, by decide +kernel, by decide +kernel, by decide +kernel⟩, 1)

/-- A load around the middle. -/
def middle : FuzzySet Rat × Rat :=
  (⟨"Load", .triangle (-12) 0 12, by decide +kernel, by decide +kernel, by decide +kernel⟩, 3 / 4)

def eleven : SampleCount := ⟨11, by decide⟩

/-- Seen from behind, at twice the size and from thirty on. -/
def behind : Scale := ⟨-2, 30, by decide⟩

theorem surface_middle_turned (x : Rat) :
    surface [middle] (beam.start + beam.stop - x) = surface [middle] x := by
  have hsides : beam.turn.ends (-12) 12 = (-12, 12) := by decide +kernel
  have htop : beam.turn.ends 0 0 = (0, 0) := by decide +kernel
  have hprofile : profile (-12) 0 0 12 (beam.turn x) = profile (-12) 0 0 12 x := by
    have hturned := profile_rescale (x := x) beam.turn (a := -12) (d := 12) (le_refl 0)
    rwa [hsides, htop] at hturned
  have hdegree : middle.1.degree (beam.turn x) = middle.1.degree x :=
    calc middle.1.degree (beam.turn x) = profile (-12) 0 0 12 (beam.turn x) :=
          middle.1.shape.degree_eq_profile _
      _ = profile (-12) 0 0 12 x := hprofile
      _ = middle.1.degree x := (middle.1.shape.degree_eq_profile _).symm
  rw [← beam.turn_apply]
  exact congrArg (fun degree => max 0 (min (3 / 4) degree)) hdegree

/-- The load at the side is a fifth of the beam away from its end, also when seen from behind, and
the load around the middle is in balance. -/
theorem apply_rescale_beam :
    (Defuzzifier.centroid eleven).apply beam [side] = -12 ∧
      (Defuzzifier.centroid eleven).apply (beam.rescale behind) (rescaled behind [side]) = 54 ∧
      (Defuzzifier.meanOfMax eleven).apply (beam.rescale behind) (rescaled behind [side]) = 62 ∧
      (Defuzzifier.centroid eleven).apply beam [middle] = 0 ∧
      (Defuzzifier.meanOfMax eleven).apply beam [middle] = 0 := by
  obtain ⟨hcentroid, hmean, -⟩ := Defuzzifier.apply_rescale behind beam [side] eleven
  obtain ⟨-, -, hsymmetric⟩ := Defuzzifier.apply_rescale behind beam [middle] eleven
  obtain ⟨hcentroid', hmean'⟩ := hsymmetric fun x _ => surface_middle_turned x
  have hmidpoint : beam.midpoint = 0 := by decide +kernel
  exact ⟨by decide +kernel, hcentroid.trans (by decide +kernel), hmean.trans (by decide +kernel),
    hcentroid'.trans hmidpoint, hmean'.trans hmidpoint⟩

end Beam

end FuzzyInference
