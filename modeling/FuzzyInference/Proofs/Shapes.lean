import FuzzyInference.Proofs.Degrees
import FuzzyInference.Shape.Basic
import Mathlib.Algebra.Order.Field.Basic
import Mathlib.Order.Interval.Set.Defs
import Mathlib.Order.Monotone.Defs
import Mathlib.Tactic.FieldSimp

/-! Shapes as one formula in their corners. A degree is looked up on the slope that covers the point,
but whichever corners fall together, it comes to the same: nothing outside the support, all on the
top, and a proportion on each side. -/

namespace FuzzyInference

/-! ## Slopes -/

theorem Scalar.clamp_of_isDegree {a : Rat} (ha : IsDegree a) : clamp 0 1 a = a := by
  unfold clamp
  rw [if_neg (not_lt.mpr ha.1), if_neg (not_lt.mpr ha.2)]

namespace Segment

variable {x₀ y₀ x₁ y₁ x : Rat}

/-- Between its two points a line divides the heights as it divides the places. -/
theorem height_through (h : x₀ < x₁) :
    (through x₀ y₀ x₁ y₁).height x = (y₀ * (x₁ - x) + y₁ * (x - x₀)) / (x₁ - x₀) := by
  have hwidth : x₁ - x₀ ≠ 0 := (sub_pos.mpr h).ne'
  change (y₁ - y₀) / (x₁ - x₀) * x + (y₀ - (y₁ - y₀) / (x₁ - x₀) * x₀) = _
  field_simp
  ring

theorem covers_iff {s : Segment Rat} : s.covers x = true ↔ s.start ≤ x ∧ x ≤ s.stop := by
  simp [covers]

theorem isDegree_height (h : x₀ < x₁) (hy₀ : IsDegree y₀) (hy₁ : IsDegree y₁)
    (hx : (through x₀ y₀ x₁ y₁).covers x = true) :
    IsDegree ((through x₀ y₀ x₁ y₁).height x) := by
  obtain ⟨hstart, hstop⟩ := covers_iff.mp hx
  have hleft : 0 ≤ x - x₀ := sub_nonneg.mpr hstart
  have hright : 0 ≤ x₁ - x := sub_nonneg.mpr hstop
  rw [height_through h]
  constructor
  · exact div_nonneg (add_nonneg (mul_nonneg hy₀.1 hright) (mul_nonneg hy₁.1 hleft)) (by linarith)
  · rw [div_le_one (sub_pos.mpr h)]
    calc y₀ * (x₁ - x) + y₁ * (x - x₀) ≤ 1 * (x₁ - x) + 1 * (x - x₀) :=
          add_le_add (mul_le_mul_of_nonneg_right hy₀.2 hright)
            (mul_le_mul_of_nonneg_right hy₁.2 hleft)
      _ = x₁ - x₀ := by ring

end Segment

/-! ## Corners -/

/-- The intended height over four corners from left to right. -/
def profile (left leftTop rightTop right x : Rat) : Rat :=
  if x ≤ left ∨ right ≤ x then 0
  else if x < leftTop then (x - left) / (leftTop - left)
  else if x ≤ rightTop then 1
  else (right - x) / (right - rightTop)

namespace Shape

section Corners

variable {α : Type} [Scalar α]

/-! A triangle has the corners of a trapezoid whose top is one point. -/

def left (s : Shape α) : α := s.corners.support.1

def leftTop (s : Shape α) : α := s.corners.core.1

def rightTop (s : Shape α) : α := s.corners.core.2

def right (s : Shape α) : α := s.corners.support.2

theorem segments_eq (s : Shape α) : s.segments =
    (if s.left < s.leftTop then [.through s.left 0 s.leftTop 1] else [])
      ++ if s.rightTop < s.right then [.through s.rightTop 1 s.right 0] else [] := rfl

theorem mem_segments {s : Shape α} {segment : Segment α} : segment ∈ s.segments ↔
    s.left < s.leftTop ∧ segment = .through s.left 0 s.leftTop 1 ∨
      s.rightTop < s.right ∧ segment = .through s.rightTop 1 s.right 0 := by
  rw [segments_eq, List.mem_append, List.mem_ite_nil_right, List.mem_ite_nil_right,
    List.mem_singleton, List.mem_singleton]

end Corners

variable (s : Shape Rat) {x y p : Rat}

theorem left_le_leftTop : s.left ≤ s.leftTop := by
  have h := s.ordered
  unfold left leftTop
  cases hcorners : s.corners <;> rw [hcorners] at h <;> exact h.1

theorem leftTop_le_rightTop : s.leftTop ≤ s.rightTop := by
  have h := s.ordered
  unfold leftTop rightTop
  cases hcorners : s.corners <;> rw [hcorners] at h
  · exact le_rfl
  · exact h.2.1

theorem rightTop_le_right : s.rightTop ≤ s.right := by
  have h := s.ordered
  unfold rightTop right
  cases hcorners : s.corners <;> rw [hcorners] at h
  · exact h.2
  · exact h.2.2

/-- The degree by its two early answers and the look-up behind them. -/
theorem degree_eq (x : Rat) : s.degree x =
    if x ≤ s.left ∨ s.right ≤ x then 0
    else if s.leftTop ≤ x ∧ x ≤ s.rightTop then 1 else s.onSlope x := by
  unfold degree left leftTop rightTop right
  cases hcorners : s.corners with
  | triangle a b c =>
      have hpeak : (x == b) = true ↔ b ≤ x ∧ x ≤ b := by
        rw [and_comm, ← le_antisymm_iff]
        exact beq_iff_eq
      simp only [hpeak]
      rfl
  | trapezoid a b c d => rfl

/-! ## Looking up a slope -/

/-- No slope leaves the degrees over the points that it covers, so clamping changes nothing. -/
theorem isDegree_of_covers {segment : Segment Rat} (h : segment ∈ s.segments)
    (hx : segment.covers x = true) : IsDegree (segment.height x) := by
  rcases mem_segments.mp h with ⟨hlt, rfl⟩ | ⟨hlt, rfl⟩
  · exact Segment.isDegree_height hlt IsDegree.zero IsDegree.one hx
  · exact Segment.isDegree_height hlt IsDegree.one IsDegree.zero hx

/-- Inside the support every point off the top lies on a slope. -/
theorem isSome_find?_covers (hleft : s.left < x) (hright : x < s.right)
    (htop : ¬ (s.leftTop ≤ x ∧ x ≤ s.rightTop)) :
    (s.segments.find? (·.covers x)).isSome = true := by
  rw [List.find?_isSome]
  rcases lt_or_ge x s.leftTop with hx | hx
  · exact ⟨_, mem_segments.mpr (.inl ⟨hleft.trans hx, rfl⟩),
      Segment.covers_iff.mpr ⟨hleft.le, hx.le⟩⟩
  · have hx : s.rightTop < x := not_le.mp fun h => htop ⟨hx, h⟩
    exact ⟨_, mem_segments.mpr (.inr ⟨hx.trans hright, rfl⟩),
      Segment.covers_iff.mpr ⟨hx.le, hright.le⟩⟩

theorem exists_onSlope (h : (s.segments.find? (·.covers x)).isSome = true) :
    ∃ segment ∈ s.segments, segment.covers x = true ∧ s.onSlope x = segment.height x := by
  obtain ⟨segment, hfound⟩ := Option.isSome_iff_exists.mp h
  have hmem := List.mem_of_find?_eq_some hfound
  have hcovers : segment.covers x = true := by simpa using List.find?_some hfound
  refine ⟨segment, hmem, hcovers, ?_⟩
  unfold onSlope
  rw [hfound]
  exact Scalar.clamp_of_isDegree (s.isDegree_of_covers hmem hcovers)

theorem onSlope_rising (hleft : s.left < x) (htop : x < s.leftTop) :
    s.onSlope x = (x - s.left) / (s.leftTop - s.left) := by
  have hlt : x < s.rightTop := htop.trans_le s.leftTop_le_rightTop
  obtain ⟨segment, hmem, hcovers, hslope⟩ := s.exists_onSlope <|
    s.isSome_find?_covers hleft (hlt.trans_le s.rightTop_le_right) fun h => htop.not_ge h.1
  rcases mem_segments.mp hmem with ⟨hwidth, rfl⟩ | ⟨-, rfl⟩
  · rw [hslope, Segment.height_through hwidth, zero_mul, zero_add, one_mul]
  · exact absurd (Segment.covers_iff.mp hcovers).1 hlt.not_ge

theorem onSlope_falling (htop : s.rightTop < x) (hright : x < s.right) :
    s.onSlope x = (s.right - x) / (s.right - s.rightTop) := by
  have hlt : s.leftTop < x := s.leftTop_le_rightTop.trans_lt htop
  obtain ⟨segment, hmem, hcovers, hslope⟩ := s.exists_onSlope <|
    s.isSome_find?_covers (s.left_le_leftTop.trans_lt hlt) hright fun h => htop.not_ge h.2
  rcases mem_segments.mp hmem with ⟨-, rfl⟩ | ⟨hwidth, rfl⟩
  · exact absurd (Segment.covers_iff.mp hcovers).2 hlt.not_ge
  · rw [hslope, Segment.height_through hwidth, one_mul, zero_mul, add_zero]

/-! ## Degrees -/

theorem degree_outside (h : x ≤ s.left ∨ s.right ≤ x) : s.degree x = 0 := by
  rw [degree_eq, if_pos h]

theorem degree_top (hleft : s.left < x) (hright : x < s.right) (hrise : s.leftTop ≤ x)
    (hfall : x ≤ s.rightTop) : s.degree x = 1 := by
  rw [degree_eq, if_neg (by simp [hleft, hright]), if_pos ⟨hrise, hfall⟩]

theorem degree_rising (hleft : s.left < x) (htop : x < s.leftTop) :
    s.degree x = (x - s.left) / (s.leftTop - s.left) := by
  have hright : x < s.right :=
    htop.trans_le (s.leftTop_le_rightTop.trans s.rightTop_le_right)
  rw [degree_eq, if_neg (by simp [hleft, hright]), if_neg fun h => htop.not_ge h.1,
    s.onSlope_rising hleft htop]

theorem degree_falling (htop : s.rightTop < x) (hright : x < s.right) :
    s.degree x = (s.right - x) / (s.right - s.rightTop) := by
  have hleft : s.left < x := (s.left_le_leftTop.trans s.leftTop_le_rightTop).trans_lt htop
  rw [degree_eq, if_neg (by simp [hleft, hright]), if_neg fun h => htop.not_ge h.2,
    s.onSlope_falling htop hright]

theorem degree_eq_profile (x : Rat) :
    s.degree x = profile s.left s.leftTop s.rightTop s.right x := by
  unfold profile
  split
  · rename_i houtside
    exact s.degree_outside houtside
  · rename_i hinside
    rw [not_or, not_le, not_le] at hinside
    split
    · rename_i hx
      exact s.degree_rising hinside.1 hx
    · rename_i hx
      split
      · rename_i hx'
        exact s.degree_top hinside.1 hinside.2 (not_lt.mp hx) hx'
      · rename_i hx'
        exact s.degree_falling (not_le.mp hx') hinside.2

theorem isDegree_degree (x : Rat) : IsDegree (s.degree x) := by
  rw [degree_eq]
  split
  · exact IsDegree.zero
  · rename_i hinside
    rw [not_or, not_le, not_le] at hinside
    split
    · exact IsDegree.one
    · rename_i htop
      obtain ⟨segment, hmem, hcovers, hslope⟩ := s.exists_onSlope <|
        s.isSome_find?_covers hinside.1 hinside.2 htop
      rw [hslope]
      exact s.isDegree_of_covers hmem hcovers

theorem lt_and_lt_of_degree_pos (h : 0 < s.degree x) : s.left < x ∧ x < s.right := by
  rw [← not_le, ← not_le, ← not_or]
  intro houtside
  rw [s.degree_outside houtside] at h
  exact lt_irrefl 0 h

/-- Up to a point of the top, degrees rise until they are one. -/
theorem monotoneOn_degree (hp : p ≤ s.rightTop) :
    MonotoneOn s.degree (Set.Ioo s.left s.right ∩ Set.Iic p) := by
  rintro x ⟨⟨hxleft, -⟩, -⟩ y ⟨⟨hyleft, hyright⟩, hyp⟩ hxy
  rcases lt_or_ge y s.leftTop with hy | hy
  · rw [s.degree_rising hxleft (hxy.trans_lt hy), s.degree_rising hyleft hy]
    exact div_le_div_of_nonneg_right (sub_le_sub_right hxy _) (by linarith)
  · rw [s.degree_top hyleft hyright hy (le_trans hyp hp)]
    exact (s.isDegree_degree x).2

theorem antitoneOn_degree (hp : s.leftTop ≤ p) :
    AntitoneOn s.degree (Set.Ioo s.left s.right ∩ Set.Ici p) := by
  rintro x ⟨⟨hxleft, hxright⟩, hxp⟩ y ⟨⟨-, hyright⟩, -⟩ hxy
  rcases lt_or_ge s.rightTop x with hx | hx
  · rw [s.degree_falling hx hxright, s.degree_falling (hx.trans_le hxy) hyright]
    exact div_le_div_of_nonneg_right (sub_le_sub_left hxy _) (by linarith)
  · rw [s.degree_top hxleft hxright (le_trans hp hxp) hx]
    exact (s.isDegree_degree y).2

/-- The degree is the profile of the corners, whichever of them fall together. A slope is found where
one is looked up, and its height is a degree already. Inside the support the degree rises up to each
point of the top and falls from there on. -/
theorem degree_follows_profile :
    (∀ x, s.degree x = profile s.left s.leftTop s.rightTop s.right x) ∧
      (∀ x, IsDegree (s.degree x)) ∧
      (∀ segment ∈ s.segments, ∀ x, segment.covers x = true →
        Scalar.clamp 0 1 (segment.height x) = segment.height x) ∧
      (∀ x, s.left < x → x < s.right → ¬ (s.leftTop ≤ x ∧ x ≤ s.rightTop) →
        (s.segments.find? (·.covers x)).isSome = true) ∧
      ∀ p ∈ Set.Icc s.leftTop s.rightTop,
        MonotoneOn s.degree (Set.Ioo s.left s.right ∩ Set.Iic p) ∧
          AntitoneOn s.degree (Set.Ioo s.left s.right ∩ Set.Ici p) := by
  refine ⟨s.degree_eq_profile, s.isDegree_degree, fun segment hmem x hcovers => ?_,
    fun x => s.isSome_find?_covers, fun p hp => ⟨s.monotoneOn_degree hp.2, s.antitoneOn_degree hp.1⟩⟩
  exact Scalar.clamp_of_isDegree (s.isDegree_of_covers hmem hcovers)

/-- A shoulder: the right side is vertical, so the top reaches to the end of the support. -/
def shoulder : Shape Rat :=
  ⟨.trapezoid 100 140 200 200, by decide +kernel, by decide +kernel, by decide +kernel⟩

theorem degree_follows_profile_shoulder :
    shoulder.degree 120 = 1 / 2 ∧ shoulder.degree 199 = 1 ∧ shoulder.degree 200 = 0 ∧
      (shoulder.segments.find? (·.covers 120)).isSome = true ∧
      (∀ segment ∈ shoulder.segments, segment.covers 120 = true →
        Scalar.clamp 0 1 (segment.height 120) = segment.height 120) ∧
      shoulder.degree 120 ≤ shoulder.degree 199 ∧ shoulder.degree 199 ≤ shoulder.degree 150 := by
  obtain ⟨hprofile, -, hclamp, hfound, hmonotone⟩ := shoulder.degree_follows_profile
  have hrises := (hmonotone 200 (by decide +kernel)).1
  have hfalls := (hmonotone 140 (by decide +kernel)).2
  exact ⟨(hprofile 120).trans (by decide +kernel), (hprofile 199).trans (by decide +kernel),
    (hprofile 200).trans (by decide +kernel),
    hfound 120 (by decide +kernel) (by decide +kernel) (by decide +kernel),
    fun segment hmem => hclamp segment hmem 120,
    hrises (by decide +kernel) (by decide +kernel) (by decide +kernel),
    hfalls (by decide +kernel) (by decide +kernel) (by decide +kernel)⟩

end Shape

end FuzzyInference
