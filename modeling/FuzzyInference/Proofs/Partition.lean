import FuzzyInference.Proofs.Labels
import FuzzyInference.Proofs.Shapes
import FuzzyInference.Reading
import Mathlib.Algebra.BigOperators.Group.List.Basic
import Mathlib.Data.List.Pairwise

/-! Fuzzy partitions. Triangles that reach from one breakpoint to the next but one add up to one
between the outer breakpoints: wherever one of them falls, the next one rises. -/

namespace FuzzyInference

/-! ## Neighbouring shapes -/

section Profile

variable {left leftTop rightTop right x : Rat}

theorem profile_outside (h : x ≤ left ∨ right ≤ x) :
    profile left leftTop rightTop right x = 0 := if_pos h

theorem profile_inside (hleft : left < x) (hright : x < right) :
    profile left leftTop rightTop right x =
      if x < leftTop then (x - left) / (leftTop - left)
      else if x ≤ rightTop then 1 else (right - x) / (right - rightTop) :=
  if_neg (not_or.mpr ⟨hleft.not_ge, hright.not_ge⟩)

/-- A triangle and the top that begins where it ends make one top that begins at its peak. -/
theorem profile_add {left peak next right : Rat} (hleft : left ≤ peak) (hnext : peak < next)
    (hright : next ≤ right) (x : Rat) :
    profile left peak peak next x + profile peak next right right x =
      profile left peak right right x := by
  rcases le_or_gt x peak with hx | hx
  · -- Up to its peak the triangle is alone.
    have hlt : x < next := hx.trans_lt hnext
    have hlt' : x < right := hlt.trans_le hright
    rw [profile_outside (.inl hx), add_zero]
    simp only [profile, hx, hlt.not_ge, hlt'.not_ge, hlt'.le, if_true]
  have hleft' : left < x := hleft.trans_lt hx
  rcases le_or_gt right x with hx' | hx'
  · rw [profile_outside (.inr (hright.trans hx')), profile_outside (.inr hx'),
      profile_outside (.inr hx'), add_zero]
  rw [profile_inside hx hx', if_pos hx'.le, profile_inside hleft' hx', if_neg hx.not_gt,
    if_pos hx'.le]
  rcases lt_or_ge x next with hx'' | hx''
  · -- The triangle falls as the top rises.
    have hwidth : next - peak ≠ 0 := (sub_pos.mpr hnext).ne'
    rw [profile_inside hleft' hx'', if_neg hx.not_gt, if_neg hx.not_ge, if_pos hx'']
    field_simp
    ring
  · rw [profile_outside (.inr hx''), if_neg hx''.not_gt, zero_add]

end Profile

/-! ## Triangles over breakpoints -/

/-- The triangles with the given peaks. Each of them reaches from the peak before it, which for the
first one is `left`, to the peak behind it, which for the last one is its own. -/
def triangles (left : Rat) : List Rat → List (Corners Rat)
  | [] => []
  | [peak] => [.triangle left peak peak]
  | peak :: next :: peaks => .triangle left peak next :: triangles peak (next :: peaks)

theorem Shape.exists_ofCorners_triangle {left peak right : Rat} (hleft : left ≤ peak)
    (hright : peak ≤ right) (hlt : left < right) :
    ∃ s, ofCorners (.triangle left peak right) = .ok s := by
  have hspread : (Corners.triangle left peak right).degenerate = false := by
    rw [← Bool.not_eq_true, Corners.degenerate_iff_isChain]
    intro h
    simp only [Corners.toList, List.isChain_cons_cons, beq_iff_eq] at h
    exact hlt.ne (h.1.trans h.2.1)
  exact ⟨⟨.triangle left peak right, rfl, ⟨hleft, hright⟩, hspread⟩, ofCorners_eq_ok_iff.mpr rfl⟩

section Triangles

variable {left peak : Rat} {peaks : List Rat}

theorem exists_ofCorners_triangles (hleft : left ≤ peak) (hlt : peaks = [] → left < peak)
    (hpeaks : (peak :: peaks).Pairwise (· < ·)) :
    ∀ cs ∈ triangles left (peak :: peaks), ∃ s, Shape.ofCorners cs = .ok s := by
  induction peaks generalizing left peak with
  | nil =>
      rw [triangles, List.forall_mem_singleton]
      exact Shape.exists_ofCorners_triangle hleft le_rfl (hlt rfl)
  | cons next peaks ih =>
      rw [List.pairwise_cons] at hpeaks
      have hnext : peak < next := hpeaks.1 next List.mem_cons_self
      rw [triangles, List.forall_mem_cons]
      exact ⟨Shape.exists_ofCorners_triangle hleft hnext.le (hleft.trans_lt hnext),
        ih hnext.le (fun _ => hnext) hpeaks.2⟩

/-- The height of a shape over its corners. -/
def Corners.height (cs : Corners Rat) (x : Rat) : Rat :=
  profile cs.support.1 cs.core.1 cs.core.2 cs.support.2 x

/-- Triangles add up to a top that begins at the first peak and ends at the last one. -/
theorem sum_height_triangles (hleft : left ≤ peak) (hpeaks : (peak :: peaks).Pairwise (· < ·))
    (x : Rat) : ((triangles left (peak :: peaks)).map (·.height x)).sum =
      profile left peak ((peak :: peaks).getLast (List.cons_ne_nil _ _))
        ((peak :: peaks).getLast (List.cons_ne_nil _ _)) x := by
  induction peaks generalizing left peak with
  | nil => exact List.sum_singleton
  | cons next peaks ih =>
      rw [List.pairwise_cons] at hpeaks
      have hnext : peak < next := hpeaks.1 next List.mem_cons_self
      have hright : next ≤ (next :: peaks).getLast (List.cons_ne_nil _ _) :=
        (hpeaks.2.imp le_of_lt).rel_getLast List.mem_cons_self
      rw [triangles, List.map_cons, List.sum_cons, ih hnext.le hpeaks.2,
        List.getLast_cons (List.cons_ne_nil _ _)]
      exact profile_add hleft hnext hright x

end Triangles

/-! ## Total degrees -/

theorem Variable.total_fuzzify (v : Variable Rat) (x : Rat) :
    (v.fuzzify x).total = ((v.sets.map fun s => s.shape.corners).map (·.height x)).sum := by
  have hdegrees : (v.fuzzify x).degrees.map Prod.snd =
      (v.sets.map fun s => s.shape.corners).map (·.height x) := by
    rw [fuzzify, List.map_map, List.map_map]
    exact List.map_congr_left fun s _ => s.shape.degree_eq_profile x
  rw [Reading.total, hdegrees, List.sum_eq_foldl]
  rfl

/-- Triangles over strictly increasing breakpoints are shapes, and a variable can be made of sets with
these shapes if their labels are distinct. Its degrees add up to one strictly between the first and
the last breakpoint, and to zero elsewhere. -/
theorem Variable.total_triangles {first : Rat} {rest : List Rat} (hrest : rest ≠ [])
    (hpoints : (first :: rest).Pairwise (· < ·)) :
    (∀ cs ∈ triangles first (first :: rest), ∃ s, Shape.ofCorners cs = .ok s) ∧
      ∀ (name : String) (start stop : Rat) (sets : List (FuzzySet Rat)), start ≤ stop →
        FuzzySet.Distinct sets →
        List.Forall₂ (fun cs s => Shape.ofCorners cs = .ok s.shape)
          (triangles first (first :: rest)) sets →
        ∃ v, make name start stop sets = .ok v ∧
          ∀ x, (first < x → x < rest.getLast hrest → (v.fuzzify x).total = 1) ∧
            (x ≤ first ∨ rest.getLast hrest ≤ x → (v.fuzzify x).total = 0) := by
  refine ⟨exists_ofCorners_triangles le_rfl (fun h => absurd h hrest) hpoints, ?_⟩
  intro name start stop sets hdomain hlabels hshapes
  obtain ⟨u, -, hmake⟩ := make_of_domain ⟨rfl, rfl, hdomain⟩ name sets
  refine ⟨_, hmake.trans (withSets_of_distinct hlabels), fun x => ?_⟩
  have hcorners : triangles first (first :: rest) = sets.map fun s => s.shape.corners := by
    rw [← List.forall₂_eq_eq_eq, List.forall₂_map_right_iff]
    exact hshapes.imp fun _ _ h => (Shape.ofCorners_eq_ok_iff.mp h).symm
  have htotal := sum_height_triangles le_rfl hpoints x
  rw [hcorners, List.getLast_cons hrest] at htotal
  rw [total_fuzzify, htotal]
  refine ⟨fun hfirst hlast => ?_, profile_outside⟩
  rw [profile_inside hfirst hlast, if_neg hfirst.not_gt, if_pos hlast.le]

/-! ## The temperature of a bath -/

namespace Bath

def cold : FuzzySet Rat :=
  ⟨"Cold", .triangle 10 10 18, by decide +kernel, by decide +kernel, by decide +kernel⟩

def mild : FuzzySet Rat :=
  ⟨"Mild", .triangle 10 18 42, by decide +kernel, by decide +kernel, by decide +kernel⟩

def hot : FuzzySet Rat :=
  ⟨"Hot", .triangle 18 42 42, by decide +kernel, by decide +kernel, by decide +kernel⟩

/-- Between the coldest and the hottest bath, which are in no set, all is shared out. -/
theorem total_triangles_bath :
    ∃ v, Variable.make "Water" 0 100 [cold, mild, hot] = .ok v ∧
      (v.fuzzify 12).total = 1 ∧ (v.fuzzify 18).total = 1 ∧ (v.fuzzify 39).total = 1 ∧
      (v.fuzzify 10).total = 0 ∧ (v.fuzzify 42).total = 0 := by
  have hshapes : List.Forall₂ (fun cs s => Shape.ofCorners cs = .ok s.shape)
      (triangles 10 [10, 18, 42]) [cold, mild, hot] :=
    .cons rfl (.cons rfl (.cons rfl .nil))
  obtain ⟨-, htotal⟩ := Variable.total_triangles (List.cons_ne_nil (18 : Rat) [42])
    (by decide +kernel : [(10 : Rat), 18, 42].Pairwise (· < ·))
  obtain ⟨v, hmake, hv⟩ :=
    htotal "Water" 0 100 [cold, mild, hot] (by decide +kernel) (by decide +kernel) hshapes
  exact ⟨v, hmake, (hv 12).1 (by decide +kernel) (by decide +kernel),
    (hv 18).1 (by decide +kernel) (by decide +kernel),
    (hv 39).1 (by decide +kernel) (by decide +kernel), (hv 10).2 (.inl le_rfl),
    (hv 42).2 (.inr le_rfl)⟩

end Bath

end FuzzyInference
