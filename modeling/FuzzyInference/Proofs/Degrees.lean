import FuzzyInference.Inference.Strength
import FuzzyInference.Proofs.Fallible
import FuzzyInference.Scalar.Rational
import Mathlib.Tactic.Linarith
import Mathlib.Tactic.Ring

/-! Degrees, the rationals from zero to one. Whatever the operators are, the conditions of a rule join
degrees to a degree. -/

namespace FuzzyInference

/-- A degree of membership or of truth. -/
def IsDegree (a : Rat) : Prop := 0 ≤ a ∧ a ≤ 1

instance (a : Rat) : Decidable (IsDegree a) := inferInstanceAs (Decidable (0 ≤ a ∧ a ≤ 1))

variable {a b : Rat}

theorem IsDegree.zero : IsDegree 0 := by simp [IsDegree]

theorem IsDegree.one : IsDegree 1 := ⟨zero_le_one, le_rfl⟩

/-! ## Operators -/

theorem IsDegree.mul (ha : IsDegree a) (hb : IsDegree b) : IsDegree (a * b) :=
  ⟨mul_nonneg ha.1 hb.1, mul_le_one₀ ha.2 hb.1 hb.2⟩

theorem TNorm.isDegree_apply (t : TNorm) (ha : IsDegree a) (hb : IsDegree b) :
    IsDegree (t.apply a b) := by
  obtain ⟨ha0, ha1⟩ := ha
  obtain ⟨hb0, hb1⟩ := hb
  cases t with
  | min => exact ⟨le_min ha0 hb0, min_le_of_left_le ha1⟩
  | product => exact IsDegree.mul ⟨ha0, ha1⟩ ⟨hb0, hb1⟩
  | lukasiewicz =>
      refine ⟨le_max_right _ _, max_le ?_ zero_le_one⟩
      linarith

theorem SNorm.probabilisticSum_eq (a b : Rat) :
    SNorm.probabilisticSum.apply a b = 1 - (1 - a) * (1 - b) := by
  change a + b - a * b = _
  ring

/-- Cutting a sum at one before something is added shows in nothing that is cut again. -/
theorem SNorm.boundedSum_apply_min (c : Rat) (hb : 0 ≤ b) :
    SNorm.boundedSum.apply (min c 1) b = min (c + b) 1 := by
  change min (min c 1 + b) 1 = min (c + b) 1
  rw [min_add, min_assoc, min_eq_right (le_add_of_nonneg_right hb)]

theorem SNorm.isDegree_apply (s : SNorm) (ha : IsDegree a) (hb : IsDegree b) :
    IsDegree (s.apply a b) := by
  obtain ⟨ha0, ha1⟩ := ha
  obtain ⟨hb0, hb1⟩ := hb
  cases s with
  | max => exact ⟨le_max_of_le_left ha0, max_le ha1 hb1⟩
  | boundedSum => exact ⟨le_min (add_nonneg ha0 hb0) zero_le_one, min_le_right _ _⟩
  | probabilisticSum =>
      rw [probabilisticSum_eq]
      have hnot : IsDegree ((1 - a) * (1 - b)) :=
        IsDegree.mul ⟨by linarith, by linarith⟩ ⟨by linarith, by linarith⟩
      exact ⟨by linarith [hnot.2], by linarith [hnot.1]⟩

/-! On degrees the operators are monotone and have a unit, so a conjunction is at most each of its
parts and a disjunction at least. -/

theorem TNorm.apply_comm (t : TNorm) (a b : Rat) : t.apply a b = t.apply b a := by
  cases t with
  | min => exact min_comm a b
  | product => exact mul_comm a b
  | lukasiewicz =>
      change max (a + b - 1) 0 = max (b + a - 1) 0
      rw [add_comm a b]

theorem TNorm.apply_one (t : TNorm) (ha : IsDegree a) : t.apply a 1 = a := by
  cases t with
  | min => exact min_eq_left ha.2
  | product => exact mul_one a
  | lukasiewicz =>
      change max (a + 1 - 1) 0 = a
      rw [add_sub_cancel_right, max_eq_left ha.1]

theorem TNorm.apply_le_apply (t : TNorm) {a' b' : Rat} (hb : IsDegree b) (ha' : IsDegree a')
    (haa' : a ≤ a') (hbb' : b ≤ b') : t.apply a b ≤ t.apply a' b' := by
  cases t with
  | min => exact min_le_min haa' hbb'
  | product => exact mul_le_mul haa' hbb' hb.1 ha'.1
  | lukasiewicz =>
      refine max_le_max_right 0 ?_
      linarith

theorem TNorm.apply_le_left (t : TNorm) (ha : IsDegree a) (hb : IsDegree b) : t.apply a b ≤ a :=
  calc t.apply a b ≤ t.apply a 1 := t.apply_le_apply hb ha le_rfl hb.2
    _ = a := t.apply_one ha

theorem TNorm.apply_le_right (t : TNorm) (ha : IsDegree a) (hb : IsDegree b) :
    t.apply a b ≤ b := by
  rw [t.apply_comm]
  exact t.apply_le_left hb ha

theorem SNorm.apply_comm (s : SNorm) (a b : Rat) : s.apply a b = s.apply b a := by
  cases s with
  | max => exact max_comm a b
  | boundedSum =>
      change min (a + b) 1 = min (b + a) 1
      rw [add_comm a b]
  | probabilisticSum => rw [probabilisticSum_eq, probabilisticSum_eq, mul_comm (1 - a)]

theorem SNorm.apply_zero (s : SNorm) (ha : IsDegree a) : s.apply a 0 = a := by
  cases s with
  | max => exact max_eq_left ha.1
  | boundedSum =>
      change min (a + 0) 1 = a
      rw [add_zero, min_eq_left ha.2]
  | probabilisticSum =>
      rw [probabilisticSum_eq]
      ring

theorem SNorm.apply_le_apply (s : SNorm) {a' b' : Rat} (ha' : IsDegree a') (hb' : IsDegree b')
    (haa' : a ≤ a') (hbb' : b ≤ b') : s.apply a b ≤ s.apply a' b' := by
  cases s with
  | max => exact max_le_max haa' hbb'
  | boundedSum => exact min_le_min_right 1 (add_le_add haa' hbb')
  | probabilisticSum =>
      have ha' := ha'.2
      have hb' := hb'.2
      have hmul : (1 - a') * (1 - b') ≤ (1 - a) * (1 - b) :=
        mul_le_mul (by linarith) (by linarith) (by linarith) (by linarith)
      rw [probabilisticSum_eq, probabilisticSum_eq]
      linarith

theorem SNorm.le_apply_left (s : SNorm) (ha : IsDegree a) (hb : IsDegree b) : a ≤ s.apply a b :=
  calc a = s.apply a 0 := (s.apply_zero ha).symm
    _ ≤ s.apply a b := s.apply_le_apply ha hb le_rfl hb.1

theorem SNorm.le_apply_right (s : SNorm) (ha : IsDegree a) (hb : IsDegree b) :
    b ≤ s.apply a b := by
  rw [s.apply_comm]
  exact s.le_apply_left hb ha

theorem Connective.isDegree_combine (c : Connective) (t : TNorm) (s : SNorm) (ha : IsDegree a)
    (hb : IsDegree b) : IsDegree (c.combine t s a b) := by
  cases c with
  | and => exact t.isDegree_apply ha hb
  | or => exact s.isDegree_apply ha hb

theorem Connective.combine_le_combine (c : Connective) (t : TNorm) (s : SNorm) {a' b' : Rat}
    (hb : IsDegree b) (ha' : IsDegree a') (hb' : IsDegree b') (haa' : a ≤ a') (hbb' : b ≤ b') :
    c.combine t s a b ≤ c.combine t s a' b' := by
  cases c with
  | and => exact t.apply_le_apply hb ha' haa' hbb'
  | or => exact s.apply_le_apply ha' hb' haa' hbb'

/-! ## Implied activations -/

/-- A greater strength implies no less. -/
theorem Implication.apply_le_apply (i : Implication) {s s' : Rat} (h : s ≤ s') :
    i.apply s 1 ≤ i.apply s' 1 := by
  cases i with
  | min => exact min_le_min_right 1 h
  | product => exact mul_le_mul_of_nonneg_right h zero_le_one

theorem Implication.isDegree_apply (i : Implication) (ha : IsDegree a) :
    IsDegree (i.apply a 1) := by
  cases i with
  | min => exact ⟨le_min ha.1 zero_le_one, min_le_right _ _⟩
  | product => exact ha.mul IsDegree.one

theorem Implication.apply_nonneg (i : Implication) {s : Rat} (h : 0 ≤ s) : 0 ≤ i.apply s 1 := by
  cases i with
  | min => exact le_min h zero_le_one
  | product => exact mul_nonneg h zero_le_one

/-! ## Conditions -/

/-- Readings that hold nothing but degrees. -/
def Readings.Graded (readings : Readings Rat) : Prop :=
  ∀ r ∈ readings.readings, ∀ d ∈ r.degrees, IsDegree d.2

instance (readings : Readings Rat) : Decidable readings.Graded :=
  inferInstanceAs (Decidable (∀ r ∈ readings.readings, ∀ d ∈ r.degrees, IsDegree d.2))

variable {readings : Readings Rat}

theorem Readings.Graded.degree (h : readings.Graded) (name label : String) :
    IsDegree (readings.degree name label) := by
  unfold Readings.degree
  cases hfound : (readings.get? name).bind (·.degree? label) with
  | none => exact IsDegree.zero
  | some x =>
      rw [Option.bind_eq_some_iff] at hfound
      obtain ⟨r, hr, hx⟩ := hfound
      obtain ⟨d, hd, rfl⟩ := Reading.exists_mem_of_degree? hx
      exact h r (List.mem_of_find?_eq_some hr) d hd

theorem Antecedent.isDegree_degree (h : readings.Graded) {c : Antecedent Rat}
    (hc : c.degree readings = .ok a) : IsDegree a := by
  unfold Antecedent.degree at hc
  split at hc
  · cases hc
    exact h.degree _ _
  · cases hc

namespace Rule

theorem strength_eq_ok_iff {α : Type} [Scalar α] {norms : Norms} {readings : Readings α}
    {r : Rule α} {s : α} : r.strength norms readings = .ok s ↔
      ∃ d, r.condition norms readings = .ok d ∧ s = d * r.weight := by
  simp only [strength, bind_eq_ok, Except.ok.injEq, @eq_comm _ s]

theorem isDegree_joinDegrees (h : readings.Graded) {norms : Norms} {cs : List Connective}
    {as : List (Antecedent Rat)} (ha : IsDegree a)
    (hb : joinDegrees norms readings a cs as = .ok b) : IsDegree b := by
  induction as generalizing a cs with
  | nil =>
      cases cs <;> cases hb <;> exact ha
  | cons c as ih =>
      cases cs with
      | nil =>
          cases hb
          exact ha
      | cons connective cs =>
          rw [joinDegrees, bind_eq_ok] at hb
          obtain ⟨x, hx, hb⟩ := hb
          exact ih (connective.isDegree_combine _ _ ha (c.isDegree_degree h hx)) hb

/-- The degree of a rule is zero, or its further parts joined to the first. -/
theorem condition_eq_ok {α : Type} [Scalar α] {norms : Norms} {readings : Readings α} {r : Rule α}
    {d : α} (h : r.condition norms readings = .ok d) :
    (r.antecedents = [] ∧ d = 0) ∨
      ∃ first rest x, r.antecedents = first :: rest ∧ r.connectives.length = rest.length ∧
        first.degree readings = .ok x ∧
        joinDegrees norms readings x r.connectives rest = .ok d := by
  unfold condition at h
  split at h
  · rename_i hnone
    cases h
    exact .inl ⟨hnone, rfl⟩
  · rename_i first rest hsome
    split at h
    · rename_i hlength
      obtain ⟨x, hx, h⟩ := bind_eq_ok.mp h
      exact .inr ⟨first, rest, x, hsome, hlength, hx, h⟩
    · cases h

/-- The condition of a rule holds to some degree. -/
theorem isDegree_condition (h : readings.Graded) {norms : Norms} {r : Rule Rat}
    (ha : r.condition norms readings = .ok a) : IsDegree a := by
  rcases condition_eq_ok ha with ⟨-, rfl⟩ | ⟨first, rest, x, -, -, hx, hjoin⟩
  · exact IsDegree.zero
  · exact isDegree_joinDegrees h (first.isDegree_degree h hx) hjoin

end Rule

end FuzzyInference
