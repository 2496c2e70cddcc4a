import FuzzyInference.Proofs.Conditions
import Mathlib.Data.List.Perm.Basic
import Mathlib.Data.List.Rotate

/-! Joining degrees in any order. On degrees the operators make commutative monoids, so conditions that
are joined by AND alone, or by OR alone, may be written in any order. -/

namespace FuzzyInference

/-! ## Operators -/

/-- An operator that joins degrees to a degree, in whatever order and grouping, and for which one degree
has no effect. Beyond one and below zero this need not hold. -/
structure JoinsDegrees (op : Rat → Rat → Rat) (unit : Rat) : Prop where
  isDegree_unit : IsDegree unit
  isDegree : ∀ a b, IsDegree a → IsDegree b → IsDegree (op a b)
  comm : ∀ a b, IsDegree a → IsDegree b → op a b = op b a
  assoc : ∀ a b c, IsDegree a → IsDegree b → IsDegree c → op (op a b) c = op a (op b c)
  op_unit : ∀ a, IsDegree a → op a unit = a

variable {a b c : Rat}

/-- What two degrees lack together may be cut at zero before or after the next degree. -/
theorem TNorm.lukasiewicz_apply_max (a : Rat) (hb : b ≤ 1) :
    TNorm.lukasiewicz.apply (max a 0) b = max (a + b - 1) 0 := by
  change max (max a 0 + b - 1) 0 = max (a + b - 1) 0
  rw [add_sub_assoc, max_add, max_assoc, zero_add, max_eq_right (sub_nonpos.mpr hb), add_sub_assoc]

theorem TNorm.apply_assoc (t : TNorm) (ha : IsDegree a) (hc : IsDegree c) :
    t.apply (t.apply a b) c = t.apply a (t.apply b c) := by
  cases t with
  | min => exact min_assoc a b c
  | product => exact mul_assoc a b c
  | lukasiewicz =>
      calc TNorm.lukasiewicz.apply (max (a + b - 1) 0) c
          = max (a + b - 1 + c - 1) 0 := lukasiewicz_apply_max _ hc.2
        _ = max (b + c - 1 + a - 1) 0 := by
          congr 1
          ring
        _ = TNorm.lukasiewicz.apply (max (b + c - 1) 0) a := (lukasiewicz_apply_max _ ha.2).symm
        _ = TNorm.lukasiewicz.apply a (max (b + c - 1) 0) := TNorm.apply_comm _ _ _

theorem SNorm.apply_assoc (s : SNorm) (ha : IsDegree a) (hc : IsDegree c) :
    s.apply (s.apply a b) c = s.apply a (s.apply b c) := by
  cases s with
  | max => exact max_assoc a b c
  | boundedSum =>
      calc SNorm.boundedSum.apply (min (a + b) 1) c
          = min (a + b + c) 1 := boundedSum_apply_min _ hc.1
        _ = min (b + c + a) 1 := by
          congr 1
          ring
        _ = SNorm.boundedSum.apply (min (b + c) 1) a := (boundedSum_apply_min _ ha.1).symm
        _ = SNorm.boundedSum.apply a (min (b + c) 1) := SNorm.apply_comm _ _ _
  | probabilisticSum =>
      simp only [probabilisticSum_eq]
      ring

theorem TNorm.joinsDegrees (t : TNorm) : JoinsDegrees t.apply 1 where
  isDegree_unit := IsDegree.one
  isDegree _ _ ha hb := t.isDegree_apply ha hb
  comm a b _ _ := t.apply_comm a b
  assoc _ _ _ ha _ hc := t.apply_assoc ha hc
  op_unit _ ha := t.apply_one ha

theorem SNorm.joinsDegrees (s : SNorm) : JoinsDegrees s.apply 0 where
  isDegree_unit := IsDegree.zero
  isDegree _ _ ha hb := s.isDegree_apply ha hb
  comm a b _ _ := s.apply_comm a b
  assoc _ _ _ ha _ hc := s.apply_assoc ha hc
  op_unit _ ha := s.apply_zero ha

/-- The degree that joining does not notice. -/
def Connective.unit : Connective → Rat
  | .and => 1
  | .or => 0

theorem Connective.joinsDegrees (c : Connective) (t : TNorm) (s : SNorm) :
    JoinsDegrees (c.combine t s) c.unit := by
  cases c with
  | and => exact t.joinsDegrees
  | or => exact s.joinsDegrees

/-! ## Degrees in any order -/

namespace JoinsDegrees

variable {op : Rat → Rat → Rat} {unit : Rat} {xs ys : List Rat}

theorem right_comm (h : JoinsDegrees op unit) (ha : IsDegree a) (hb : IsDegree b)
    (hc : IsDegree c) : op (op a b) c = op (op a c) b := by
  rw [h.assoc a b c ha hb hc, h.comm b c hb hc, ← h.assoc a c b ha hc hb]

theorem foldl_perm (h : JoinsDegrees op unit) (hperm : xs.Perm ys) (hxs : ∀ x ∈ xs, IsDegree x)
    (ha : IsDegree a) : xs.foldl op a = ys.foldl op a := by
  -- What has been joined so far stays a degree, where the operator may be reordered.
  induction hperm generalizing a with
  | nil => rfl
  | cons x _ ih =>
      rw [List.forall_mem_cons] at hxs
      exact ih hxs.2 (h.isDegree a x ha hxs.1)
  | swap x y xs =>
      simp only [List.forall_mem_cons] at hxs
      obtain ⟨hy, hx, -⟩ := hxs
      simp only [List.foldl_cons, h.right_comm ha hy hx]
  | trans hperm _ ih ih' =>
      have hys := fun y hy => hxs y (hperm.mem_iff.mpr hy)
      exact (ih hxs ha).trans (ih' hys ha)

/-- To begin with the first degree is to begin with none and join the first one as well. -/
theorem foldl_unit_cons (h : JoinsDegrees op unit) (ha : IsDegree a) :
    (a :: xs).foldl op unit = xs.foldl op a := by
  rw [List.foldl_cons, h.comm unit a h.isDegree_unit ha, h.op_unit a ha]

end JoinsDegrees

/-! ## Conditions in any order -/

namespace Rule

variable {norms : Norms} {readings : Readings Rat} {ds : List Rat}

/-- The degrees of some conditions, one by one. -/
def Reads (readings : Readings Rat) (as : List (Antecedent Rat)) (ds : List Rat) : Prop :=
  List.Forall₂ (fun part d => part.degree readings = .ok d) as ds

theorem exists_reads {as : List (Antecedent Rat)} (has : ∀ part ∈ as, part.IsDefined)
    (readings : Readings Rat) : ∃ ds, Reads readings as ds := by
  refine exists_forall₂_iff.mpr fun part hpart => ?_
  obtain ⟨s, hs⟩ := Antecedent.isDefined_iff.mp (has part hpart)
  exact ⟨_, by rw [Antecedent.degree, hs]⟩

theorem Reads.isDegree {as : List (Antecedent Rat)} (h : Reads readings as ds)
    (hgraded : readings.Graded) : ∀ d ∈ ds, IsDegree d := by
  induction h with
  | nil => exact nofun
  | @cons part _ _ _ hd _ ih =>
      exact List.forall_mem_cons.mpr ⟨part.isDegree_degree hgraded hd, ih⟩

/-- With one connective throughout, joining is a fold over degrees. -/
theorem joinDegrees_eq_foldl {c : Connective} {cs : List Connective} {as : List (Antecedent Rat)}
    (hcs : ∀ d ∈ cs, d = c) (hlength : cs.length = as.length) (hds : Reads readings as ds)
    (a : Rat) : joinDegrees norms readings a cs as =
      .ok (ds.foldl (c.combine norms.and norms.or) a) := by
  induction hds generalizing a cs with
  | nil =>
      obtain rfl := List.length_eq_zero_iff.mp hlength
      rfl
  | @cons part d as ds hd _ ih =>
      cases cs with
      | nil => cases hlength
      | cons d' cs =>
          rw [List.forall_mem_cons] at hcs
          obtain ⟨rfl, hcs⟩ := hcs
          rw [joinDegrees, hd]
          exact ih hcs (Nat.succ.inj hlength) _

theorem condition_eq_foldl (hgraded : readings.Graded) {r : Rule Rat} {c : Connective}
    (hcs : ∀ d ∈ r.connectives, d = c) (hne : r.antecedents ≠ [])
    (hcount : r.connectives.length = r.antecedents.length - 1)
    (hds : Reads readings r.antecedents ds) :
    r.condition norms readings = .ok (ds.foldl (c.combine norms.and norms.or) c.unit) := by
  have hdegrees := hds.isDegree hgraded
  unfold Reads at hds
  cases has : r.antecedents with
  | nil => exact absurd has hne
  | cons first rest =>
      rw [has] at hds
      rw [has, List.length_cons, Nat.add_sub_cancel] at hcount
      obtain ⟨d, ds, hd, hrest, rfl⟩ := List.forall₂_cons_left_iff.mp hds
      rw [List.forall_mem_cons] at hdegrees
      rw [(c.joinsDegrees _ _).foldl_unit_cons hdegrees.1, ← joinDegrees_eq_foldl hcs hcount hrest d]
      simp only [condition, has]
      rw [if_pos hcount, hd]
      rfl

/-- A rule with a number of connectives that does not fit its conditions has no degree. -/
theorem condition_eq_error {r : Rule Rat} (hne : r.antecedents ≠ [])
    (hcount : r.connectives.length ≠ r.antecedents.length - 1) :
    r.condition norms readings = .error (.connectiveCount r) := by
  rw [← failure?_eq_some_iff, failure?_condition, conditionFault?_eq,
    if_neg (not_or_intro hne hcount)]

/-- With one connective throughout, conditions may be reordered. -/
theorem condition_perm (hgraded : readings.Graded) {r : Rule Rat} {c : Connective}
    (hcs : ∀ d ∈ r.connectives, d = c) (hne : r.antecedents ≠ [])
    (hcount : r.connectives.length = r.antecedents.length - 1)
    (hdefined : ∀ a ∈ r.antecedents, a.IsDefined) {as : List (Antecedent Rat)}
    (hperm : as.Perm r.antecedents) :
    { r with antecedents := as }.condition norms readings = r.condition norms readings := by
  have hjoins := c.joinsDegrees norms.and norms.or
  have hne' : as ≠ [] := fun has => hne (List.nil_perm.mp (has ▸ hperm))
  have hcount' : r.connectives.length = as.length - 1 := by rw [hcount, hperm.length_eq]
  obtain ⟨ds, hds⟩ := exists_reads hdefined readings
  -- The reordered conditions have the same degrees in the order of the conditions.
  obtain ⟨ds', hds', hperm'⟩ := List.perm_comp_forall₂ hperm hds
  rw [condition_eq_foldl hgraded hcs hne hcount hds,
    condition_eq_foldl (r := { r with antecedents := as }) hgraded hcs hne' hcount' hds',
    hjoins.foldl_perm hperm' (Reads.isDegree hds' hgraded) hjoins.isDegree_unit]

/-- On degrees every conjunction is commutative and associative with unit one, and every disjunction
with unit zero. So conditions joined by AND alone, or by OR alone, may be reordered: the rule has the
same degree, or no degree in either order because its connectives are too many or too few. -/
theorem joinsDegrees_and_condition_perm :
    (∀ t : TNorm, JoinsDegrees t.apply 1) ∧ (∀ s : SNorm, JoinsDegrees s.apply 0) ∧
    ∀ (norms : Norms) (readings : Readings Rat), readings.Graded →
      ∀ (r : Rule Rat) (as : List (Antecedent Rat)), as.Perm r.antecedents →
        (∀ a ∈ r.antecedents, a.IsDefined) →
        ((∀ c ∈ r.connectives, c = .and) ∨ ∀ c ∈ r.connectives, c = .or) →
        if r.antecedents = [] ∨ r.connectives.length = r.antecedents.length - 1 then
          ∃ d, IsDegree d ∧ r.condition norms readings = .ok d ∧
            { r with antecedents := as }.condition norms readings = .ok d
        else
          r.condition norms readings = .error (.connectiveCount r) ∧
            { r with antecedents := as }.condition norms readings =
              .error (.connectiveCount { r with antecedents := as }) := by
  refine ⟨TNorm.joinsDegrees, SNorm.joinsDegrees, ?_⟩
  intro norms readings hgraded r as hperm hdefined hsame
  obtain ⟨c, hcs⟩ : ∃ c, ∀ d ∈ r.connectives, d = c := hsame.elim (⟨_, ·⟩) (⟨_, ·⟩)
  by_cases hne : r.antecedents = []
  · rw [hne, List.perm_nil] at hperm
    rw [if_pos (.inl hne)]
    exact ⟨0, IsDegree.zero, by simp only [condition, hne], by simp only [condition, hperm]⟩
  · by_cases hcount : r.connectives.length = r.antecedents.length - 1
    · rw [if_pos (.inr hcount)]
      obtain ⟨d, hd⟩ := exists_condition hcount hdefined norms readings
      exact ⟨d, isDegree_condition hgraded hd, hd,
        (condition_perm hgraded hcs hne hcount hdefined hperm).trans hd⟩
    · rw [if_neg (not_or_intro hne hcount)]
      refine ⟨condition_eq_error hne hcount, condition_eq_error (fun has => ?_) ?_⟩
      · exact hne (List.nil_perm.mp (has ▸ hperm))
      · rwa [hperm.length_eq]

end Rule

/-! ## The storm warning with the sea last -/

namespace Storm

/-- The warning with its last condition first. -/
def turned (first second : Connective) : Rule Rat :=
  { warning first second with antecedents := (warning first second).antecedents.rotate 2 }

theorem condition_perm_warning :
    gale.Graded ∧ ((warning .and .and).condition operators gale).toOption = some (7 / 20) ∧
    (turned .and .and).condition operators gale = (warning .and .and).condition operators gale ∧
    (turned .or .or).condition operators gale = (warning .or .or).condition operators gale := by
  have hgraded : gale.Graded := by decide +kernel
  obtain ⟨-, -, hperm⟩ := Rule.joinsDegrees_and_condition_perm
  refine ⟨hgraded, by decide +kernel, ?_, ?_⟩
  · obtain ⟨d, -, hd, hd'⟩ := hperm operators gale hgraded (warning .and .and) _
      (List.rotate_perm _ 2) (defined_warning .and .and) (.inl (by decide))
    exact hd'.trans hd.symm
  · obtain ⟨d, -, hd, hd'⟩ := hperm operators gale hgraded (warning .or .or) _
      (List.rotate_perm _ 2) (defined_warning .or .or) (.inr (by decide))
    exact hd'.trans hd.symm

/-- Where AND and OR are mixed, the order matters. -/
example : ((warning .or .and).condition operators gale).toOption = some (3 / 4) ∧
    ((turned .or .and).condition operators gale).toOption = some (71 / 100) := by decide +kernel

end Storm

end FuzzyInference
