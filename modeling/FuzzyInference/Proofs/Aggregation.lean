import FuzzyInference.Proofs.Degrees
import FuzzyInference.Proofs.OutputShape
import Mathlib.Algebra.Order.BigOperators.Group.List

/-! What an activation comes to. Aggregation goes rule by rule, but its result is one formula in what
the firing rules imply for the set: the greatest of it, its sum cut at one, or the complement of the
product of its complements. -/

namespace FuzzyInference

/-! ## Closed forms -/

namespace SNorm

/-- What an aggregation makes of positive contributions. -/
def Gathers : SNorm → List Rat → Rat → Prop
  | .max, xs, x => xs.max? = some x
  | .boundedSum, xs, x => x = min xs.sum 1
  | .probabilisticSum, xs, x => x = 1 - (xs.map (1 - ·)).prod

variable {xs : List Rat} {a : Rat}

theorem max?_cons_eq_foldl (a : Rat) (xs : List Rat) :
    (a :: xs).max? = some (xs.foldl SNorm.max.apply a) := List.max?_cons'

/-- It does not matter whether a growing sum is cut at each step or once. -/
theorem foldl_boundedSum (ha : a ≤ 1) (hxs : ∀ x ∈ xs, 0 ≤ x) :
    xs.foldl SNorm.boundedSum.apply a = min (a + xs.sum) 1 := by
  induction xs using List.reverseRec with
  | nil => simp [ha]
  | append_singleton xs x ih =>
      rw [List.forall_mem_append, List.forall_mem_singleton] at hxs
      rw [List.foldl_append, ih hxs.1, List.foldl_cons, List.foldl_nil,
        boundedSum_apply_min _ hxs.2, List.sum_append, List.sum_singleton, add_assoc]

theorem foldl_probabilisticSum (a : Rat) (xs : List Rat) :
    xs.foldl SNorm.probabilisticSum.apply a = 1 - (1 - a) * (xs.map (1 - ·)).prod := by
  induction xs generalizing a with
  | nil => simp
  | cons x xs ih =>
      rw [List.foldl_cons, ih, probabilisticSum_eq, sub_sub_cancel, List.map_cons, List.prod_cons,
        mul_assoc]

/-- Zero, where gathering starts, contributes nothing beside positive contributions. -/
theorem gathers_foldl (aggregation : SNorm) (hne : xs ≠ []) (hpos : ∀ x ∈ xs, 0 < x) :
    aggregation.Gathers xs (xs.foldl aggregation.apply 0) := by
  cases aggregation with
  | max =>
      obtain ⟨hmem, hle⟩ := List.max?_eq_some_iff.mp (max?_cons_eq_foldl 0 xs)
      rw [List.forall_mem_cons] at hle
      obtain ⟨x, hx⟩ := List.exists_mem_of_ne_nil xs hne
      have hmax := (hpos x hx).trans_le (hle.2 x hx)
      exact List.max?_eq_some_iff.mpr ⟨(List.mem_cons.mp hmem).resolve_left hmax.ne', hle.2⟩
  | boundedSum =>
      rw [Gathers, foldl_boundedSum zero_le_one fun x hx => (hpos x hx).le, zero_add]
  | probabilisticSum => rw [Gathers, foldl_probabilisticSum, sub_zero, one_mul]

/-- Degrees are gathered to a degree that is at least each of them. -/
theorem isDegree_foldl (aggregation : SNorm) (ha : IsDegree a) (hxs : ∀ x ∈ xs, IsDegree x) :
    IsDegree (xs.foldl aggregation.apply a) ∧
      ∀ x ∈ a :: xs, x ≤ xs.foldl aggregation.apply a := by
  induction xs generalizing a with
  | nil => exact ⟨ha, by simp⟩
  | cons y xs ih =>
      rw [List.forall_mem_cons] at hxs
      obtain ⟨hy, hxs⟩ := hxs
      obtain ⟨hdegree, hle⟩ := ih (aggregation.isDegree_apply ha hy) hxs
      rw [List.forall_mem_cons] at hle
      rw [List.foldl_cons, List.forall_mem_cons, List.forall_mem_cons]
      exact ⟨hdegree, (aggregation.le_apply_left ha hy).trans hle.1,
        (aggregation.le_apply_right ha hy).trans hle.1, hle.2⟩

end SNorm

/-! ## Implied degrees -/

theorem Rule.isDegree_of_mem_firing? {norms : Norms} {readings : Readings Rat}
    (hgraded : readings.Graded) {r : Rule Rat} (hweight : IsDegree r.weight) {s : Rat}
    (hs : s ∈ r.firing? norms readings) : IsDegree s := by
  obtain ⟨d, hd, rfl⟩ := strength_eq_ok_iff.mp (mem_firing?_iff.mp hs).1
  exact (isDegree_condition hgraded hd).mul hweight

namespace MamdaniOperators

section Entries

variable {α : Type} [Scalar α] {ops : MamdaniOperators} {readings : Readings α}
  {rules : List (Rule α)}

/-- A set of an output has an activation if something is implied for it. -/
theorem mem_labels_iff_implied {g : Aggregate α} (hg : g ∈ ops.ledger readings rules)
    {label : String} : label ∈ g.activations.map activationKey ↔
      ops.implied readings rules g.key label ≠ [] := by
  rw [mem_labels_iff_credits hg, ← sharesOf_credits_eq_implied]
  simp [Aggregate.sharesOf]

/-- Whatever is implied has an entry. -/
theorem exists_entry_of_implied {k label : String} (h : ops.implied readings rules k label ≠ []) :
    ∃ g ∈ ops.ledger readings rules, g.key = k ∧ label ∈ g.activations.map activationKey := by
  obtain ⟨d, hd⟩ : ∃ d, d ∈ ops.credits readings rules k := by
    refine List.exists_mem_of_ne_nil _ fun hnone => h ?_
    rw [← sharesOf_credits_eq_implied, hnone]
    rfl
  obtain ⟨v, hv⟩ := exists_mentioned_of_mem_credits hd
  obtain ⟨g, hg⟩ : ∃ g, Keyed.get? Aggregate.key k (ops.ledger readings rules) = some g := by
    rw [get?_ledger, hv]
    exact ⟨_, rfl⟩
  obtain ⟨hmem, rfl⟩ := (Keyed.get?_eq_some_iff (nodup_keys_ledger rules)).mp hg
  exact ⟨g, hmem, rfl, (mem_labels_iff_implied hmem).mpr h⟩

end Entries

variable {ops : MamdaniOperators} {readings : Readings Rat} {rules : List (Rule Rat)}

theorem isDegree_of_mem_implied (hgraded : readings.Graded)
    (hweights : ∀ r ∈ rules, IsDegree r.weight) {k label : String} {x : Rat}
    (hx : x ∈ ops.implied readings rules k label) : IsDegree x := by
  obtain ⟨r, hr, s, hs, rfl⟩ := exists_of_mem_implied hx
  exact ops.implication.isDegree_apply
    (Rule.isDegree_of_mem_firing? hgraded (hweights r hr) hs)

/-- The activation of each set comes to the closed form of all that firing rules imply for it, and
each set for which they imply something has one. By degrees and weights up to one it is positive and
at most one. -/
theorem infer_gathers {out : List (Aggregate Rat)} (h : ops.infer rules readings = .ok out) :
    (∀ g ∈ out, ∀ a ∈ g.activations,
      ops.aggregation.Gathers (ops.implied readings rules g.key a.1.label) a.2) ∧
    (∀ k label, ops.implied readings rules k label ≠ [] →
      ∃ g ∈ out, g.key = k ∧ label ∈ g.activations.map activationKey) ∧
    (readings.Graded → (∀ r ∈ rules, IsDegree r.weight) →
      ∀ g ∈ out, ∀ a ∈ g.activations, 0 < a.2 ∧ a.2 ≤ 1) := by
  obtain ⟨-, rfl⟩ := infer_eq_ok_iff.mp h
  have hgathered := (ops.shape_ledger readings rules).gathered
  have himplied (g : Aggregate Rat) (hg : g ∈ ops.ledger readings rules) (a : FuzzySet Rat × Rat)
      (ha : a ∈ g.activations) : ops.implied readings rules g.key a.1.label ≠ [] :=
    (mem_labels_iff_implied hg).mp (List.mem_map_of_mem ha)
  refine ⟨fun g hg a ha => ?_, fun k label => exists_entry_of_implied,
    fun hgraded hweights g hg a ha => ?_⟩
  · rw [hgathered g hg a ha]
    exact ops.aggregation.gathers_foldl (himplied g hg a ha) fun x => pos_of_mem_implied
  · obtain ⟨x, hx⟩ := List.exists_mem_of_ne_nil _ (himplied g hg a ha)
    have hdegrees : ∀ y ∈ ops.implied readings rules g.key a.1.label, IsDegree y :=
      fun y => isDegree_of_mem_implied hgraded hweights
    obtain ⟨hdegree, hle⟩ := ops.aggregation.isDegree_foldl IsDegree.zero hdegrees
    rw [hgathered g hg a ha]
    exact ⟨(pos_of_mem_implied hx).trans_le (hle x (List.mem_cons_of_mem _ hx)), hdegree.2⟩

end MamdaniOperators

/-! ## Watering a garden -/

namespace Garden

def soil : Variable Rat := ⟨"Soil", 6, 16,
  [⟨"Dry", .triangle 6 8 12, by decide +kernel, by decide +kernel, by decide +kernel⟩],
  rfl, rfl, by decide +kernel, by simp⟩

def sky : Variable Rat := ⟨"Sky", 7, 17,
  [⟨"Clear", .triangle 12 17 17, by decide +kernel, by decide +kernel, by decide +kernel⟩],
  rfl, rfl, by decide +kernel, by simp⟩

def much : FuzzySet Rat :=
  ⟨"Much", .triangle 8 18 18, by decide +kernel, by decide +kernel, by decide +kernel⟩

def output (name : String) : Variable Rat :=
  ⟨name, 8, 18, [much], rfl, rfl, by decide +kernel, by simp⟩

/-- The first rule insists on the water, and the last one is switched off. -/
def rules : List (Rule Rat) := [
  { antecedents := [⟨soil, "Dry"⟩], weight := 1 / 2
    consequents := [.fuzzy (output "Water") much, .fuzzy (output "water") much] },
  { antecedents := [⟨sky, "Clear"⟩]
    consequents := [.fuzzy (output "Shade") much, .fuzzy (output "Water") much] },
  { antecedents := [⟨soil, "dry"⟩], consequents := [.fuzzy (output "Water") much]
    enabled := false }]

def readings : Readings Rat := .ofList [soil.fuzzify 10, sky.fuzzify (29 / 2)]

def operators : MamdaniOperators := { aggregation := .probabilisticSum }

theorem infer_rules : operators.infer rules readings = .ok (operators.ledger readings rules) :=
  MamdaniOperators.infer_eq_ok_iff.mpr ⟨by
    simp only [rules, List.filter_cons, List.filter_nil, if_true, List.forall_mem_cons]
    exact ⟨rfl, rfl, nofun⟩, rfl⟩

/-- The water comes to the complement of three quarters, three quarters and a half. -/
theorem infer_gathers_water :
    operators.implied readings rules "water" "Much" = [1 / 4, 1 / 4, 1 / 2] ∧
    ∃ out, operators.infer rules readings = .ok out ∧
      ∃ g ∈ out, g.key = "water" ∧ ∃ a ∈ g.activations, a.1.label = "Much" ∧
        a.2 = 23 / 32 ∧ 0 < a.2 ∧ a.2 ≤ 1 := by
  have himplied : operators.implied readings rules "water" "Much" = [1 / 4, 1 / 4, 1 / 2] := by
    decide +kernel
  obtain ⟨hgathers, hentry, hdegree⟩ := MamdaniOperators.infer_gathers infer_rules
  obtain ⟨g, hg, hkey, hlabel⟩ := hentry "water" "Much" (by simp [himplied])
  obtain ⟨a, ha, hlabel⟩ := List.mem_map.mp hlabel
  have hgathers := hgathers g hg a ha
  have hclosed : 1 - (([1 / 4, 1 / 4, 1 / 2] : List Rat).map (1 - ·)).prod = 23 / 32 := by
    decide +kernel
  rw [hkey, show a.1.label = "Much" from hlabel, himplied] at hgathers
  exact ⟨himplied, _, infer_rules, g, hg, hkey, a, ha, hlabel, hgathers.trans hclosed,
    hdegree (by decide +kernel) (by decide +kernel) g hg a ha⟩

end Garden

end FuzzyInference
