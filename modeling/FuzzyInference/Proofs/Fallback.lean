import FuzzyInference.Engine.Assembly
import FuzzyInference.Proofs.Outputs
import FuzzyInference.Scalar.Binary64
import FuzzyInference.Scalar.Rational

/-! Outputs of which no rule speaks. They are answered all the same, from the middle of their domain,
unless the defuzzifier knows no domains. -/

namespace FuzzyInference

/-- A scalar whose zeros add and compare as zeros do. -/
class Scalar.Grounded (α : Type) [Scalar α] : Prop where
  zero_add_zero : (0 : α) + 0 = 0
  greatest_zero_zero : greatest (0 : α) 0 = 0
  not_zero_lt_zero : ¬ (0 : α) < 0
  negligible_zero : negligible (0 : α) = true
  zero_lt_tolerance : (0 : α) < tolerance
  zero_beq_zero : ((0 : α) == 0) = true

instance : Scalar.Grounded Float where
  zero_add_zero := by decide +kernel
  greatest_zero_zero := by decide +kernel
  not_zero_lt_zero := by decide +kernel
  negligible_zero := by decide +kernel
  zero_lt_tolerance := by decide +kernel
  zero_beq_zero := by decide +kernel

instance : Scalar.Grounded Rat where
  zero_add_zero := by decide +kernel
  greatest_zero_zero := by decide +kernel
  not_zero_lt_zero := by decide +kernel
  negligible_zero := by decide +kernel
  zero_lt_tolerance := by decide +kernel
  zero_beq_zero := by decide +kernel

open Scalar.Grounded

variable {α : Type} [Scalar α]

/-! ## Crisp values of nothing -/

theorem surface_nil (x : α) : surface [] x = 0 := rfl

namespace Defuzzifier

variable [Scalar.Grounded α] (v : Variable α)

theorem centroidOf_nil (samples : Nat) : centroidOf v [] samples = v.midpoint := by
  have hmass (xs : List α) (moment : α) :
      (xs.foldl (fun (p : α × α) x => (p.1 + x * surface [] x, p.2 + surface [] x))
        (moment, 0)).2 = 0 := by
    induction xs generalizing moment with
    | nil => rfl
    | cons x xs ih =>
        rw [List.foldl_cons, surface_nil, zero_add_zero]
        exact ih _
  unfold centroidOf
  exact if_pos ((congrArg Scalar.negligible (hmass _ 0)).trans negligible_zero)

theorem meanOfMaxOf_nil (samples : Nat) : meanOfMaxOf v [] samples = v.midpoint := by
  have hpeak (xs : List α) :
      ((xs.map fun x => (x, surface [] x)).map Prod.snd).foldl Scalar.greatest 0 = 0 := by
    induction xs with
    | nil => rfl
    | cons x xs ih =>
        rw [List.map_cons, List.map_cons, List.foldl_cons, surface_nil, greatest_zero_zero]
        exact ih
  unfold meanOfMaxOf
  dsimp only
  rw [hpeak, if_pos zero_lt_tolerance]

theorem weightedAverageOf_nil : weightedAverageOf ([] : List (FuzzySet α × α)) = fallback :=
  if_pos zero_beq_zero

/-- What is answered when no set is activated. -/
def resting (d : Defuzzifier) (v : Variable α) : α :=
  match d with
  | .weightedAverage => fallback
  | _ => v.midpoint

theorem apply_nil (d : Defuzzifier) : d.apply v [] = d.resting v := by
  cases d with
  | centroid samples => exact centroidOf_nil v samples
  | meanOfMax samples => exact meanOfMaxOf_nil v samples
  | weightedAverage => exact weightedAverageOf_nil

end Defuzzifier

theorem WeightedMean.fired_nil [Scalar.Grounded α] (v : Variable α) :
    (ofCredits v []).fired = false := decide_eq_false not_zero_lt_zero

/-! ## Outputs of which no rule speaks -/

theorem Rule.credits_eq_nil {δ : Type} {say : α → Consequent α → Option δ} {firing : Option α}
    {k : String} {r : Rule α} (h : (∃ c ∈ r.consequents, c.target.key = k) → firing = none) :
    r.credits say firing k = [] := by
  rw [List.eq_nil_iff_forall_not_mem]
  intro d hd
  obtain ⟨s, hs, c, hc, hkey, -⟩ := (mem_credits say).mp hd
  rw [h ⟨c, hc, hkey⟩] at hs
  cases hs

theorem Rule.firing?_eq_none {norms : Norms} {readings : Readings α} {r : Rule α}
    (h : ∀ s, r.strength norms readings = .ok s → ¬ 0 < s) : r.firing? norms readings = none := by
  cases hs : r.strength norms readings with
  | error e => rw [firing?, hs]; rfl
  | ok s => rw [firing?_of_strength hs, fires, decide_eq_false (h s hs)]; rfl

namespace Engine

variable {e : Engine α} {readings : Readings α} {v : Variable α}

/-- Whether no enabled rule that concludes on the variable has a strictly positive strength. -/
def Quiet (e : Engine α) (readings : Readings α) (v : Variable α) : Prop :=
  ∀ r ∈ e.base.enabledRules, (∃ c ∈ r.consequents, c.target.key = v.key) →
    ∀ s, e.strength readings r = .ok s → ¬ 0 < s

theorem Quiet.credits_eq_nil (h : e.Quiet readings v) {δ : Type}
    (say : α → Consequent α → Option δ) :
    (e.base.rules.filter (·.enabled)).flatMap (fun r =>
      r.credits say (r.firing? e.pipeline.norms readings) v.key) = [] := by
  rw [List.flatMap_eq_nil_iff]
  exact fun r hr => Rule.credits_eq_nil fun htarget => Rule.firing?_eq_none (h r hr htarget)

theorem Quiet.mamdani_credits (h : e.Quiet readings v) {ops : MamdaniOperators} {d : Defuzzifier}
    (hpipeline : e.pipeline = .mamdani ops d) :
    ops.credits readings e.base.rules v.key = [] := by
  have hnone := h.credits_eq_nil ops.say
  rw [hpipeline] at hnone
  exact hnone

theorem Quiet.sugeno_credits (h : e.Quiet readings v) {norms : Norms}
    (hpipeline : e.pipeline = .sugeno norms) :
    norms.credits readings e.base.rules v.key = [] := by
  have hnone := h.credits_eq_nil Norms.say
  rw [hpipeline] at hnone
  exact hnone

variable [Scalar.Grounded α]

theorem valueOf_of_quiet (h : e.Quiet readings v) :
    e.valueOf readings v = (e.pipeline.defuzzifier?.map (·.resting v)).getD v.midpoint := by
  unfold valueOf
  cases hpipeline : e.pipeline with
  | mamdani ops d =>
      dsimp only
      rw [h.mamdani_credits hpipeline]
      exact Defuzzifier.apply_nil v d
  | sugeno norms =>
      dsimp only
      rw [h.sugeno_credits hpipeline, WeightedMean.value, WeightedMean.fired_nil]
      rfl

theorem noRuleFired_of_quiet (h : e.Quiet readings v)
    (hv : Keyed.get? Variable.key v.key (mentioned e.base.rules) = some v) :
    noRuleFired v ∈ unfired (e.ledger readings) := by
  unfold ledger
  cases hpipeline : e.pipeline with
  | mamdani ops d =>
      have hentry : Keyed.get? Aggregate.key v.key (ops.ledger readings e.base.rules) =
          some (.ofCredits ops.aggregation v []) := by
        rw [MamdaniOperators.get?_ledger, hv, h.mamdani_credits hpipeline, Option.map_some]
      exact List.mem_map.mpr ⟨_, List.mem_filter.mpr ⟨List.mem_of_find?_eq_some hentry, rfl⟩, rfl⟩
  | sugeno norms =>
      have hentry : Keyed.get? WeightedMean.key v.key (norms.ledger readings e.base.rules) =
          some (.ofCredits v []) := by
        rw [Norms.get?_ledger, hv, h.sugeno_credits hpipeline, Option.map_some]
      refine List.mem_map.mpr ⟨_, List.mem_filter.mpr ⟨List.mem_of_find?_eq_some hentry, ?_⟩, rfl⟩
      rw [WeightedMean.fired_nil]
      rfl

/-- An output that an enabled rule mentions and of which no rule speaks is answered and reported at
the middle of its domain. The mean of labels, which knows no domains, answers its own fallback. -/
theorem evaluate_of_quiet {inputs outputs : List (String × α)}
    (h : (e.evaluate inputs).result = .ok outputs) :
    ∃ readings, (e.read inputs).result = .ok readings ∧
      ∀ v, Keyed.get? Variable.key v.key (mentioned e.base.rules) = some v →
        e.Quiet readings v →
        (e.pipeline.defuzzifier? ≠ some .weightedAverage →
          Keyed.get? Prod.fst v.name outputs = some (v.name, v.midpoint) ∧
            noRuleFired v ∈ (e.evaluate inputs).reported) ∧
        (e.pipeline.defuzzifier? = some .weightedAverage →
          Keyed.get? Prod.fst v.name outputs = some (v.name, Defuzzifier.fallback)) := by
  obtain ⟨readings, hread, hfault, rfl⟩ := evaluate_eq_ok_iff.mp h
  refine ⟨readings, hread, fun v hv hquiet => ?_⟩
  rw [get?_name_values e readings hv, valueOf_of_quiet hquiet]
  constructor
  · intro hother
    have hmidpoint : (e.pipeline.defuzzifier?.map (·.resting v)).getD v.midpoint = v.midpoint := by
      cases hd : e.pipeline.defuzzifier? with
      | none => rfl
      | some d =>
          cases d with
          | centroid samples => rfl
          | meanOfMax samples => rfl
          | weightedAverage => exact absurd hd hother
    rw [hmidpoint, evaluate_eq_of_read hread hfault]
    exact ⟨rfl, List.mem_append_right _ (noRuleFired_of_quiet hquiet hv)⟩
  · intro hd
    rw [hd]
    rfl

end Engine

/-! ## A brake that nothing asks for -/

namespace Brake

def speed : Variable Float := ⟨"Speed", 20, 220,
  [⟨"Fast", .triangle 120 220 220, by decide +kernel, by decide +kernel, by decide +kernel⟩],
  by decide +kernel, by decide +kernel, by decide +kernel, by simp⟩

def strong : FuzzySet Float :=
  ⟨"Strong", .triangle 7 12 12, by decide +kernel, by decide +kernel, by decide +kernel⟩

def brake : Variable Float := ⟨"Brake", 4, 12, [strong],
  by decide +kernel, by decide +kernel, by decide +kernel, by simp⟩

/-- Brakes strongly at high speed. -/
def base : RuleBase Float where
  rules := [{ antecedents := [⟨speed, "Fast"⟩], consequents := [.fuzzy brake strong] }]

def parts (d : Defuzzifier) : EngineParts Float where
  mode := some .mamdani
  base := some base
  vocabulary := some ⟨[speed, brake]⟩
  mamdani := some {}
  defuzzifier := some d

def engine (d : Defuzzifier) : Engine Float where
  pipeline := .mamdani {} d
  base := base
  vocabulary := ⟨[speed, brake]⟩

theorem build_parts (d : Defuzzifier) : (parts d).build = .ok (engine d) := rfl

/-- At low speed. -/
def inputs : List (String × Float) := [("Speed", 50)]

def readings : Readings Float := .ofList [speed.fuzzify 50]

theorem read_inputs (d : Defuzzifier) : ((engine d).read inputs).result = .ok readings := rfl

theorem mentioned_brake (d : Defuzzifier) :
    Keyed.get? Variable.key brake.key (mentioned (engine d).base.rules) = some brake := rfl

theorem quiet (d : Defuzzifier) : (engine d).Quiet readings brake := by
  have hstrength : ∀ r ∈ base.enabledRules,
      ∀ s ∈ (r.strength {} readings).toOption, ¬ 0 < s := by decide +kernel
  intro r hr _ s hs
  have hs : r.strength {} readings = .ok s := hs
  exact hstrength r hr s (by rw [hs]; rfl)

theorem result_eq (d : Defuzzifier) :
    ((engine d).evaluate inputs).result = .ok ((engine d).values readings) := by
  have hfault : ∀ r ∈ base.enabledRules, (r.fault? .mamdani).isNone = true := by decide +kernel
  refine Engine.evaluate_eq_ok_iff.mpr ⟨readings, read_inputs d, ?_, rfl⟩
  exact fun r hr => Option.isNone_iff_eq_none.mp (hfault r hr)

/-- By the centre of gravity, the brake is answered and reported at the middle of its domain. -/
theorem evaluate_brake_at_midpoint :
    ∃ outputs, ((engine (.centroid .default)).evaluate inputs).result = .ok outputs ∧
      Keyed.get? Prod.fst "Brake" outputs = some ("Brake", 8) ∧
      .noRuleFired "Brake" 8 ∈ ((engine (.centroid .default)).evaluate inputs).reported := by
  have hmidpoint : brake.midpoint = 8 := by decide +kernel
  obtain ⟨found, hread, h⟩ := Engine.evaluate_of_quiet (result_eq (.centroid .default))
  rw [read_inputs, Except.ok.injEq] at hread
  subst hread
  have hother : (engine (.centroid .default)).pipeline.defuzzifier? ≠ some .weightedAverage := by
    simp [engine, Pipeline.defuzzifier?]
  obtain ⟨hvalue, hreported⟩ := (h brake (mentioned_brake _) (quiet _)).1 hother
  rw [hmidpoint] at hvalue
  rw [Engine.noRuleFired, hmidpoint] at hreported
  exact ⟨_, result_eq _, hvalue, hreported⟩

/-- By the mean of labels, the brake is answered at fifty, which is not even in its domain, although
no rule that concludes on it fires. -/
theorem evaluate_brake_at_fallback :
    (parts .weightedAverage).build = .ok (engine .weightedAverage) ∧
      ((engine .weightedAverage).read inputs).result = .ok readings ∧
      (engine .weightedAverage).Quiet readings brake ∧ brake.midpoint = 8 ∧
      ((engine .weightedAverage).evaluate inputs).result = .ok [("Brake", 50)] := by
  have hvalues : (engine .weightedAverage).values readings = [("Brake", 50)] := by decide +kernel
  refine ⟨build_parts _, read_inputs _, quiet _, by decide +kernel, ?_⟩
  rw [result_eq, hvalues]

end Brake

end FuzzyInference
