import FuzzyInference.Engine.Basic
import FuzzyInference.Proofs.Fallible
import FuzzyInference.Proofs.Lookup

/-! When evaluation fails, and with which error. What an enabled rule lacks shows whatever the inputs
are and whether or not it fires, so it can be told from the rule alone. -/

namespace FuzzyInference

variable {α : Type} [Scalar α]

/-! ## Faults of rules -/

/-- Whether the variable has no set of the label. -/
def Antecedent.isVoid (a : Antecedent α) : Bool := (a.subject.set? a.label).isNone

namespace Rule

/-- What is wrong with the conditions: their number first, then the first void one. -/
def conditionFault? (r : Rule α) : Option (EvaluationError α) :=
  match r.antecedents with
  | [] => none
  | a :: rest =>
    if r.connectives.length = rest.length then
      ((a :: rest).find? Antecedent.isVoid).map .unknownSet
    else some (.connectiveCount r)

/-- What is wrong with a rule in a mode. Conclusions of the other mode come before everything. -/
def fault? (mode : Mode) (r : Rule α) : Option (EvaluationError α) :=
  match r.consequents.find? fun c => c.mode != mode with
  | some c => some (.consequentMismatch mode c r)
  | none => r.conditionFault?

end Rule

/-! ## Inference -/

theorem Antecedent.failure?_degree (readings : Readings α) (a : Antecedent α) :
    failure? (a.degree readings) = if a.isVoid then some (.unknownSet a) else none := by
  unfold degree isVoid
  cases a.subject.set? a.label <;> rfl

namespace Rule

theorem failure?_joinDegrees (norms : Norms) (readings : Readings α) (degree : α)
    {cs : List Connective} {as : List (Antecedent α)} (hlength : cs.length = as.length) :
    failure? (joinDegrees norms readings degree cs as) =
      (as.find? Antecedent.isVoid).map .unknownSet := by
  induction as generalizing cs degree with
  | nil =>
      obtain rfl := List.length_eq_zero_iff.mp hlength
      rfl
  | cons a as ih =>
      cases cs with
      | nil => cases hlength
      | cons c cs =>
          have hrest (next : α) := ih (c.combine norms.and norms.or degree next)
            (Nat.succ.inj hlength)
          rw [joinDegrees, failure?_bind fun next _ => hrest next, Antecedent.failure?_degree,
            List.find?_cons]
          cases a.isVoid <;> rfl

theorem failure?_condition (norms : Norms) (readings : Readings α) (r : Rule α) :
    failure? (r.condition norms readings) = r.conditionFault? := by
  unfold condition conditionFault?
  cases r.antecedents with
  | nil => rfl
  | cons a rest =>
      dsimp only
      split
      · rename_i hlength
        rw [failure?_bind fun degree _ => failure?_joinDegrees norms readings degree hlength,
          Antecedent.failure?_degree, List.find?_cons]
        cases a.isVoid <;> rfl
      · rfl

theorem failure?_strength (norms : Norms) (readings : Readings α) (r : Rule α) :
    failure? (r.strength norms readings) = r.conditionFault? := by
  rw [strength, failure?_bind fun _ _ => failure?_ok _, failure?_condition, Option.or_none]

end Rule

theorem MamdaniOperators.failure?_step (ops : MamdaniOperators) (readings : Readings α)
    (out : List (Aggregate α)) (r : Rule α) :
    failure? (ops.step readings out r) = r.fault? .mamdani := by
  unfold step Rule.fault?
  cases r.consequents.find? fun c => c.mode != .mamdani with
  | some c => rfl
  | none =>
      dsimp only
      rw [failure?_bind fun _ _ => failure?_ok _, Rule.failure?_strength, Option.or_none]

theorem Norms.failure?_step (norms : Norms) (readings : Readings α)
    (out : List (WeightedMean α)) (r : Rule α) :
    failure? (norms.step readings out r) = r.fault? .sugeno := by
  unfold step Rule.fault?
  cases r.consequents.find? fun c => c.mode != .sugeno with
  | some c => rfl
  | none =>
      dsimp only
      rw [failure?_bind fun _ _ => failure?_ok _, Rule.failure?_strength, Option.or_none]

namespace Engine

/-- Inference fails as the first enabled rule that has a fault in the mode of the engine. -/
theorem failure?_inferFrom (e : Engine α) (readings : Readings α) :
    failure? (e.inferFrom readings) = e.base.enabledRules.findSome? (Rule.fault? e.mode) := by
  unfold inferFrom mode
  cases e.pipeline with
  | mamdani ops d =>
      rw [failure?_map]
      exact failure?_foldlM (ops.failure?_step readings) _ _
  | sugeno norms =>
      rw [failure?_map]
      exact failure?_foldlM (norms.failure?_step readings) _ _

/-- The engine gets back the conclusions of its own mode. -/
theorem mode_of_inferFrom {e : Engine α} {readings : Readings α} {conclusions : Conclusions α}
    (h : e.inferFrom readings = .ok conclusions) : conclusions.mode = e.mode := by
  unfold inferFrom at h
  unfold mode
  cases hpipeline : e.pipeline with
  | mamdani ops d =>
      rw [hpipeline] at h
      obtain ⟨aggregates, -, rfl⟩ := map_eq_ok.mp h
      rfl
  | sugeno norms =>
      rw [hpipeline] at h
      obtain ⟨means, -, rfl⟩ := map_eq_ok.mp h
      rfl

theorem failure?_crispValues {e : Engine α} {conclusions : Conclusions α}
    (h : conclusions.mode = e.mode) : failure? (e.crispValues conclusions) = none := by
  unfold crispValues
  unfold mode at h
  cases hpipeline : e.pipeline with
  | mamdani ops d =>
      cases conclusions with
      | fuzzy aggregates => rfl
      | crisp means => simp [hpipeline, Conclusions.mode, Pipeline.mode] at h
  | sugeno norms =>
      cases conclusions with
      | fuzzy aggregates => simp [hpipeline, Conclusions.mode, Pipeline.mode] at h
      | crisp means => rfl

/-! ## Whole evaluations -/

/-- Conditions about variables of the vocabulary know no other ones. -/
theorem resolveInput_of_known {e : Engine α} (hknown : ∀ r ∈ e.base.rules, ∀ a ∈ r.antecedents,
      e.vocabulary.get? a.subject.name = some a.subject) (name : String) :
    e.resolveInput name =
      ((e.vocabulary.get? name).map Except.ok).getD (.error (.unknownInput name)) := by
  unfold resolveInput
  cases hname : e.vocabulary.get? name with
  | some v => rfl
  | none =>
      have hnone : ((e.base.rules.flatMap (·.antecedents)).find? fun a =>
          Text.eqIgnoringCase a.subject.name name) = none := by
        rw [List.find?_eq_none]
        intro a ha hkey
        obtain ⟨r, hr, ha⟩ := List.mem_flatMap.mp ha
        have hcase : Text.caseKey a.subject.name = Text.caseKey name := by
          simpa [Text.eqIgnoringCase] using hkey
        have hfound := hknown r hr a ha
        rw [Vocabulary.get?_congr (Text.lowerCase_eq_of_caseKey hcase), hname] at hfound
        cases hfound
      simp only [hnone]
      rfl

/-- Inputs are read up to the first one that names no variable. -/
theorem failure?_readOnto (e : Engine α) (readings : Readings α) (inputs : List (String × α)) :
    failure? (e.readOnto readings inputs).result =
      inputs.findSome? fun input => failure? (e.resolveInput input.1) := by
  induction inputs generalizing readings with
  | nil => rfl
  | cons input rest ih =>
      obtain ⟨name, x⟩ := input
      rw [readOnto, List.findSome?_cons]
      cases hname : e.resolveInput name with
      | error error => rfl
      | ok v => exact ih (readings.insert (v.fuzzify x))

theorem evaluate_result (e : Engine α) (inputs : List (String × α)) :
    (e.evaluate inputs).result = ((e.read inputs).result >>= e.inferFrom) >>= e.crispValues := by
  have hinfer : (e.infer inputs).result = (e.read inputs).result >>= e.inferFrom := rfl
  rw [← hinfer]
  simp only [evaluate]
  split
  · rename_i error herror
    rw [herror]
    rfl
  · rename_i conclusions hconclusions
    rw [hconclusions]
    change _ = e.crispValues conclusions
    cases e.crispValues conclusions <;> rfl

/-- An evaluation fails as the first input that names no variable, or else as the first enabled
rule that has a fault. -/
theorem failure?_evaluate (e : Engine α) (inputs : List (String × α)) :
    failure? (e.evaluate inputs).result =
      (inputs.findSome? fun input => failure? (e.resolveInput input.1)).or
        (e.base.enabledRules.findSome? (Rule.fault? e.mode)) := by
  have hread := failure?_readOnto e {} inputs
  have hinfer : failure? ((e.read inputs).result >>= e.inferFrom) =
      (failure? (e.read inputs).result).or (e.base.enabledRules.findSome? (Rule.fault? e.mode)) :=
    failure?_bind fun readings _ => failure?_inferFrom e readings
  have hcrisp (conclusions : Conclusions α)
      (h : (e.read inputs).result >>= e.inferFrom = .ok conclusions) :
      failure? (e.crispValues conclusions) = none := by
    obtain ⟨readings, -, hconclusions⟩ := bind_eq_ok.mp h
    exact failure?_crispValues (mode_of_inferFrom hconclusions)
  rw [evaluate_result, failure?_bind hcrisp, Option.or_none, hinfer, read, hread]

end Engine

end FuzzyInference
