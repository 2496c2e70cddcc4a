import FuzzyInference.Proofs.OutputShape

/-! Reports of an evaluation. Inputs that mean variables without sets are reported as they are read, up
to the first one that names no variable. Outputs of which no rule speaks are reported only if there is
a result. -/

namespace FuzzyInference

variable {α : Type} [Scalar α]

namespace Engine

/-! ## Inputs -/

/-- The inputs before the first one that names no variable. -/
def accepted (e : Engine α) (inputs : List (String × α)) : List (String × α) :=
  inputs.takeWhile fun input => (e.resolveInput input.1).isOk

/-- What is reported of an input that means a variable without sets. -/
def emptiness? (e : Engine α) (input : String × α) : Option (Diagnostic α) :=
  match e.resolveInput input.1 with
  | .ok v => if v.sets.isEmpty then some (.emptyFuzzification v.name input.2) else none
  | .error _ => none

variable {e : Engine α} {readings : Readings α} {inputs : List (String × α)}

theorem notices_fuzzify (hsink : e.silentReadings = false) (v : Variable α) (x : α) :
    e.notices (v.fuzzify x) =
      (if v.sets.isEmpty then some (.emptyFuzzification v.name x) else none).toList := by
  have hempty : (v.fuzzify x).degrees.isEmpty = v.sets.isEmpty := List.isEmpty_map
  rw [notices, hsink, if_neg Bool.false_ne_true, Reading.diagnostic?, hempty]
  rfl

theorem accepted_cons_of_ok {name : String} {v : Variable α} (h : e.resolveInput name = .ok v)
    (x : α) (rest : List (String × α)) :
    e.accepted ((name, x) :: rest) = (name, x) :: e.accepted rest := by
  rw [accepted, List.takeWhile_cons, h]
  rfl

theorem accepted_cons_of_error {name : String} {error : EvaluationError α}
    (h : e.resolveInput name = .error error) (x : α) (rest : List (String × α)) :
    e.accepted ((name, x) :: rest) = [] := by
  rw [accepted, List.takeWhile_cons, h]
  rfl

/-- What is reported of an input does not depend on what was read before. -/
theorem reported_readOnto (hsink : e.silentReadings = false) :
    (e.readOnto readings inputs).reported = (e.accepted inputs).filterMap e.emptiness? := by
  induction inputs generalizing readings with
  | nil => rfl
  | cons input rest ih =>
      obtain ⟨name, x⟩ := input
      rw [readOnto]
      cases hname : e.resolveInput name with
      | error error =>
          rw [accepted_cons_of_error hname]
          rfl
      | ok v =>
          have hnotice : e.notices (v.fuzzify x) = (e.emptiness? (name, x)).toList := by
            rw [notices_fuzzify hsink, emptiness?, hname]
          dsimp only
          rw [accepted_cons_of_ok hname, List.filterMap_cons, hnotice, ih]
          cases e.emptiness? (name, x) <;> rfl

/-- If all inputs are read, all of them are accepted. -/
theorem accepted_of_readOnto {read : Readings α}
    (h : (e.readOnto readings inputs).result = .ok read) : e.accepted inputs = inputs := by
  have hresolve := e.failure?_readOnto readings inputs
  rw [h, failure?_ok, eq_comm, List.findSome?_eq_none_iff] at hresolve
  rw [accepted, List.takeWhile_eq_self_iff]
  intro input hinput
  have hinput := hresolve input hinput
  cases hname : e.resolveInput input.1 with
  | ok v => rfl
  | error error =>
      rw [hname] at hinput
      cases hinput

/-! ## Outputs -/

/-- The variables that enabled rules conclude about, each as it is first mentioned. -/
def outputs (e : Engine α) : List (Variable α) :=
  (outputKeys e.base.rules).filterMap fun k => Keyed.get? Variable.key k (mentioned e.base.rules)

/-- Whether a rule that concludes on the variable fires can be tried out. -/
instance (e : Engine α) (readings : Readings α) (v : Variable α) : Decidable (e.Quiet readings v) :=
  decidable_of_iff (∀ r ∈ e.base.enabledRules, (∃ c ∈ r.consequents, c.target.key = v.key) →
      ∀ s ∈ (e.strength readings r).toOption, ¬ 0 < s) <| by
    have hstrength (r : Rule α) (s : α) :
        s ∈ (e.strength readings r).toOption ↔ e.strength readings r = .ok s := by
      cases e.strength readings r <;> simp [Except.toOption]
    simp only [hstrength]
    rfl

theorem not_quiet_iff {v : Variable α} : ¬ e.Quiet readings v ↔
    ∃ r ∈ e.base.rules, r.Fires e.pipeline.norms readings ∧
      ∃ c ∈ r.consequents, c.target.key = v.key := by
  unfold Quiet Rule.Fires RuleBase.enabledRules strength
  push Not
  simp only [List.mem_filter]
  constructor
  · rintro ⟨r, ⟨hr, henabled⟩, htarget, hstrength⟩
    exact ⟨r, hr, ⟨henabled, hstrength⟩, htarget⟩
  · rintro ⟨r, hr, ⟨henabled, hstrength⟩, htarget⟩
    exact ⟨r, ⟨hr, henabled⟩, htarget, hstrength⟩

section Entries

variable {β : Type} {target : β → Variable α} {entries : List β}
  (hkeys : entries.map (fun b => (target b).key) = outputKeys e.base.rules)
  (htarget : ∀ b ∈ entries,
    Keyed.get? Variable.key (target b).key (mentioned e.base.rules) = some (target b))

include hkeys htarget

/-- Conclusions have one entry for each output, whatever their kind. -/
theorem map_target_eq_outputs : entries.map target = e.outputs := by
  rw [outputs, ← hkeys, List.filterMap_map, ← List.filterMap_eq_map]
  exact List.filterMap_congr fun b hb => (htarget b hb).symm

theorem filter_target_eq_outputs {idle : β → Bool}
    (hidle : ∀ b ∈ entries, idle b = true ↔ e.Quiet readings (target b)) :
    (entries.filter idle).map target = e.outputs.filter (e.Quiet readings) := by
  rw [← map_target_eq_outputs hkeys htarget, List.filter_map]
  congr 1
  refine List.filter_congr fun b hb => ?_
  rw [Bool.eq_iff_iff, hidle b hb, Function.comp_apply, decide_eq_true_iff]

end Entries

section Fired

variable (hfault : ∀ r ∈ e.base.enabledRules, r.fault? e.mode = none)

include hfault

/-- Without a fault, enabled rules conclude in the mode of the engine. -/
theorem mode_of_consequent {r : Rule α} (hr : r ∈ e.base.rules) (henabled : r.enabled = true)
    {c : Consequent α} (hc : c ∈ r.consequents) : c.mode = e.mode :=
  ((Rule.fault?_eq_none_iff e.pipeline.norms {}).mp
    (hfault r (List.mem_filter.mpr ⟨hr, henabled⟩))).1 c hc

variable [Scalar.Positivity α]

/-- An aggregate is empty when no rule that concludes on its output fires. -/
theorem isEmpty_activations_iff {ops : MamdaniOperators} {d : Defuzzifier}
    (hpipeline : e.pipeline = .mamdani ops d) {g : Aggregate α}
    (hg : g ∈ ops.ledger readings e.base.rules) :
    g.activations.isEmpty = true ↔ e.Quiet readings g.target := by
  have hlabel : ¬ g.activations.isEmpty = true ↔
      ∃ label, label ∈ g.activations.map activationKey := by
    cases g.activations <;> simp
  have hmode : e.mode = .mamdani := by rw [Engine.mode, hpipeline, Pipeline.mode]
  rw [← not_iff_not, hlabel, not_quiet_iff, hpipeline]
  simp only [(ops.shape_ledger readings e.base.rules).activated g hg]
  constructor
  · rintro ⟨label, r, hr, hfires, v, s, hc, hkey, -⟩
    exact ⟨r, hr, hfires, _, hc, hkey⟩
  · rintro ⟨r, hr, hfires, c, hc, hkey⟩
    cases c with
    | fuzzy v s => exact ⟨s.label, r, hr, hfires, v, s, hc, hkey, rfl⟩
    | crisp v x =>
        have hcrisp := (mode_of_consequent hfault hr hfires.1 hc).trans hmode
        cases hcrisp

/-- What is reported behind a result: the outputs of which no rule speaks, in their order. -/
theorem unfired_ledger :
    unfired (e.ledger readings) = (e.outputs.filter (e.Quiet readings)).map noRuleFired := by
  unfold ledger
  cases hpipeline : e.pipeline with
  | mamdani ops d =>
      have hshape := ops.shape_ledger readings e.base.rules
      rw [← filter_target_eq_outputs hshape.keys hshape.target fun g hg =>
        isEmpty_activations_iff hfault hpipeline hg, List.map_map]
      rfl
  | sugeno norms =>
      have hshape : norms.Shape readings e.base.rules (norms.ledger readings e.base.rules) := by
        refine Norms.shape_ledger fun r hr henabled c hc => ?_
        rw [mode_of_consequent hfault hr henabled hc, Engine.mode, hpipeline, Pipeline.mode]
      have hquiet : ∀ m ∈ norms.ledger readings e.base.rules,
          (!m.fired) = true ↔ e.Quiet readings m.target := by
        intro m hm
        rw [← not_iff_not, not_quiet_iff, hpipeline, Bool.not_eq_true', Bool.not_eq_false]
        exact hshape.fired m hm
      rw [← filter_target_eq_outputs hshape.keys hshape.target hquiet, List.map_map]
      rfl

end Fired

/-! ## Evaluations -/

theorem map_fst_values (e : Engine α) (readings : Readings α) :
    (e.values readings).map Prod.fst = e.outputs.map Variable.name := by
  rw [outputs, ← e.map_outputKey_values readings, List.map_filterMap, List.filterMap_map,
    ← List.filterMap_eq_map]
  exact List.filterMap_congr fun p hp => ((e.shape_values readings).names p hp).symm

theorem silentReadings_of_build {parts : EngineParts α} {built : Engine α}
    (h : parts.build = .ok built) : built.silentReadings = parts.silentReadings := by
  unfold EngineParts.build at h
  split at h
  · cases h
    rfl
  · cases h

theorem reported_of_infer_error {error : EvaluationError α}
    (h : (e.infer inputs).result = .error error) :
    (e.evaluate inputs).reported = (e.read inputs).reported := by
  rw [evaluate, h]
  rfl

/-- All that an evaluation reports: each input that means a variable without sets, as far as inputs
are read, and then, only if there is a result, each output of which no rule speaks, in its order. -/
theorem reported_evaluate [Scalar.Positivity α] {parts : EngineParts α} {built : Engine α}
    (hbuild : parts.build = .ok built) (hsink : parts.silentReadings = false)
    (base : RuleBase α) (inputs : List (String × α)) :
    let e : Engine α := { built with base }
    (∀ error, (e.infer inputs).result = .error error →
      (e.evaluate inputs).reported = (e.accepted inputs).filterMap e.emptiness?) ∧
    ∀ conclusions, (e.infer inputs).result = .ok conclusions →
      ∃ readings values, (e.read inputs).result = .ok readings ∧ e.accepted inputs = inputs ∧
        (e.evaluate inputs).result = .ok values ∧
        values.map Prod.fst = e.outputs.map Variable.name ∧
        (e.evaluate inputs).reported = inputs.filterMap e.emptiness? ++
          (e.outputs.filter (e.Quiet readings)).map noRuleFired := by
  intro e
  have hsilent : e.silentReadings = false := (silentReadings_of_build hbuild).trans hsink
  have hread : (e.read inputs).reported = (e.accepted inputs).filterMap e.emptiness? :=
    reported_readOnto hsilent
  refine ⟨fun error h => ?_, fun conclusions h => ?_⟩
  · rw [reported_of_infer_error h, hread]
  · obtain ⟨readings, hreadings, hinfer⟩ := bind_eq_ok.mp h
    obtain ⟨hfault, -⟩ := inferFrom_eq_ok_iff.mp hinfer
    have haccepted := accepted_of_readOnto hreadings
    have hevaluate := evaluate_eq_of_read hreadings hfault
    refine ⟨readings, e.values readings, hreadings, haccepted, ?_, e.map_fst_values readings, ?_⟩
    · rw [hevaluate]
    · rw [hevaluate, hread, haccepted, unfired_ledger hfault]

end Engine

/-! ## A kiln -/

namespace Kiln

def heat : Variable Float := ⟨"Heat", 600, 1000,
  [⟨"Low", .triangle 600 600 800, by decide +kernel, by decide +kernel, by decide +kernel⟩,
    ⟨"High", .triangle 800 1000 1000, by decide +kernel, by decide +kernel, by decide +kernel⟩],
  by decide +kernel, by decide +kernel, by decide +kernel, by decide +kernel⟩

/-- Measured, but not yet described by sets. -/
def damp : Variable Float := ⟨"Damp", 11, 19, [],
  by decide +kernel, by decide +kernel, by decide +kernel, .nil⟩

def fan : Variable Float := ⟨"Fan", 155, 345, [],
  by decide +kernel, by decide +kernel, by decide +kernel, .nil⟩

def burner : Variable Float := ⟨"Burner", 60, 140, [],
  by decide +kernel, by decide +kernel, by decide +kernel, .nil⟩

/-- Cools when hot, and heats when cold. -/
def base : RuleBase Float where
  rules := [
    { antecedents := [⟨heat, "High"⟩], consequents := [.crisp fan 240] },
    { antecedents := [⟨heat, "Low"⟩], consequents := [.crisp burner 120] }]

def parts : EngineParts Float where
  mode := some .sugeno
  base := some base
  vocabulary := some ⟨[heat, damp]⟩
  sugeno := some {}

def engine : Engine Float where
  pipeline := .sugeno {}
  base := base
  vocabulary := ⟨[heat, damp]⟩

def readings : Readings Float := .ofList [damp.fuzzify 13, heat.fuzzify 900]

/-- With a name that means nothing among the inputs, only what is read before it is reported. -/
theorem reported_evaluate_kiln :
    parts.build = .ok engine ∧ parts.silentReadings = false ∧
      (engine.evaluate [("damp", 13), ("Heat", 900)]).reported =
        [.emptyFuzzification "Damp" 13, .noRuleFired "Burner" 100] ∧
      (engine.evaluate [("damp", 13), ("Mood", 1), ("damp", 14)]).reported =
        [.emptyFuzzification "Damp" 13] := by
  have hbuild : parts.build = .ok engine := rfl
  refine ⟨hbuild, rfl, ?_, ?_⟩
  · have hfault : ∀ r ∈ base.enabledRules, (r.fault? .sugeno).isNone = true := by decide +kernel
    have hread : (engine.read [("damp", 13), ("Heat", 900)]).result = .ok readings := rfl
    have hinfer := Engine.infer_eq_of_read hread fun r hr =>
      Option.isNone_iff_eq_none.mp (hfault r hr)
    obtain ⟨found, values, hfound, -, -, -, hreported⟩ :=
      (Engine.reported_evaluate hbuild rfl base [("damp", 13), ("Heat", 900)]).2 _ hinfer
    cases hread.symm.trans hfound
    have hfan : ¬ engine.Quiet readings fan := by decide +kernel
    have hburner : engine.Quiet readings burner := by decide +kernel
    have hquiet : engine.outputs.filter (engine.Quiet readings) = [burner] := by
      have houtputs : engine.outputs = [fan, burner] := rfl
      rw [houtputs, List.filter_cons_of_neg (by simpa using hfan),
        List.filter_cons_of_pos (by simpa using hburner), List.filter_nil]
    have hmidpoint : burner.midpoint = 100 := by decide +kernel
    calc (engine.evaluate [("damp", 13), ("Heat", 900)]).reported
      _ = _ ++ (engine.outputs.filter (engine.Quiet readings)).map Engine.noRuleFired := hreported
      _ = _ ++ [.noRuleFired "Burner" burner.midpoint] := by rw [hquiet]; rfl
      _ = [.emptyFuzzification "Damp" 13, .noRuleFired "Burner" 100] := by rw [hmidpoint]; rfl
  · exact (Engine.reported_evaluate hbuild rfl base
      [("damp", 13), ("Mood", 1), ("damp", 14)]).1 _ rfl

end Kiln

end FuzzyInference
