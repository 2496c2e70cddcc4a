import FuzzyInference.Proofs.Inference

/-! What an evaluation that succeeds answers: for each output that an enabled rule mentions, one value
under the name of its first mention, made of what the firing rules say of it. -/

namespace FuzzyInference

variable {α : Type} [Scalar α]

/-- An output as far as look-ups in any case see it. -/
def outputKey (p : String × α) : String := Text.lowerCase p.1

/-- The crisp output of an entry. -/
def Aggregate.output (d : Defuzzifier) (g : Aggregate α) : String × α :=
  (g.target.name, d.apply g.target g.activations)

def WeightedMean.output (m : WeightedMean α) : String × α := (m.target.name, m.value)

theorem Aggregate.outputKey_output (d : Defuzzifier) (g : Aggregate α) :
    outputKey (g.output d) = g.key := rfl

theorem WeightedMean.outputKey_output (m : WeightedMean α) : outputKey m.output = m.key := rfl

namespace Engine

/-- The conclusions of the rules. -/
def ledger (e : Engine α) (readings : Readings α) : Conclusions α :=
  match e.pipeline with
  | .mamdani ops _ => .fuzzy (ops.ledger readings e.base.rules)
  | .sugeno norms => .crisp (norms.ledger readings e.base.rules)

/-- The crisp value of an output. -/
def valueOf (e : Engine α) (readings : Readings α) (v : Variable α) : α :=
  match e.pipeline with
  | .mamdani ops d => d.apply v
      (Aggregate.ofCredits ops.aggregation v (ops.credits readings e.base.rules v.key)).activations
  | .sugeno norms => (WeightedMean.ofCredits v (norms.credits readings e.base.rules v.key)).value

/-- The crisp values of all outputs. -/
def values (e : Engine α) (readings : Readings α) : List (String × α) :=
  match e.pipeline with
  | .mamdani ops d => (ops.ledger readings e.base.rules).map (Aggregate.output d)
  | .sugeno norms => (norms.ledger readings e.base.rules).map WeightedMean.output

variable {e : Engine α} {readings : Readings α}

theorem inferFrom_eq_ok_iff {conclusions : Conclusions α} :
    e.inferFrom readings = .ok conclusions ↔
      (∀ r ∈ e.base.enabledRules, r.fault? e.mode = none) ∧ conclusions = e.ledger readings := by
  unfold inferFrom mode ledger
  cases e.pipeline with
  | mamdani ops d =>
      simp only [map_eq_ok, MamdaniOperators.infer_eq_ok_iff]
      constructor
      · rintro ⟨out, ⟨hfault, rfl⟩, rfl⟩
        exact ⟨hfault, rfl⟩
      · rintro ⟨hfault, rfl⟩
        exact ⟨_, ⟨hfault, rfl⟩, rfl⟩
  | sugeno norms =>
      simp only [map_eq_ok, Norms.infer_eq_ok_iff]
      constructor
      · rintro ⟨out, ⟨hfault, rfl⟩, rfl⟩
        exact ⟨hfault, rfl⟩
      · rintro ⟨hfault, rfl⟩
        exact ⟨_, ⟨hfault, rfl⟩, rfl⟩

/-- Outputs differ by more than the case of their names. -/
theorem nodup_keys_values (e : Engine α) (readings : Readings α) :
    ((e.values readings).map outputKey).Nodup := by
  unfold values
  cases e.pipeline with
  | mamdani ops d =>
      rw [List.map_map]
      exact MamdaniOperators.nodup_keys_ledger e.base.rules
  | sugeno norms =>
      rw [List.map_map]
      exact Norms.nodup_keys_ledger e.base.rules

theorem nodup_names_values (e : Engine α) (readings : Readings α) :
    ((e.values readings).map Prod.fst).Nodup :=
  Keyed.nodup_of_nodup_map (e.nodup_keys_values readings)

/-- An output has its value under the name of its first mention. -/
theorem get?_values (e : Engine α) (readings : Readings α) (k : String) :
    Keyed.get? outputKey k (e.values readings) =
      (Keyed.get? Variable.key k (mentioned e.base.rules)).map fun v =>
        (v.name, e.valueOf readings v) := by
  unfold values valueOf
  cases e.pipeline with
  | mamdani ops d =>
      dsimp only
      rw [Keyed.get?_map (Aggregate.outputKey_output d), MamdaniOperators.get?_ledger, Option.map_map]
      refine Option.map_congr fun v hv => ?_
      rw [← Keyed.get?_eq_some_key Variable.key hv]
      simp [Aggregate.output]
  | sugeno norms =>
      dsimp only
      rw [Keyed.get?_map WeightedMean.outputKey_output, Norms.get?_ledger, Option.map_map]
      refine Option.map_congr fun v hv => ?_
      rw [← Keyed.get?_eq_some_key Variable.key hv]
      simp [WeightedMean.output]

theorem get?_name_values (e : Engine α) (readings : Readings α) {v : Variable α}
    (hv : Keyed.get? Variable.key v.key (mentioned e.base.rules) = some v) :
    Keyed.get? Prod.fst v.name (e.values readings) = some (v.name, e.valueOf readings v) := by
  have hvalue := e.get?_values readings v.key
  rw [hv, Option.map_some] at hvalue
  rw [Keyed.get?_eq_some_iff (e.nodup_names_values readings)]
  exact ⟨List.mem_of_find?_eq_some hvalue, rfl⟩

theorem crispValues_ledger (e : Engine α) (readings : Readings α) :
    e.crispValues (e.ledger readings) = .ok (e.values readings) := by
  rw [← Keyed.collect_eq_self (e.nodup_names_values readings)]
  unfold crispValues ledger values
  cases e.pipeline <;> rfl

theorem infer_eq_of_read {inputs : List (String × α)}
    (hread : (e.read inputs).result = .ok readings)
    (hfault : ∀ r ∈ e.base.enabledRules, r.fault? e.mode = none) :
    (e.infer inputs).result = .ok (e.ledger readings) := by
  change (e.read inputs).result >>= e.inferFrom = _
  rw [hread]
  exact inferFrom_eq_ok_iff.mpr ⟨hfault, rfl⟩

/-- An evaluation in which all inputs are read and no enabled rule has a fault. -/
theorem evaluate_eq_of_read {inputs : List (String × α)}
    (hread : (e.read inputs).result = .ok readings)
    (hfault : ∀ r ∈ e.base.enabledRules, r.fault? e.mode = none) :
    e.evaluate inputs =
      ⟨(e.read inputs).reported ++ unfired (e.ledger readings), .ok (e.values readings)⟩ := by
  simp only [evaluate, infer_eq_of_read hread hfault, crispValues_ledger]
  rfl

theorem evaluate_eq_ok_iff {inputs : List (String × α)} {outputs : List (String × α)} :
    (e.evaluate inputs).result = .ok outputs ↔
      ∃ readings, (e.read inputs).result = .ok readings ∧
        (∀ r ∈ e.base.enabledRules, r.fault? e.mode = none) ∧ outputs = e.values readings := by
  constructor
  · intro h
    rw [evaluate_result, bind_eq_ok] at h
    obtain ⟨conclusions, hinfer, hvalues⟩ := h
    rw [bind_eq_ok] at hinfer
    obtain ⟨readings, hread, hinfer⟩ := hinfer
    obtain ⟨hfault, rfl⟩ := inferFrom_eq_ok_iff.mp hinfer
    rw [crispValues_ledger] at hvalues
    cases hvalues
    exact ⟨readings, hread, hfault, rfl⟩
  · rintro ⟨readings, hread, hfault, rfl⟩
    rw [evaluate_eq_of_read hread hfault]

end Engine

end FuzzyInference
