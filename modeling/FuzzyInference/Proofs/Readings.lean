import FuzzyInference.Proofs.Keyed
import FuzzyInference.Proofs.Labels
import FuzzyInference.Proofs.Noninterference
import FuzzyInference.Scalar.Binary64

/-! Readings as look-ups in a variable. A label, in any case, has the degree of the set that it means,
although readings look for its exact spelling first. So a condition holds to the degree of its set at
the value that counts. -/

namespace FuzzyInference

variable {α : Type} [Scalar α]

/-! ## Degrees of labels -/

namespace Variable

theorem nodup_labels (v : Variable α) : v.labels.Nodup :=
  Keyed.nodup_of_nodup_map (f := Text.caseKey) v.distinct

/-- No label takes the place of another one when degrees are kept by label. -/
theorem collect_degrees (v : Variable α) (x : α) :
    Keyed.collect Prod.fst (v.sets.map fun s => (s.label, s.degree x)) = (v.fuzzify x).degrees := by
  refine Keyed.collect_eq_self ?_
  rw [List.map_map]
  exact v.nodup_labels

/-- The exact spelling comes first, but a set that has it is the one that the label means anyway. -/
theorem degree?_fuzzify_eq (v : Variable α) (x : α) (label : String) :
    (v.fuzzify x).degree? label = (v.set? label).map (·.degree x) := by
  have hcase : ((v.fuzzify x).degrees.find? fun d => Text.eqIgnoringCase d.1 label) =
      (v.set? label).map fun s => (s.label, s.degree x) := List.find?_map ..
  have hexact : ((v.fuzzify x).degrees.find? fun d => d.1 == label) =
      (v.sets.find? fun s => s.label == label).map fun s => (s.label, s.degree x) := List.find?_map ..
  rw [Reading.degree?, hcase, hexact]
  cases hfound : v.sets.find? fun s => s.label == label with
  | none =>
      rw [Option.map_none, Option.none_or, Option.map_map]
      rfl
  | some t =>
      have ht : t ∈ v.sets := List.mem_of_find?_eq_some hfound
      have hlabel : t.label = label := by simpa using List.find?_some hfound
      rw [set?_of_mem ht (by rw [hlabel])]
      rfl

/-- The set that a label means is read under the label of its own. -/
theorem degree?_fuzzify {v : Variable α} {label : String} {s : FuzzySet α}
    (h : v.set? label = some s) (x : α) : (v.fuzzify x).degree? s.label = some (s.degree x) := by
  rw [degree?_fuzzify_eq, set?_label h, Option.map_some]

end Variable

/-! ## Degrees of conditions -/

theorem Antecedent.degree_of_get? {a : Antecedent α} {s : FuzzySet α} {r : Reading α}
    {readings : Readings α} (hs : a.subject.set? a.label = some s)
    (hr : readings.get? a.subject.name = some r) :
    a.degree readings = .ok ((r.degree? s.label).getD 0) := by
  simp only [degree, hs, Readings.degree, hr, Option.bind_some]

theorem Antecedent.degree_of_read {e : Engine α} {a : Antecedent α} {s : FuzzySet α}
    (hv : e.vocabulary.get? a.subject.name = some a.subject) (hs : a.subject.set? a.label = some s)
    {inputs : List (String × α)} {readings : Readings α}
    (hread : (e.read inputs).result = .ok readings) :
    a.degree readings = .ok (((a.subject.given? inputs).map s.degree).getD 0) := by
  simp only [degree, hs, Engine.degree_of_read hv hread]
  cases a.subject.given? inputs with
  | none => rfl
  | some x =>
      rw [Option.map_some, Option.bind_some, Variable.degree?_fuzzify hs, Option.map_some]

/-- Any variable is read set by set, and its readings answer for every label as its sets do. In an
engine that knows it, a condition on one of its sets holds to the degree of that set at the last
value given for the variable under any spelling, and not at all if none is given. -/
theorem Variable.readings_agree (v : Variable α) :
    (∀ x, (v.fuzzify x).degrees.map Prod.fst = v.labels ∧
      (v.fuzzify x).degrees.map Prod.snd = v.sets.map (·.degree x) ∧
      (v.fuzzify x).degrees =
        Keyed.collect Prod.fst (v.sets.map fun s => (s.label, s.degree x)) ∧
      ∀ label, ((v.fuzzify x).degree? label = none ↔ v.set? label = none) ∧
        ∀ s, v.set? label = some s → (v.fuzzify x).degree? label = some (s.degree x)) ∧
    ∀ (e : Engine α) (a : Antecedent α) (s : FuzzySet α) (inputs : List (String × α)),
      a.subject = v → e.vocabulary.get? v.name = some v → v.set? a.label = some s →
      (∀ input ∈ inputs, ∃ u, e.resolveInput input.1 = .ok u) →
      ∃ readings, (e.read inputs).result = .ok readings ∧
        a.degree readings = .ok (((v.given? inputs).map s.degree).getD 0) := by
  constructor
  · intro x
    refine ⟨List.map_map .., List.map_map .., (v.collect_degrees x).symm, fun label => ⟨?_, ?_⟩⟩
    · rw [degree?_fuzzify_eq, Option.map_eq_none_iff]
    · intro s hs
      rw [degree?_fuzzify_eq, hs, Option.map_some]
  · rintro e a s inputs rfl hv hs hinputs
    obtain ⟨readings, hread⟩ := Engine.exists_read hinputs
    exact ⟨readings, hread, Antecedent.degree_of_read hv hs hread⟩

/-! ## The level of a reservoir -/

namespace Reservoir

def low : FuzzySet Float :=
  ⟨"Low", .triangle 45 45 77, by decide +kernel, by decide +kernel, by decide +kernel⟩

def high : FuzzySet Float :=
  ⟨"High", .triangle 45 77 77, by decide +kernel, by decide +kernel, by decide +kernel⟩

def level : Variable Float := ⟨"Level", 45, 77, [low, high],
  by decide +kernel, by decide +kernel, by decide +kernel, by decide +kernel⟩

def sluice : Variable Float := ⟨"Sluice", 70, 90,
  [⟨"Open", .triangle 70 90 90, by decide +kernel, by decide +kernel, by decide +kernel⟩],
  by decide +kernel, by decide +kernel, by decide +kernel, by decide +kernel⟩

/-- Opens the sluice when the level is high. -/
def engine : Engine Float where
  pipeline := .sugeno {}
  base := { rules := [{ antecedents := [⟨level, "HIGH"⟩], consequents := [.crisp sluice 80] }] }
  vocabulary := ⟨[level, sluice]⟩

/-- The level three times, each time spelled in another way. -/
def inputs : List (String × Float) := [("level", 53), ("LEVEL", 61), ("Level", 69), ("sluice", 80)]

/-- Only the last level counts, and the sluice has no level. -/
theorem readings_agree_level :
    (level.fuzzify 69).degree? "hIGH" = some 0.75 ∧ (level.fuzzify 69).degree? "Empty" = none ∧
      ∃ readings, (engine.read inputs).result = .ok readings ∧
        (⟨level, "HIGH"⟩ : Antecedent Float).degree readings = .ok 0.75 := by
  obtain ⟨hlabels, hconditions⟩ := level.readings_agree
  obtain ⟨-, -, -, hdegree⟩ := hlabels 69
  have hinputs : ∀ input ∈ inputs, ∃ u, engine.resolveInput input.1 = .ok u := by
    simp only [inputs, List.forall_mem_cons]
    exact ⟨⟨level, rfl⟩, ⟨level, rfl⟩, ⟨level, rfl⟩, ⟨sluice, rfl⟩, nofun⟩
  have hlast : level.given? inputs = some 69 := rfl
  have hhigh : high.degree 69 = 0.75 := by decide +kernel
  obtain ⟨readings, hread, hcondition⟩ :=
    hconditions engine ⟨level, "HIGH"⟩ high inputs rfl rfl rfl hinputs
  refine ⟨?_, (hdegree "Empty").1.mpr rfl, readings, hread, ?_⟩
  · rw [(hdegree "hIGH").2 high rfl, hhigh]
  · rw [hcondition, hlast, Option.map_some, Option.getD_some, hhigh]

end Reservoir

end FuzzyInference
