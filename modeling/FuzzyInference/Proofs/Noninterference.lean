import FuzzyInference.Proofs.Evaluation
import FuzzyInference.Proofs.Keyed
import FuzzyInference.Scalar.Binary64

/-! What inputs bear on. Of all values given for a variable only the last one counts, and it counts
only if some enabled rule has a condition on the variable and the value lies in one of its sets. -/

namespace FuzzyInference

variable {α : Type} [Scalar α]

/-! ## Inference depends on the degrees of conditions only -/

section Congruence

variable {readings readings' : Readings α}

namespace Rule

theorem joinDegrees_congr (norms : Norms) (degree : α) {cs : List Connective}
    {as : List (Antecedent α)} (h : ∀ a ∈ as, a.degree readings = a.degree readings') :
    joinDegrees norms readings degree cs as = joinDegrees norms readings' degree cs as := by
  induction as generalizing degree cs with
  | nil => cases cs <;> rfl
  | cons a as ih =>
      cases cs with
      | nil => rfl
      | cons c cs =>
          rw [List.forall_mem_cons] at h
          simp only [joinDegrees, h.1, ih _ h.2]

theorem condition_congr (norms : Norms) {r : Rule α}
    (h : ∀ a ∈ r.antecedents, a.degree readings = a.degree readings') :
    r.condition norms readings = r.condition norms readings' := by
  unfold condition
  cases has : r.antecedents with
  | nil => rfl
  | cons a rest =>
      rw [has, List.forall_mem_cons] at h
      simp only [h.1, joinDegrees_congr norms _ h.2]

theorem strength_congr (norms : Norms) {r : Rule α}
    (h : ∀ a ∈ r.antecedents, a.degree readings = a.degree readings') :
    r.strength norms readings = r.strength norms readings' := by
  rw [strength, condition_congr norms h, strength]

end Rule

theorem MamdaniOperators.infer_congr (ops : MamdaniOperators) {rules : List (Rule α)}
    (h : ∀ r ∈ rules.filter (·.enabled), ∀ a ∈ r.antecedents,
      a.degree readings = a.degree readings') :
    ops.infer rules readings = ops.infer rules readings' := by
  refine foldlM_congr fun r hr out => ?_
  rw [step, Rule.strength_congr _ (h r hr), step]

theorem Norms.infer_congr (norms : Norms) {rules : List (Rule α)}
    (h : ∀ r ∈ rules.filter (·.enabled), ∀ a ∈ r.antecedents,
      a.degree readings = a.degree readings') :
    norms.infer rules readings = norms.infer rules readings' := by
  refine foldlM_congr fun r hr out => ?_
  rw [step, Rule.strength_congr _ (h r hr), step]

/-- Two readings that give each condition of an enabled rule the same degree lead to the same
conclusions, or to the same error. -/
theorem Engine.inferFrom_congr {e : Engine α}
    (h : ∀ r ∈ e.base.enabledRules, ∀ a ∈ r.antecedents, a.degree readings = a.degree readings') :
    e.inferFrom readings = e.inferFrom readings' := by
  unfold inferFrom
  cases e.pipeline with
  | mamdani ops d => exact congrArg (Except.map Conclusions.fuzzy) (ops.infer_congr h)
  | sugeno norms => exact congrArg (Except.map Conclusions.crisp) (norms.infer_congr h)

end Congruence

/-! ## The value that counts -/

/-- The last of the values given under the name of a variable, in any case. -/
def Variable.given? (v : Variable α) (inputs : List (String × α)) : Option α :=
  (Keyed.get? (fun input => Text.lowerCase input.1) v.key inputs.reverse).map Prod.snd

/-- Whether a variable is given no value, or one that lies in none of its sets. -/
def Variable.Silent (v : Variable α) (inputs : List (String × α)) : Prop :=
  ∀ x ∈ v.given? inputs, ∀ s ∈ v.sets, s.degree x = 0

instance [DecidableEq α] (v : Variable α) (inputs : List (String × α)) :
    Decidable (v.Silent inputs) :=
  inferInstanceAs (Decidable (∀ x ∈ v.given? inputs, _))

theorem Variable.given?_cons (v : Variable α) (name : String) (x : α)
    (rest : List (String × α)) : v.given? ((name, x) :: rest) =
      (v.given? rest).or (if Text.lowerCase name = v.key then some x else none) := by
  unfold given? Keyed.get?
  rw [List.reverse_cons, List.find?_append]
  cases rest.reverse.find? fun input => decide (Text.lowerCase input.1 = v.key) with
  | some input => rfl
  | none => by_cases h : Text.lowerCase name = v.key <;> simp [h]

omit [Scalar α] in
theorem Readings.get?_insert (readings : Readings α) (r : Reading α) (name : String) :
    (readings.insert r).get? name =
      if Text.lowerCase name = Readings.key r then some r else readings.get? name :=
  (Keyed.get?_insert r _ _).trans (if_congr eq_comm rfl rfl)

theorem Reading.degree?_silent {r : Reading α} (h : ∀ d ∈ r.degrees, d.2 = 0) (label : String) :
    (r.degree? label).getD 0 = 0 := by
  cases hfound : r.degree? label with
  | none => rfl
  | some x =>
      obtain ⟨d, hd, rfl⟩ := exists_mem_of_degree? hfound
      exact h d hd

namespace Engine

variable {e : Engine α} {v : Variable α}

/-- An input means a variable of its own name, whether the vocabulary or a condition knows it. -/
theorem key_of_resolveInput {name : String} (h : e.resolveInput name = .ok v) :
    v.key = Text.lowerCase name := by
  unfold resolveInput at h
  split at h
  · rename_i hname
    cases h
    exact Vocabulary.lowerCase_of_get? hname
  · dsimp only at h
    split at h
    · rename_i a hfound
      cases h
      have hcase := List.find?_some hfound
      exact Text.lowerCase_eq_of_caseKey (by simpa [Text.eqIgnoringCase] using hcase)
    · cases h

theorem resolveInput_of_get? {name : String} (h : e.vocabulary.get? name = some v) :
    e.resolveInput name = .ok v := by
  rw [resolveInput, h]

theorem readOnto_cons_eq_ok {name : String} {x : α} {rest : List (String × α)}
    {readings readings' : Readings α} :
    (e.readOnto readings ((name, x) :: rest)).result = .ok readings' ↔
      ∃ u, e.resolveInput name = .ok u ∧
        (e.readOnto (readings.insert (u.fuzzify x)) rest).result = .ok readings' := by
  rw [readOnto]
  cases e.resolveInput name <;> simp

/-- A known variable is read at the value that counts. -/
theorem get?_readOnto (hv : e.vocabulary.get? v.name = some v) {inputs : List (String × α)}
    {readings readings' : Readings α} (h : (e.readOnto readings inputs).result = .ok readings') :
    readings'.get? v.name = ((v.given? inputs).map v.fuzzify).or (readings.get? v.name) := by
  induction inputs generalizing readings with
  | nil =>
      cases h
      rfl
  | cons input rest ih =>
      obtain ⟨name, x⟩ := input
      obtain ⟨u, hname, hrest⟩ := readOnto_cons_eq_ok.mp h
      have hkey := key_of_resolveInput hname
      rw [ih hrest, Readings.get?_insert, Variable.given?_cons, ← hkey]
      change ((v.given? rest).map v.fuzzify).or
          (if v.key = u.key then some (u.fuzzify x) else readings.get? v.name) = _
      by_cases huv : u.key = v.key
      · have hknown : e.vocabulary.get? name = some v :=
          (Vocabulary.get?_congr (hkey.symm.trans huv)).trans hv
        obtain rfl : u = v := Except.ok.inj (hname.symm.trans (resolveInput_of_get? hknown))
        cases u.given? rest <;> simp
      · rw [if_neg huv, if_neg (Ne.symm huv), Option.or_none]

theorem degree_of_read (hv : e.vocabulary.get? v.name = some v) {inputs : List (String × α)}
    {readings : Readings α} (h : (e.read inputs).result = .ok readings) (label : String) :
    readings.degree v.name label =
      (((v.given? inputs).map v.fuzzify).bind (·.degree? label)).getD 0 := by
  have hempty : ({} : Readings α).get? v.name = none := rfl
  rw [Readings.degree, get?_readOnto hv h, hempty, Option.or_none]

/-- A value in no set is read as no value. -/
theorem degree_of_silent (hv : e.vocabulary.get? v.name = some v) {inputs : List (String × α)}
    {readings : Readings α} (h : (e.read inputs).result = .ok readings) (hsilent : v.Silent inputs)
    (label : String) : readings.degree v.name label = 0 := by
  rw [degree_of_read hv h]
  cases hx : v.given? inputs with
  | none => rfl
  | some x =>
      refine Reading.degree?_silent ?_ label
      rintro d hd
      obtain ⟨s, hs, rfl⟩ := List.mem_map.mp hd
      exact hsilent x hx s hs

theorem exists_read {inputs : List (String × α)}
    (h : ∀ input ∈ inputs, ∃ v, e.resolveInput input.1 = .ok v) :
    ∃ readings, (e.read inputs).result = .ok readings := by
  rw [← failure?_eq_none_iff, read, failure?_readOnto, List.findSome?_eq_none_iff]
  exact fun input hinput => failure?_eq_none_iff.mpr (h input hinput)

/-- Two lists of inputs for which, in every variable that a condition of an enabled rule is about,
either the same value counts or no value of either lies in a set, are evaluated to the same outputs
or to the same error. -/
theorem evaluate_eq_of_agree
    (hknown : ∀ r ∈ e.base.enabledRules, ∀ a ∈ r.antecedents,
      e.vocabulary.get? a.subject.name = some a.subject)
    {inputs inputs' : List (String × α)}
    (hnames : ∀ input ∈ inputs, ∃ v, e.resolveInput input.1 = .ok v)
    (hnames' : ∀ input ∈ inputs', ∃ v, e.resolveInput input.1 = .ok v)
    (hagree : ∀ r ∈ e.base.enabledRules, ∀ a ∈ r.antecedents,
      a.subject.given? inputs = a.subject.given? inputs' ∨
        a.subject.Silent inputs ∧ a.subject.Silent inputs') :
    (e.evaluate inputs).result = (e.evaluate inputs').result := by
  obtain ⟨readings, hread⟩ := exists_read hnames
  obtain ⟨readings', hread'⟩ := exists_read hnames'
  have hdegrees (r : Rule α) (hr : r ∈ e.base.enabledRules) (a : Antecedent α)
      (ha : a ∈ r.antecedents) : a.degree readings = a.degree readings' := by
    have hv := hknown r hr a ha
    have hlabel (label : String) : readings.degree a.subject.name label =
        readings'.degree a.subject.name label := by
      rcases hagree r hr a ha with hsame | ⟨hsilent, hsilent'⟩
      · rw [degree_of_read hv hread, degree_of_read hv hread', hsame]
      · rw [degree_of_silent hv hread hsilent, degree_of_silent hv hread' hsilent']
    unfold Antecedent.degree
    cases a.subject.set? a.label with
    | none => rfl
    | some s => exact congrArg Except.ok (hlabel s.label)
  have hconclusions : e.inferFrom readings = e.inferFrom readings' := inferFrom_congr hdegrees
  calc (e.evaluate inputs).result
      = e.inferFrom readings >>= e.crispValues := by rw [evaluate_result, hread]; rfl
    _ = e.inferFrom readings' >>= e.crispValues := by rw [hconclusions]
    _ = (e.evaluate inputs').result := by rw [evaluate_result, hread']; rfl

/-- The distance to keep at high speed or in strong wind; a rule about rain is out of use. -/
def distanceEngine : Engine Float :=
  let graded (name label : String) : Variable Float := ⟨name, 1, 201,
    [⟨label, .triangle 101 201 201, by decide +kernel, by decide +kernel, by decide +kernel⟩],
    by decide +kernel, by decide +kernel, by decide +kernel, by simp⟩
  let distance : Variable Float := ⟨"Distance", 2, 502,
    [⟨"Long", .triangle 2 502 502, by decide +kernel, by decide +kernel, by decide +kernel⟩],
    by decide +kernel, by decide +kernel, by decide +kernel, by simp⟩
  let far (x : Float) : List (Consequent Float) := [.crisp distance x]
  { pipeline := .sugeno {}
    base := { rules := [
      { antecedents := [⟨graded "Speed" "Fast", "fast"⟩, ⟨graded "Wind" "Strong", "Strong"⟩]
        connectives := [.or]
        consequents := far 250 },
      { antecedents := [⟨graded "Rain" "Heavy", "Heavy"⟩], consequents := far 400, enabled := false }] }
    vocabulary := ⟨[graded "Speed" "Fast", graded "Wind" "Strong", graded "Rain" "Heavy"]⟩ }

/-- An earlier value, another spelling, rain, and wind that is not strong make no difference. -/
theorem evaluate_eq_distance :
    (distanceEngine.evaluate [("speed", 10), ("Rain", 160), ("SPEED", 150), ("wind", 20)]).result =
      (distanceEngine.evaluate [("Rain", 5), ("Speed", 150)]).result ∧
    (distanceEngine.evaluate [("Rain", 5), ("Speed", 150)]).result.toOption =
      some [("Distance", 250)] := by
  have hnames (inputs : List (String × Float))
      (h : ∀ input ∈ inputs, (failure? (distanceEngine.resolveInput input.1)).isNone = true) :
      ∀ input ∈ inputs, ∃ v, distanceEngine.resolveInput input.1 = .ok v := fun input hinput =>
    failure?_eq_none_iff.mp (Option.isNone_iff_eq_none.mp (h input hinput))
  refine ⟨evaluate_eq_of_agree ?_ (hnames _ (by decide +kernel)) (hnames _ (by decide +kernel))
    (by decide +kernel), by decide +kernel⟩
  have hrules : distanceEngine.base.enabledRules = distanceEngine.base.rules.take 1 := rfl
  rw [hrules]
  simp only [distanceEngine, List.take_succ_cons, List.take_zero, List.forall_mem_cons]
  exact ⟨⟨rfl, rfl, nofun⟩, nofun⟩

end Engine

end FuzzyInference
