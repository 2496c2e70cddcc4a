import FuzzyInference.Proofs.Degrees
import FuzzyInference.Proofs.Outputs

/-! The order of rules. Everything that rules say is gathered by operators that do not mind the
order, and an output is the same variable whichever rule mentions it first. A set is the same if
conclusions with one label are about one set; then reordering the rules changes at most the order of
the outputs. -/

namespace FuzzyInference

/-! ## Gathering in any order -/

/-- Reordering contributions that are not negative gathers the same. Below zero the bounded sum would
tell what came before the bound was reached. -/
theorem SNorm.foldl_perm (aggregation : SNorm) {xs ys : List Rat} (hperm : xs.Perm ys)
    (hxs : ∀ x ∈ xs, 0 ≤ x) (start : Rat) :
    xs.foldl aggregation.apply start = ys.foldl aggregation.apply start := by
  refine hperm.foldl_eq' (fun x hx y hy z => ?_) start
  cases aggregation with
  | max => exact max_right_comm z x y
  | boundedSum =>
      change SNorm.boundedSum.apply (min (z + x) 1) y = SNorm.boundedSum.apply (min (z + y) 1) x
      rw [boundedSum_apply_min _ (hxs y hy), boundedSum_apply_min _ (hxs x hx), add_right_comm]
  | probabilisticSum =>
      change z + x - z * x + y - (z + x - z * x) * y = z + y - z * y + x - (z + y - z * y) * x
      ring

theorem surface_perm {activations activations' : List (FuzzySet Rat × Rat)}
    (hperm : activations.Perm activations') (x : Rat) :
    surface activations x = surface activations' x :=
  (hperm.map _).foldl_eq' (fun a _ b _ z => max_right_comm z a b) 0

/-- No defuzzifier minds the order of activations. -/
theorem Defuzzifier.apply_perm (d : Defuzzifier) (v : Variable Rat)
    {activations activations' : List (FuzzySet Rat × Rat)}
    (hperm : activations.Perm activations') : d.apply v activations = d.apply v activations' := by
  have hsurface : surface activations = surface activations' := funext (surface_perm hperm)
  cases d with
  | centroid samples => rw [apply, centroidOf, hsurface, apply, centroidOf]
  | meanOfMax samples => rw [apply, meanOfMaxOf, hsurface, apply, meanOfMaxOf]
  | weightedAverage =>
      have hsums := hperm.foldl_eq' (f := fun (p : Rat × Rat) (a : FuzzySet Rat × Rat) =>
        (p.1 + a.2 * representative a.1.label, p.2 + a.2)) (fun a _ b _ p => by
          rw [Prod.mk.injEq]
          exact ⟨add_right_comm _ _ _, add_right_comm _ _ _⟩) (0, 0)
      unfold apply weightedAverageOf
      dsimp only
      rw [hsums]

theorem WeightedMean.ofCredits_perm (v : Variable Rat) {ds ds' : List (Rat × Rat)}
    (hperm : ds.Perm ds') : ofCredits v ds = ofCredits v ds' := by
  refine hperm.foldl_eq' (fun a _ b _ m => ?_) _
  change WeightedMean.mk m.target (m.weightedSum + a.1 * a.2 + b.1 * b.2)
      (m.totalWeight + a.1 + b.1) =
    WeightedMean.mk m.target (m.weightedSum + b.1 * b.2 + a.1 * a.2) (m.totalWeight + b.1 + a.1)
  rw [add_right_comm m.weightedSum, add_right_comm m.totalWeight]

namespace Aggregate

variable {aggregation : SNorm} {v : Variable Rat} {ds ds' : List (FuzzySet Rat × Rat)}
  (hperm : ds.Perm ds') (hsets : ∀ d ∈ ds, ∀ d' ∈ ds, d.1.key = d'.1.key → d.1 = d'.1)
  (hds : ∀ d ∈ ds, 0 ≤ d.2)

include hperm hsets hds

/-- What is said of sets activates them alike in any order, if those with one label are one set. -/
theorem activations_perm :
    (ofCredits aggregation v ds).activations.Perm (ofCredits aggregation v ds').activations := by
  refine Keyed.perm_of_get?_eq (nodup_keys_ofCredits v ds) (nodup_keys_ofCredits v ds')
    fun label => ?_
  have hset : Keyed.get? FuzzySet.label label (ds.map Prod.fst) =
      Keyed.get? FuzzySet.label label (ds'.map Prod.fst) := by
    refine Keyed.get?_perm (hperm.map _) ?_
    simp only [List.forall_mem_map]
    exact fun d hd d' hd' hlabel => hsets d' hd' d hd (congrArg Text.caseKey hlabel)
  have hshares : (sharesOf label ds).foldl aggregation.apply 0 =
      (sharesOf label ds').foldl aggregation.apply 0 := by
    refine aggregation.foldl_perm ((hperm.filter _).map _) ?_ 0
    simp only [List.forall_mem_map]
    exact fun d hd => hds d (List.mem_of_mem_filter hd)
  rw [get?_ofCredits, get?_ofCredits, hset, hshares]

/-- A label in any case finds the same activation whichever set was activated first. -/
theorem activation_perm (label : String) :
    (ofCredits aggregation v ds).activation label =
      (ofCredits aggregation v ds').activation label := by
  have hactivations : (ofCredits aggregation v ds).activations.Perm
      (ofCredits aggregation v ds').activations := activations_perm hperm hsets hds
  unfold activation
  rw [List.find?_eq_find?_of_perm hactivations]
  rintro a ⟨ha, hlabel⟩ b ⟨hb, hlabel'⟩
  obtain ⟨d, hd, hda⟩ := exists_of_mem_activations ha
  obtain ⟨d', hd', hdb⟩ := exists_of_mem_activations hb
  have hkey : d.1.key = d'.1.key := by
    rw [hda, hdb]
    exact (FuzzySet.isNamed_iff.mp hlabel).trans (FuzzySet.isNamed_iff.mp hlabel').symm
  have hset : a.1 = b.1 := by rw [← hda, ← hdb, hsets d hd d' hd' hkey]
  exact List.inj_on_of_nodup_map (nodup_keys_ofCredits v ds) ha hb (congrArg FuzzySet.label hset)

end Aggregate

/-! ## Rules in any order -/

/-- Whether conclusions about one output with one label, in whatever case, are about one set. Sets
are told apart by their labels only: an entry keeps the set that is activated first, with its
shape. -/
def Rule.OneSetPerLabel {α : Type} [Scalar α] (rules : List (Rule α)) : Prop :=
  ∀ v s v' s', .fuzzy v s ∈ rules.flatMap Rule.consequents →
    .fuzzy v' s' ∈ rules.flatMap Rule.consequents → v.key = v'.key → s.key = s'.key → s = s'

/-- Conclusions that were made from labels of known variables are about the sets of these. -/
theorem Rule.oneSetPerLabel_of_over {α : Type} [Scalar α] {w : Vocabulary α}
    {rules : List (Rule α)} (hover : ∀ r ∈ rules, ∀ c ∈ r.consequents, c.Over w) :
    OneSetPerLabel rules := by
  intro v s v' s' hs hs' hv hlabel
  obtain ⟨r, hr, hc⟩ := List.mem_flatMap.mp hs
  obtain ⟨r', hr', hc'⟩ := List.mem_flatMap.mp hs'
  obtain ⟨hknown, hset⟩ := hover r hr _ hc
  obtain ⟨hknown', hset'⟩ := hover r' hr' _ hc'
  obtain rfl := Vocabulary.eq_of_key hknown hknown' hv
  rw [Variable.set?_congr hlabel, hset'] at hset
  exact (Option.some.inj hset).symm

/-- What is collected from enabled rules comes in their order. -/
theorem Rule.flatMap_enabled_perm {δ : Type} {rules rules' : List (Rule Rat)}
    (hperm : rules.Perm rules') (f : Rule Rat → List δ) :
    ((rules.filter (·.enabled)).flatMap f).Perm ((rules'.filter (·.enabled)).flatMap f) :=
  (hperm.filter _).flatMap_right f

namespace MamdaniOperators

variable {ops : MamdaniOperators} {readings : Readings Rat} {rules : List (Rule Rat)} {k : String}
  {d d' : FuzzySet Rat × Rat}

theorem nonneg_of_mem_credits (hd : d ∈ ops.credits readings rules k) : 0 ≤ d.2 := by
  obtain ⟨r, -, v, -, -, s, hs, himplied⟩ := exists_conclusion_of_mem_credits hd
  rw [himplied]
  exact ops.implication.apply_nonneg (Rule.pos_of_mem_firing? hs).le

theorem eq_of_mem_credits (hsets : Rule.OneSetPerLabel (rules.filter (·.enabled)))
    (hd : d ∈ ops.credits readings rules k) (hd' : d' ∈ ops.credits readings rules k)
    (hkey : d.1.key = d'.1.key) : d.1 = d'.1 := by
  obtain ⟨r, hr, v, hc, hv, -⟩ := exists_conclusion_of_mem_credits hd
  obtain ⟨r', hr', v', hc', hv', -⟩ := exists_conclusion_of_mem_credits hd'
  exact hsets v d.1 v' d'.1 (List.mem_flatMap.mpr ⟨r, hr, hc⟩)
    (List.mem_flatMap.mpr ⟨r', hr', hc'⟩) (hv.trans hv'.symm) hkey

end MamdaniOperators

/-! ## Engines -/

/-- What inference says of a set of an output, zero where it says nothing. Crisp conclusions say
nothing of sets. -/
def Conclusions.activationOf (name label : String) : Conclusions Rat → Rat
  | .fuzzy aggregates => Aggregate.activationOf aggregates name label
  | .crisp _ => 0

namespace Engine

/-- The engine with other rules. -/
def withRules (e : Engine Rat) (rules : List (Rule Rat)) : Engine Rat :=
  { e with base := { e.base with rules } }

section Reordered

variable {e : Engine Rat} {rules : List (Rule Rat)} (hperm : e.base.rules.Perm rules)

include hperm

/-- Inputs are read alike if the vocabulary knows all conditions: which rule comes first matters to
names that only a condition knows. -/
theorem read_withRules (hknown : ∀ r ∈ e.base.rules, ∀ a ∈ r.antecedents,
    e.vocabulary.get? a.subject.name = some a.subject) (inputs : List (String × Rat)) :
    (e.withRules rules).read inputs = e.read inputs := by
  have hresolve (name : String) : (e.withRules rules).resolveInput name = e.resolveInput name := by
    have hknown' : ∀ r ∈ (e.withRules rules).base.rules, ∀ a ∈ r.antecedents,
        (e.withRules rules).vocabulary.get? a.subject.name = some a.subject :=
      fun r hr => hknown r (hperm.mem_iff.mpr hr)
    rw [resolveInput_of_known hknown, resolveInput_of_known hknown']
    rfl
  have hread (readings : Readings Rat) :
      (e.withRules rules).readOnto readings inputs = e.readOnto readings inputs := by
    induction inputs generalizing readings with
    | nil => rfl
    | cons input rest ih =>
        obtain ⟨name, x⟩ := input
        rw [readOnto, readOnto, hresolve]
        cases e.resolveInput name with
        | error error => rfl
        | ok v =>
            dsimp only
            rw [ih]
            rfl
  exact hread {}

theorem fault?_withRules :
    (∀ r ∈ (e.withRules rules).base.enabledRules, r.fault? e.mode = none) ↔
      ∀ r ∈ e.base.enabledRules, r.fault? e.mode = none := by
  have henabled := hperm.filter (·.enabled)
  constructor
  · exact fun h r hr => h r (henabled.mem_iff.mp hr)
  · exact fun h r hr => h r (henabled.mem_iff.mpr hr)

variable (readings : Readings Rat)

section Sets

variable (hsets : e.mode = .mamdani → Rule.OneSetPerLabel e.base.enabledRules)

include hsets

theorem valueOf_withRules (v : Variable Rat) :
    (e.withRules rules).valueOf readings v = e.valueOf readings v := by
  unfold valueOf withRules
  unfold mode at hsets
  dsimp only
  cases hpipeline : e.pipeline with
  | mamdani ops d =>
      rw [hpipeline] at hsets
      exact (d.apply_perm v (Aggregate.activations_perm (Rule.flatMap_enabled_perm hperm _)
        (fun c hc c' hc' => MamdaniOperators.eq_of_mem_credits (hsets rfl) hc hc')
        fun c hc => MamdaniOperators.nonneg_of_mem_credits hc)).symm
  | sugeno norms =>
      exact congrArg WeightedMean.value
        (WeightedMean.ofCredits_perm v (Rule.flatMap_enabled_perm hperm _)).symm

end Sets

variable (hknown : ∀ r ∈ e.base.rules, ∀ c ∈ r.consequents,
  e.vocabulary.get? c.target.name = some c.target)

include hknown

/-- An output is the same variable whichever rule mentions it first. -/
theorem get?_mentioned_withRules (k : String) :
    Keyed.get? Variable.key k (mentioned (e.withRules rules).base.rules) =
      Keyed.get? Variable.key k (mentioned e.base.rules) := by
  refine (Keyed.get?_perm (Rule.flatMap_enabled_perm hperm _) fun u hu v hv hkey => ?_).symm
  exact Vocabulary.eq_of_key (known_of_mem_mentioned hknown hv) (known_of_mem_mentioned hknown hu)
    hkey

variable (hsets : e.mode = .mamdani → Rule.OneSetPerLabel e.base.enabledRules)

include hsets

theorem activationOf_withRules (name label : String) :
    ((e.withRules rules).ledger readings).activationOf name label =
      (e.ledger readings).activationOf name label := by
  have hmentioned := get?_mentioned_withRules hperm hknown (Text.lowerCase name)
  unfold ledger
  unfold mode at hsets
  unfold withRules at hmentioned ⊢
  dsimp only at hmentioned ⊢
  cases hpipeline : e.pipeline with
  | mamdani ops d =>
      rw [hpipeline] at hsets
      simp only [Conclusions.activationOf, Aggregate.activationOf, Aggregate.find?,
        MamdaniOperators.get?_ledger, hmentioned, Option.map_map]
      congr 1
      refine Option.map_congr fun v _ => ?_
      exact (Aggregate.activation_perm (Rule.flatMap_enabled_perm hperm _)
        (fun c hc c' hc' => MamdaniOperators.eq_of_mem_credits (hsets rfl) hc hc')
        (fun c hc => MamdaniOperators.nonneg_of_mem_credits hc) label).symm
  | sugeno norms => rfl

theorem values_withRules : ((e.withRules rules).values readings).Perm (e.values readings) := by
  refine Keyed.perm_of_get?_eq (nodup_keys_values _ _) (nodup_keys_values _ _) fun k => ?_
  rw [get?_values, get?_values, get?_mentioned_withRules hperm hknown]
  exact Option.map_congr fun v _ => by rw [valueOf_withRules hperm readings hsets]

theorem get?_values_withRules (name : String) :
    Keyed.get? Prod.fst name ((e.withRules rules).values readings) =
      Keyed.get? Prod.fst name (e.values readings) :=
  Keyed.get?_perm (values_withRules hperm readings hknown hsets) fun _ hp _ hq hname =>
    List.inj_on_of_nodup_map (nodup_names_values _ _) hq hp hname

end Reordered

/-- With its rules in another order, an engine whose vocabulary knows all variables of the rules
either fails as well, or answers the same value for each name and activates each set alike. Fuzzy
conclusions of enabled rules must be about one set for each label of an output. -/
theorem evaluate_withRules {e : Engine Rat} {rules : List (Rule Rat)}
    (hperm : e.base.rules.Perm rules)
    (hsubjects : ∀ r ∈ e.base.rules, ∀ a ∈ r.antecedents,
      e.vocabulary.get? a.subject.name = some a.subject)
    (htargets : ∀ r ∈ e.base.rules, ∀ c ∈ r.consequents,
      e.vocabulary.get? c.target.name = some c.target)
    (hsets : e.mode = .mamdani → Rule.OneSetPerLabel e.base.enabledRules)
    (inputs : List (String × Rat)) :
    (∃ error error', (e.evaluate inputs).result = .error error ∧
      ((e.withRules rules).evaluate inputs).result = .error error') ∨
    ∃ outputs outputs' conclusions conclusions',
      (e.evaluate inputs).result = .ok outputs ∧
      ((e.withRules rules).evaluate inputs).result = .ok outputs' ∧
      (∀ name, Keyed.get? Prod.fst name outputs' = Keyed.get? Prod.fst name outputs) ∧
      (e.infer inputs).result = .ok conclusions ∧
      ((e.withRules rules).infer inputs).result = .ok conclusions' ∧
      ∀ name label, conclusions'.activationOf name label = conclusions.activationOf name label := by
  have hread := read_withRules hperm hsubjects inputs
  have hfaults := fault?_withRules hperm
  by_cases hok : ∃ readings, (e.read inputs).result = .ok readings ∧
      ∀ r ∈ e.base.enabledRules, r.fault? e.mode = none
  · right
    obtain ⟨readings, hreadings, hfault⟩ := hok
    have hreadings' : ((e.withRules rules).read inputs).result = .ok readings := by
      rw [hread, hreadings]
    have hfault' := hfaults.mpr hfault
    exact ⟨_, _, _, _, evaluate_eq_ok_iff.mpr ⟨readings, hreadings, hfault, rfl⟩,
      evaluate_eq_ok_iff.mpr ⟨readings, hreadings', hfault', rfl⟩,
      get?_values_withRules hperm readings htargets hsets, infer_eq_of_read hreadings hfault,
      infer_eq_of_read hreadings' hfault', activationOf_withRules hperm readings htargets hsets⟩
  · left
    cases h : (e.evaluate inputs).result with
    | ok outputs =>
        obtain ⟨readings, hreadings, hfault, -⟩ := evaluate_eq_ok_iff.mp h
        exact absurd ⟨readings, hreadings, hfault⟩ hok
    | error error =>
        cases h' : ((e.withRules rules).evaluate inputs).result with
        | ok outputs =>
            obtain ⟨readings, hreadings, hfault, -⟩ := evaluate_eq_ok_iff.mp h'
            rw [hread] at hreadings
            exact absurd ⟨readings, hreadings, hfaults.mp hfault⟩ hok
        | error error' => exact ⟨error, error', rfl, rfl⟩

end Engine

/-! ## Heating and airing -/

namespace Climate

def temperature : Variable Rat := ⟨"Temperature", 5, 45,
  [⟨"Cold", .triangle 5 15 25, by decide +kernel, by decide +kernel, by decide +kernel⟩,
    ⟨"Warm", .triangle 15 25 35, by decide +kernel, by decide +kernel, by decide +kernel⟩],
  rfl, rfl, by decide +kernel, by simp [FuzzySet.key, Text.caseKey]⟩

def high : FuzzySet Rat :=
  ⟨"High", .triangle 2 12 12, by decide +kernel, by decide +kernel, by decide +kernel⟩

def power (name : String) : Variable Rat :=
  ⟨name, 2, 12, [high], rfl, rfl, by decide +kernel, by simp⟩

/-- Both rules about the heater speak at nineteen degrees, and what they say adds up. -/
def engine : Engine Rat where
  pipeline := .mamdani { aggregation := .boundedSum } (.centroid ⟨5, by decide⟩)
  base := { rules := [
    { antecedents := [⟨temperature, "Cold"⟩], consequents := [.fuzzy (power "Heater") high] },
    { antecedents := [⟨temperature, "Warm"⟩], consequents := [.fuzzy (power "Heater") high]
      weight := 1 / 2 },
    { antecedents := [⟨temperature, "Warm"⟩], consequents := [.fuzzy (power "Fan") high] }] }
  vocabulary := ⟨[temperature, power "Heater", power "Fan"]⟩

def inputs : List (String × Rat) := [("Temperature", 19)]

/-- From the last rule to the first, the outputs change places and nothing else. -/
theorem evaluate_climate_reversed :
    ∃ outputs outputs', (engine.evaluate inputs).result = .ok outputs ∧
      ((engine.withRules engine.base.rules.reverse).evaluate inputs).result = .ok outputs' ∧
      outputs = [("Heater", 47 / 6), ("Fan", 103 / 14)] ∧
      outputs' = [("Fan", 103 / 14), ("Heater", 47 / 6)] ∧
      ∀ name, Keyed.get? Prod.fst name outputs' = Keyed.get? Prod.fst name outputs := by
  have hfirst : (engine.evaluate inputs).result.toOption =
      some [("Heater", 47 / 6), ("Fan", 103 / 14)] := by decide +kernel
  have hsecond : ((engine.withRules engine.base.rules.reverse).evaluate inputs).result.toOption =
      some [("Fan", 103 / 14), ("Heater", 47 / 6)] := by decide +kernel
  have hknown : ∀ r ∈ engine.base.rules, ∀ a ∈ r.antecedents,
      engine.vocabulary.get? a.subject.name = some a.subject := by
    have htemperature : engine.vocabulary.get? temperature.name = some temperature := rfl
    simpa [engine] using htemperature
  have hover : ∀ r ∈ engine.base.rules, ∀ c ∈ r.consequents, c.Over engine.vocabulary := by
    have hheater : (Consequent.fuzzy (power "Heater") high).Over engine.vocabulary := ⟨rfl, rfl⟩
    have hfan : (Consequent.fuzzy (power "Fan") high).Over engine.vocabulary := ⟨rfl, rfl⟩
    simpa [engine] using ⟨hheater, hfan⟩
  have hsets : engine.mode = .mamdani → Rule.OneSetPerLabel engine.base.enabledRules :=
    fun _ => Rule.oneSetPerLabel_of_over fun r hr => hover r (List.mem_of_mem_filter hr)
  rcases Engine.evaluate_withRules (List.reverse_perm _).symm hknown
      (fun r hr c hc => (hover r hr c hc).known) hsets inputs with
    ⟨error, _, herror, -⟩ | ⟨outputs, outputs', _, _, hresult, hresult', hsame, -⟩
  · rw [herror] at hfirst
    cases hfirst
  · rw [hresult] at hfirst
    rw [hresult'] at hsecond
    exact ⟨outputs, outputs', hresult, hresult', Option.some.inj hfirst, Option.some.inj hsecond,
      hsame⟩

/-- A set with its peak in the middle of the domain. -/
def peaked (label : String) : FuzzySet Rat :=
  ⟨label, .triangle 2 7 12, by decide +kernel, by decide +kernel, by decide +kernel⟩

/-- A variable on the same domain whose set peaks in the middle. -/
def redrawn (name label : String) : Variable Rat :=
  ⟨name, 2, 12, [peaked label], rfl, rfl, by decide +kernel, by simp⟩

/-- Two rules about the heater mean different sets by one label, and two about the fan mean
different sets by labels that differ in case. -/
def contested (heater fan : Variable Rat) : Engine Rat where
  pipeline := .mamdani {} (.centroid ⟨5, by decide⟩)
  base := { rules := [
    { antecedents := [⟨temperature, "Cold"⟩], consequents := [.fuzzy (power "Heater") high] },
    { antecedents := [⟨temperature, "Warm"⟩], consequents := [.fuzzy heater (peaked "High")] },
    { antecedents := [⟨temperature, "Cold"⟩], consequents := [.fuzzy (power "Fan") high] },
    { antecedents := [⟨temperature, "Warm"⟩], consequents := [.fuzzy fan (peaked "HIGH")] }] }
  vocabulary := ⟨[temperature, power "Heater", power "Fan"]⟩

/-- From the last rule to the first, the heater is given the other set and another value, and the
label of the fan finds the other activation. All variables are known; it is the same if the rules
with the other sets are about variables of their own that have the same names. -/
theorem evaluate_contested_reversed :
    (let e := contested (power "Heater") (power "Fan")
      ∀ r ∈ e.base.rules,
        (∀ a ∈ r.antecedents, e.vocabulary.get? a.subject.name = some a.subject) ∧
        ∀ c ∈ r.consequents, e.vocabulary.get? c.target.name = some c.target) ∧
    ∀ e ∈ [contested (power "Heater") (power "Fan"),
        contested (redrawn "Heater" "High") (redrawn "Fan" "HIGH")],
      let reversed := e.withRules e.base.rules.reverse
      (e.evaluate inputs).result.toOption = some [("Heater", 413 / 54), ("Fan", 22 / 3)] ∧
      (reversed.evaluate inputs).result.toOption = some [("Fan", 22 / 3), ("Heater", 7)] ∧
      (e.infer inputs).result.toOption.map (·.activationOf "Fan" "High") = some (3 / 5) ∧
      (reversed.infer inputs).result.toOption.map (·.activationOf "Fan" "High") = some (2 / 5) := by
  constructor
  · intro e
    have htemperature : e.vocabulary.get? temperature.name = some temperature := rfl
    have hheater : e.vocabulary.get? (power "Heater").name = some (power "Heater") := rfl
    have hfan : e.vocabulary.get? (power "Fan").name = some (power "Fan") := rfl
    simpa [e, contested] using ⟨⟨htemperature, hheater⟩, ⟨htemperature, hheater⟩,
      ⟨htemperature, hfan⟩, htemperature, hfan⟩
  · decide +kernel

end Climate

end FuzzyInference
