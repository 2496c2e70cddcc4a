import FuzzyInference.Proofs.Positivity

/-! The shape of what inference answers: which outputs have an entry and in which order, what an
entry holds, and what becomes of it in an evaluation. -/

namespace FuzzyInference

variable {α : Type} [Scalar α]

/-! ## Shapes -/

/-- The names of the outputs that enabled rules conclude about, in lower case, where they first
occur. -/
def outputKeys (rules : List (Rule α)) : List String :=
  ((mentioned rules).map Variable.key).eraseDups

/-- Whether an enabled rule has a strictly positive strength. -/
def Rule.Fires (norms : Norms) (readings : Readings α) (r : Rule α) : Prop :=
  r.enabled = true ∧ ∃ s, r.strength norms readings = .ok s ∧ 0 < s

/-- What firing rules imply for a label of an output, one after the other. An activation aggregates
this; by weights above one it need not be positive itself. -/
def MamdaniOperators.implied (ops : MamdaniOperators) (readings : Readings α)
    (rules : List (Rule α)) (k label : String) : List α :=
  (rules.filter (·.enabled)).flatMap fun r =>
    (r.firing? ops.toNorms readings).elim [] fun s =>
      List.replicate (r.occurrences k label) (ops.implication.apply s 1)

/-- Fuzzy conclusions: one entry for each output, with the variable of its first mention and an
activation for each label that some firing rule concludes. The activation gathers all that firing
rules imply for the label, and all of that is strictly positive. -/
structure MamdaniOperators.Shape (ops : MamdaniOperators) (readings : Readings α)
    (rules : List (Rule α)) (out : List (Aggregate α)) : Prop where
  keys : out.map Aggregate.key = outputKeys rules
  target : ∀ g ∈ out, Keyed.get? Variable.key g.key (mentioned rules) = some g.target
  labels : ∀ g ∈ out, (g.activations.map activationKey).Nodup
  activated : ∀ g ∈ out, ∀ label, label ∈ g.activations.map activationKey ↔
    ∃ r ∈ rules, r.Fires ops.toNorms readings ∧
      ∃ v s, .fuzzy v s ∈ r.consequents ∧ v.key = g.key ∧ s.label = label
  gathered : ∀ g ∈ out, ∀ a ∈ g.activations,
    a.2 = (ops.implied readings rules g.key a.1.label).foldl ops.aggregation.apply 0
  positive : ∀ k label, ∀ x ∈ ops.implied readings rules k label, 0 < x

/-- Crisp conclusions: one entry for each output, with the variable of its first mention, fired if
some firing rule concludes on it. -/
structure Norms.Shape (norms : Norms) (readings : Readings α) (rules : List (Rule α))
    (out : List (WeightedMean α)) : Prop where
  keys : out.map WeightedMean.key = outputKeys rules
  target : ∀ m ∈ out, Keyed.get? Variable.key m.key (mentioned rules) = some m.target
  fired : ∀ m ∈ out, m.fired = true ↔
    ∃ r ∈ rules, r.Fires norms readings ∧ ∃ c ∈ r.consequents, c.target.key = m.key

/-- The crisp outputs of the entries. -/
inductive Engine.Answers (e : Engine α) : Conclusions α → List (String × α) → Prop where
  | fuzzy {ops d out} : e.pipeline = .mamdani ops d →
      Answers e (.fuzzy out) (out.map (Aggregate.output d))
  | crisp {norms out} : e.pipeline = .sugeno norms →
      Answers e (.crisp out) (out.map WeightedMean.output)

/-- Crisp outputs: one for each entry, under the name of its first mention. -/
structure Engine.Shape (e : Engine α) (conclusions : Conclusions α)
    (outputs : List (String × α)) : Prop where
  answers : e.Answers conclusions outputs
  keys : outputs.map outputKey = outputKeys e.base.rules
  names : ∀ p ∈ outputs,
    (Keyed.get? Variable.key (outputKey p) (mentioned e.base.rules)).map Variable.name = some p.1
  distinct : (outputs.map outputKey).Nodup

/-! ## Outputs -/

namespace Rule

variable {δ : Type} (say : α → Consequent α → Option δ)

/-- A rule brings in its outputs by mentioning them, whether or not it fires. -/
theorem foldl_enlist_postings (firing : Option α) (r : Rule α) (known : List String) :
    ((r.postings say firing).map fun p => p.1.key).foldl Keyed.enlist known =
      (r.targets.map Variable.key).foldl Keyed.enlist known := by
  cases firing with
  | none => simp [postings, targets, Function.comp_def]
  | some s =>
      have hsaid : (r.postings say (some s)).map (fun p => p.1.key) =
          r.targets.map Variable.key ++ r.targets.map Variable.key := by
        simp [postings, targets, Function.comp_def]
      -- When the rule speaks of its outputs, it has mentioned all of them.
      rw [hsaid, List.foldl_append]
      exact Keyed.foldl_enlist_of_subset fun k hk => Keyed.mem_foldl_enlist.mpr (.inr hk)

theorem map_key_postings {β : Type} {key : β → String} {blank : Variable α → β}
    {credit : δ → β → β} (hblank : ∀ v, key (blank v) = v.key)
    (hcredit : ∀ d b, key (credit d b) = key b) (firing : Rule α → Option α)
    (rules : List (Rule α)) :
    ((rules.flatMap fun r => r.postings say (firing r)).foldl
        (Keyed.post key Variable.key blank credit) []).map key =
      ((rules.flatMap targets).map Variable.key).eraseDups := by
  rw [Keyed.map_key_posts hblank hcredit, ← Keyed.foldl_enlist_nil, List.map_flatMap,
    List.map_flatMap, List.foldl_flatMap, List.foldl_flatMap]
  exact List.foldl_ext _ _ _ fun known r _ => foldl_enlist_postings say (firing r) r known

theorem exists_mem_firing?_iff {norms : Norms} {readings : Readings α} {r : Rule α} :
    (∃ s, s ∈ r.firing? norms readings) ↔ ∃ s, r.strength norms readings = .ok s ∧ 0 < s := by
  simp only [mem_firing?_iff]

theorem fires_of_isSome {norms : Norms} {readings : Readings α} {r : Rule α}
    (h : r.enabled = true ∧ (r.firing? norms readings).isSome = true) : r.Fires norms readings :=
  ⟨h.1, exists_mem_firing?_iff.mp (Option.isSome_iff_exists.mp h.2)⟩

/-- All that is said of an output is said by firing rules, and all that these say is said. -/
theorem exists_mem_credits_iff {norms : Norms} {readings : Readings α} {rules : List (Rule α)}
    {k : String} {p : δ → Prop} {q : Consequent α → Prop}
    (h : ∀ r ∈ rules, r.enabled = true → ∀ c ∈ r.consequents, ∀ s,
      (∃ d, say s c = some d ∧ p d) ↔ q c) :
    (∃ d ∈ (rules.filter (·.enabled)).flatMap fun r => r.credits say (r.firing? norms readings) k,
        p d) ↔
      ∃ r ∈ rules, r.Fires norms readings ∧ ∃ c ∈ r.consequents, c.target.key = k ∧ q c := by
  constructor
  · rintro ⟨d, hd, hp⟩
    obtain ⟨r, hr, hd⟩ := List.mem_flatMap.mp hd
    obtain ⟨s, hs, c, hc, hkey, hsay⟩ := (mem_credits say).mp hd
    obtain ⟨hmem, henabled⟩ := List.mem_filter.mp hr
    exact ⟨r, hmem, ⟨henabled, exists_mem_firing?_iff.mp ⟨s, hs⟩⟩, c, hc, hkey,
      (h r hmem henabled c hc s).mp ⟨d, hsay, hp⟩⟩
  · rintro ⟨r, hr, ⟨henabled, hstrength⟩, c, hc, hkey, hq⟩
    obtain ⟨s, hs⟩ := exists_mem_firing?_iff.mpr hstrength
    obtain ⟨d, hsay, hp⟩ := (h r hr henabled c hc s).mpr hq
    refine ⟨d, List.mem_flatMap.mpr ⟨r, List.mem_filter.mpr ⟨hr, henabled⟩, ?_⟩, hp⟩
    exact (mem_credits say).mpr ⟨s, hs, c, hc, hkey, hsay⟩

end Rule

/-! ## Fuzzy conclusions -/

namespace Aggregate

theorem mem_labels_ofCredits {aggregation : SNorm} {v : Variable α} {ds : List (FuzzySet α × α)}
    {label : String} :
    label ∈ (ofCredits aggregation v ds).activations.map activationKey ↔
      ∃ d ∈ ds, d.1.label = label := by
  rw [← Keyed.isSome_get?_iff, get?_ofCredits, Option.isSome_map, Keyed.isSome_get?_iff]
  simp

end Aggregate

namespace MamdaniOperators

variable {ops : MamdaniOperators} {readings : Readings α} {rules : List (Rule α)}

theorem sharesOf_credits_eq_implied (k label : String) :
    Aggregate.sharesOf label (ops.credits readings rules k) =
      ops.implied readings rules k label := by
  rw [credits, Aggregate.sharesOf_flatMap, implied]
  simp only [sharesOf_credits]

theorem mem_ledger {g : Aggregate α} (hg : g ∈ ops.ledger readings rules) :
    ∃ v, Keyed.get? Variable.key g.key (mentioned rules) = some v ∧
      .ofCredits ops.aggregation v (ops.credits readings rules g.key) = g :=
  Keyed.exists_of_mem (nodup_keys_ledger rules) (get?_ledger rules) hg

theorem mem_labels_iff_credits {g : Aggregate α} (hg : g ∈ ops.ledger readings rules)
    {label : String} : label ∈ g.activations.map activationKey ↔
      ∃ d ∈ ops.credits readings rules g.key, d.1.label = label := by
  obtain ⟨v, -, hg⟩ := mem_ledger hg
  rw [← Aggregate.mem_labels_ofCredits, hg]

theorem implication_pos [Scalar.Positivity α] {s : α} (hs : 0 < s) :
    0 < ops.implication.apply s 1 := by
  cases ops.implication with
  | min => exact Scalar.Positivity.least_one_pos hs
  | product => exact Scalar.Positivity.mul_one_pos hs

theorem exists_of_mem_implied {k label : String} {x : α}
    (hx : x ∈ ops.implied readings rules k label) :
    ∃ r ∈ rules, ∃ s ∈ r.firing? ops.toNorms readings, x = ops.implication.apply s 1 := by
  obtain ⟨r, hr, hx⟩ := List.mem_flatMap.mp hx
  refine ⟨r, List.mem_of_mem_filter hr, ?_⟩
  cases hfiring : r.firing? ops.toNorms readings with
  | none =>
      rw [hfiring] at hx
      cases hx
  | some s =>
      rw [hfiring] at hx
      exact ⟨s, rfl, List.eq_of_mem_replicate hx⟩

theorem pos_of_mem_implied [Scalar.Positivity α] {k label : String} {x : α}
    (hx : x ∈ ops.implied readings rules k label) : 0 < x := by
  obtain ⟨r, -, s, hs, rfl⟩ := exists_of_mem_implied hx
  exact implication_pos (Rule.pos_of_mem_firing? hs)

theorem shape_ledger [Scalar.Positivity α] (ops : MamdaniOperators) (readings : Readings α)
    (rules : List (Rule α)) : ops.Shape readings rules (ops.ledger readings rules) where
  keys := Rule.map_key_postings ops.say key_blank key_credit _ _
  target g hg := by
    obtain ⟨v, hv, hg⟩ := mem_ledger hg
    rw [hv, ← hg, Aggregate.target_ofCredits]
  labels g hg := by
    obtain ⟨v, -, hg⟩ := mem_ledger hg
    rw [← hg]
    exact Aggregate.nodup_keys_ofCredits v _
  activated g hg label := by
    have hsay (s : α) (c : Consequent α) : (∃ d, ops.say s c = some d ∧ d.1.label = label) ↔
        ∃ v set, c = .fuzzy v set ∧ set.label = label := by
      cases c <;> simp [say]
    rw [mem_labels_iff_credits hg, credits,
      Rule.exists_mem_credits_iff ops.say fun _ _ _ c _ s => hsay s c]
    constructor
    · rintro ⟨r, hr, hfires, c, hc, hkey, v, s, rfl, hlabel⟩
      exact ⟨r, hr, hfires, v, s, hc, hkey, hlabel⟩
    · rintro ⟨r, hr, hfires, v, s, hc, hkey, hlabel⟩
      exact ⟨r, hr, hfires, _, hc, hkey, v, s, rfl, hlabel⟩
  gathered g hg a ha := by
    obtain ⟨v, -, hg⟩ := mem_ledger hg
    rw [← hg] at ha
    obtain ⟨s, -, hsa⟩ := Keyed.exists_of_mem (Aggregate.nodup_keys_ofCredits v _)
      (Aggregate.get?_ofCredits v _) ha
    rw [← sharesOf_credits_eq_implied]
    exact (congrArg Prod.snd hsa).symm
  positive k label x := pos_of_mem_implied

end MamdaniOperators

/-! ## Crisp conclusions -/

namespace WeightedMean

/-- Positive weights do not add up to zero. -/
theorem fired_ofCredits [Scalar.Positivity α] {v : Variable α} {ds : List (α × α)}
    (hpos : ∀ d ∈ ds, 0 < d.1) : (ofCredits v ds).fired = true ↔ ds ≠ [] := by
  unfold fired
  rw [decide_eq_true_iff]
  induction ds using List.reverseRec with
  | nil => exact ⟨fun h => absurd h Scalar.Grounded.not_zero_lt_zero, fun h => absurd rfl h⟩
  | append_singleton ds d ih =>
      have htotal : (ofCredits v (ds ++ [d])).totalWeight = (ofCredits v ds).totalWeight + d.1 := by
        rw [ofCredits, List.foldl_append]
        rfl
      have hd : 0 < d.1 := hpos d (by simp)
      refine ⟨fun _ => by simp, fun _ => ?_⟩
      rw [htotal]
      by_cases hds : ds = []
      · rw [hds]
        exact Scalar.Positivity.zero_add_pos hd
      · exact Scalar.Positivity.add_pos
          ((ih fun d hd => hpos d (List.mem_append_left _ hd)).mpr hds) hd

end WeightedMean

namespace Norms

variable {norms : Norms} {readings : Readings α} {rules : List (Rule α)}

theorem mem_ledger {m : WeightedMean α} (hm : m ∈ norms.ledger readings rules) :
    ∃ v, Keyed.get? Variable.key m.key (mentioned rules) = some v ∧
      .ofCredits v (norms.credits readings rules m.key) = m :=
  Keyed.exists_of_mem (nodup_keys_ledger rules) (get?_ledger rules) hm

theorem pos_of_mem_credits {k : String} {d : α × α} (hd : d ∈ norms.credits readings rules k) :
    0 < d.1 := by
  obtain ⟨r, -, hd⟩ := List.mem_flatMap.mp hd
  obtain ⟨s, hs, c, -, -, hsay⟩ := (Rule.mem_credits say).mp hd
  cases c with
  | fuzzy v set => cases hsay
  | crisp v x =>
      cases hsay
      exact Rule.pos_of_mem_firing? hs

theorem shape_ledger [Scalar.Positivity α] (hmode : ∀ r ∈ rules, r.enabled = true →
    ∀ c ∈ r.consequents, c.mode = .sugeno) :
    norms.Shape readings rules (norms.ledger readings rules) where
  keys := Rule.map_key_postings say key_blank key_credit _ _
  target m hm := by
    obtain ⟨v, hv, hm⟩ := mem_ledger hm
    rw [hv, ← hm, WeightedMean.target_ofCredits]
  fired m hm := by
    obtain ⟨v, -, hm⟩ := mem_ledger hm
    have hfired : m.fired = true ↔ ∃ d ∈ norms.credits readings rules m.key, True := by
      rw [← hm, WeightedMean.fired_ofCredits fun d => pos_of_mem_credits, hm]
      simp [List.eq_nil_iff_forall_not_mem]
    have hsay : ∀ r ∈ rules, r.enabled = true → ∀ c ∈ r.consequents, ∀ s,
        (∃ d, say s c = some d ∧ True) ↔ True := by
      intro r hr henabled c hc s
      cases c with
      | fuzzy v set => cases hmode r hr henabled _ hc
      | crisp v x => simp [say]
    rw [hfired, credits, Rule.exists_mem_credits_iff say hsay]
    simp only [and_true]

end Norms

/-! ## Evaluations -/

namespace Engine

variable {e : Engine α} {readings : Readings α}

theorem answers_ledger (e : Engine α) (readings : Readings α) :
    e.Answers (e.ledger readings) (e.values readings) := by
  unfold ledger values
  cases hpipeline : e.pipeline with
  | mamdani ops d => exact .fuzzy hpipeline
  | sugeno norms => exact .crisp hpipeline

theorem map_outputKey_values (e : Engine α) (readings : Readings α) :
    (e.values readings).map outputKey = outputKeys e.base.rules := by
  unfold values
  cases e.pipeline with
  | mamdani ops d =>
      rw [List.map_map]
      exact Rule.map_key_postings ops.say MamdaniOperators.key_blank MamdaniOperators.key_credit _ _
  | sugeno norms =>
      rw [List.map_map]
      exact Rule.map_key_postings Norms.say Norms.key_blank Norms.key_credit _ _

theorem shape_values (e : Engine α) (readings : Readings α) :
    e.Shape (e.ledger readings) (e.values readings) where
  answers := e.answers_ledger readings
  keys := e.map_outputKey_values readings
  names p hp := by
    obtain ⟨v, hv, hvp⟩ := Keyed.exists_of_mem (e.nodup_keys_values readings)
      (e.get?_values readings) hp
    rw [hv, ← hvp]
    rfl
  distinct := e.nodup_keys_values readings

end Engine

/-- Whatever inference answers has the shape of its method, and an evaluation turns each entry into
one crisp output. -/
theorem output_shape [Scalar.Positivity α] :
    (∀ (ops : MamdaniOperators) (rules : List (Rule α)) (readings : Readings α) out,
      ops.infer rules readings = .ok out → ops.Shape readings rules out) ∧
    (∀ (norms : Norms) (rules : List (Rule α)) (readings : Readings α) out,
      norms.infer rules readings = .ok out → norms.Shape readings rules out) ∧
    ∀ (e : Engine α) (inputs : List (String × α)) conclusions,
      (e.infer inputs).result = .ok conclusions →
      ∃ outputs, (e.evaluate inputs).result = .ok outputs ∧ e.Shape conclusions outputs := by
  refine ⟨fun ops rules readings out h => ?_, fun norms rules readings out h => ?_,
    fun e inputs conclusions h => ?_⟩
  · obtain ⟨-, rfl⟩ := MamdaniOperators.infer_eq_ok_iff.mp h
    exact ops.shape_ledger readings rules
  · obtain ⟨hfault, rfl⟩ := Norms.infer_eq_ok_iff.mp h
    refine Norms.shape_ledger fun r hr henabled => ?_
    exact ((Rule.fault?_eq_none_iff norms readings).mp
      (hfault r (List.mem_filter.mpr ⟨hr, henabled⟩))).1
  · obtain ⟨readings, hread, hinfer⟩ := bind_eq_ok.mp h
    obtain ⟨hfault, rfl⟩ := Engine.inferFrom_eq_ok_iff.mp hinfer
    exact ⟨_, Engine.evaluate_eq_ok_iff.mpr ⟨readings, hread, hfault, rfl⟩,
      e.shape_values readings⟩

/-! ## A brake at high speed -/

namespace Brake

def fast : Readings Float := .ofList [speed.fuzzify 170]

/-- Brakes by a given amount, with infinite weight. -/
def heavy : Rule Float where
  antecedents := [⟨speed, "Fast"⟩]
  consequents := [.crisp brake 4]
  weight := 1 / 0

theorem fires_base : ∀ r ∈ base.rules, r.Fires {} fast := by
  have hfiring : ∀ r ∈ base.rules, r.enabled = true ∧ (r.firing? {} fast).isSome = true := by
    decide +kernel
  exact fun r hr => Rule.fires_of_isSome (hfiring r hr)

theorem fires_heavy : heavy.Fires {} fast := Rule.fires_of_isSome (by decide +kernel)

theorem faultless {mode : Mode} {rules : List (Rule Float)}
    (h : ∀ r ∈ rules, (r.fault? mode).isNone = true) :
    ∀ r ∈ rules.filter (·.enabled), r.fault? mode = none :=
  fun r hr => Option.isNone_iff_eq_none.mp (h r (List.mem_of_mem_filter hr))

theorem faultless_base : ∀ r ∈ base.enabledRules, r.fault? .mamdani = none :=
  faultless (by decide +kernel)

theorem infer_base : ({} : MamdaniOperators).infer base.rules fast =
    .ok (({} : MamdaniOperators).ledger fast base.rules) :=
  MamdaniOperators.infer_eq_ok_iff.mpr ⟨faultless_base, rfl⟩

theorem infer_heavy : ({} : Norms).infer [heavy] fast = .ok (({} : Norms).ledger fast [heavy]) :=
  Norms.infer_eq_ok_iff.mpr ⟨faultless (by decide +kernel), rfl⟩

/-- Both methods answer one entry, for the brake, which the rule speaks of; evaluation answers one
value. -/
theorem output_shape_brake :
    (∃ out, ({} : MamdaniOperators).infer base.rules fast = .ok out ∧
      out.map Aggregate.key = ["brake"] ∧
      ∀ g ∈ out, "Strong" ∈ g.activations.map activationKey) ∧
    (∃ out, ({} : Norms).infer [heavy] fast = .ok out ∧
      out.map WeightedMean.key = ["brake"] ∧ ∀ m ∈ out, m.fired = true) ∧
    ∃ outputs, ((engine (.centroid .default)).evaluate inputs).result = .ok outputs ∧
      outputs.map outputKey = ["brake"] := by
  obtain ⟨hfuzzy, hcrisp, hevaluate⟩ := output_shape (α := Float)
  refine ⟨?_, ?_, ?_⟩
  · have hshape := hfuzzy _ _ _ _ infer_base
    have hkeys := hshape.keys.trans (show outputKeys base.rules = ["brake"] by decide +kernel)
    refine ⟨_, infer_base, hkeys, fun g hg => (hshape.activated g hg "Strong").mpr ?_⟩
    have hkey : g.key ∈ ["brake"] := hkeys ▸ List.mem_map_of_mem hg
    refine ⟨_, List.mem_singleton_self _, fires_base _ (List.mem_singleton_self _), brake, strong,
      List.mem_singleton_self _, ?_, rfl⟩
    exact (List.mem_singleton.mp hkey).symm
  · have hshape := hcrisp _ _ _ _ infer_heavy
    have hkeys := hshape.keys.trans (show outputKeys [heavy] = ["brake"] by decide +kernel)
    refine ⟨_, infer_heavy, hkeys, fun m hm => (hshape.fired m hm).mpr ?_⟩
    have hkey : m.key ∈ ["brake"] := hkeys ▸ List.mem_map_of_mem hm
    refine ⟨_, List.mem_singleton_self _, fires_heavy, _, List.mem_singleton_self _, ?_⟩
    exact (List.mem_singleton.mp hkey).symm
  · have hinfer := Engine.infer_eq_of_read (read_inputs (.centroid .default)) faultless_base
    obtain ⟨outputs, houtputs, hshape⟩ := hevaluate _ _ _ hinfer
    exact ⟨outputs, houtputs, hshape.keys.trans (by decide +kernel)⟩

/-- Brakes strongly, with a weight that makes its strength two. -/
def insistent : Rule Float where
  antecedents := [⟨speed, "Fast"⟩]
  consequents := [.fuzzy brake strong]
  weight := 4

/-- Operators that let strengths above one through. -/
def lenient : MamdaniOperators := { implication := .product, aggregation := .probabilisticSum }

theorem infer_insistent : lenient.infer [insistent, insistent] fast =
    .ok (lenient.ledger fast [insistent, insistent]) :=
  MamdaniOperators.infer_eq_ok_iff.mpr ⟨faultless (by decide +kernel), rfl⟩

/-- The entry of the brake is fired although no rule has a finite strength. The activation of a set
is zero although two rules conclude on it with a strength of two. -/
theorem fired_of_infinite_weight_and_zero_activation :
    (∃ out, ({} : Norms).infer [heavy] fast = .ok out ∧ ∃ m ∈ out, m.fired = true ∧
      ¬ ∃ r ∈ [heavy], r.enabled = true ∧
        (∃ s, r.strength {} fast = .ok s ∧ 0 < s ∧ Scalar.isFinite s = true) ∧
        ∃ c ∈ r.consequents, c.target.key = m.key) ∧
    ∃ out, lenient.infer [insistent, insistent] fast = .ok out ∧
      ∃ g ∈ out, ∃ a ∈ g.activations, a.2 = 0 := by
  constructor
  · have hfired : (({} : Norms).ledger fast [heavy]).any (·.fired) = true := by decide +kernel
    have hinfinite : ∀ r ∈ [heavy], ∀ s ∈ (r.strength {} fast).toOption,
        ¬ Scalar.isFinite s = true := by decide +kernel
    obtain ⟨m, hm, hmfired⟩ := List.any_eq_true.mp hfired
    refine ⟨_, infer_heavy, m, hm, hmfired, ?_⟩
    rintro ⟨r, hr, -, ⟨s, hs, -, hfinite⟩, -⟩
    exact hinfinite r hr s (by rw [hs]; rfl) hfinite
  · exact ⟨_, infer_insistent, by decide +kernel⟩

end Brake

end FuzzyInference
