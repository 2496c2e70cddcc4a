import FuzzyInference.Proofs.Degrees
import FuzzyInference.Proofs.Inference
import FuzzyInference.RuleBase
import Mathlib.Data.List.Forall2

/-! What the weight of a rule does to activations. A heavier rule says no less of the sets it concludes
on, and all aggregations but one keep that whatever follows; the probabilistic sum does so only as long
as nothing above one is said. -/

namespace FuzzyInference

/-! ## Gathering -/

namespace SNorm

/-- What an aggregation gathers in order: nothing negative and, by the probabilistic sum, nothing
above one. -/
def Admits (aggregation : SNorm) (x : Rat) : Prop :=
  0 ≤ x ∧ (aggregation = .probabilisticSum → x ≤ 1)

/-- Of two gathered values, the first is not greater. Only the maximum leads above one. -/
structure Below (aggregation : SNorm) (a b : Rat) : Prop where
  nonneg : 0 ≤ a
  le : a ≤ b
  le_one : aggregation ≠ .max → b ≤ 1

variable {aggregation : SNorm} {a b x y : Rat}

theorem Below.zero : aggregation.Below 0 0 := ⟨le_rfl, le_rfl, fun _ => zero_le_one⟩

/-- But for the maximum, what is gathered are degrees. -/
theorem Below.isDegree (h : aggregation.Below a b) (hmax : aggregation ≠ .max) :
    IsDegree a ∧ IsDegree b :=
  ⟨⟨h.nonneg, h.le.trans (h.le_one hmax)⟩, h.nonneg.trans h.le, h.le_one hmax⟩

theorem Below.apply (h : aggregation.Below a b) (hx : 0 ≤ x) (hxy : x ≤ y)
    (hy : aggregation.Admits y) :
    aggregation.Below (aggregation.apply a x) (aggregation.apply b y) := by
  cases aggregation with
  | max => exact ⟨le_max_of_le_left h.nonneg, max_le_max h.le hxy, nofun⟩
  | boundedSum =>
      exact ⟨le_min (add_nonneg h.nonneg hx) zero_le_one,
        min_le_min_right 1 (add_le_add h.le hxy), fun _ => min_le_right _ _⟩
  | probabilisticSum =>
      obtain ⟨ha, hb⟩ := h.isDegree nofun
      have hy : IsDegree y := ⟨hy.1, hy.2 rfl⟩
      have hx : IsDegree x := ⟨hx, hxy.trans hy.2⟩
      exact ⟨(SNorm.isDegree_apply _ ha hx).1, SNorm.apply_le_apply _ hb hy h.le hxy,
        fun _ => (SNorm.isDegree_apply _ hb hy).2⟩

theorem Below.apply_zero (h : aggregation.Below a b) : aggregation.apply a 0 = a := by
  by_cases hmax : aggregation = .max
  · subst hmax
    exact max_eq_left h.nonneg
  · exact aggregation.apply_zero (h.isDegree hmax).1

/-- What is gathered in addition does not lead below. -/
theorem Below.apply_right (h : aggregation.Below a b) (hy : aggregation.Admits y) :
    aggregation.Below a (aggregation.apply b y) := by
  have happly := h.apply le_rfl hy.1 hy
  rwa [h.apply_zero] at happly

theorem Below.foldl_replicate (h : aggregation.Below a b) (hx : 0 ≤ x) (hxy : x ≤ y)
    (hy : aggregation.Admits y) (n : Nat) :
    aggregation.Below ((List.replicate n x).foldl aggregation.apply a)
      ((List.replicate n y).foldl aggregation.apply b) := by
  induction n generalizing a b with
  | zero => exact h
  | succ n ih => exact ih (h.apply hx hxy hy)

theorem Below.foldl_replicate_right (h : aggregation.Below a b) (hy : aggregation.Admits y)
    (n : Nat) : aggregation.Below a ((List.replicate n y).foldl aggregation.apply b) := by
  induction n generalizing b with
  | zero => exact h
  | succ n ih => exact ih (h.apply_right hy)

end SNorm

/-- Whether what a strength implies is not beyond the aggregation: clipping stops at one, scaling does
not. -/
def MamdaniOperators.Bears (ops : MamdaniOperators) (s : Rat) : Prop :=
  ops.aggregation = .probabilisticSum → ops.implication = .product → s ≤ 1

theorem MamdaniOperators.Bears.admits {ops : MamdaniOperators} {s : Rat} (h : ops.Bears s)
    (hs : 0 ≤ s) : ops.aggregation.Admits (ops.implication.apply s 1) := by
  refine ⟨ops.implication.apply_nonneg hs, fun hsum => ?_⟩
  cases himplication : ops.implication with
  | min => exact min_le_right _ _
  | product =>
      change s * 1 ≤ 1
      rw [mul_one]
      exact h hsum himplication

/-! ## Heavier rules -/

namespace Rule

section Reweighted

variable {α : Type} [Scalar α] {r : Rule α} (y : α)

/-- The weight is no fault. -/
theorem fault?_reweighted {mode : Mode} :
    ({ r with weight := y } : Rule α).fault? mode = none ↔ r.fault? mode = none := by
  unfold fault? conditionFault?
  dsimp only
  cases r.consequents.find? fun c => c.mode != mode with
  | some c => simp
  | none =>
      dsimp only
      split
      · rfl
      · split <;> simp

theorem condition_reweighted {norms : Norms} {readings : Readings α} {d : α} :
    ({ r with weight := y } : Rule α).condition norms readings = .ok d ↔
      r.condition norms readings = .ok d := by
  unfold condition
  dsimp only
  split
  · rfl
  · split <;> simp

end Reweighted

/-- The second rule is the first one with a weight that is not less. -/
def Raised (r r' : Rule Rat) : Prop := ∃ y, r.weight ≤ y ∧ r' = { r with weight := y }

/-- A heavier rule is not weaker. -/
theorem Raised.strength {r r' : Rule Rat} (h : Raised r r') {norms : Norms}
    {readings : Readings Rat} (hgraded : readings.Graded) {s : Rat}
    (hs : r.strength norms readings = .ok s) :
    ∃ s', r'.strength norms readings = .ok s' ∧ s ≤ s' := by
  obtain ⟨y, hy, rfl⟩ := h
  obtain ⟨d, hd, rfl⟩ := strength_eq_ok_iff.mp hs
  exact ⟨d * y, strength_eq_ok_iff.mpr ⟨d, (condition_reweighted y).mpr hd, rfl⟩,
    mul_le_mul_of_nonneg_left hy (isDegree_condition hgraded hd).1⟩

end Rule

namespace MamdaniOperators

variable {ops : MamdaniOperators} {readings : Readings Rat} {k label : String}

/-- All that the rule says of the set with the label of the output with the key. -/
def sharesOf (ops : MamdaniOperators) (readings : Readings Rat) (k label : String)
    (r : Rule Rat) : List Rat :=
  Aggregate.sharesOf label (r.credits ops.say (r.firing? ops.toNorms readings) k)

/-- What one rule says is gathered in order, if the second run has the rule with a greater weight. -/
theorem below_step (hgraded : readings.Graded) {r r' : Rule Rat} (hraised : r.Raised r')
    (hfault : r.fault? .mamdani = none)
    (hbears : r'.occurrences k label ≠ 0 →
      ∀ s, r'.strength ops.toNorms readings = .ok s → ops.Bears s)
    {a b : Rat} (h : ops.aggregation.Below a b) :
    ops.aggregation.Below ((ops.sharesOf readings k label r).foldl ops.aggregation.apply a)
      ((ops.sharesOf readings k label r').foldl ops.aggregation.apply b) := by
  obtain ⟨-, s, hs⟩ := (Rule.fault?_eq_none_iff ops.toNorms readings).mp hfault
  obtain ⟨s', hs', hle⟩ := hraised.strength hgraded hs
  have hoccurrences : r'.occurrences k label = r.occurrences k label := by
    obtain ⟨y, -, rfl⟩ := hraised
    rfl
  rw [hoccurrences] at hbears
  simp only [sharesOf, sharesOf_credits, Rule.firing?_of_strength hs, Rule.firing?_of_strength hs',
    hoccurrences, fires, decide_eq_true_eq]
  -- Only a rule that concludes on the set says anything, and with the greater weight it fires
  -- wherever it fires with the lesser one.
  by_cases hnone : r.occurrences k label = 0
  · rw [hnone]
    split <;> split <;> exact h
  · by_cases hfires' : 0 < s'
    · have hadmits := (hbears hnone s' hs').admits hfires'.le
      rw [if_pos hfires']
      by_cases hfires : 0 < s
      · rw [if_pos hfires]
        exact h.foldl_replicate (ops.implication.apply_nonneg hfires.le)
          (ops.implication.apply_le_apply hle) hadmits _
      · rw [if_neg hfires]
        exact h.foldl_replicate_right hadmits _
    · have hfires : ¬ 0 < s := fun hs => hfires' (hs.trans_le hle)
      rw [if_neg hfires, if_neg hfires']
      exact h

/-- What all rules say is gathered in order, if the second list is heavier than the first. -/
theorem below_foldl (hgraded : readings.Graded) {rules rules' : List (Rule Rat)}
    (hraised : List.Forall₂ Rule.Raised rules rules')
    (hfault : ∀ r ∈ rules, r.fault? .mamdani = none)
    (hbears : ∀ r ∈ rules', r.occurrences k label ≠ 0 →
      ∀ s, r.strength ops.toNorms readings = .ok s → ops.Bears s)
    {a b : Rat} (h : ops.aggregation.Below a b) :
    ops.aggregation.Below
      ((rules.flatMap (ops.sharesOf readings k label)).foldl ops.aggregation.apply a)
      ((rules'.flatMap (ops.sharesOf readings k label)).foldl ops.aggregation.apply b) := by
  induction hraised generalizing a b with
  | nil => exact h
  | cons hr hrules ih =>
      rw [List.forall_mem_cons] at hfault hbears
      rw [List.flatMap_cons, List.flatMap_cons, List.foldl_append, List.foldl_append]
      exact ih hfault.2 hbears.2 (below_step hgraded hr hfault.1 hbears.1 h)

theorem sharesOf_ledger_credits (rules : List (Rule Rat)) :
    Aggregate.sharesOf label (ops.credits readings rules k) =
      (rules.filter (·.enabled)).flatMap (ops.sharesOf readings k label) :=
  Aggregate.sharesOf_flatMap _ _ _

end MamdaniOperators

/-! ## Setting a weight -/

section Reweighting

variable {α : Type} [Scalar α] {rules : List (Rule α)} {index : Nat}

theorem Rule.exists_of_mem_modify {x : α} {r : Rule α}
    (h : r ∈ rules.modify index ({ · with weight := x })) :
    ∃ q ∈ rules, ∃ y, r = { q with weight := y } := by
  obtain ⟨i, hi⟩ := List.mem_iff_getElem?.mp h
  rw [List.getElem?_modify, Option.map_eq_map, Option.map_eq_some_iff] at hi
  obtain ⟨q, hq, rfl⟩ := hi
  refine ⟨q, List.mem_of_getElem? hq, ?_⟩
  split
  · exact ⟨x, rfl⟩
  · exact ⟨q.weight, rfl⟩

theorem Rule.forall₂_modify {rules : List (Rule Rat)} {x y : Rat} (h : x ≤ y) :
    List.Forall₂ Raised ((rules.modify index ({ · with weight := x })).filter (·.enabled))
      ((rules.modify index ({ · with weight := y })).filter (·.enabled)) := by
  have hrefl (r : Rule Rat) : Raised r r := ⟨r.weight, le_rfl, rfl⟩
  have hall : List.Forall₂ Raised (rules.modify index ({ · with weight := x }))
      (rules.modify index ({ · with weight := y })) := by
    induction rules generalizing index with
    | nil => cases index <;> exact .nil
    | cons r rules ih =>
        cases index with
        | zero => exact .cons ⟨y, h, rfl⟩ (List.forall₂_same.mpr fun q _ => hrefl q)
        | succ index => exact .cons (hrefl r) ih
  refine List.rel_filter ?_ hall
  rintro r r' ⟨z, -, rfl⟩
  exact Iff.rfl

/-- A rule of which the same is gathered at both weights makes no difference. -/
theorem Rule.flatMap_filter_modify {δ : Type} {f : Rule α → List δ} {x y : α}
    (h : ∀ r ∈ rules[index]?, f { r with weight := x } = f { r with weight := y }) :
    ((rules.modify index ({ · with weight := x })).filter (·.enabled)).flatMap f =
      ((rules.modify index ({ · with weight := y })).filter (·.enabled)).flatMap f := by
  induction rules generalizing index with
  | nil => cases index <;> rfl
  | cons r rules ih =>
      cases index with
      | zero =>
          simp only [List.modify_zero_cons, List.filter_cons]
          split
          · simp only [List.flatMap_cons, h r rfl]
          · rfl
      | succ index =>
          simp only [List.modify_succ_cons, List.filter_cons]
          split
          · simp only [List.flatMap_cons, ih h]
          · exact ih h

theorem RuleBase.rules_of_update {b b' : RuleBase α} {f : Rule α → Rule α}
    (h : b.update index f = .ok b') : b'.rules = b.rules.modify index f := by
  unfold update at h
  split at h
  · cases h
    rfl
  · cases h

end Reweighting

/-- Whether a rule concludes on the set with the label of the output with the name, both in any
case. -/
def Rule.ConcludesOn (name label : String) (r : Rule Rat) : Prop :=
  ∃ v s, .fuzzy v s ∈ r.consequents ∧ v.key = Text.lowerCase name ∧ s.isNamed label = true

theorem Rule.concludesOn_of_occurrences {name label : String} {r : Rule Rat} {v : Variable Rat}
    {s : FuzzySet Rat} (hs : v.set? label = some s)
    (h : r.occurrences (Text.lowerCase name) s.label ≠ 0) : r.ConcludesOn name label := by
  obtain ⟨c, hc, hmatch⟩ := List.countP_pos_iff.mp (Nat.pos_of_ne_zero h)
  cases c with
  | fuzzy u t =>
      simp only [Bool.and_eq_true, decide_eq_true_eq] at hmatch
      refine ⟨u, t, hc, hmatch.1, ?_⟩
      rw [FuzzySet.isNamed_iff, hmatch.2, Variable.caseKey_of_set? hs]
  | crisp u x => cases hmatch

/-- Whichever of two weights a rule is given, inference succeeds as it did before. Sets that the rule
does not conclude on keep their activation, and with the greater weight no set is activated less, if
the aggregation bears the strengths of all rules that conclude on it. -/
theorem MamdaniOperators.activationOf_le_of_update {ops : MamdaniOperators}
    {w : Vocabulary Rat} {readings : Readings Rat} (hgraded : readings.Graded)
    {base : RuleBase Rat} (hover : ∀ r ∈ base.rules, ∀ c ∈ r.consequents, c.Over w)
    (hinfer : ∃ out, ops.infer base.rules readings = .ok out)
    {index : Nat} {x y : Rat} (hxy : x ≤ y) {light heavy : RuleBase Rat}
    (hlight : base.update index ({ · with weight := x }) = .ok light)
    (hheavy : base.update index ({ · with weight := y }) = .ok heavy) :
    ∃ out out', ops.infer light.rules readings = .ok out ∧
      ops.infer heavy.rules readings = .ok out' ∧
      ∀ name label,
        ((∀ r ∈ base.rules[index]?, ¬ r.ConcludesOn name label) →
          Aggregate.activationOf out name label = Aggregate.activationOf out' name label) ∧
        ((∀ r ∈ heavy.rules, r.enabled = true → r.ConcludesOn name label →
            ∀ s, r.strength ops.toNorms readings = .ok s → ops.Bears s) →
          Aggregate.activationOf out name label ≤ Aggregate.activationOf out' name label) := by
  obtain ⟨out, hinfer⟩ := hinfer
  have hfault := (infer_eq_ok_iff.mp hinfer).1
  rw [RuleBase.rules_of_update hlight, RuleBase.rules_of_update hheavy]
  have hfault' (z : Rat) (r : Rule Rat)
      (hr : r ∈ (base.rules.modify index ({ · with weight := z })).filter (·.enabled)) :
      r.fault? .mamdani = none := by
    rw [List.mem_filter] at hr
    obtain ⟨q, hq, z', rfl⟩ := Rule.exists_of_mem_modify hr.1
    exact (Rule.fault?_reweighted z').mpr (hfault q (List.mem_filter.mpr ⟨hq, hr.2⟩))
  have hover' (z : Rat) (r : Rule Rat)
      (hr : r ∈ base.rules.modify index ({ · with weight := z })) :
      ∀ c ∈ r.consequents, c.Over w := by
    obtain ⟨q, hq, z', rfl⟩ := Rule.exists_of_mem_modify hr
    exact hover q hq
  refine ⟨_, _, infer_eq_ok_iff.mpr ⟨hfault' x, rfl⟩, infer_eq_ok_iff.mpr ⟨hfault' y, rfl⟩,
    fun name label => ?_⟩
  rw [activationOf_ledger (hover' x), activationOf_ledger (hover' y)]
  cases hset : (w.get? name).bind (·.set? label) with
  | none => exact ⟨fun _ => rfl, fun _ => le_rfl⟩
  | some s =>
      obtain ⟨v, -, hs⟩ := Option.bind_eq_some_iff.mp hset
      simp only [Option.elim_some, sharesOf_ledger_credits]
      constructor
      · intro hother
        rw [Rule.flatMap_filter_modify]
        intro r hr
        have hnone : r.occurrences (Text.lowerCase name) s.label = 0 := by
          by_contra hsome
          exact hother r hr (Rule.concludesOn_of_occurrences hs hsome)
        have hempty (z : Rat) : ops.sharesOf readings (Text.lowerCase name) s.label
            { r with weight := z } = [] := by
          have hnone' : ({ r with weight := z } : Rule Rat).occurrences (Text.lowerCase name)
            s.label = 0 := hnone
          rw [sharesOf, sharesOf_credits, hnone']
          cases Rule.firing? ops.toNorms readings { r with weight := z } <;> rfl
        rw [hempty, hempty]
      · intro hbears
        refine (below_foldl hgraded (Rule.forall₂_modify hxy) (hfault' x) ?_ SNorm.Below.zero).le
        intro r hr hoccurs
        rw [List.mem_filter] at hr
        exact hbears r hr.1 hr.2 (Rule.concludesOn_of_occurrences hs hoccurs)

/-! ## A risk that two rules conclude on -/

namespace Risk

def speed : Variable Rat := ⟨"Speed", 0, 200,
  [⟨"Fast", .triangle 100 150 200, by decide +kernel, by decide +kernel, by decide +kernel⟩],
  rfl, rfl, by decide +kernel, by simp⟩

def road : Variable Rat := ⟨"Road", 0, 10,
  [⟨"Wet", .triangle 0 5 10, by decide +kernel, by decide +kernel, by decide +kernel⟩],
  rfl, rfl, by decide +kernel, by simp⟩

def high : FuzzySet Rat :=
  ⟨"High", .triangle 0 1 1, by decide +kernel, by decide +kernel, by decide +kernel⟩

def risk : Variable Rat := ⟨"Risk", 0, 1, [high], rfl, rfl, by decide +kernel, by simp⟩

/-- A fast car and a wet road are a high risk. -/
def base (fast wet : Rat) : RuleBase Rat where
  rules := [
    { antecedents := [⟨speed, "Fast"⟩], consequents := [.fuzzy risk high], weight := fast },
    { antecedents := [⟨road, "Wet"⟩], consequents := [.fuzzy risk high], weight := wet }]

/-- As fast and as wet as can be. -/
def readings : Readings Rat := .ofList [speed.fuzzify 150, road.fuzzify 5]

def operators : MamdaniOperators := { implication := .product, aggregation := .probabilisticSum }

def vocabulary : Vocabulary Rat := ⟨[speed, road, risk]⟩

def activation (b : RuleBase Rat) : Option Rat :=
  (operators.infer b.rules readings).toOption.map (Aggregate.activationOf · "Risk" "High")

theorem conclusions_over (fast wet : Rat) :
    ∀ r ∈ (base fast wet).rules, ∀ c ∈ r.consequents, c.Over vocabulary := by
  have hrisk : (Consequent.fuzzy risk high).Over vocabulary := ⟨rfl, rfl⟩
  simpa [base] using hrisk

theorem exists_infer (fast wet : Rat) :
    ∃ out, operators.infer (base fast wet).rules readings = .ok out :=
  ⟨_, MamdaniOperators.infer_eq_ok_iff.mpr ⟨by
    simp only [base, List.filter_cons, List.filter_nil, if_true, List.forall_mem_cons]
    exact ⟨rfl, rfl, nofun⟩, rfl⟩⟩

/-- With no strength above one, a wet road that counts for more adds to the risk. -/
theorem activationOf_le_wet :
    activation (base (1 / 2) (1 / 4)) = some (5 / 8) ∧ activation (base (1 / 2) 1) = some 1 ∧
    ∃ out out', operators.infer (base (1 / 2) (1 / 4)).rules readings = .ok out ∧
      operators.infer (base (1 / 2) 1).rules readings = .ok out' ∧
      Aggregate.activationOf out "risk" "HIGH" ≤ Aggregate.activationOf out' "risk" "HIGH" := by
  refine ⟨by decide +kernel, by decide +kernel, ?_⟩
  have hxy : (1 / 4 : Rat) ≤ 1 := by decide +kernel
  have hlight : (base (1 / 2) 0).update 1 ({ · with weight := (1 / 4 : Rat) }) =
    .ok (base (1 / 2) (1 / 4)) := rfl
  have hheavy : (base (1 / 2) 0).update 1 ({ · with weight := (1 : Rat) }) =
    .ok (base (1 / 2) 1) := rfl
  obtain ⟨out, out', hout, hout', h⟩ := MamdaniOperators.activationOf_le_of_update
    (by decide +kernel) (conclusions_over (1 / 2) 0) (exists_infer (1 / 2) 0) hxy hlight hheavy
  refine ⟨out, out', hout, hout', (h "risk" "HIGH").2 fun r hr _ _ s hs _ _ => ?_⟩
  have hstrengths : ∀ r ∈ (base (1 / 2) 1).rules,
      ∀ s ∈ (r.strength operators.toNorms readings).toOption, s ≤ 1 := by decide +kernel
  exact hstrengths r hr s (by rw [hs]; rfl)

/-- A strength of two is scaled to two, and a second opinion takes some of that away again: the
probabilistic sum with one half is one and a half. -/
theorem activationOf_falls_beyond_one :
    ∃ light heavy : RuleBase Rat, ∃ out out', readings.Graded ∧
      (∀ r ∈ (base 2 1).rules, ∀ c ∈ r.consequents, c.Over vocabulary) ∧
      (base 2 1).update 1 ({ · with weight := (0 : Rat) }) = .ok light ∧
      (base 2 1).update 1 ({ · with weight := (1 / 2 : Rat) }) = .ok heavy ∧
      operators.infer light.rules readings = .ok out ∧
      operators.infer heavy.rules readings = .ok out' ∧
      Aggregate.activationOf out "Risk" "High" = 2 ∧
      Aggregate.activationOf out' "Risk" "High" = 3 / 2 := by
  obtain ⟨out, hout⟩ := exists_infer 2 0
  obtain ⟨out', hout'⟩ := exists_infer 2 (1 / 2)
  have hbefore : activation (base 2 0) = some 2 := by decide +kernel
  have hafter : activation (base 2 (1 / 2)) = some (3 / 2) := by decide +kernel
  rw [activation, hout] at hbefore
  rw [activation, hout'] at hafter
  exact ⟨base 2 0, base 2 (1 / 2), out, out', by decide +kernel, conclusions_over 2 1, rfl, rfl,
    hout, hout', Option.some.inj hbefore, Option.some.inj hafter⟩

end Risk

end FuzzyInference
