import FuzzyInference.Proofs.Evaluation

/-! When inference fails. A rule is fit for a mode of inference or it is not, whatever is read and
whether or not the rule fires; an inference fails as the first enabled rule that is not fit. -/

namespace FuzzyInference

variable {α : Type} [Scalar α]

/-! ## Fit and unfit rules -/

/-- Whether the variable has a set of the label, in any case of ASCII letters. -/
def Antecedent.IsDefined (a : Antecedent α) : Prop :=
  ∃ s ∈ a.subject.sets, Text.eqIgnoringCase s.label a.label = true

theorem Antecedent.isDefined_iff {a : Antecedent α} :
    a.IsDefined ↔ ∃ s, a.subject.set? a.label = some s := by
  rw [← Option.isSome_iff_exists, Variable.set?, List.find?_isSome]
  rfl

theorem Antecedent.isVoid_iff {a : Antecedent α} : a.isVoid = true ↔ ¬ a.IsDefined := by
  simp [isVoid, IsDefined, Variable.set?, FuzzySet.isNamed]

namespace Rule

/-- A conclusion of the other mode, conditions without a connective between each two neighbours, or
a condition about a set that its variable does not have. -/
def Unfit (mode : Mode) (r : Rule α) : Prop :=
  (∃ c ∈ r.consequents, c.mode ≠ mode) ∨
    (r.antecedents ≠ [] ∧ r.connectives.length ≠ r.antecedents.length - 1) ∨
    ∃ a ∈ r.antecedents, ¬ a.IsDefined

/-- The error of an unfit rule. Conclusions come before connectives and these before sets; of
several conclusions or sets that do not fit, the first one is named. -/
inductive FailsWith (mode : Mode) (r : Rule α) : EvaluationError α → Prop where
  | conclusion {before c after} : r.consequents = before ++ c :: after →
      (∀ d ∈ before, d.mode = mode) → c.mode ≠ mode →
      FailsWith mode r (.consequentMismatch mode c r)
  | connectives : (∀ c ∈ r.consequents, c.mode = mode) → r.antecedents ≠ [] →
      r.connectives.length ≠ r.antecedents.length - 1 → FailsWith mode r (.connectiveCount r)
  | condition {before a after} : (∀ c ∈ r.consequents, c.mode = mode) →
      r.connectives.length = r.antecedents.length - 1 → r.antecedents = before ++ a :: after →
      (∀ b ∈ before, b.IsDefined) → ¬ a.IsDefined → FailsWith mode r (.unknownSet a)

variable {mode : Mode} {r : Rule α} {error : EvaluationError α}

theorem conditionFault?_eq (r : Rule α) : r.conditionFault? =
    if r.antecedents = [] ∨ r.connectives.length = r.antecedents.length - 1 then
      (r.antecedents.find? Antecedent.isVoid).map .unknownSet
    else some (.connectiveCount r) := by
  unfold conditionFault?
  cases has : r.antecedents with
  | nil => simp
  | cons a rest => simp

theorem find?_isVoid_eq_some_iff {as : List (Antecedent α)} {a : Antecedent α} :
    as.find? Antecedent.isVoid = some a ↔
      ¬ a.IsDefined ∧ ∃ before after, as = before ++ a :: after ∧ ∀ b ∈ before, b.IsDefined := by
  simp [List.find?_eq_some_iff_append, ← Bool.not_eq_true, Antecedent.isVoid_iff]

theorem find?_mode_eq_some_iff {cs : List (Consequent α)} {c : Consequent α} :
    (cs.find? fun c => c.mode != mode) = some c ↔
      c.mode ≠ mode ∧ ∃ before after, cs = before ++ c :: after ∧ ∀ d ∈ before, d.mode = mode := by
  simp [List.find?_eq_some_iff_append]

theorem fault?_eq_some_iff : r.fault? mode = some error ↔ r.FailsWith mode error := by
  unfold fault?
  constructor
  · intro h
    cases hfind : r.consequents.find? fun c => c.mode != mode with
    | some c =>
        rw [hfind] at h
        cases h
        obtain ⟨hmode, before, after, hcs, hbefore⟩ := find?_mode_eq_some_iff.mp hfind
        exact .conclusion hcs hbefore hmode
    | none =>
        have hmode : ∀ c ∈ r.consequents, c.mode = mode := by simpa using hfind
        rw [hfind, conditionFault?_eq] at h
        dsimp only at h
        split at h
        · rename_i hcount
          obtain ⟨a, ha, rfl⟩ := Option.map_eq_some_iff.mp h
          obtain ⟨hvoid, before, after, has, hbefore⟩ := find?_isVoid_eq_some_iff.mp ha
          have hcount := hcount.resolve_left (by simp [has])
          exact .condition hmode hcount has hbefore hvoid
        · rename_i hcount
          rw [not_or] at hcount
          cases h
          exact .connectives hmode hcount.1 hcount.2
  · intro h
    cases h with
    | conclusion hcs hbefore hmode =>
        rw [find?_mode_eq_some_iff.mpr ⟨hmode, _, _, hcs, hbefore⟩]
    | connectives hmode hne hcount =>
        have hfind : (r.consequents.find? fun c => c.mode != mode) = none := by simpa using hmode
        rw [hfind, conditionFault?_eq, if_neg (not_or_intro hne hcount)]
    | condition hmode hcount has hbefore hvoid =>
        have hfind : (r.consequents.find? fun c => c.mode != mode) = none := by simpa using hmode
        rw [hfind, conditionFault?_eq, if_pos (.inr hcount),
          find?_isVoid_eq_some_iff.mpr ⟨hvoid, _, _, has, hbefore⟩]
        rfl

theorem not_unfit_of_fault? (h : r.fault? mode = none) : ¬ r.Unfit mode := by
  unfold fault? at h
  cases hfind : r.consequents.find? fun c => c.mode != mode with
  | some c =>
      rw [hfind] at h
      cases h
  | none =>
      have hmode : ∀ c ∈ r.consequents, c.mode = mode := by simpa using hfind
      rw [hfind, conditionFault?_eq] at h
      dsimp only at h
      split at h
      · rename_i hcount
        have hdefined : ∀ a ∈ r.antecedents, a.IsDefined := by
          simpa [Antecedent.isVoid_iff] using h
        rintro (⟨c, hc, hother⟩ | ⟨hne, hconnectives⟩ | ⟨a, ha, hvoid⟩)
        · exact hother (hmode c hc)
        · exact hcount.elim hne hconnectives
        · exact hvoid (hdefined a ha)
      · cases h

/-- The unfit rules are those that fail. -/
theorem exists_failsWith_iff : (∃ error, r.FailsWith mode error) ↔ r.Unfit mode := by
  constructor
  · rintro ⟨error, h⟩
    cases h with
    | conclusion hcs _ hmode => exact .inl ⟨_, by simp [hcs], hmode⟩
    | connectives _ hne hcount => exact .inr (.inl ⟨hne, hcount⟩)
    | condition _ _ has _ hvoid => exact .inr (.inr ⟨_, by simp [has], hvoid⟩)
  · intro h
    cases hfault : r.fault? mode with
    | some error => exact ⟨error, fault?_eq_some_iff.mp hfault⟩
    | none => exact absurd h (not_unfit_of_fault? hfault)

end Rule

/-! ## Inference -/

/-- Failure is decided by the enabled rules alone, and disabled rules have no say in success. -/
structure FailsByRules {β : Type} (mode : Mode)
    (infer : List (Rule α) → Readings α → Except (EvaluationError α) β) : Prop where
  fails_iff : ∀ rules readings, (∃ error, infer rules readings = .error error) ↔
    ∃ r ∈ rules, r.enabled = true ∧ r.Unfit mode
  first : ∀ rules readings error, infer rules readings = .error error ↔
    ∃ before r after, rules = before ++ r :: after ∧
      (∀ q ∈ before, q.enabled = true → ¬ q.Unfit mode) ∧ r.enabled = true ∧ r.FailsWith mode error
  readings : ∀ rules readings readings',
    failure? (infer rules readings) = failure? (infer rules readings')
  enabled : ∀ rules readings, infer (rules.filter (·.enabled)) readings = infer rules readings

theorem findSome?_enabled (f : Rule α → Option (EvaluationError α)) (rules : List (Rule α)) :
    (rules.filter (·.enabled)).findSome? f =
      rules.findSome? fun r => if r.enabled = true then f r else none := by
  induction rules with
  | nil => rfl
  | cons r rules ih => by_cases h : r.enabled = true <;> simp [h, ih, List.findSome?_cons]

theorem Rule.fault?_eq_none_iff_not_unfit {mode : Mode} {r : Rule α} :
    r.fault? mode = none ↔ ¬ r.Unfit mode := by
  refine ⟨not_unfit_of_fault?, fun h => ?_⟩
  cases hfault : r.fault? mode with
  | none => rfl
  | some error => exact absurd (exists_failsWith_iff.mp ⟨error, fault?_eq_some_iff.mp hfault⟩) h

/-- The error of several rules is that of the first enabled one that is unfit. -/
theorem findSome?_fault?_eq_some_iff {mode : Mode} {rules : List (Rule α)}
    {error : EvaluationError α} :
    (rules.filter (·.enabled)).findSome? (Rule.fault? mode) = some error ↔
      ∃ before r after, rules = before ++ r :: after ∧
        (∀ q ∈ before, q.enabled = true → ¬ q.Unfit mode) ∧ r.enabled = true ∧
        r.FailsWith mode error := by
  rw [findSome?_enabled, List.findSome?_eq_some_iff]
  constructor
  · rintro ⟨before, r, after, hrules, hr, hbefore⟩
    obtain ⟨henabled, hfault⟩ : r.enabled = true ∧ r.fault? mode = some error := by simpa using hr
    refine ⟨before, r, after, hrules, fun q hq hqe => ?_, henabled,
      Rule.fault?_eq_some_iff.mp hfault⟩
    have hnone := hbefore q hq
    rw [if_pos hqe] at hnone
    exact Rule.not_unfit_of_fault? hnone
  · rintro ⟨before, r, after, hrules, hbefore, henabled, hfails⟩
    refine ⟨before, r, after, hrules, ?_, fun q hq => ?_⟩
    · rw [if_pos henabled, Rule.fault?_eq_some_iff.mpr hfails]
    · split
      · exact Rule.fault?_eq_none_iff_not_unfit.mpr (hbefore q hq ‹_›)
      · rfl

/-- A pass over the enabled rules whose steps fail as the rule at hand, whatever came before. -/
theorem failsByRules_foldlM {β : Type} {mode : Mode}
    {step : Readings α → β → Rule α → Except (EvaluationError α) β}
    (hstep : ∀ readings out r, failure? (step readings out r) = r.fault? mode) (start : β) :
    FailsByRules mode fun rules readings =>
      (rules.filter (·.enabled)).foldlM (step readings) start := by
  have hfailure (rules : List (Rule α)) (readings : Readings α) :
      failure? ((rules.filter (·.enabled)).foldlM (step readings) start) =
        (rules.filter (·.enabled)).findSome? (Rule.fault? mode) :=
    failure?_foldlM (hstep readings) _ _
  refine ⟨fun rules readings => ?_, fun rules readings error => ?_,
    fun rules readings readings' => ?_, fun rules readings => ?_⟩
  · simp only [← failure?_eq_some_iff, hfailure]
    rw [← Option.isSome_iff_exists, List.findSome?_isSome_iff]
    simp only [List.mem_filter, Option.isSome_iff_exists, Rule.fault?_eq_some_iff,
      Rule.exists_failsWith_iff, and_assoc]
  · rw [← failure?_eq_some_iff, hfailure, findSome?_fault?_eq_some_iff]
  · rw [hfailure, hfailure]
  · simp only [List.filter_filter, Bool.and_self]

/-- Both methods of inference fail exactly if some enabled rule is unfit for them, with the error of
the first one. Neither what is read nor whether a rule fires has a say in that, and disabled rules
may as well be missing. -/
theorem infer_failsByRules :
    (∀ ops : MamdaniOperators, FailsByRules .mamdani (ops.infer (α := α))) ∧
      ∀ norms : Norms, FailsByRules .sugeno (norms.infer (α := α)) :=
  ⟨fun ops => failsByRules_foldlM ops.failure?_step [],
    fun norms => failsByRules_foldlM norms.failure?_step []⟩

end FuzzyInference
