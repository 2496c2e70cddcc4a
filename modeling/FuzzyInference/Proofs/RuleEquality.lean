import FuzzyInference.Proofs.Printing
import FuzzyInference.Scalar.Rational

/-! Equality of rules. Two rules are equal if they look the same: variables by name, the labels of
conditions in any case, sets by label and numbers by value. Among rules about the variables of one
vocabulary nothing else is left to tell, so equal rules say the same in every inference. -/

namespace FuzzyInference

variable {α : Type} [Scalar α]

/-! ## What equality looks at -/

theorem beq_list_iff {β γ : Type} [BEq β] {f : β → γ} (h : ∀ x y : β, (x == y) = true ↔ f x = f y)
    {xs ys : List β} : (xs == ys) = true ↔ xs.map f = ys.map f := by
  induction xs generalizing ys with
  | nil =>
      cases ys with
      | nil => exact iff_of_true rfl rfl
      | cons y ys => exact iff_of_false nofun nofun
  | cons x xs ih =>
      cases ys with
      | nil => exact iff_of_false nofun nofun
      | cons y ys =>
          rw [List.cons_beq_cons, Bool.and_eq_true, h, ih, List.map_cons, List.map_cons,
            List.cons.injEq]

/-- The name of the variable and the label in lower case. -/
def Antecedent.look (a : Antecedent α) : String × List Char :=
  (a.subject.name, Text.caseKey a.label)

/-- The name of the variable and the label of the set or the value. -/
def Consequent.look : Consequent α → String × (String ⊕ α)
  | .fuzzy v s => (v.name, .inl s.label)
  | .crisp v x => (v.name, .inr x)

theorem Antecedent.beq_iff {a b : Antecedent α} : (a == b) = true ↔ a.look = b.look := by
  change (_ && _) = true ↔ _
  rw [Bool.and_eq_true, beq_iff_eq, Text.eqIgnoringCase_iff, look, look, Prod.mk.injEq]

theorem Consequent.beq_iff [LawfulBEq α] {c d : Consequent α} :
    (c == d) = true ↔ c.look = d.look := by
  cases c with
  | fuzzy v s =>
      cases d with
      | fuzzy w t =>
          change (_ && _) = true ↔ _
          rw [Bool.and_eq_true, beq_iff_eq, beq_iff_eq, look, look, Prod.mk.injEq, Sum.inl.injEq]
      | crisp w y => exact iff_of_false nofun (by simp [look])
  | crisp v x =>
      cases d with
      | fuzzy w t => exact iff_of_false nofun (by simp [look])
      | crisp w y =>
          change (_ && _) = true ↔ _
          rw [Bool.and_eq_true, beq_iff_eq, beq_iff_eq, look, look, Prod.mk.injEq, Sum.inr.injEq]

namespace Rule

/-- All that equality of rules looks at. -/
def look (r : Rule α) :
    List (String × List Char) × List Connective × List (String × (String ⊕ α)) × α × Bool :=
  (r.antecedents.map Antecedent.look, r.connectives, r.consequents.map Consequent.look, r.weight,
    r.enabled)

theorem beq_iff_look [LawfulBEq α] {r q : Rule α} : (r == q) = true ↔ r.look = q.look := by
  rw [beq_iff, beq_list_iff fun _ _ => Antecedent.beq_iff,
    beq_list_iff fun _ _ => Consequent.beq_iff, beq_iff_eq, look, look]
  simp only [Prod.mk.injEq]

theorem equivalence_beq [LawfulBEq α] : Equivalence fun r q : Rule α => (r == q) = true where
  refl _ := beq_iff_look.mpr rfl
  symm h := beq_iff_look.mpr (beq_iff_look.mp h).symm
  trans h h' := beq_iff_look.mpr ((beq_iff_look.mp h).trans (beq_iff_look.mp h'))

end Rule

/-! ## Rules about one vocabulary -/

/-- A rule about the variables of a vocabulary. The label of a condition may be none of its
variable, while that of a fuzzy conclusion is one. -/
structure Rule.Over (w : Vocabulary α) (r : Rule α) : Prop where
  conditions : ∀ a ∈ r.antecedents, w.get? a.subject.name = some a.subject
  conclusions : ∀ c ∈ r.consequents, c.Over w

/-- Conditions on one variable under labels that differ in case at most. -/
def Antecedent.Alike (a b : Antecedent α) : Prop :=
  a.subject = b.subject ∧ Text.caseKey a.label = Text.caseKey b.label

/-- Rules that differ in the case of the labels of their conditions at most. -/
structure Rule.Alike (r q : Rule α) : Prop where
  conditions : List.Forall₂ Antecedent.Alike r.antecedents q.antecedents
  connectives : r.connectives = q.connectives
  conclusions : r.consequents = q.consequents
  weight : r.weight = q.weight
  enabled : r.enabled = q.enabled

section Over

variable {w : Vocabulary α}

theorem Consequent.eq_of_look {c d : Consequent α} (hc : c.Over w) (hd : d.Over w)
    (h : c.look = d.look) : c = d := by
  cases c with
  | fuzzy u s =>
      cases d with
      | fuzzy v t =>
          rw [look, look, Prod.mk.injEq, Sum.inl.injEq] at h
          obtain ⟨hname, hlabel⟩ := h
          obtain rfl := Vocabulary.eq_of_key hc.1 hd.1 (congrArg Text.lowerCase hname)
          have hset : some s = some t := by rw [← hc.2, ← hd.2, hlabel]
          rw [Option.some.inj hset]
      | crisp v y => cases congrArg Prod.snd h
  | crisp u x =>
      cases d with
      | fuzzy v t => cases congrArg Prod.snd h
      | crisp v y =>
          rw [look, look, Prod.mk.injEq, Sum.inr.injEq] at h
          obtain ⟨hname, rfl⟩ := h
          obtain rfl := Vocabulary.eq_of_key hc hd (congrArg Text.lowerCase hname)
          rfl

/-- Lists that look the same entry by entry are related entry by entry. -/
theorem forall₂_of_map_eq {β γ : Type} {f : β → γ} {p : β → Prop} {R : β → β → Prop}
    (hR : ∀ x y, p x → p y → f x = f y → R x y) {xs ys : List β} (hx : ∀ x ∈ xs, p x)
    (hy : ∀ y ∈ ys, p y) (h : xs.map f = ys.map f) : List.Forall₂ R xs ys := by
  induction xs generalizing ys with
  | nil =>
      cases ys with
      | nil => exact .nil
      | cons y ys => cases h
  | cons x xs ih =>
      cases ys with
      | nil => cases h
      | cons y ys =>
          rw [List.forall_mem_cons] at hx hy
          rw [List.map_cons, List.map_cons, List.cons.injEq] at h
          exact .cons (hR x y hx.1 hy.1 h.1) (ih hx.2 hy.2 h.2)

theorem Rule.alike_of_beq [LawfulBEq α] {r q : Rule α} (hr : r.Over w) (hq : q.Over w)
    (h : (r == q) = true) : r.Alike q := by
  rw [beq_iff_look, look, look] at h
  simp only [Prod.mk.injEq] at h
  obtain ⟨hconditions, hconnectives, hconclusions, hweight, henabled⟩ := h
  refine ⟨?_, hconnectives, ?_, hweight, henabled⟩
  · refine forall₂_of_map_eq (fun a b ha hb hlook => ?_) hr.conditions hq.conditions hconditions
    rw [Antecedent.look, Antecedent.look, Prod.mk.injEq] at hlook
    exact ⟨Vocabulary.eq_of_key ha hb (congrArg Text.lowerCase hlook.1), hlook.2⟩
  · rw [← List.forall₂_eq_eq_eq]
    exact forall₂_of_map_eq (fun c d => Consequent.eq_of_look) hr.conclusions hq.conclusions
      hconclusions

end Over

/-! ## What alike rules do -/

/-- The same result, or errors of the same code. -/
abbrev Indistinct {β : Type} : Except (EvaluationError α) β → Except (EvaluationError α) β → Prop :=
  Agree (fun e e' => e.code = e'.code) Eq

theorem indistinct_self {β : Type} (x : Except (EvaluationError α) β) : Indistinct x x := by
  cases x with
  | error e => exact .error rfl
  | ok b => exact .ok rfl

namespace Rule

variable {norms : Norms} {readings : Readings α}

theorem indistinct_degree {a b : Antecedent α} (h : a.Alike b) :
    Indistinct (a.degree readings) (b.degree readings) := by
  rw [Antecedent.degree, Antecedent.degree, h.1, Variable.set?_congr h.2]
  cases b.subject.set? b.label with
  | none => exact .error rfl
  | some s => exact .ok rfl

theorem indistinct_joinDegrees {as bs : List (Antecedent α)}
    (h : List.Forall₂ Antecedent.Alike as bs) (cs : List Connective) (degree : α) :
    Indistinct (joinDegrees norms readings degree cs as)
      (joinDegrees norms readings degree cs bs) := by
  induction h generalizing cs degree with
  | nil => cases cs <;> exact .ok rfl
  | cons hab _ ih =>
      cases cs with
      | nil => exact .ok rfl
      | cons c cs =>
          exact (indistinct_degree hab).bind_eq fun _ => ih cs _

theorem indistinct_condition {r q : Rule α} (h : r.Alike q) :
    Indistinct (r.condition norms readings) (q.condition norms readings) := by
  obtain ⟨as, cs, ds, weight, enabled⟩ := r
  obtain ⟨bs, cs', ds', weight', enabled'⟩ := q
  obtain ⟨hconditions, rfl, -, -, -⟩ := h
  cases hconditions with
  | nil => exact .ok rfl
  | cons hfirst hrest =>
      unfold condition
      dsimp only
      rw [hrest.length_eq]
      split
      · exact (indistinct_degree hfirst).bind_eq fun _ => indistinct_joinDegrees hrest _ _
      · exact .error rfl

theorem indistinct_strength {r q : Rule α} (h : r.Alike q) :
    Indistinct (r.strength norms readings) (q.strength norms readings) := by
  refine (indistinct_condition h).bind_eq fun degree => ?_
  rw [h.weight]
  exact .ok rfl

end Rule

theorem MamdaniOperators.indistinct_step (ops : MamdaniOperators) (readings : Readings α)
    {r q : Rule α} (h : r.Alike q) (out : List (Aggregate α)) :
    Indistinct (ops.step readings out r) (ops.step readings out q) := by
  unfold step
  rw [h.conclusions]
  split
  · exact .error rfl
  · exact (Rule.indistinct_strength h).bind_eq fun _ => .ok rfl

theorem Norms.indistinct_step (norms : Norms) (readings : Readings α) {r q : Rule α}
    (h : r.Alike q) (out : List (WeightedMean α)) :
    Indistinct (norms.step readings out r) (norms.step readings out q) := by
  unfold step
  rw [h.conclusions]
  split
  · exact .error rfl
  · exact (Rule.indistinct_strength h).bind_eq fun _ => .ok rfl

/-- A run over enabled rules does not tell one rule from another if its steps do not. -/
theorem indistinct_run {β : Type} {step : β → Rule α → Except (EvaluationError α) β} {r q : Rule α}
    (henabled : r.enabled = q.enabled) (hstep : ∀ out, Indistinct (step out r) (step out q))
    (before after : List (Rule α)) (start : β) :
    Indistinct (((before ++ r :: after).filter (·.enabled)).foldlM step start)
      (((before ++ q :: after).filter (·.enabled)).foldlM step start) := by
  -- Both runs come to the rule with the same outputs, or do not come to it at all.
  rw [List.filter_append, List.filter_append, List.foldlM_append, List.foldlM_append]
  refine (indistinct_self _).bind_eq fun out => ?_
  rw [List.filter_cons, List.filter_cons, henabled]
  split
  · rw [List.foldlM_cons, List.foldlM_cons]
    exact (hstep out).bind_eq fun _ => indistinct_self _
  · exact indistinct_self _

/-- Equality of rules is an equivalence. Equal rules about the variables of one vocabulary fire with
the same strength, and one can stand for the other in any list of rules. -/
theorem Rule.beq_sound : Equivalence (fun r q : Rule Rat => (r == q) = true) ∧
    ∀ (w : Vocabulary Rat) (r q : Rule Rat), r.Over w → q.Over w → (r == q) = true →
      ∀ readings : Readings Rat,
        (∀ norms : Norms, Indistinct (r.strength norms readings) (q.strength norms readings)) ∧
        ∀ before after : List (Rule Rat),
          (∀ ops : MamdaniOperators, Indistinct (ops.infer (before ++ r :: after) readings)
            (ops.infer (before ++ q :: after) readings)) ∧
          ∀ norms : Norms, Indistinct (norms.infer (before ++ r :: after) readings)
            (norms.infer (before ++ q :: after) readings) := by
  refine ⟨equivalence_beq, fun w r q hr hq h readings => ?_⟩
  have halike := alike_of_beq hr hq h
  refine ⟨fun norms => indistinct_strength halike, fun before after => ?_⟩
  refine ⟨fun ops => ?_, fun norms => ?_⟩
  · exact indistinct_run halike.enabled (ops.indistinct_step readings halike) before after []
  · exact indistinct_run halike.enabled (norms.indistinct_step readings halike) before after []

namespace Greenhouse

def humidity : Variable Rat := ⟨"Humidity", 21, 91,
  [⟨"Dry", .triangle 21 21 61, by decide +kernel, by decide +kernel, by decide +kernel⟩],
  rfl, rfl, by decide +kernel, by simp⟩

def strong : FuzzySet Rat :=
  ⟨"Strong", .triangle 13 19 19, by decide +kernel, by decide +kernel, by decide +kernel⟩

def mist : Variable Rat := ⟨"Mist", 13, 19, [strong], rfl, rfl, by decide +kernel, by simp⟩

def vocabulary : Vocabulary Rat := ⟨[humidity, mist]⟩

/-- Mist is sprayed in dry air, however the word is spelled. -/
def rule (label : String) : Rule Rat where
  antecedents := [⟨humidity, label⟩]
  consequents := [.fuzzy mist strong]
  weight := 1 / 2

/-- The air is rather dry. -/
def readings : Readings Rat := ({} : Readings Rat).insert (humidity.fuzzify 33)

theorem beq_sound_greenhouse : (rule "Dry" == rule "DRY") = true ∧
    (rule "Dry").conditionText ≠ (rule "DRY").conditionText ∧
    ∃ out, ({} : MamdaniOperators).infer [rule "Dry", rule "Dry"] readings = .ok out ∧
      ({} : MamdaniOperators).infer [rule "Dry", rule "DRY"] readings = .ok out ∧
      Aggregate.activationOf out "Mist" "Strong" = 7 / 20 := by
  have hover (label : String) : (rule label).Over vocabulary := by
    have hhumidity : vocabulary.get? humidity.name = some humidity := rfl
    have hmist : (Consequent.fuzzy mist strong).Over vocabulary := ⟨rfl, rfl⟩
    exact ⟨by simpa [rule] using hhumidity, by simpa [rule] using hmist⟩
  have hequal : (rule "Dry" == rule "DRY") = true := by decide +kernel
  have hactivation : (({} : MamdaniOperators).infer [rule "Dry", rule "Dry"] readings).toOption.map
      (Aggregate.activationOf · "Mist" "Strong") = some (7 / 20) := by decide +kernel
  refine ⟨hequal, by decide +kernel, ?_⟩
  have hsame := ((Rule.beq_sound.2 _ _ _ (hover "Dry") (hover "DRY") hequal readings).2
    [rule "Dry"] []).1 {}
  rw [List.singleton_append, List.singleton_append] at hsame
  generalize ({} : MamdaniOperators).infer [rule "Dry", rule "Dry"] readings = first at *
  generalize ({} : MamdaniOperators).infer [rule "Dry", rule "DRY"] readings = second at *
  cases hsame with
  | ok h =>
      obtain rfl := h
      exact ⟨_, rfl, rfl, Option.some.inj hactivation⟩
  | error h => cases hactivation

end Greenhouse

end FuzzyInference
