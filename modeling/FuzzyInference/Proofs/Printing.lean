import FuzzyInference.Decimal.Binary64
import FuzzyInference.Proofs.Faults
import FuzzyInference.Proofs.Inference
import FuzzyInference.Proofs.Legibility

/-! The text of a rule that was put together part by part. If its names are words, the text is read as
an equal rule, even where names are keywords; only labels may change their case. -/

namespace FuzzyInference

open RuleLanguage (Condition Conclusion Legible isWord isWord_self)

/-- Numbers of which each finite one equals itself. -/
class Scalar.Reflexive (α : Type) [Scalar α] : Prop where
  isFinite_one : isFinite (1 : α) = true
  beq_self {x : α} : isFinite x = true → (x == x) = true

open Float.Model in
instance : Scalar.Reflexive Float where
  isFinite_one := by decide +kernel
  beq_self {x} h := by
    change x.toModel.unpack.isFinite = true at h
    change (UnpackedFloat.compare x.toModel.unpack x.toModel.unpack == some .eq) = true
    cases hx : x.toModel.unpack with
    | notANumber | infinity sign =>
        rw [hx] at h
        cases h
    | zero sign => rfl
    | finite sign m e hm =>
        have hequal : (compare e e).then (compare m m) = .eq := by simp
        cases sign with
        | positive =>
            change (some ((compare e e).then (compare m m)) == some .eq) = true
            rw [hequal]
            rfl
        | negative =>
            change (some ((compare e e).then (compare m m)).swap == some .eq) = true
            rw [hequal]
            rfl

variable {α : Type} [Scalar α]

/-! ## Names -/

/-- A word that can be the name of a variable or the label of a set, keywords included. -/
def Rule.IsName (s : String) : Prop := s ≠ "" ∧ ∀ c ∈ s.toList, Text.isBlank c = false ∧ c ≠ ','

-- Checked on the characters of the word, and not on all there are.
instance (s : String) : Decidable (Rule.IsName s) :=
  decidable_of_iff (s ≠ "" ∧ s.toList.all (fun c => !Text.isBlank c && c != ',') = true)
    (by simp [Rule.IsName])

theorem Rule.IsName.isToken {s : String} (h : IsName s) : IsToken s.toList := by
  refine .inr ⟨fun hs => h.1 (String.toList_eq_nil_iff.mp hs), fun c hc => ?_⟩
  obtain ⟨hblank, hcomma⟩ := h.2 c hc
  simp [isWordChar, hblank, hcomma]

def Antecedent.names (a : Antecedent α) : List String := [a.subject.name, a.label]

def Consequent.names : Consequent α → List String
  | .fuzzy v s => [v.name, s.label]
  | .crisp v _ => [v.name]

/-- A rule that the language can express: of the right form, over known variables and their sets, with
finite numbers and with names that are words, the first of them not the one that ends the conditions. A
text tells neither weights nor flags, so these are as in a new rule. -/
structure RuleLanguage.Printable (l : RuleLanguage α) (r : Rule α) : Prop where
  connectives : r.connectives.length = r.antecedents.length - 1
  consequents : r.consequents ≠ []
  known : ∀ a ∈ r.antecedents, l.vocabulary.get? a.subject.name = some a.subject
  defined : ∀ a ∈ r.antecedents, a.IsDefined
  conclusions : ∀ c ∈ r.consequents, c.Over l.vocabulary
  mode : ∀ c ∈ r.consequents, c.mode = l.mode
  finite : ∀ v x, .crisp v x ∈ r.consequents → Scalar.isFinite x = true
  conditionNames : ∀ a ∈ r.antecedents, ∀ name ∈ a.names, Rule.IsName name
  conclusionNames : ∀ c ∈ r.consequents, ∀ name ∈ c.names, Rule.IsName name
  front : ∀ a ∈ r.antecedents.head?, Text.eqIgnoringCase a.subject.name "THEN" = false
  weight : r.weight = 1
  enabled : r.enabled = true

/-! ## Parts -/

theorem Antecedent.canonical_of_set? {a : Antecedent α} {s : FuzzySet α}
    (hs : a.subject.set? a.label = some s) : a.canonical = ⟨a.subject, s.label⟩ := by
  simp [canonical, hs]

/-- The own spelling of a label makes no other condition. -/
theorem Antecedent.canonical_beq {a : Antecedent α} {s : FuzzySet α}
    (hs : a.subject.set? a.label = some s) : (a.canonical == a) = true := by
  have hlabel : Text.eqIgnoringCase s.label a.label = true :=
    Text.eqIgnoringCase_iff.mpr (Variable.caseKey_of_set? hs)
  rw [canonical_of_set? hs]
  exact Bool.and_eq_true_iff.mpr ⟨beq_self_eq_true _, hlabel⟩

namespace RuleLanguage

variable {l : RuleLanguage α} {a : Antecedent α} {c : Consequent α}

theorem condition_words {s : FuzzySet α} (hs : a.subject.set? a.label = some s)
    (hknown : l.vocabulary.get? a.subject.name = some a.subject) :
    Condition l a.words a.canonical := by
  rw [Antecedent.canonical_of_set? hs]
  exact .intro hknown (isWord_self "IS") hs

theorem isToken_condition (hnames : ∀ name ∈ a.names, Rule.IsName name) :
    ∀ word ∈ a.words, Rule.IsToken word.toList := by
  simp only [Antecedent.names, Antecedent.words, List.forall_mem_cons] at hnames ⊢
  exact ⟨hnames.1.isToken, Rule.isToken_is, hnames.2.1.isToken, by simp⟩

variable [Numeral α]

theorem conclusion_words (hmode : c.mode = l.mode) (hover : c.Over l.vocabulary)
    (hnumber : ∀ v x, c = .crisp v x → number? (Numeral.text x) = some x) :
    Conclusion l c.words c := by
  cases c with
  | fuzzy v s => exact .fuzzy hmode.symm hover.1 (isWord_self "IS") hover.2
  | crisp v x => exact conclusion_crisp hmode.symm hover (hnumber v x rfl)

theorem isToken_conclusion (hnames : ∀ name ∈ c.names, Rule.IsName name)
    (hnumber : ∀ v x, c = .crisp v x → number? (Numeral.text x) = some x) :
    ∀ word ∈ c.words, Rule.IsToken word.toList := by
  cases c with
  | fuzzy v s =>
      simp only [Consequent.names, Consequent.words, List.forall_mem_cons] at hnames ⊢
      exact ⟨hnames.1.isToken, Rule.isToken_is, hnames.2.1.isToken, by simp⟩
  | crisp v x =>
      simp only [Consequent.names, Consequent.words, List.forall_mem_cons] at hnames ⊢
      exact ⟨hnames.1.isToken, .of_all (by decide) (by decide),
        isToken_of_number? (hnumber v x rfl), by simp⟩

end RuleLanguage

/-! ## Whole rules -/

/-- Lists are equal if their entries are. -/
theorem beq_of_forall₂ {β : Type} [BEq β] {xs ys : List β}
    (h : List.Forall₂ (fun x y => (x == y) = true) xs ys) : (xs == ys) = true := by
  induction h with
  | nil => rfl
  | cons hxy _ ih => exact Bool.and_eq_true_iff.mpr ⟨hxy, ih⟩

theorem Consequent.beq_self [Scalar.Reflexive α] {c : Consequent α}
    (hfinite : ∀ v x, c = .crisp v x → Scalar.isFinite x = true) : (c == c) = true := by
  cases c with
  | fuzzy v s => exact Bool.and_eq_true_iff.mpr ⟨beq_self_eq_true _, beq_self_eq_true _⟩
  | crisp v x =>
      exact Bool.and_eq_true_iff.mpr
        ⟨beq_self_eq_true _, Scalar.Reflexive.beq_self (hfinite v x rfl)⟩

theorem Rule.beq_iff {r q : Rule α} : (r == q) = true ↔
    (r.antecedents == q.antecedents) = true ∧ r.connectives = q.connectives ∧
      (r.consequents == q.consequents) = true ∧ (r.weight == q.weight) = true ∧
      r.enabled = q.enabled := by
  change (_ && _ && _ && _ && _) = true ↔ _
  simp only [Bool.and_eq_true, beq_iff_eq, and_assoc]

namespace RuleLanguage.Printable

variable {l : RuleLanguage α} {r : Rule α}

theorem exists_set (h : Printable l r) {a : Antecedent α} (ha : a ∈ r.antecedents) :
    ∃ s, a.subject.set? a.label = some s := Antecedent.isDefined_iff.mp (h.defined a ha)

/-- What the text says is the rule up to the spelling of labels. -/
theorem canonical_beq [Scalar.Reflexive α] (h : Printable l r) : (r.canonical == r) = true := by
  refine Rule.beq_iff.mpr ⟨?_, rfl, ?_, ?_, h.enabled.symm⟩
  · refine beq_of_forall₂ (List.forall₂_map_left_iff.mpr (List.forall₂_same.mpr fun a ha => ?_))
    obtain ⟨s, hs⟩ := h.exists_set ha
    exact Antecedent.canonical_beq hs
  · refine beq_of_forall₂ (List.forall₂_same.mpr fun c hc => Consequent.beq_self ?_)
    exact fun v x hcrisp => h.finite v x (hcrisp ▸ hc)
  · rw [h.weight]
    exact Scalar.Reflexive.beq_self Scalar.Reflexive.isFinite_one

variable [Numeral α]

theorem number?_text (h : Printable l r) (hback : ∀ c ∈ r.consequents, c.ReadsBack)
    {c : Consequent α} (hc : c ∈ r.consequents) :
    ∀ v x, c = .crisp v x → number? (Numeral.text x) = some x := by
  rintro v x rfl
  exact hback _ hc (h.finite v x hc)

/-- The words of a rule that the language can express are a sentence of it. -/
theorem legible (h : Printable l r) (hback : ∀ c ∈ r.consequents, c.ReadsBack) : Legible l r where
  conditionTokens a ha := isToken_condition (h.conditionNames a ha)
  conclusionTokens c hc := isToken_conclusion (h.conclusionNames c hc) (h.number?_text hback hc)
  conditions a ha := by
    obtain ⟨s, hs⟩ := h.exists_set ha
    exact condition_words hs (h.known a ha)
  conclusions c hc := conclusion_words (h.mode c hc) (h.conclusions c hc) (h.number?_text hback hc)
  connectives := h.connectives
  consequents := h.consequents
  front := h.front

/-- The text of a rule that the language can express is read as an equal rule, in which each label is
spelled as in the set that it means. -/
theorem exists_parse_text [Scalar.Reflexive α] (h : Printable l r)
    (hback : ∀ c ∈ r.consequents, c.ReadsBack) :
    ∃ r', l.parse r.text = .ok r' ∧ (r' == r) = true ∧
      ∀ a ∈ r'.antecedents, ∃ s ∈ a.subject.sets, a.label = s.label := by
  refine ⟨r.canonical, (h.legible hback).parse_text, h.canonical_beq, ?_⟩
  rw [Rule.canonical, List.forall_mem_map]
  intro a ha
  obtain ⟨s, hs⟩ := h.exists_set ha
  rw [Antecedent.canonical_of_set? hs]
  exact ⟨s, List.mem_of_find?_eq_some hs, rfl⟩

end RuleLanguage.Printable

/-! ## Keywords as names -/

namespace Keywords

def opening : Variable Float := ⟨"If", -3, 300,
  [⟨"Is", ⟨.triangle 0 250 300, by decide +kernel, by decide +kernel, by decide +kernel⟩⟩],
  by decide +kernel, by decide +kernel, by decide +kernel, by decide +kernel⟩

def joint : Variable Float := ⟨"Then", -2, 6,
  [⟨"Or", ⟨.triangle (-2) 0 6, by decide +kernel, by decide +kernel, by decide +kernel⟩⟩],
  by decide +kernel, by decide +kernel, by decide +kernel, by decide +kernel⟩

def language : RuleLanguage Float := ⟨⟨[opening, joint]⟩, .sugeno⟩

def rule : Rule Float where
  antecedents := [⟨opening, "IS"⟩, ⟨joint, "or"⟩]
  connectives := [.and]
  consequents := [.crisp opening 250, .crisp joint (-0.1)]

theorem printable_rule : language.Printable rule where
  connectives := rfl
  consequents := by simp [rule]
  known := by
    simp only [rule, List.forall_mem_cons]
    exact ⟨rfl, rfl, nofun⟩
  defined := by
    simp only [rule, List.forall_mem_cons]
    exact ⟨⟨_, List.mem_singleton_self _, by decide⟩, ⟨_, List.mem_singleton_self _, by decide⟩,
      nofun⟩
  conclusions := by
    simp only [rule, List.forall_mem_cons]
    exact ⟨rfl, rfl, nofun⟩
  mode := by decide
  finite v x h := by
    simp only [rule, List.mem_cons, Consequent.crisp.injEq, List.not_mem_nil, or_false] at h
    rcases h with ⟨-, rfl⟩ | ⟨-, rfl⟩ <;> decide +kernel
  conditionNames := by decide
  conclusionNames := by decide
  front := by decide
  weight := rfl
  enabled := rfl

theorem exists_parse_keywords :
    rule.text = "IF If IS IS AND Then IS or THEN If = 250, Then = -0.1" ∧
    ∃ r', language.parse rule.text = .ok r' ∧ (r' == rule) = true ∧
      ∀ a ∈ r'.antecedents, ∃ s ∈ a.subject.sets, a.label = s.label :=
  ⟨by decide +kernel, printable_rule.exists_parse_text (by decide +kernel)⟩

end Keywords

end FuzzyInference
