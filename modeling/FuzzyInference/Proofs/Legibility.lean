import FuzzyInference.Proofs.Grammar
import FuzzyInference.Proofs.Literals
import FuzzyInference.Proofs.Lookup
import FuzzyInference.Proofs.RuleText

/-! The words of a rule are a sentence of its language, so its text is read as the rule. That holds
of every rule that was itself read from a line. -/

namespace FuzzyInference

open Rule (IsToken)

variable {α : Type} [Scalar α]

/-! ## Conditions read back -/

/-- The condition under the set's own spelling of its label, if there is such a set. -/
def Antecedent.canonical (a : Antecedent α) : Antecedent α :=
  { a with label := ((a.subject.set? a.label).map FuzzySet.label).getD a.label }

namespace RuleLanguage

variable {l : RuleLanguage α}

theorem isWord_self (word : String) : isWord word word = true :=
  Text.eqIgnoringCase_iff.mpr rfl

theorem conditions_furtherWords {a : Antecedent α} {as : List (Antecedent α)}
    {cs : List Connective} (hlength : cs.length = as.length)
    (h : ∀ b ∈ a :: as, Condition l b.words b.canonical) :
    Conditions l (a.words ++ Rule.furtherWords cs as) ((a :: as).map Antecedent.canonical) cs := by
  induction as generalizing a cs with
  | nil =>
      obtain rfl := List.length_eq_zero_iff.mp hlength
      exact .one (h a (by simp))
  | cons b as ih =>
      rw [List.forall_mem_cons] at h
      cases cs with
      | nil => cases hlength
      | cons c cs =>
          have hrest := ih (Nat.succ.inj hlength) h.2
          exact .more (isWord_self c.keyword) h.1 hrest

/-- A condition that was read: its names are words wherever the given ones were. -/
theorem Condition.legible {words : List String} {a : Antecedent α} (h : Condition l words a)
    (hwords : ∀ word ∈ words, IsToken word.toList) :
    (∀ word ∈ a.words, IsToken word.toList) ∧ Condition l a.words a.canonical ∧
      a.canonical = a := by
  cases h with
  | @intro name keyword label v s hname hkeyword hlabel =>
      have hset := Variable.set?_label hlabel
      have hcanonical : Antecedent.canonical ⟨v, s.label⟩ = ⟨v, s.label⟩ := by
        simp [Antecedent.canonical, hset]
      have hsubject := Vocabulary.isToken_name hname (hwords name (by simp))
      have htoken := Variable.isToken_label hlabel (hwords label (by simp))
      refine ⟨?_, ?_, hcanonical⟩
      · simp only [Antecedent.words, List.forall_mem_cons]
        exact ⟨hsubject, Rule.isToken_is, htoken, by simp⟩
      · rw [hcanonical]
        exact .intro (Vocabulary.get?_name hname) (isWord_self "IS") hset

theorem Conditions.legible {words : List String} {as : List (Antecedent α)}
    {cs : List Connective} (h : Conditions l words as cs)
    (hwords : ∀ word ∈ words, IsToken word.toList) :
    ∀ a ∈ as, (∀ word ∈ a.words, IsToken word.toList) ∧ Condition l a.words a.canonical ∧
      a.canonical = a := by
  induction h with
  | one hcondition => simpa using hcondition.legible hwords
  | more _ hcondition _ ih =>
      rw [List.forall_mem_append, List.forall_mem_cons] at hwords
      exact List.forall_mem_cons.mpr ⟨hcondition.legible hwords.1, ih hwords.2.2⟩

/-- Only a spelling of THEN is found as a variable of that name, as THEN has no letter k. -/
theorem isWord_then_name {name : String} {v : Variable α}
    (hname : l.vocabulary.get? name = some v) (h : isWord "THEN" name = false) :
    isWord "THEN" v.name = false := by
  rw [isWord, Bool.eq_false_iff, Ne, Text.eqIgnoringCase_iff] at h ⊢
  have hascii : (Text.caseKey "THEN").all (fun x => decide (x.toNat < 128 ∧ x ≠ 'k')) = true := by
    decide
  intro hthen
  refine h ?_
  rw [← hthen] at hascii ⊢
  refine Text.caseKey_eq_of_lowerCase_eq ?_ (Vocabulary.lowerCase_of_get? hname)
  intro x hx
  exact of_decide_eq_true (List.all_eq_true.mp hascii x hx)

theorem Conditions.front {words : List String} {as : List (Antecedent α)} {cs : List Connective}
    (h : Conditions l words as cs) (hfront : ∀ first ∈ words.head?, isWord "THEN" first = false) :
    ∀ a ∈ as.head?, isWord "THEN" a.subject.name = false := by
  cases h with
  | one hcondition | more _ hcondition =>
      obtain ⟨hname, -, -⟩ := hcondition
      rintro a ⟨rfl⟩
      exact isWord_then_name hname (hfront _ rfl)

end RuleLanguage

/-! ## Conclusions read back -/

variable [Numeral α]

/-- A number that is read back from its text, if it is finite. -/
def Numeral.ReadsBack (x : α) : Prop :=
  Scalar.isFinite x = true → RuleLanguage.number? (Numeral.text x) = some x

/-- A conclusion whose number, if it has one, is read back from its text. -/
def Consequent.ReadsBack : Consequent α → Prop
  | .fuzzy .. => True
  | .crisp _ x => Numeral.ReadsBack x

instance [DecidableEq α] (x : α) : Decidable (Numeral.ReadsBack x) :=
  inferInstanceAs (Decidable (_ → _))

instance [DecidableEq α] : (c : Consequent α) → Decidable c.ReadsBack
  | .fuzzy .. => inferInstanceAs (Decidable True)
  | .crisp _ x => inferInstanceAs (Decidable (Numeral.ReadsBack x))

namespace RuleLanguage

variable {l : RuleLanguage α}

theorem conclusions_furtherWords {c : Consequent α} {cs : List (Consequent α)}
    (h : ∀ d ∈ c :: cs, Conclusion l d.words d) :
    Conclusions l (c.words ++ cs.flatMap fun d => "," :: d.words) (c :: cs) := by
  induction cs generalizing c with
  | nil =>
      rw [List.flatMap_nil, List.append_nil]
      exact .one (h c (by simp))
  | cons d cs ih =>
      rw [List.forall_mem_cons] at h
      exact .more h.1 (ih h.2)

theorem isToken_of_number? {word : String} {x : α} (h : number? word = some x) :
    IsToken word.toList := by
  obtain ⟨_, hread, -, -⟩ := number?_eq_some_iff.mp h
  exact Literal.isToken_of_read? hread

theorem conclusion_crisp (hmode : l.mode = .sugeno) {v : Variable α} {x : α}
    (hname : l.vocabulary.get? v.name = some v) (hnumber : number? (Numeral.text x) = some x) :
    Conclusion l (Consequent.crisp v x).words (.crisp v x) :=
  conclusion_iff.mpr ⟨(checkRelation_sugeno hmode).mpr rfl,
    (consequent_sugeno hmode).mpr ⟨v, x, hname, hnumber, rfl⟩⟩

theorem Conclusion.legible {words : List String} {c : Consequent α} (h : Conclusion l words c)
    (hwords : ∀ word ∈ words, IsToken word.toList)
    (hback : c.ReadsBack) :
    (∀ word ∈ c.words, IsToken word.toList) ∧ Conclusion l c.words c := by
  cases h with
  | @fuzzy name keyword label v s hmode hname hkeyword hlabel =>
      have hset := Variable.set?_label hlabel
      have htarget := Vocabulary.isToken_name hname (hwords name (by simp))
      have htoken := Variable.isToken_label hlabel (hwords label (by simp))
      refine ⟨?_, .fuzzy hmode (Vocabulary.get?_name hname) (isWord_self "IS") hset⟩
      simp only [Consequent.words, List.forall_mem_cons]
      exact ⟨htarget, Rule.isToken_is, htoken, by simp⟩
  | @crisp name number v literal hmode hname hliteral hfinite =>
      have hnumber := hback hfinite
      have htarget := Vocabulary.isToken_name hname (hwords name (by simp))
      refine ⟨?_, conclusion_crisp hmode (Vocabulary.get?_name hname) hnumber⟩
      simp only [Consequent.words, List.forall_mem_cons]
      exact ⟨htarget, .of_all (by decide) (by decide), isToken_of_number? hnumber, by simp⟩

theorem Conclusions.legible {words : List String} {cs : List (Consequent α)}
    (h : Conclusions l words cs) (hwords : ∀ word ∈ words, IsToken word.toList)
    (hback : ∀ c ∈ cs, c.ReadsBack) :
    ∀ c ∈ cs, (∀ word ∈ c.words, IsToken word.toList) ∧ Conclusion l c.words c := by
  induction h with
  | one hconclusion =>
      simpa using hconclusion.legible hwords (hback _ (by simp))
  | more hconclusion _ ih =>
      rw [List.forall_mem_append, List.forall_mem_cons] at hwords
      rw [List.forall_mem_cons] at hback
      exact List.forall_mem_cons.mpr
        ⟨hconclusion.legible hwords.1 hback.1, ih hwords.2.2 hback.2⟩

end RuleLanguage

/-! ## Rules read back -/

/-- What the text of a rule says: weight and enabled flag are those of a new rule. -/
def Rule.canonical (r : Rule α) : Rule α :=
  { antecedents := r.antecedents.map Antecedent.canonical
    connectives := r.connectives
    consequents := r.consequents }

namespace RuleLanguage

variable {l : RuleLanguage α} {r : Rule α}

/-- A rule whose text is a sentence of the language. -/
structure Legible (l : RuleLanguage α) (r : Rule α) : Prop where
  conditionTokens : ∀ a ∈ r.antecedents, ∀ word ∈ a.words, IsToken word.toList
  conclusionTokens : ∀ c ∈ r.consequents, ∀ word ∈ c.words, IsToken word.toList
  conditions : ∀ a ∈ r.antecedents, Condition l a.words a.canonical
  conclusions : ∀ c ∈ r.consequents, Conclusion l c.words c
  connectives : r.connectives.length = r.antecedents.length - 1
  consequents : r.consequents ≠ []
  /-- The first name is not the word that ends the conditions. -/
  front : ∀ a ∈ r.antecedents.head?, isWord "THEN" a.subject.name = false

theorem Legible.spells_text (h : Legible l r) : Rule.Spells r.text r.words :=
  Rule.spells_text h.conditionTokens h.conclusionTokens

/-- The words of a legible rule spell it out. -/
theorem Legible.sentence (h : Legible l r) : Sentence l r.words r.canonical := by
  obtain ⟨-, -, hconditions, hconclusions, hconnectives, hconsequents, hfront⟩ := h
  have hlast : Conclusions l r.conclusionWords r.consequents := by
    unfold Rule.conclusionWords
    cases hcs : r.consequents with
    | nil => exact absurd hcs hconsequents
    | cons c cs => exact conclusions_furtherWords (hcs ▸ hconclusions)
  rw [Rule.words, Rule.canonical, Rule.conditionWords]
  cases has : r.antecedents with
  | nil =>
      have hnone : r.connectives = [] := by simpa [has] using hconnectives
      rw [hnone]
      exact .unconditional (isWord_self "IF") (isWord_self "THEN") hlast
  | cons a as =>
      have hlength : r.connectives.length = as.length := by simpa [has] using hconnectives
      refine .conditional (isWord_self "IF") (isWord_self "THEN") ?_
        (conditions_furtherWords hlength (has ▸ hconditions)) hlast
      rintro first ⟨rfl⟩
      exact hfront a (by rw [has, List.head?_cons, Option.mem_some_iff])

/-- The text of a legible rule is read as that rule. -/
theorem Legible.parse_text (h : Legible l r) : l.parse r.text = .ok r.canonical := by
  rw [parse_eq_ok_iff, h.spells_text.tokenize]
  exact h.sentence

/-- A rule that was read is legible, if its numbers are. -/
theorem Sentence.legible {words : List String} (h : Sentence l words r)
    (hwords : ∀ word ∈ words, IsToken word.toList)
    (hback : ∀ c ∈ r.consequents, c.ReadsBack) :
    Legible l r ∧ r.canonical = r := by
  have hfresh := h.fresh
  cases h with
  | unconditional _ _ hconclusions =>
      rw [List.forall_mem_cons, List.forall_mem_cons] at hwords
      have hlast := hconclusions.legible hwords.2.2 hback
      exact ⟨⟨by simp, fun c hc => (hlast c hc).1, by simp, fun c hc => (hlast c hc).2,
        hfresh.connectives, hfresh.consequents, by simp⟩, rfl⟩
  | conditional _ _ hfront hconditions hconclusions =>
      rw [List.cons_append, List.forall_mem_cons, List.forall_mem_append, List.forall_mem_cons]
        at hwords
      have hfirst := hconditions.legible hwords.2.1
      have hlast := hconclusions.legible hwords.2.2.2 hback
      constructor
      · exact ⟨fun a ha => (hfirst a ha).1, fun c hc => (hlast c hc).1,
          fun a ha => (hfirst a ha).2.1, fun c hc => (hlast c hc).2,
          hfresh.connectives, hfresh.consequents, hconditions.front hfront⟩
      · rw [Rule.canonical, List.map_congr_left fun a ha => (hfirst a ha).2.2, List.map_id']

/-- A rule that was read from some line is legible, if its numbers are. -/
theorem legible_of_parse {line : String} (h : l.parse line = .ok r)
    (hback : ∀ c ∈ r.consequents, c.ReadsBack) :
    Legible l r ∧ r.canonical = r :=
  (parse_eq_ok_iff.mp h).legible (fun _ => Rule.isToken_of_mem_tokenize) hback

end RuleLanguage

end FuzzyInference
