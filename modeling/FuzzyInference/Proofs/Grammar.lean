import FuzzyInference.Proofs.Fallible
import FuzzyInference.Rule.Language

/-! The grammar of rules as a relation between words and rules, and its agreement with the reader.
Keywords stand where the grammar puts them and nowhere else: any word can be a name or a label. -/

namespace FuzzyInference

theorem Text.eqIgnoringCase_iff {s t : String} :
    Text.eqIgnoringCase s t = true ↔ Text.caseKey s = Text.caseKey t := by
  rw [Text.eqIgnoringCase, beq_iff_eq]

namespace RuleLanguage

/-! ## The grammar -/

section Grammar

variable {α : Type} [Scalar α] [Numeral α] (l : RuleLanguage α)

/-- `VAR IS LABEL`, a condition under the set's own spelling of its label. -/
inductive Condition : List String → Antecedent α → Prop where
  | intro {name keyword label : String} {v : Variable α} {s : FuzzySet α}
      (hname : l.vocabulary.get? name = some v) (hkeyword : isWord "IS" keyword = true)
      (hlabel : v.set? label = some s) : Condition [name, keyword, label] ⟨v, s.label⟩

/-- Conditions joined by single AND or OR words. -/
inductive Conditions : List String → List (Antecedent α) → List Connective → Prop where
  | one {words a} : Condition l words a → Conditions words [a] []
  | more {words a joint c rest as cs} (hjoint : isWord c.keyword joint = true) :
      Condition l words a → Conditions rest as cs →
      Conditions (words ++ joint :: rest) (a :: as) (c :: cs)

/-- `VAR IS LABEL` or `VAR = NUMBER`, whichever the mode of the language asks for. -/
inductive Conclusion : List String → Consequent α → Prop where
  | fuzzy {name keyword label : String} {v : Variable α} {s : FuzzySet α} (hmode : l.mode = .mamdani)
      (hname : l.vocabulary.get? name = some v) (hkeyword : isWord "IS" keyword = true)
      (hlabel : v.set? label = some s) : Conclusion [name, keyword, label] (.fuzzy v s)
  | crisp {name number : String} {v : Variable α} {literal : Literal} (hmode : l.mode = .sugeno)
      (hname : l.vocabulary.get? name = some v) (hnumber : Literal.read? number.toList = some literal)
      (hfinite : Scalar.isFinite (Numeral.ofLiteral literal : α) = true) :
      Conclusion [name, "=", number] (.crisp v (Numeral.ofLiteral literal))

/-- Conclusions separated by single commas. -/
inductive Conclusions : List String → List (Consequent α) → Prop where
  | one {words c} : Conclusion l words c → Conclusions words [c]
  | more {words c rest cs} : Conclusion l words c → Conclusions rest cs →
      Conclusions (words ++ "," :: rest) (c :: cs)

/-- A whole rule: IF, perhaps conditions, THEN and conclusions. The first condition is not about a
variable called THEN, as that word is the keyword there. -/
inductive Sentence : List String → Rule α → Prop where
  | unconditional {opening joint words consequents} (hopening : isWord "IF" opening = true)
      (hjoint : isWord "THEN" joint = true) : Conclusions l words consequents →
      Sentence (opening :: joint :: words) { consequents }
  | conditional {opening front joint words antecedents connectives consequents}
      (hopening : isWord "IF" opening = true) (hjoint : isWord "THEN" joint = true)
      (hfront : ∀ first ∈ front.head?, isWord "THEN" first = false) :
      Conditions l front antecedents connectives → Conclusions l words consequents →
      Sentence (opening :: front ++ joint :: words) { antecedents, connectives, consequents }

end Grammar

/-! ## Single parts -/

variable {α : Type} [Scalar α] {l : RuleLanguage α}

theorem ofLabel_eq_ok_iff {v : Variable α} {label : String} {c : Consequent α} :
    Consequent.ofLabel v label = .ok c ↔ ∃ s, v.set? label = some s ∧ c = .fuzzy v s := by
  rw [Consequent.ofLabel]
  cases v.set? label <;> simp [eq_comm]

theorem ofKeyword?_eq_some_iff {word : String} {c : Connective} :
    Connective.ofKeyword? word = some c ↔ isWord c.keyword word = true := by
  have hkeys : Text.caseKey "AND" ≠ Text.caseKey "OR" := by decide
  simp only [Connective.ofKeyword?, isWord, Text.eqIgnoringCase_iff]
  cases c <;> simp only [Connective.keyword] <;> grind

/-- A word that joins conditions does not end them. -/
theorem isWord_then_of_joint {word : String} {c : Connective} (h : isWord c.keyword word = true) :
    isWord "THEN" word = false := by
  have hkeys : Text.caseKey c.keyword ≠ Text.caseKey "THEN" := by
    cases c <;> decide
  rw [isWord, Text.eqIgnoringCase_iff] at h
  rw [isWord, Bool.eq_false_iff, Ne, Text.eqIgnoringCase_iff, h]
  exact hkeys

theorem antecedent_eq_ok_iff {name label : String} {a : Antecedent α} :
    l.antecedent name label = .ok a ↔ ∃ v s, l.vocabulary.get? name = some v ∧
      v.set? label = some s ∧ a = ⟨v, s.label⟩ := by
  simp only [antecedent, bind_eq_ok, Vocabulary.resolve_eq_ok_iff]
  refine exists_congr fun v => ?_
  cases v.set? label <;> simp [eq_comm]

theorem condition_iff {name keyword label : String} {a : Antecedent α} :
    Condition l [name, keyword, label] a ↔
      isWord "IS" keyword = true ∧ l.antecedent name label = .ok a := by
  rw [antecedent_eq_ok_iff]
  constructor
  · intro h
    obtain ⟨hname, hkeyword, hlabel⟩ := h
    exact ⟨hkeyword, _, _, hname, hlabel, rfl⟩
  · intro h
    obtain ⟨hkeyword, v, s, hname, hlabel, rfl⟩ := h
    exact .intro hname hkeyword hlabel

theorem Condition.exists_words {words : List String} {a : Antecedent α} (h : Condition l words a) :
    ∃ name keyword label, words = [name, keyword, label] := by
  cases h
  exact ⟨_, _, _, rfl⟩

theorem check_eq_ok_iff {p : Prop} [Decidable p] {d : Defect} :
    (if p then Except.ok () else .error d) = Except.ok () ↔ p := by
  by_cases h : p <;> simp [h]

theorem checkRelation_mamdani (hmode : l.mode = .mamdani) {name word : String} :
    l.checkRelation name word = .ok () ↔ isWord "IS" word = true := by
  simp only [checkRelation, hmode]
  exact check_eq_ok_iff

theorem checkRelation_sugeno (hmode : l.mode = .sugeno) {name word : String} :
    l.checkRelation name word = .ok () ↔ word = "=" := by
  simp only [checkRelation, hmode]
  exact check_eq_ok_iff

/-! ## Lists of conditions -/

/-- One turn of the reader: a condition, and then THEN, or a joint and further conditions. -/
theorem conditions_eq_ok_iff {words rest : List String} {as : List (Antecedent α)}
    {cs : List Connective} :
    l.conditions words = .ok (as, cs, rest) ↔
      ∃ name keyword label word tail a, words = name :: keyword :: label :: word :: tail ∧
        Condition l [name, keyword, label] a ∧
        (isWord "THEN" word = true ∧ as = [a] ∧ cs = [] ∧ rest = tail ∨
          ∃ c as' cs', isWord c.keyword word = true ∧
            l.conditions tail = .ok (as', cs', rest) ∧ as = a :: as' ∧ cs = c :: cs') := by
  rcases words with _ | ⟨name, _ | ⟨keyword, _ | ⟨label, _ | ⟨word, tail⟩⟩⟩⟩
  · simp [conditions]
  · simp [conditions]
  · simp only [conditions]
    split <;> simp
  · simp only [conditions]
    split
    · simp [bind_eq_ok]
    · simp
  · simp only [conditions]
    by_cases hkeyword : isWord "IS" keyword = true
    · simp only [hkeyword, if_true, bind_eq_ok]
      constructor
      · intro h
        obtain ⟨a, ha, h⟩ := h
        refine ⟨name, keyword, label, word, tail, a, rfl, condition_iff.mpr ⟨hkeyword, ha⟩, ?_⟩
        by_cases hthen : isWord "THEN" word = true
        · rw [if_pos hthen] at h
          cases h
          exact .inl ⟨hthen, rfl, rfl, rfl⟩
        · rw [if_neg hthen] at h
          cases hjoint : Connective.ofKeyword? word with
          | none => simp [hjoint] at h
          | some c =>
              simp only [hjoint, bind_eq_ok] at h
              obtain ⟨⟨as', cs', rest'⟩, hmore, h⟩ := h
              cases h
              exact .inr ⟨c, as', cs', ofKeyword?_eq_some_iff.mp hjoint, hmore, rfl, rfl⟩
      · intro h
        obtain ⟨_, _, _, _, _, a, hwords, hcondition, hnext⟩ := h
        cases hwords
        refine ⟨a, (condition_iff.mp hcondition).2, ?_⟩
        rcases hnext with ⟨hthen, rfl, rfl, rfl⟩ | ⟨c, as', cs', hjoint, hmore, rfl, rfl⟩
        · rw [if_pos hthen]
        · have hthen : ¬ isWord "THEN" word = true := by simp [isWord_then_of_joint hjoint]
          rw [if_neg hthen, ofKeyword?_eq_some_iff.mpr hjoint]
          exact bind_eq_ok.mpr ⟨_, hmore, rfl⟩
    · simp only [hkeyword, if_false, reduceCtorEq, false_iff]
      intro h
      obtain ⟨_, _, _, _, _, a, hwords, hcondition, -⟩ := h
      cases hwords
      exact hkeyword (condition_iff.mp hcondition).1

/-- The reader takes conditions up to the THEN that ends them. -/
theorem conditions_iff {words rest : List String} {as : List (Antecedent α)}
    {cs : List Connective} :
    l.conditions words = .ok (as, cs, rest) ↔
      ∃ front joint, words = front ++ joint :: rest ∧ isWord "THEN" joint = true ∧
        Conditions l front as cs := by
  constructor
  · intro h
    induction hn : words.length using Nat.strongRecOn generalizing words as cs with
    | ind n ih =>
        obtain ⟨name, keyword, label, word, tail, a, rfl, hcondition, hnext⟩ :=
          conditions_eq_ok_iff.mp h
        rcases hnext with ⟨hthen, rfl, rfl, rfl⟩ | ⟨c, as', cs', hjoint, hmore, rfl, rfl⟩
        · exact ⟨[name, keyword, label], word, rfl, hthen, .one hcondition⟩
        · have hlength : tail.length < n := by
            simp only [List.length_cons] at hn
            omega
          obtain ⟨front, joint, rfl, hthen, hfront⟩ := ih _ hlength hmore rfl
          exact ⟨name :: keyword :: label :: word :: front, joint, rfl, hthen,
            .more hjoint hcondition hfront⟩
  · intro h
    obtain ⟨front, joint, rfl, hthen, hfront⟩ := h
    induction hfront with
    | one hcondition =>
        obtain ⟨name, keyword, label, rfl⟩ := hcondition.exists_words
        exact conditions_eq_ok_iff.mpr
          ⟨_, _, _, _, _, _, rfl, hcondition, .inl ⟨hthen, rfl, rfl, rfl⟩⟩
    | more hjoint hcondition _ ih =>
        obtain ⟨name, keyword, label, rfl⟩ := hcondition.exists_words
        rw [List.append_assoc]
        exact conditions_eq_ok_iff.mpr
          ⟨_, _, _, _, _, _, rfl, hcondition, .inr ⟨_, _, _, hjoint, ih, rfl, rfl⟩⟩

/-- What stands first among conditions stands first in the whole. -/
theorem head?_conditions {front : List String} {as : List (Antecedent α)} {cs : List Connective}
    (h : Conditions l front as cs) (rest : List String) :
    (front ++ rest).head? = front.head? := by
  cases h with
  | one hcondition | more _ hcondition =>
      obtain ⟨name, keyword, label, rfl⟩ := hcondition.exists_words
      rfl

theorem Conditions.length_eq {words : List String} {as : List (Antecedent α)}
    {cs : List Connective} (h : Conditions l words as cs) : as.length = cs.length + 1 := by
  induction h with
  | one => rfl
  | more _ _ _ ih => simp [ih]

theorem Conditions.exists_condition {words : List String} {as : List (Antecedent α)}
    {cs : List Connective} (h : Conditions l words as cs) :
    ∀ a ∈ as, ∃ condition, Condition l condition a := by
  induction h with
  | one hcondition => simpa using ⟨_, hcondition⟩
  | more _ hcondition _ ih => exact List.forall_mem_cons.mpr ⟨⟨_, hcondition⟩, ih⟩

/-! ## Lists of conclusions -/

variable [Numeral α]

theorem number?_eq_some_iff {word : String} {x : α} :
    number? word = some x ↔ ∃ literal, Literal.read? word.toList = some literal ∧
      Scalar.isFinite (Numeral.ofLiteral literal : α) = true ∧ Numeral.ofLiteral literal = x := by
  rw [number?, Option.filter_eq_some_iff]
  constructor
  · intro h
    obtain ⟨hx, hfinite⟩ := h
    obtain ⟨literal, hliteral, rfl⟩ := Option.map_eq_some_iff.mp hx
    exact ⟨literal, hliteral, hfinite, rfl⟩
  · intro h
    obtain ⟨literal, hliteral, hfinite, rfl⟩ := h
    exact ⟨Option.map_eq_some_iff.mpr ⟨literal, hliteral, rfl⟩, hfinite⟩

theorem consequent_mamdani (hmode : l.mode = .mamdani) {name label : String} {c : Consequent α} :
    l.consequent name label = .ok c ↔
      ∃ v s, l.vocabulary.get? name = some v ∧ v.set? label = some s ∧ c = .fuzzy v s := by
  simp only [consequent, hmode, bind_eq_ok, Vocabulary.resolve_eq_ok_iff, ofLabel_eq_ok_iff]
  simp only [exists_and_left]

theorem consequent_sugeno (hmode : l.mode = .sugeno) {name number : String} {c : Consequent α} :
    l.consequent name number = .ok c ↔
      ∃ v x, l.vocabulary.get? name = some v ∧ number? number = some x ∧ c = .crisp v x := by
  simp only [consequent, hmode]
  cases number? (α := α) number with
  | none => simp
  | some x =>
      simp only [bind_eq_ok, Vocabulary.resolve_eq_ok_iff]
      simp [eq_comm]

/-- A conclusion is read exactly from its three words. -/
theorem conclusion_iff {name relation value : String} {c : Consequent α} :
    Conclusion l [name, relation, value] c ↔
      l.checkRelation name relation = .ok () ∧ l.consequent name value = .ok c := by
  cases hmode : l.mode with
  | mamdani =>
      rw [checkRelation_mamdani hmode, consequent_mamdani hmode]
      constructor
      · intro h
        cases h with
        | fuzzy _ hname hkeyword hlabel => exact ⟨hkeyword, _, _, hname, hlabel, rfl⟩
        | crisp hsugeno => simp [hmode] at hsugeno
      · intro h
        obtain ⟨hkeyword, v, s, hname, hlabel, rfl⟩ := h
        exact .fuzzy hmode hname hkeyword hlabel
  | sugeno =>
      rw [checkRelation_sugeno hmode, consequent_sugeno hmode]
      constructor
      · intro h
        cases h with
        | fuzzy hmamdani => simp [hmode] at hmamdani
        | crisp _ hname hnumber hfinite =>
            exact ⟨rfl, _, _, hname, number?_eq_some_iff.mpr ⟨_, hnumber, hfinite, rfl⟩, rfl⟩
      · intro h
        obtain ⟨rfl, v, x, hname, hnumber, rfl⟩ := h
        obtain ⟨literal, hliteral, hfinite, rfl⟩ := number?_eq_some_iff.mp hnumber
        exact .crisp hmode hname hliteral hfinite

theorem Conclusion.exists_words {words : List String} {c : Consequent α}
    (h : Conclusion l words c) : ∃ name relation value, words = [name, relation, value] := by
  cases h <;> exact ⟨_, _, _, rfl⟩

/-- One turn of the reader: a conclusion, and then the end, or a comma and further conclusions. -/
theorem conclusions_eq_ok_iff {words : List String} {cs : List (Consequent α)} :
    l.conclusions words = .ok cs ↔
      ∃ name relation value tail c, words = name :: relation :: value :: tail ∧
        Conclusion l [name, relation, value] c ∧
        (tail = [] ∧ cs = [c] ∨
          ∃ more cs', tail = "," :: more ∧ l.conclusions more = .ok cs' ∧ cs = c :: cs') := by
  rcases words with _ | ⟨name, _ | ⟨relation, _ | ⟨value, tail⟩⟩⟩
  · simp [conclusions]
  · simp [conclusions]
  · simp [conclusions, bind_eq_ok]
  · simp only [conclusions, bind_eq_ok]
    constructor
    · intro h
      obtain ⟨⟨⟩, hrelation, c, hc, h⟩ := h
      refine ⟨name, relation, value, tail, c, rfl, conclusion_iff.mpr ⟨hrelation, hc⟩, ?_⟩
      cases tail with
      | nil =>
          cases h
          exact .inl ⟨rfl, rfl⟩
      | cons word tail =>
          by_cases hcomma : word = ","
          · simp only [hcomma, if_true, bind_eq_ok] at h
            obtain ⟨cs', hmore, h⟩ := h
            cases h
            exact .inr ⟨tail, cs', by rw [hcomma], hmore, rfl⟩
          · simp [hcomma] at h
    · intro h
      obtain ⟨_, _, _, _, c, hwords, hconclusion, hnext⟩ := h
      cases hwords
      obtain ⟨hrelation, hc⟩ := conclusion_iff.mp hconclusion
      refine ⟨(), hrelation, c, hc, ?_⟩
      rcases hnext with ⟨rfl, rfl⟩ | ⟨more, cs', rfl, hmore, rfl⟩
      · rfl
      · simp only [if_true]
        exact bind_eq_ok.mpr ⟨_, hmore, rfl⟩

/-- The reader takes conclusions up to the end of the words. -/
theorem conclusions_iff {words : List String} {cs : List (Consequent α)} :
    l.conclusions words = .ok cs ↔ Conclusions l words cs := by
  constructor
  · intro h
    induction hn : words.length using Nat.strongRecOn generalizing words cs with
    | ind n ih =>
        obtain ⟨name, relation, value, tail, c, rfl, hconclusion, hnext⟩ :=
          conclusions_eq_ok_iff.mp h
        rcases hnext with ⟨rfl, rfl⟩ | ⟨more, cs', rfl, hmore, rfl⟩
        · exact .one hconclusion
        · have hlength : more.length < n := by
            simp only [List.length_cons] at hn
            omega
          exact .more hconclusion (ih _ hlength hmore rfl)
  · intro h
    induction h with
    | one hconclusion =>
        obtain ⟨name, relation, value, rfl⟩ := hconclusion.exists_words
        exact conclusions_eq_ok_iff.mpr ⟨_, _, _, _, _, rfl, hconclusion, .inl ⟨rfl, rfl⟩⟩
    | more hconclusion _ ih =>
        obtain ⟨name, relation, value, rfl⟩ := hconclusion.exists_words
        exact conclusions_eq_ok_iff.mpr
          ⟨_, _, _, _, _, rfl, hconclusion, .inr ⟨_, _, rfl, ih, rfl⟩⟩

/-! ## Whole rules -/

theorem ofTokens_unconditional {opening joint : String} (hopening : isWord "IF" opening = true)
    (hjoint : isWord "THEN" joint = true) (rest : List String) :
    l.ofTokens (opening :: joint :: rest) =
      l.conclusions rest >>= fun consequents => .ok { consequents } := by
  simp only [ofTokens, hopening, hjoint, if_true]
  rfl

theorem ofTokens_conditional {opening : String} (hopening : isWord "IF" opening = true)
    {rest : List String} (hrest : ∀ first ∈ rest.head?, isWord "THEN" first = false) :
    l.ofTokens (opening :: rest) =
      l.conditions rest >>= fun (antecedents, connectives, tail) =>
        l.conclusions tail >>= fun consequents =>
          .ok { antecedents, connectives, consequents } := by
  cases rest with
  | nil => simp only [ofTokens, hopening, if_true]
  | cons first rest =>
      have hfirst : isWord "THEN" first = false := hrest first rfl
      simp only [ofTokens, hopening, hfirst, if_true, Bool.false_eq_true, if_false]

/-- The reader accepts exactly the sentences of the grammar, each as the rule it spells out. -/
theorem ofTokens_iff {words : List String} {r : Rule α} :
    l.ofTokens words = .ok r ↔ Sentence l words r := by
  constructor
  · intro h
    cases words with
    | nil => cases h
    | cons opening rest =>
        by_cases hopening : isWord "IF" opening = true
        · by_cases hrest : ∀ first ∈ rest.head?, isWord "THEN" first = false
          · simp only [ofTokens_conditional hopening hrest, bind_eq_ok] at h
            obtain ⟨⟨as, cs, tail⟩, hfront, consequents, hconclusions, h⟩ := h
            cases h
            obtain ⟨front, joint, rfl, hjoint, hconditions⟩ := conditions_iff.mp hfront
            rw [head?_conditions hconditions] at hrest
            exact .conditional hopening hjoint hrest hconditions (conclusions_iff.mp hconclusions)
          · obtain ⟨joint, hfirst, hjoint⟩ : ∃ joint ∈ rest.head?, isWord "THEN" joint = true := by
              simpa using hrest
            obtain ⟨tail, rfl⟩ := List.head?_eq_some_iff.mp hfirst
            simp only [ofTokens_unconditional hopening hjoint, bind_eq_ok] at h
            obtain ⟨consequents, hconclusions, h⟩ := h
            cases h
            exact .unconditional hopening hjoint (conclusions_iff.mp hconclusions)
        · simp [ofTokens, hopening] at h
  · intro h
    cases h with
    | unconditional hopening hjoint hconclusions =>
        rw [ofTokens_unconditional hopening hjoint]
        exact bind_eq_ok.mpr ⟨_, conclusions_iff.mpr hconclusions, rfl⟩
    | conditional hopening hjoint hfront hconditions hconclusions =>
        rw [← head?_conditions hconditions] at hfront
        rw [List.cons_append, ofTokens_conditional hopening hfront]
        refine bind_eq_ok.mpr ⟨_, conditions_iff.mpr ⟨_, _, rfl, hjoint, hconditions⟩, ?_⟩
        exact bind_eq_ok.mpr ⟨_, conclusions_iff.mpr hconclusions, rfl⟩

theorem parse_eq_ok_iff {line : String} {r : Rule α} :
    l.parse line = .ok r ↔ Sentence l (Rule.tokenize line) r := by
  rw [← ofTokens_iff, parse, mapError_eq_ok]

/-! ## The form of what is read -/

theorem Conclusions.ne_nil {words : List String} {cs : List (Consequent α)}
    (h : Conclusions l words cs) : cs ≠ [] := by
  cases h <;> simp

theorem Conclusion.mode_eq {words : List String} {c : Consequent α} (h : Conclusion l words c) :
    c.mode = l.mode := by
  cases h with
  | fuzzy hmode | crisp hmode => exact hmode.symm

theorem Conclusions.mode_eq {words : List String} {cs : List (Consequent α)}
    (h : Conclusions l words cs) : ∀ c ∈ cs, c.mode = l.mode := by
  induction h with
  | one hconclusion => simpa using hconclusion.mode_eq
  | more hconclusion _ ih => simpa using ⟨hconclusion.mode_eq, ih⟩

/-- A rule as the reader makes it: new, in one mode, with a connective between neighbours. -/
structure Fresh (mode : Mode) (r : Rule α) : Prop where
  connectives : r.connectives.length = r.antecedents.length - 1
  consequents : r.consequents ≠ []
  mode : ∀ c ∈ r.consequents, c.mode = mode
  weight : r.weight = 1
  enabled : r.enabled = true

theorem Sentence.fresh {words : List String} {r : Rule α} (h : Sentence l words r) :
    Fresh l.mode r := by
  cases h with
  | unconditional _ _ hconclusions =>
      exact ⟨rfl, hconclusions.ne_nil, hconclusions.mode_eq, rfl, rfl⟩
  | conditional _ _ _ hconditions hconclusions =>
      refine ⟨?_, hconclusions.ne_nil, hconclusions.mode_eq, rfl, rfl⟩
      simp [hconditions.length_eq]

/-- Every condition of a rule stands in its sentence. -/
theorem Sentence.exists_condition {words : List String} {r : Rule α} (h : Sentence l words r) :
    ∀ a ∈ r.antecedents, ∃ condition, Condition l condition a := by
  cases h with
  | unconditional => simp
  | conditional _ _ _ hconditions => exact hconditions.exists_condition

/-- A line is accepted exactly if its words are a sentence of the grammar, and the rule is the one
that the sentence spells out. -/
theorem parse_accepts_exactly_sentences (l : RuleLanguage α) (line : String) :
    ((∃ r, l.parse line = .ok r) ↔ ∃ r, Sentence l (Rule.tokenize line) r) ∧
    ∀ r, l.parse line = .ok r ↔ Sentence l (Rule.tokenize line) r ∧ Fresh l.mode r := by
  refine ⟨exists_congr fun r => parse_eq_ok_iff, fun r => ?_⟩
  rw [parse_eq_ok_iff]
  exact ⟨fun h => ⟨h, h.fresh⟩, fun h => h.1⟩

end RuleLanguage

end FuzzyInference
