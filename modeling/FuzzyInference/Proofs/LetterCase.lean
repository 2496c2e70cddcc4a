import FuzzyInference.Decimal.Binary64
import FuzzyInference.Proofs.Grammar
import FuzzyInference.Proofs.Lookup
import Mathlib.Data.List.Forall2

/-! The case of ASCII letters in the text of a rule. Words, keywords, names, labels and numbers are
all told apart without it, so two spellings of a line are read as one rule or rejected alike. -/

namespace FuzzyInference

/-! ## Characters and words -/

@[simp] theorem Text.toLower_toLower (c : Char) : c.toLower.toLower = c.toLower :=
  apply_toLower Char.toLower (by decide +kernel) c

@[simp] theorem Text.isBlank_toLower (c : Char) : isBlank c.toLower = isBlank c :=
  apply_toLower isBlank (by decide +kernel) c

namespace Rule

@[simp] theorem isWordChar_toLower (c : Char) : isWordChar c.toLower = isWordChar c :=
  Text.apply_toLower isWordChar (by decide +kernel) c

@[simp] theorem isStray_toLower (c : Char) : isStray c.toLower = isStray c :=
  Text.apply_toLower isStray (by decide +kernel) c

theorem Words.map_toLower {cs : List Char} {words : List (List Char)} (h : Words cs words) :
    Words (cs.map Char.toLower) (words.map (List.map Char.toLower)) := by
  induction h with
  | nil => exact .nil
  | blank hc _ ih => exact .blank (by simpa using hc) ih
  | comma _ ih => exact .comma ih
  | run hne hword hrest _ ih =>
      rw [List.map_append]
      refine .run (by simpa using hne) (by simpa using hword) ?_ ih
      simpa using hrest

/-- Words are cut alike whatever their case. -/
theorem tokens_map_toLower (cs : List Char) :
    tokens (cs.map Char.toLower) = (tokens cs).map (List.map Char.toLower) := by
  have hreach : reach (cs.map Char.toLower) = (reach cs).map Char.toLower := by
    simp [reach, List.takeWhile_map, Function.comp_def]
  have hwords := words_reach (cs.map Char.toLower)
  rw [hreach] at hwords
  exact hwords.unique (words_reach cs).map_toLower

/-- Words that differ in the case of ASCII letters only. -/
def SameLetters : List String → List String → Prop :=
  List.Forall₂ fun s t => Text.caseKey s = Text.caseKey t

theorem sameLetters_tokenize {line line' : String} (h : Text.caseKey line = Text.caseKey line') :
    SameLetters (tokenize line) (tokenize line') := by
  have hkeys (s : String) : (tokenize s).map Text.caseKey = tokens (Text.caseKey s) := by
    rw [Text.caseKey, tokens_map_toLower, ← map_toList_tokenize, List.map_map]
    rfl
  have hsame : (tokenize line).map Text.caseKey = (tokenize line').map Text.caseKey := by
    rw [hkeys, hkeys, h]
  rw [← List.forall₂_eq_eq_eq, List.forall₂_map_left_iff, List.forall₂_map_right_iff] at hsame
  exact hsame

end Rule

/-! ## Numbers -/

namespace Literal

theorem sign?_map_toLower (text : List Char) :
    sign? (text.map Char.toLower) = ((sign? text).1, (sign? text).2.map Char.toLower) := by
  cases text with
  | nil => rfl
  | cons c rest =>
      by_cases hminus : c = '-'
      · subst hminus
        rfl
      by_cases hplus : c = '+'
      · subst hplus
        rfl
      have hminus' := mt (Text.toLower_eq_iff (d := '-') (by decide) c).mp hminus
      have hplus' := mt (Text.toLower_eq_iff (d := '+') (by decide) c).mp hplus
      simp [sign?, hminus, hplus, hminus', hplus']

@[simp] theorem isDigit_toLower (c : Char) : c.toLower.isDigit = c.isDigit :=
  Text.apply_toLower Char.isDigit (by decide +kernel) c

/-- A digit is no letter. -/
theorem toLower_of_isDigit {c : Char} (h : c.isDigit = true) : c.toLower = c := by
  rcases Text.toLower_eq_or_capital c with hc | ⟨n, hn, rfl⟩
  · exact hc
  · have hcapital : ∀ n < 26, (Char.ofNat (65 + n)).isDigit = false := by decide +kernel
    rw [hcapital n hn] at h
    cases h

theorem map_toLower_of_digits {digits : List Char} (h : digits.all Char.isDigit = true) :
    digits.map Char.toLower = digits := by
  rw [List.map_congr_left fun c hc => toLower_of_isDigit (List.all_eq_true.mp h c hc), List.map_id']

theorem power?_map_toLower (text : List Char) : power? (text.map Char.toLower) = power? text := by
  cases text with
  | nil => rfl
  | cons c rest =>
      have hletter : (c.toLower = 'e' ∨ c.toLower = 'E') ↔ (c = 'e' ∨ c = 'E') :=
        decide_eq_decide.mp
          (Text.apply_toLower (fun c => decide (c = 'e' ∨ c = 'E')) (by decide +kernel) c)
      simp only [List.map_cons, power?, hletter, sign?_map_toLower]
      split
      · by_cases hdigits : (sign? rest).2.all Char.isDigit = true
        · rw [map_toLower_of_digits hdigits]
        · simp [List.all_map, Function.comp_def, hdigits]
      · rfl

/-- Digits at the front stay, and what follows them is lowered. -/
theorem span_digits_map_toLower (text : List Char) :
    (text.map Char.toLower).takeWhile Char.isDigit = text.takeWhile Char.isDigit ∧
      (text.map Char.toLower).dropWhile Char.isDigit =
        (text.dropWhile Char.isDigit).map Char.toLower := by
  have hdigit : Char.isDigit ∘ Char.toLower = Char.isDigit := funext isDigit_toLower
  rw [List.takeWhile_map, List.dropWhile_map, hdigit]
  exact ⟨map_toLower_of_digits List.all_takeWhile, rfl⟩

theorem unsigned?_map_toLower (negative : Bool) (text : List Char) :
    unsigned? negative (text.map Char.toLower) = unsigned? negative text := by
  obtain ⟨hwhole, hrest⟩ := span_digits_map_toLower text
  simp only [unsigned?, hwhole, hrest]
  cases hdrop : text.dropWhile Char.isDigit with
  | nil => rfl
  | cons c rest =>
      by_cases hpoint : c = '.'
      · subst hpoint
        obtain ⟨hfraction, hpower⟩ := span_digits_map_toLower rest
        have hdot : Char.toLower '.' = '.' := rfl
        simp only [List.map_cons, hdot, hfraction, hpower, power?_map_toLower]
      · have hpoint' := mt (Text.toLower_eq_iff (d := '.') (by decide) c).mp hpoint
        have hpower := power?_map_toLower (c :: rest)
        rw [List.map_cons] at hpower ⊢
        simp [hpoint, hpoint', hpower]

/-- A number is read alike in any case. -/
theorem read?_map_toLower (text : List Char) : read? (text.map Char.toLower) = read? text := by
  simp only [read?, sign?_map_toLower, List.map_map, Function.comp_def, Text.toLower_toLower,
    unsigned?_map_toLower]

end Literal

/-! ## Single words -/

/-- A symbol that is no letter has one spelling. -/
theorem Text.caseKey_eq_singleton_iff {c : Char} (hc : c.isAlpha = false) {s : String} :
    caseKey s = [c] ↔ s.toList = [c] := by
  rw [caseKey, List.map_eq_singleton_iff]
  constructor
  · rintro ⟨d, hd, hlow⟩
    rw [hd, (toLower_eq_iff hc d).mp hlow]
  · exact fun h => ⟨c, h, (toLower_eq_iff hc c).mpr rfl⟩

theorem Text.eq_symbol_congr {symbol : String} {c : Char} (hsymbol : symbol.toList = [c])
    (hc : c.isAlpha = false) {s t : String} (h : caseKey s = caseKey t) :
    s = symbol ↔ t = symbol := by
  have hspelling (s : String) : s = symbol ↔ caseKey s = [c] := by
    rw [caseKey_eq_singleton_iff hc, ← hsymbol, String.toList_inj]
  rw [hspelling, hspelling, h]

theorem Connective.ofKeyword?_congr {s t : String} (h : Text.caseKey s = Text.caseKey t) :
    ofKeyword? s = ofKeyword? t := by
  rw [ofKeyword?, ofKeyword?, Text.eqIgnoringCase, Text.eqIgnoringCase, h]
  rfl

namespace RuleLanguage

open Rule (SameLetters)

variable {α : Type} [Scalar α] {l : RuleLanguage α} {words words' : List String}

/-- Both are read, with related results, or both are rejected under the same code. -/
abbrev ReadAlike {β γ : Type} (R : β → γ → Prop) : Except Defect β → Except Defect γ → Prop :=
  Agree (fun d d' => d.code = d'.code) R

theorem isWord_congr {word s t : String} (h : Text.caseKey s = Text.caseKey t) :
    isWord word s = isWord word t := by
  simp only [isWord, Text.eqIgnoringCase, h]

theorem readAlike_resolve {name name' : String} (h : Text.caseKey name = Text.caseKey name') :
    ReadAlike Eq (l.vocabulary.resolve name) (l.vocabulary.resolve name') := by
  rw [Vocabulary.resolve, Vocabulary.resolve,
    Vocabulary.get?_congr (Text.lowerCase_eq_of_caseKey h)]
  cases l.vocabulary.get? name' with
  | none => exact .error rfl
  | some v => exact .ok rfl

theorem readAlike_antecedent {name name' label label' : String}
    (hname : Text.caseKey name = Text.caseKey name')
    (hlabel : Text.caseKey label = Text.caseKey label') :
    ReadAlike Eq (l.antecedent name label) (l.antecedent name' label') := by
  refine (readAlike_resolve hname).bind_eq fun v => ?_
  rw [Variable.set?_congr hlabel]
  cases v.set? label' with
  | none => exact .error rfl
  | some s => exact .ok rfl

theorem readAlike_checkRelation {name name' word word' : String}
    (h : Text.caseKey word = Text.caseKey word') :
    ReadAlike Eq (l.checkRelation name word) (l.checkRelation name' word') := by
  unfold checkRelation
  cases l.mode with
  | mamdani =>
      dsimp only
      rw [isWord_congr h]
      split
      · exact .ok rfl
      · exact .error rfl
  | sugeno =>
      dsimp only
      rw [if_congr (Text.eq_symbol_congr (c := '=') (by decide) (by decide) h) rfl rfl]
      split
      · exact .ok rfl
      · exact .error rfl

/-! ## Lists of conditions and conclusions -/

/-- The same conditions and connectives, with words behind them that differ in the case of letters
only. -/
def SameFront (p q : List (Antecedent α) × List Connective × List String) : Prop :=
  p.1 = q.1 ∧ p.2.1 = q.2.1 ∧ SameLetters p.2.2 q.2.2

theorem readAlike_conditions (h : SameLetters words words') :
    ReadAlike SameFront (l.conditions words) (l.conditions words') := by
  -- Whether there is a further condition hangs on the number of words and on keywords alone.
  fun_induction conditions l words generalizing words' with
  | case1 =>
      cases h
      exact .error rfl
  | case2 name =>
      cases h with
      | cons hname h =>
          cases h
          exact .error rfl
  | case3 name keyword hkeyword =>
      obtain _ | ⟨hname, _ | ⟨hsame, ⟨⟩⟩⟩ := h
      rw [isWord_congr hsame] at hkeyword
      simp only [conditions, hkeyword, if_true]
      exact .error rfl
  | case4 name keyword hkeyword label rest ih =>
      obtain _ | ⟨hname, _ | ⟨hsame, _ | ⟨hlabel, h⟩⟩⟩ := h
      rw [isWord_congr hsame] at hkeyword
      simp only [conditions, hkeyword, if_true]
      refine (readAlike_antecedent hname hlabel).bind_eq fun a => ?_
      cases h with
      | nil => exact .error rfl
      | cons hword h =>
          dsimp only
          rw [isWord_congr hword, Connective.ofKeyword?_congr hword]
          split
          · exact .ok ⟨rfl, rfl, h⟩
          · split
            · exact .error rfl
            · refine (ih h).bind ?_
              rintro ⟨as, cs, tail⟩ ⟨as', cs', tail'⟩ ⟨rfl, rfl, htail⟩
              exact .ok ⟨rfl, rfl, htail⟩
  | case5 name keyword rest hkeyword =>
      obtain _ | ⟨hname, _ | ⟨hsame, h⟩⟩ := h
      rw [isWord_congr hsame] at hkeyword
      rw [conditions.eq_def]
      simp only [hkeyword]
      exact .error rfl

variable [Numeral α]

theorem number?_congr {s t : String} (h : Text.caseKey s = Text.caseKey t) :
    number? (α := α) s = number? t := by
  rw [number?, number?, ← Literal.read?_map_toLower, ← Literal.read?_map_toLower t.toList]
  exact congrArg (fun text => ((Literal.read? text).map Numeral.ofLiteral).filter Scalar.isFinite) h

theorem readAlike_consequent {name name' value value' : String}
    (hname : Text.caseKey name = Text.caseKey name')
    (hvalue : Text.caseKey value = Text.caseKey value') :
    ReadAlike Eq (l.consequent name value) (l.consequent name' value') := by
  unfold consequent
  cases l.mode with
  | mamdani =>
      refine (readAlike_resolve hname).bind_eq fun v => ?_
      rw [Consequent.ofLabel, Consequent.ofLabel, Variable.set?_congr hvalue]
      cases v.set? value' with
      | none => exact .error rfl
      | some s => exact .ok rfl
  | sugeno =>
      dsimp only
      rw [number?_congr hvalue]
      cases number? (α := α) value' with
      | none => exact .error rfl
      | some x =>
          exact (readAlike_resolve hname).bind_eq fun _ => .ok rfl

theorem readAlike_conclusions (h : SameLetters words words') :
    ReadAlike Eq (l.conclusions words) (l.conclusions words') := by
  fun_induction conclusions l words generalizing words' with
  | case1 =>
      cases h
      exact .error rfl
  | case2 name =>
      obtain _ | ⟨hname, ⟨⟩⟩ := h
      exact .error rfl
  | case3 name word rest ih =>
      obtain _ | ⟨hname, _ | ⟨hword, h⟩⟩ := h
      rw [conclusions.eq_def]
      refine (readAlike_checkRelation hword).bind_eq fun _ => ?_
      cases h with
      | nil => exact .error rfl
      | cons hvalue h =>
          refine (readAlike_consequent hname hvalue).bind_eq fun c => ?_
          cases h with
          | nil => exact .ok rfl
          | cons htoken h =>
              dsimp only
              rw [if_congr (Text.eq_symbol_congr (c := ',') (by decide) (by decide) htoken) rfl rfl]
              split
              · exact (ih h).bind_eq fun _ => .ok rfl
              · exact .error rfl

/-! ## Whole rules -/

/-- Rules with conditions. These end where the conclusions begin, at the same word in both. -/
theorem readAlike_conditional {opening opening' : String} (hif : isWord "IF" opening = true)
    (hif' : isWord "IF" opening' = true)
    (hfront : ∀ first ∈ words.head?, isWord "THEN" first = false)
    (hfront' : ∀ first ∈ words'.head?, isWord "THEN" first = false)
    (h : SameLetters words words') :
    ReadAlike Eq (l.ofTokens (opening :: words)) (l.ofTokens (opening' :: words')) := by
  rw [ofTokens_conditional hif hfront, ofTokens_conditional hif' hfront']
  refine (readAlike_conditions h).bind ?_
  rintro ⟨as, cs, tail⟩ ⟨_, _, tail'⟩ ⟨rfl, rfl, htail⟩
  exact (readAlike_conclusions htail).bind_eq fun _ => .ok rfl

theorem readAlike_ofTokens (h : SameLetters words words') :
    ReadAlike Eq (l.ofTokens words) (l.ofTokens words') := by
  cases h with
  | nil => exact .error rfl
  | @cons opening opening' rest rest' hopening h =>
      by_cases hif : isWord "IF" opening = true
      · have hif' := isWord_congr hopening ▸ hif
        cases h with
        | nil => exact readAlike_conditional hif hif' (by simp) (by simp) .nil
        | @cons first first' rest rest' hfirst h =>
            by_cases hthen : isWord "THEN" first = true
            · have hthen' := isWord_congr hfirst ▸ hthen
              rw [ofTokens_unconditional hif hthen, ofTokens_unconditional hif' hthen']
              exact (readAlike_conclusions h).bind_eq fun _ => .ok rfl
            · have hthen' := isWord_congr hfirst ▸ hthen
              exact readAlike_conditional hif hif' (by simpa using hthen) (by simpa using hthen')
                (.cons hfirst h)
      · have hif' := isWord_congr hopening ▸ hif
        rw [ofTokens, ofTokens, if_neg hif, if_neg hif']
        exact .error rfl

/-- Lines that differ in the case of ASCII letters only are read as one and the same rule, or they
are rejected under the same code. -/
theorem parse_ignores_letter_case (l : RuleLanguage α) {line line' : String}
    (h : Text.eqIgnoringCase line line' = true) :
    (∃ r, l.parse line = .ok r ∧ l.parse line' = .ok r) ∨
      ∃ e e', l.parse line = .error e ∧ l.parse line' = .error e' ∧
        e.fault.code = e'.fault.code := by
  have hwords := Rule.sameLetters_tokenize (Text.eqIgnoringCase_iff.mp h)
  have halike := readAlike_ofTokens (l := l) hwords
  unfold parse
  generalize l.ofTokens (Rule.tokenize line) = read at halike ⊢
  generalize l.ofTokens (Rule.tokenize line') = read' at halike ⊢
  cases halike with
  | @ok r _ hr =>
      obtain rfl := hr
      exact .inl ⟨r, rfl, rfl⟩
  | error hcode => exact .inr ⟨_, _, rfl, rfl, hcode⟩

/-- A water level that may be high. -/
def tideLanguage : RuleLanguage Float where
  vocabulary := ⟨[⟨"Tide", -4, 400,
    [⟨"High", ⟨.triangle 2 300 400, by decide +kernel, by decide +kernel, by decide +kernel⟩⟩],
    by decide +kernel, by decide +kernel, by decide +kernel, by decide +kernel⟩]⟩
  mode := .sugeno

theorem parse_ignores_letter_case_tide :
    ∃ r, tideLanguage.parse "if tide is HIGH then Tide = 2.5E2" = .ok r ∧
      tideLanguage.parse "IF TIDE IS high THEN tide = 2.5e2" = .ok r ∧
      r.text = "IF Tide IS High THEN Tide = 250" := by
  have htext : (tideLanguage.parse "if tide is HIGH then Tide = 2.5E2").toOption.map Rule.text =
      some "IF Tide IS High THEN Tide = 250" := by decide +kernel
  have hsame : Text.eqIgnoringCase "if tide is HIGH then Tide = 2.5E2"
      "IF TIDE IS high THEN tide = 2.5e2" = true := by decide
  rcases parse_ignores_letter_case tideLanguage hsame with ⟨r, h, h'⟩ | ⟨e, e', h, -, -⟩
  · rw [h] at htext
    exact ⟨r, h, h', Option.some.inj htext⟩
  · rw [h] at htext
    cases htext

end RuleLanguage

end FuzzyInference
