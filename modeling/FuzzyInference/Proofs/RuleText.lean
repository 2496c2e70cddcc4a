import FuzzyInference.Proofs.Words
import FuzzyInference.Rule.Basic

/-! The text of a rule is cut into the words it was put together from. It stands on one line, begins
with IF and has no blank at its end. -/

namespace FuzzyInference

open Rule (isWordChar IsToken tokens)

/-! ## Texts and their tokens -/

namespace Rule

/-- A text that is cut into the given words, whatever comes behind it that does not lengthen the
last. It stands on one line and has no blank at its end. -/
structure Spells (text : String) (words : List String) : Prop where
  cut : ∀ rest, (∀ c ∈ rest.head?, isWordChar c = false) →
    tokens (text.toList ++ rest) = words.map String.toList ++ tokens rest
  line : ∀ c ∈ text.toList, c ≠ '\n' ∧ c ≠ '\r'
  last : ∀ c ∈ text.toList.getLast?, Text.isBlank c = false

theorem isBlank_of_mem_token {w : List Char} (hw : IsToken w) {c : Char} (hc : c ∈ w) :
    Text.isBlank c = false := by
  rcases hw with rfl | ⟨-, hw⟩
  · rw [List.mem_singleton.mp hc]
    decide
  · exact isBlank_of_isWordChar (hw c hc)

theorem isWordChar_of_head?_blank {t : String} :
    ∀ c ∈ (" " ++ t).toList.head?, isWordChar c = false := by
  rw [String.toList_append]
  rintro c ⟨rfl⟩
  decide

namespace Spells

theorem nil : Spells "" [] := ⟨fun _ _ => rfl, by simp, by simp⟩

theorem ne_nil {text : String} {words : List String} (h : Spells text words) (hne : words ≠ []) :
    text.toList ≠ [] := by
  intro htext
  have hcut := h.cut [] (by simp)
  rw [htext, List.append_nil, List.self_eq_append_left, List.map_eq_nil_iff] at hcut
  exact hne hcut

theorem word {w : String} (hw : IsToken w.toList) : Spells w [w] := by
  have hblank {c : Char} (hc : c ∈ w.toList) := isBlank_of_mem_token hw hc
  refine ⟨fun _ hrest => Rule.tokens_append hw hrest, ?_, fun c hc => ?_⟩
  · intro c hc
    constructor
    all_goals
      apply ne_of_apply_ne Text.isBlank
      rw [hblank hc]
      decide
  · exact hblank (List.mem_of_getLast? hc)

theorem append {s t : String} {words words' : List String} (hs : Spells s words)
    (ht : Spells t words') (hfront : ∀ c ∈ t.toList.head?, isWordChar c = false) :
    Spells (s ++ t) (words ++ words') := by
  constructor
  · intro rest hrest
    have hmiddle : ∀ c ∈ (t.toList ++ rest).head?, isWordChar c = false := by
      intro c hc
      cases hcs : t.toList with
      | nil => exact hrest c (by simpa [hcs] using hc)
      | cons d cs => exact hfront c (by simpa [hcs] using hc)
    rw [String.toList_append, List.append_assoc, hs.cut _ hmiddle, ht.cut _ hrest,
      List.map_append, List.append_assoc]
  · rw [String.toList_append]
    exact List.forall_mem_append.mpr ⟨hs.line, ht.line⟩
  · intro c hc
    rw [String.toList_append, List.getLast?_append, Option.mem_def, Option.or_eq_some_iff] at hc
    rcases hc with hc | ⟨-, hc⟩
    · exact ht.last c hc
    · exact hs.last c hc

theorem blank {t : String} {words : List String} (h : Spells t words) (hne : words ≠ []) :
    Spells (" " ++ t) words := by
  refine ⟨?_, ?_, ?_⟩
  · intro rest hrest
    rw [String.toList_append]
    exact (Rule.tokens_separator (by decide) _).trans (h.cut rest hrest)
  · rw [String.toList_append]
    refine List.forall_mem_append.mpr ⟨fun c hc => ?_, h.line⟩
    rw [List.mem_singleton.mp hc]
    decide
  · intro c hc
    rw [String.toList_append, List.getLast?_append, Option.mem_def, Option.or_eq_some_iff] at hc
    rcases hc with hc | ⟨hnone, -⟩
    · exact h.last c hc
    · exact absurd (List.getLast?_eq_none_iff.mp hnone) (h.ne_nil hne)

theorem append_blank {s t : String} {words words' : List String} (hs : Spells s words)
    (ht : Spells t words') (hne : words' ≠ []) : Spells (s ++ (" " ++ t)) (words ++ words') :=
  hs.append (ht.blank hne) isWordChar_of_head?_blank

theorem tokenize {text : String} {words : List String} (h : Spells text words) :
    Rule.tokenize text = words := by
  have hall := h.cut [] (by simp)
  rw [List.append_nil] at hall
  rw [Rule.tokenize, hall, List.map_append, List.map_map]
  simp [Function.comp_def, Rule.tokens]

/-- Three words with a blank between neighbours. -/
theorem clause {name joint relation value : String} (hjoint : joint = " " ++ relation ++ " ")
    (hwords : ∀ word ∈ [name, relation, value], IsToken word.toList) :
    Spells (name ++ joint ++ value) [name, relation, value] := by
  have hname := word (hwords name (by simp))
  have hrelation := word (hwords relation (by simp))
  have hvalue := word (hwords value (by simp))
  have hall := hname.append_blank (hrelation.append_blank hvalue (by simp)) (by simp)
  rw [hjoint]
  simpa only [String.append_assoc, List.singleton_append] using hall

end Spells

end Rule

variable {α : Type} [Scalar α]

/-! ## The words of a rule -/

def Antecedent.words (a : Antecedent α) : List String := [a.subject.name, "IS", a.label]

def Consequent.words [Numeral α] : Consequent α → List String
  | .fuzzy v s => [v.name, "IS", s.label]
  | .crisp v x => [v.name, "=", Numeral.text x]

theorem Consequent.words_ne_nil [Numeral α] (c : Consequent α) : c.words ≠ [] := by
  cases c <;> simp [words]

namespace Rule

def furtherWords : List Connective → List (Antecedent α) → List String
  | _, [] => []
  | [], a :: rest => "AND" :: a.words ++ furtherWords [] rest
  | c :: cs, a :: rest => c.keyword :: a.words ++ furtherWords cs rest

def conditionWords (r : Rule α) : List String :=
  match r.antecedents with
  | [] => []
  | a :: rest => a.words ++ furtherWords r.connectives rest

variable [Numeral α]

def conclusionWords (r : Rule α) : List String :=
  match r.consequents with
  | [] => []
  | c :: rest => c.words ++ rest.flatMap fun c => "," :: c.words

def words (r : Rule α) : List String := "IF" :: r.conditionWords ++ "THEN" :: r.conclusionWords

end Rule

theorem Antecedent.spells_text {a : Antecedent α} (h : ∀ word ∈ a.words, IsToken word.toList) :
    Rule.Spells a.text a.words :=
  .clause (by decide) h

theorem Consequent.spells_text [Numeral α] {c : Consequent α}
    (h : ∀ word ∈ c.words, IsToken word.toList) : Rule.Spells c.text c.words := by
  cases c <;> exact .clause (by decide) h

namespace Rule

theorem isToken_is : IsToken "IS".toList := .of_all (by decide) (by decide)

theorem isToken_keyword (c : Connective) : IsToken c.keyword.toList := by
  cases c <;> exact .of_all (by decide) (by decide)

/-- One condition more, behind its connective. -/
theorem spells_joined (c : Connective) {a : Antecedent α} {t : String} {words : List String}
    (ha : ∀ word ∈ a.words, IsToken word.toList) (ht : Spells t words)
    (hfront : ∀ c ∈ t.toList.head?, isWordChar c = false) :
    Spells (" " ++ c.keyword ++ " " ++ a.text ++ t) (c.keyword :: a.words ++ words) := by
  have hkeyword := Spells.word (isToken_keyword c)
  have hclause := (Antecedent.spells_text ha).append ht hfront
  have hall := (hkeyword.append_blank hclause (by simp [Antecedent.words])).blank (by simp)
  simpa only [String.append_assoc, List.cons_append, List.nil_append] using hall

theorem spells_furtherText (cs : List Connective) {as : List (Antecedent α)}
    (h : ∀ a ∈ as, ∀ word ∈ a.words, IsToken word.toList) :
    Spells (furtherText cs as) (furtherWords cs as) ∧
      ∀ c ∈ (furtherText cs as).toList.head?, isWordChar c = false := by
  fun_induction furtherText cs as with
  | case1 => exact ⟨.nil, by simp⟩
  | case2 a rest ih =>
      rw [List.forall_mem_cons] at h
      obtain ⟨hrest, hfront⟩ := ih h.2
      refine ⟨spells_joined .and h.1 hrest hfront, ?_⟩
      rw [String.append_assoc]
      exact isWordChar_of_head?_blank (t := "AND " ++ (a.text ++ furtherText [] rest))
  | case3 c cs a rest ih =>
      rw [List.forall_mem_cons] at h
      obtain ⟨hrest, hfront⟩ := ih h.2
      refine ⟨spells_joined c h.1 hrest hfront, ?_⟩
      simp only [String.append_assoc]
      exact isWordChar_of_head?_blank

theorem spells_conditionText {r : Rule α}
    (h : ∀ a ∈ r.antecedents, ∀ word ∈ a.words, IsToken word.toList) :
    Spells r.conditionText r.conditionWords ∧
      ∀ c ∈ r.conditionText.toList.head?, isWordChar c = false := by
  unfold conditionText conditionWords
  cases has : r.antecedents with
  | nil => exact ⟨.nil, by simp⟩
  | cons a rest =>
      rw [has, List.forall_mem_cons] at h
      obtain ⟨hrest, hfront⟩ := spells_furtherText r.connectives h.2
      simp only [String.append_assoc]
      refine ⟨?_, isWordChar_of_head?_blank⟩
      exact ((Antecedent.spells_text h.1).append hrest hfront).blank (by simp [Antecedent.words])

variable [Numeral α]

theorem spells_further_conclusions {cs : List (Consequent α)}
    (h : ∀ c ∈ cs, ∀ word ∈ c.words, IsToken word.toList) :
    Spells (String.join (cs.map fun c => ", " ++ c.text)) (cs.flatMap fun c => "," :: c.words) ∧
      ∀ c ∈ (String.join (cs.map fun c => ", " ++ c.text)).toList.head?,
        isWordChar c = false := by
  induction cs with
  | nil => exact ⟨.nil, by simp⟩
  | cons c cs ih =>
      rw [List.forall_mem_cons] at h
      obtain ⟨hrest, hfront⟩ := ih h.2
      have hcomma : Spells "," [","] := .word (.inl rfl)
      have hclause := (Consequent.spells_text h.1).append hrest hfront
      rw [List.map_cons, String.join_cons, List.flatMap_cons, String.append_assoc]
      refine ⟨hcomma.append_blank hclause (by simp [Consequent.words_ne_nil]), ?_⟩
      rw [String.toList_append]
      rintro d ⟨rfl⟩
      decide

theorem spells_conclusionText {r : Rule α}
    (h : ∀ c ∈ r.consequents, ∀ word ∈ c.words, IsToken word.toList) :
    Spells r.conclusionText r.conclusionWords ∧
      ∀ c ∈ r.conclusionText.toList.head?, isWordChar c = false := by
  unfold conclusionText conclusionWords
  cases hcs : r.consequents with
  | nil => exact ⟨.nil, by simp⟩
  | cons c rest =>
      rw [hcs, List.forall_mem_cons] at h
      obtain ⟨hrest, hfront⟩ := spells_further_conclusions h.2
      simp only [String.append_assoc]
      refine ⟨?_, isWordChar_of_head?_blank⟩
      exact ((Consequent.spells_text h.1).append hrest hfront).blank (by simp [Consequent.words_ne_nil])

/-- The text of a rule is cut into the words it was put together from. -/
theorem spells_text {r : Rule α}
    (hconditions : ∀ a ∈ r.antecedents, ∀ word ∈ a.words, IsToken word.toList)
    (hconclusions : ∀ c ∈ r.consequents, ∀ word ∈ c.words, IsToken word.toList) :
    Spells r.text r.words := by
  obtain ⟨hcondition, hcfront⟩ := spells_conditionText hconditions
  obtain ⟨hconclusion, hfront⟩ := spells_conclusionText hconclusions
  have hif : Spells "IF" ["IF"] := .word (.of_all (by decide) (by decide))
  have hthen : Spells "THEN" ["THEN"] := .word (.of_all (by decide) (by decide))
  have hall := (hif.append hcondition hcfront).append_blank
    (hthen.append hconclusion hfront) (by simp)
  have hjoint : " THEN" = " " ++ "THEN" := by decide
  have htext : r.text = "IF" ++ r.conditionText ++ (" " ++ ("THEN" ++ r.conclusionText)) := by
    simp only [text, hjoint, String.append_assoc]
  rw [htext]
  exact hall

theorem head?_text (r : Rule α) : r.text.toList.head? = some 'I' := by
  simp only [text, String.append_assoc, String.toList_append]
  rfl

end Rule

end FuzzyInference
