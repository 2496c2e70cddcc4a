import FuzzyInference.Rule.Token
import Mathlib.Data.List.TakeWhile

/-! The words of a text, and how much of a line the tokens of a rule cover. A blank that is no
separator is stray: the tokens are the words up to the first one. -/

namespace FuzzyInference.Rule

/-! ## Words -/

/-- A text cut into its words in order: each comma, and each longest run of word characters. -/
inductive Words : List Char → List (List Char) → Prop where
  | nil : Words [] []
  | blank {c rest words} (hc : Text.isBlank c = true) :
      Words rest words → Words (c :: rest) words
  | comma {rest words} : Words rest words → Words (',' :: rest) ([','] :: words)
  | run {word rest words} (hne : word ≠ []) (hword : ∀ c ∈ word, isWordChar c = true)
      (hrest : ∀ c ∈ rest.head?, isWordChar c = false) :
      Words rest words → Words (word ++ rest) (word :: words)

theorem isBlank_of_isWordChar {c : Char} (h : isWordChar c = true) : Text.isBlank c = false := by
  simp only [isWordChar, Bool.and_eq_true, Bool.not_eq_true'] at h
  exact h.2

theorem isWordChar_of_isBlank {c : Char} (h : Text.isBlank c = true) : isWordChar c = false := by
  simp [isWordChar, h]

/-- A run is all that stands before the first other character. -/
theorem takeWhile_run {word rest : List Char} (hword : ∀ c ∈ word, isWordChar c = true)
    (hrest : ∀ c ∈ rest.head?, isWordChar c = false) :
    (word ++ rest).takeWhile isWordChar = word := by
  rw [List.takeWhile_append_of_pos hword]
  cases rest with
  | nil => simp
  | cons c rest =>
      have hc : isWordChar c = false := hrest c (by simp)
      simp [hc]

namespace Words

theorem eq_nil {words : List (List Char)} (h : Words [] words) : words = [] := by
  generalize htext : ([] : List Char) = cs at h
  cases h with
  | nil => rfl
  | blank => cases htext
  | comma => cases htext
  | run hne => exact absurd (List.append_eq_nil_iff.mp htext.symm).1 hne

theorem of_blank {c : Char} {rest : List Char} {words : List (List Char)}
    (hc : Text.isBlank c = true) (h : Words (c :: rest) words) : Words rest words := by
  generalize htext : c :: rest = cs at h
  cases h with
  | nil => cases htext
  | blank _ h =>
      cases htext
      exact h
  | comma =>
      cases htext
      exact absurd hc (by decide)
  | @run word tail _ hne hword =>
      cases word with
      | nil => exact absurd rfl hne
      | cons d word =>
          cases htext
          have hd := isBlank_of_isWordChar (hword c (by simp))
          simp [hc] at hd

theorem of_comma {rest : List Char} {words : List (List Char)} (h : Words (',' :: rest) words) :
    ∃ more, words = [','] :: more ∧ Words rest more := by
  generalize htext : ',' :: rest = cs at h
  cases h with
  | nil => cases htext
  | blank hc =>
      cases htext
      exact absurd hc (by decide)
  | comma h =>
      cases htext
      exact ⟨_, rfl, h⟩
  | @run word tail _ hne hword =>
      cases word with
      | nil => exact absurd rfl hne
      | cons d word =>
          cases htext
          exact absurd (hword ',' (by simp)) (by decide)

theorem of_wordChar {c : Char} {rest : List Char} {words : List (List Char)}
    (hc : isWordChar c = true) (h : Words (c :: rest) words) :
    ∃ word tail more, words = (c :: word) :: more ∧ rest = word ++ tail ∧
      (∀ d ∈ word, isWordChar d = true) ∧ (∀ d ∈ tail.head?, isWordChar d = false) ∧
      Words tail more := by
  generalize htext : c :: rest = cs at h
  cases h with
  | nil => cases htext
  | blank hblank =>
      cases htext
      simp [isWordChar_of_isBlank hblank] at hc
  | comma =>
      cases htext
      exact absurd hc (by decide)
  | @run word tail _ hne hword hrest h =>
      cases word with
      | nil => exact absurd rfl hne
      | cons d word =>
          cases htext
          exact ⟨word, tail, _, rfl, rfl, fun d hd => hword d (by simp [hd]), hrest, h⟩

/-- A text has one list of words. -/
theorem unique {cs : List Char} {words words' : List (List Char)} (h : Words cs words)
    (h' : Words cs words') : words = words' := by
  induction h generalizing words' with
  | nil => exact h'.eq_nil.symm
  | blank hc _ ih => exact ih (h'.of_blank hc)
  | comma _ ih =>
      obtain ⟨more, rfl, hmore⟩ := h'.of_comma
      rw [ih hmore]
  | @run word rest words hne hword hrest _ ih =>
      cases word with
      | nil => exact absurd rfl hne
      | cons c word =>
          obtain ⟨word', tail, more, rfl, heq, hword', htail, hmore⟩ :=
            of_wordChar (hword c (by simp)) h'
          change word ++ rest = word' ++ tail at heq
          have hsame := congrArg (List.takeWhile isWordChar) heq
          rw [takeWhile_run (fun d hd => hword d (by simp [hd])) hrest,
            takeWhile_run hword' htail] at hsame
          subst hsame
          obtain rfl := List.append_cancel_left heq
          rw [ih hmore]

/-- The words hold every character that is no blank, in order. -/
theorem flatten_eq {cs : List Char} {words : List (List Char)} (h : Words cs words) :
    words.flatten = cs.filter (!Text.isBlank ·) := by
  induction h with
  | nil => rfl
  | blank hc _ ih => simp [hc, ih]
  | comma _ ih =>
      have hcomma : Text.isBlank ',' = false := by decide
      simp [hcomma, ih]
  | @run word rest _ _ hword _ _ ih =>
      have hall : word.filter (!Text.isBlank ·) = word := by
        apply List.filter_eq_self.mpr
        intro c hc
        simp [isBlank_of_isWordChar (hword c hc)]
      rw [List.flatten_cons, List.filter_append, hall, ih]

/-- Blanks at the end add no word. -/
theorem append_blanks {cs blanks : List Char} {words : List (List Char)} (h : Words cs words)
    (hblanks : ∀ c ∈ blanks, Text.isBlank c = true) : Words (cs ++ blanks) words := by
  induction h with
  | nil =>
      induction blanks with
      | nil => exact .nil
      | cons c blanks ih =>
          exact .blank (hblanks c (by simp)) (ih fun d hd => hblanks d (by simp [hd]))
  | blank hc _ ih => exact .blank hc ih
  | comma _ ih => exact .comma ih
  | @run word rest _ hne hword hrest _ ih =>
      rw [List.append_assoc]
      refine .run hne hword ?_ ih
      intro c hc
      cases rest with
      | nil => exact isWordChar_of_isBlank (hblanks c (List.mem_of_mem_head? hc))
      | cons d rest => exact hrest c hc

/-- A blank keeps the words before it apart from those behind it. -/
theorem append_cons_blank {c : Char} {cs rest : List Char} {words more : List (List Char)}
    (h : Words cs words) (hc : Text.isBlank c = true) (hrest : Words rest more) :
    Words (cs ++ c :: rest) (words ++ more) := by
  induction h with
  | nil => exact .blank hc hrest
  | blank hd _ ih => exact .blank hd ih
  | comma _ ih => exact .comma ih
  | @run word tail _ hne hword htail _ ih =>
      rw [List.append_assoc]
      refine .run hne hword ?_ ih
      intro d hd
      cases tail with
      | nil =>
          obtain rfl : c = d := by simpa using hd
          exact isWordChar_of_isBlank hc
      | cons x tail => exact htail d hd

/-- A word character in front of another one joins its word. -/
theorem cons_wordChar {c d : Char} {rest : List Char} {words : List (List Char)}
    (hc : isWordChar c = true) (hd : isWordChar d = true) (h : Words (d :: rest) words) :
    ∃ word more, words = word :: more ∧ Words (c :: d :: rest) ((c :: word) :: more) := by
  obtain ⟨word, tail, more, rfl, rfl, hword, htail, hmore⟩ := h.of_wordChar hd
  refine ⟨d :: word, more, rfl, ?_⟩
  have hrun : ∀ x ∈ c :: d :: word, isWordChar x = true := by
    simpa [hc, hd] using hword
  exact .run (by simp) hrun htail hmore

end Words

/-! ## How far the tokens reach -/

/-- A blank that separates no words. -/
def isStray (c : Char) : Bool := Text.isBlank c && !isSeparator c

/-- A text up to its first stray blank. -/
def reach (cs : List Char) : List Char := cs.takeWhile (!isStray ·)

/-- A text from its first stray blank on. -/
def beyond (cs : List Char) : List Char := cs.dropWhile (!isStray ·)

theorem reach_append_beyond (cs : List Char) : reach cs ++ beyond cs = cs :=
  List.takeWhile_append_dropWhile

theorem reach_cons {c : Char} (hc : isStray c = false) (rest : List Char) :
    reach (c :: rest) = c :: reach rest := by
  simp [reach, hc]

theorem isStray_of_isWordChar {c : Char} (h : isWordChar c = true) : isStray c = false := by
  simp [isStray, isBlank_of_isWordChar h]

theorem isBlank_of_isSeparator {c : Char} (h : isSeparator c = true) : Text.isBlank c = true := by
  simp only [isSeparator, Bool.or_eq_true, beq_iff_eq] at h
  rcases h with ((rfl | rfl) | rfl) | rfl <;> decide

/-- What stands first within reach is what stands first, or nothing. -/
theorem head?_reach {c : Char} {cs : List Char} (h : c ∈ (reach cs).head?) : c ∈ cs.head? := by
  rw [reach, List.head?_takeWhile, Option.mem_filter_iff] at h
  exact h.1

theorem tokens_comma (rest : List Char) : tokens (',' :: rest) = [','] :: tokens rest := by
  rw [tokens.eq_def]
  simp

theorem tokens_separator {c : Char} (hc : isSeparator c = true) (rest : List Char) :
    tokens (c :: rest) = tokens rest := by
  have hcomma : c ≠ ',' := by
    apply ne_of_apply_ne isSeparator
    rw [hc]
    decide
  rw [tokens.eq_def]
  simp [hcomma, hc]

theorem tokens_stray {c : Char} (hc : isStray c = true) (rest : List Char) :
    tokens (c :: rest) = [] := by
  have hcomma : c ≠ ',' := by
    apply ne_of_apply_ne isStray
    rw [hc]
    decide
  simp only [isStray, Bool.and_eq_true, Bool.not_eq_true'] at hc
  rw [tokens.eq_def]
  simp [hcomma, hc]

/-- Whether a word character begins a word of its own or joins the next one. -/
theorem tokens_wordChar {c : Char} (hc : isWordChar c = true) (rest : List Char) :
    tokens (c :: rest) =
      match rest, tokens rest with
      | d :: _, word :: words =>
        if isWordChar d then (c :: word) :: words else [c] :: word :: words
      | _, words => [c] :: words := by
  have hblank := isBlank_of_isWordChar hc
  have hcomma : c ≠ ',' := by
    apply ne_of_apply_ne isWordChar
    rw [hc]
    decide
  have hsep : isSeparator c = false := by
    apply Bool.eq_false_iff.mpr
    intro h
    simp [isBlank_of_isSeparator h] at hblank
  have hdef := tokens.eq_def (c :: rest)
  simp only [hcomma, hsep, hblank, if_false, Bool.false_eq_true] at hdef
  exact hdef

/-- The tokens are the words of the text up to its first stray blank. -/
theorem words_reach (cs : List Char) : Words (reach cs) (tokens cs) := by
  induction cs with
  | nil => exact .nil
  | cons c rest ih =>
      by_cases hcomma : c = ','
      · subst hcomma
        rw [reach_cons (by decide), tokens_comma]
        exact .comma ih
      by_cases hsep : isSeparator c = true
      · have hstray : isStray c = false := by simp [isStray, hsep]
        rw [reach_cons hstray, tokens_separator hsep]
        exact .blank (isBlank_of_isSeparator hsep) ih
      by_cases hblank : Text.isBlank c = true
      · have hstray : isStray c = true := by simp [isStray, hblank, hsep]
        rw [tokens_stray hstray]
        simpa [reach, hstray] using Words.nil
      have hc : isWordChar c = true := by simp [isWordChar, hcomma, hblank]
      rw [reach_cons (isStray_of_isWordChar hc), tokens_wordChar hc]
      have halone (hrest : ∀ d ∈ rest.head?, isWordChar d = false) :
          Words ([c] ++ reach rest) ([c] :: tokens rest) :=
        .run (by simp) (by simp [hc]) (fun d hd => hrest d (head?_reach hd)) ih
      cases rest with
      | nil => exact halone (by simp)
      | cons d rest =>
          by_cases hd : isWordChar d = true
          · rw [reach_cons (isStray_of_isWordChar hd)] at ih ⊢
            obtain ⟨word, more, htokens, hwords⟩ := ih.cons_wordChar hc hd
            simpa [htokens, hd] using hwords
          · have hword := halone (by simpa using hd)
            cases htokens : tokens (d :: rest) with
            | nil => simpa [htokens] using hword
            | cons word words => simpa [htokens, hd] using hword

/-- The tokens hold all characters but blanks exactly if only blanks stand behind the first stray
one. -/
theorem flatten_tokens_iff (cs : List Char) :
    (tokens cs).flatten = cs.filter (!Text.isBlank ·) ↔
      ∀ c ∈ beyond cs, Text.isBlank c = true := by
  have hsplit : cs.filter (!Text.isBlank ·) =
      (reach cs).filter (!Text.isBlank ·) ++ (beyond cs).filter (!Text.isBlank ·) := by
    rw [← List.filter_append, reach_append_beyond]
  rw [(words_reach cs).flatten_eq, hsplit, List.self_eq_append_right, List.filter_eq_nil_iff]
  simp

/-- The tokens are all words of the text exactly if only blanks stand behind the first stray one. -/
theorem words_tokens_iff (cs : List Char) :
    Words cs (tokens cs) ↔ ∀ c ∈ beyond cs, Text.isBlank c = true := by
  constructor
  · intro h
    exact (flatten_tokens_iff cs).mp h.flatten_eq
  · intro h
    have happend := (words_reach cs).append_blanks h
    rwa [reach_append_beyond] at happend

/-- Behind a separator the text goes on with words of its own, unless a stray blank came before. -/
theorem tokens_append_separator {c : Char} (hc : isSeparator c = true) (cs rest : List Char) :
    tokens (cs ++ c :: rest) = tokens cs ++ if cs.any isStray then [] else tokens rest := by
  refine (words_reach _).unique ?_
  by_cases hclean : ∀ d ∈ cs, (!isStray d) = true
  · have hany : cs.any isStray = false := by simpa using hclean
    have hstray : isStray c = false := by simp [isStray, hc]
    have hwords := words_reach cs
    rw [reach, List.takeWhile_eq_self_iff.mpr hclean] at hwords
    rw [hany, if_neg Bool.false_ne_true, reach, List.takeWhile_append_of_pos hclean, ← reach,
      reach_cons hstray]
    exact hwords.append_cons_blank (isBlank_of_isSeparator hc) (words_reach rest)
  · have hany : cs.any isStray = true := by simpa using hclean
    have hlength : (cs.takeWhile (!isStray ·)).length ≠ cs.length := fun h =>
      hclean (List.takeWhile_eq_self_iff.mp ((List.takeWhile_prefix _).eq_of_length h))
    rw [hany, if_pos rfl, List.append_nil, reach, List.takeWhile_append, if_neg hlength]
    exact words_reach cs

/-! ## Single tokens -/

/-- What can stand among the tokens of a line: a comma, or a run of word characters. -/
def IsToken (word : List Char) : Prop :=
  word = [','] ∨ word ≠ [] ∧ ∀ c ∈ word, isWordChar c = true

theorem IsToken.of_all {word : List Char} (hne : word ≠ [])
    (hall : word.all isWordChar = true) : IsToken word :=
  .inr ⟨hne, List.all_eq_true.mp hall⟩

theorem Words.isToken {cs : List Char} {words : List (List Char)} (h : Words cs words) :
    ∀ word ∈ words, IsToken word := by
  induction h with
  | nil => simp
  | blank _ _ ih => exact ih
  | comma _ ih => exact List.forall_mem_cons.mpr ⟨.inl rfl, ih⟩
  | run hne hword _ _ ih => exact List.forall_mem_cons.mpr ⟨.inr ⟨hne, hword⟩, ih⟩

/-- A token in front of a text that begins with no word character is cut off as a whole. -/
theorem tokens_append {word rest : List Char} (hword : IsToken word)
    (hrest : ∀ c ∈ rest.head?, isWordChar c = false) :
    tokens (word ++ rest) = word :: tokens rest := by
  rcases hword with rfl | ⟨hne, hword⟩
  · exact tokens_comma rest
  · have hreach : reach (word ++ rest) = word ++ reach rest := by
      apply List.takeWhile_append_of_pos
      intro c hc
      simp [isStray_of_isWordChar (hword c hc)]
    have hwords : Words (word ++ reach rest) (word :: tokens rest) :=
      .run hne hword (fun c hc => hrest c (head?_reach hc)) (words_reach rest)
    refine Words.unique ?_ hwords
    rw [← hreach]
    exact words_reach _

/-! ## The tokens of a line -/

theorem map_toList_tokenize (line : String) :
    (tokenize line).map String.toList = tokens line.toList := by
  simp [tokenize, List.map_map, Function.comp_def]

theorem isToken_of_mem_tokenize {line word : String} (h : word ∈ tokenize line) :
    IsToken word.toList := by
  refine (words_reach line.toList).isToken _ ?_
  rw [← map_toList_tokenize]
  exact List.mem_map_of_mem h

/-- What the tokens of a line are, and exactly when they lose none of its text: only blanks stand
behind its first stray blank. -/
theorem tokenize_lossless_iff (line : String) :
    Words (reach line.toList) ((tokenize line).map String.toList) ∧
    (Words line.toList ((tokenize line).map String.toList) ↔
      ∀ c ∈ beyond line.toList, Text.isBlank c = true) ∧
    (String.join (tokenize line) = String.ofList (line.toList.filter (!Text.isBlank ·)) ↔
      ∀ c ∈ beyond line.toList, Text.isBlank c = true) := by
  have hjoin : (String.join (tokenize line)).toList = (tokens line.toList).flatten := by
    rw [String.toList_join, List.flatMap_def, map_toList_tokenize]
  rw [map_toList_tokenize]
  refine ⟨words_reach _, words_tokens_iff _, ?_⟩
  rw [← flatten_tokens_iff, ← String.toList_inj, hjoin, String.toList_ofList]

/-- A no-break space ends the rule: the second conclusion is no part of the tokens. -/
theorem tokenize_lossy_at_stray_blank :
    tokenize "IF THEN x = 1\u00a0, y = 2" = ["IF", "THEN", "x", "=", "1"] ∧
    ¬ Words "IF THEN x = 1\u00a0, y = 2".toList
      ((tokenize "IF THEN x = 1\u00a0, y = 2").map String.toList) := by
  refine ⟨by decide +kernel, ?_⟩
  rw [map_toList_tokenize, words_tokens_iff, ← List.all_eq_true]
  decide +kernel

/-- Commas are words also where no blank stands beside them. -/
example : tokenize " IF a IS b THEN x IS y,z IS w " =
    ["IF", "a", "IS", "b", "THEN", "x", "IS", "y", ",", "z", "IS", "w"] := by decide +kernel

end FuzzyInference.Rule
