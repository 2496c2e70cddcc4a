import FuzzyInference.Text.Line

/-! Lines as they are written: a text without line breaks that ends in a line feed is one line, and
trimming leaves a text alone that has no blanks at its ends. -/

namespace FuzzyInference.Text

theorem splitLines_append {line : List Char} (hline : ∀ c ∈ line, c ≠ '\n' ∧ c ≠ '\r')
    (rest : List Char) : splitLines (line ++ '\n' :: rest) = line :: splitLines rest := by
  induction line with
  | nil => rfl
  | cons c line ih =>
      rw [List.forall_mem_cons] at hline
      obtain ⟨hfeed, hreturn⟩ := hline.1
      rw [List.cons_append, splitLines, ih hline.2]
      · exact hfeed
      · rintro _ rfl
        exact absurd rfl hreturn

/-- Texts that are written one to a line are the lines of the whole. -/
theorem lines_join {texts : List String}
    (htexts : ∀ t ∈ texts, ∀ c ∈ t.toList, c ≠ '\n' ∧ c ≠ '\r') :
    lines (String.join (texts.map (· ++ "\n"))) = texts := by
  induction texts with
  | nil => rfl
  | cons t texts ih =>
      rw [List.forall_mem_cons] at htexts
      have hrest := ih htexts.2
      have hbreak : "\n".toList = ['\n'] := by decide
      rw [lines] at hrest ⊢
      rw [List.map_cons, String.join_cons, String.toList_append, String.toList_append, hbreak,
        List.append_assoc, List.singleton_append, splitLines_append htexts.1, List.map_cons, hrest,
        String.ofList_toList]

theorem dropWhile_isBlank {cs : List Char} (h : ∀ c ∈ cs.head?, isBlank c = false) :
    cs.dropWhile isBlank = cs := by
  cases cs with
  | nil => rfl
  | cons c cs =>
      rw [List.dropWhile_cons_of_neg]
      simp [h c rfl]

theorem trim_eq_self {s : String} (hfirst : ∀ c ∈ s.toList.head?, isBlank c = false)
    (hlast : ∀ c ∈ s.toList.getLast?, isBlank c = false) : trim s = s := by
  rw [← List.head?_reverse] at hlast
  rw [trim, dropWhile_isBlank hfirst, dropWhile_isBlank hlast, List.reverse_reverse,
    String.ofList_toList]

end FuzzyInference.Text
