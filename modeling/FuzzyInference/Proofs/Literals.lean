import FuzzyInference.Decimal.Literal
import FuzzyInference.Proofs.LowerCase
import FuzzyInference.Proofs.Words

/-! Every text that is read as a number is one word of a rule. -/

namespace FuzzyInference.Literal

open Rule (isWordChar IsToken)

theorem isWordChar_of_isDigit {c : Char} (h : c.isDigit = true) : isWordChar c = true := by
  rw [Char.isDigit_iff_toNat] at h
  change 48 ≤ c.toNat ∧ c.toNat ≤ 57 at h
  have hdigits : ∀ n < 10, isWordChar (Char.ofNat (48 + n)) = true := by decide
  have hc := hdigits (c.toNat - 48) (by omega)
  rwa [Nat.add_sub_cancel' h.1, Char.ofNat_toNat] at hc

/-- A sign is a word character in front of what it signs. -/
theorem sign?_cases (text : List Char) :
    (sign? text).2 = text ∨ ∃ c, isWordChar c = true ∧ text = c :: (sign? text).2 := by
  unfold sign?
  split
  · exact .inr ⟨'-', by decide, rfl⟩
  · exact .inr ⟨'+', by decide, rfl⟩
  · exact .inl rfl

theorem forall_isWordChar_of_sign? {text : List Char}
    (h : ∀ c ∈ (sign? text).2, isWordChar c = true) : ∀ c ∈ text, isWordChar c = true := by
  rcases sign?_cases text with hsame | ⟨c, hc, htext⟩
  · rwa [hsame] at h
  · rw [htext]
    exact List.forall_mem_cons.mpr ⟨hc, h⟩

theorem forall_isWordChar_of_power? {text : List Char} {n : Int} (h : power? text = some n) :
    ∀ c ∈ text, isWordChar c = true := by
  cases text with
  | nil => simp
  | cons c rest =>
      by_cases hc : c = 'e' ∨ c = 'E'
      · simp only [power?, if_pos hc] at h
        split at h
        · rename_i hdigits
          have hrest : ∀ d ∈ (sign? rest).2, isWordChar d = true := fun d hd =>
            isWordChar_of_isDigit (List.all_eq_true.mp hdigits.2 d hd)
          refine List.forall_mem_cons.mpr ⟨?_, forall_isWordChar_of_sign? hrest⟩
          rcases hc with rfl | rfl <;> decide
        · cases h
      · simp [power?, hc] at h

/-- Digits in front change nothing. -/
theorem forall_isWordChar_of_dropWhile {text : List Char}
    (h : ∀ c ∈ text.dropWhile Char.isDigit, isWordChar c = true) :
    ∀ c ∈ text, isWordChar c = true := by
  intro c hc
  rw [← List.takeWhile_append_dropWhile (p := Char.isDigit) (l := text)] at hc
  rcases List.mem_append.mp hc with hc | hc
  · exact isWordChar_of_isDigit (List.all_eq_true.mp List.all_takeWhile c hc)
  · exact h c hc

theorem isRun_of_unsigned? {negative : Bool} {text : List Char} {literal : Literal}
    (h : unsigned? negative text = some literal) :
    text ≠ [] ∧ ∀ c ∈ text, isWordChar c = true := by
  simp only [unsigned?] at h
  split at h
  · rename_i rest hpoint
    split at h
    · cases h
    · obtain ⟨n, hn, -⟩ := Option.map_eq_some_iff.mp h
      have hrest := forall_isWordChar_of_dropWhile (forall_isWordChar_of_power? hn)
      constructor
      · intro hnil
        rw [hnil] at hpoint
        cases hpoint
      · refine forall_isWordChar_of_dropWhile ?_
        rw [hpoint]
        exact List.forall_mem_cons.mpr ⟨by decide, hrest⟩
  · split at h
    · cases h
    · rename_i hwhole
      obtain ⟨n, hn, -⟩ := Option.map_eq_some_iff.mp h
      constructor
      · intro hnil
        rw [hnil] at hwhole
        exact hwhole rfl
      · exact forall_isWordChar_of_dropWhile (forall_isWordChar_of_power? hn)

/-- Every text that is read as a number is one word. -/
theorem isToken_of_read? {text : List Char} {literal : Literal} (h : read? text = some literal) :
    IsToken text := by
  have hnamed {name : List Char} (hname : ∀ c ∈ name, isWordChar c = true)
      (hbody : (sign? text).2.map Char.toLower = name) :
      ∀ c ∈ (sign? text).2, isWordChar c = true := by
    intro c hc
    rw [← Text.apply_toLower isWordChar (by decide +kernel) c]
    exact hname _ (hbody ▸ List.mem_map_of_mem hc)
  have hbody : (sign? text).2 ≠ [] ∧ ∀ c ∈ (sign? text).2, isWordChar c = true := by
    simp only [read?] at h
    split at h
    · rename_i hword
      rcases hword with hword | hword
      all_goals
        refine ⟨?_, hnamed (List.all_eq_true.mp (by decide)) hword⟩
        intro hnil
        simp [hnil] at hword
    · split at h
      · rename_i hword
        refine ⟨?_, hnamed (List.all_eq_true.mp (by decide)) hword⟩
        intro hnil
        simp [hnil] at hword
      · exact isRun_of_unsigned? h
  refine .inr ⟨?_, forall_isWordChar_of_sign? hbody.2⟩
  intro hnil
  rw [hnil] at hbody
  exact hbody.1 rfl

end FuzzyInference.Literal
