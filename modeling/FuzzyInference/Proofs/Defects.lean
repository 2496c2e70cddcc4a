import FuzzyInference.Decimal.Binary64
import FuzzyInference.Proofs.Grammar
import FuzzyInference.Proofs.Words

/-! What is reported of a line that is no rule. The reader goes from left to right and stops at the
first defect, so nothing behind the line takes the defect back, unless the line ended too early. -/

namespace FuzzyInference

/-! ## Reports -/

theorem Fault.field?_withContext (f : Fault) (key value : String) :
    (f.withContext key value).field? key = some value := by
  have hinsert (fields : List (String × String)) :
      Keyed.get? Prod.fst key (Keyed.insert Prod.fst (key, value) fields) = some (key, value) :=
    Keyed.get?_upsert_self Prod.fst key (fun _ => (key, value)) (fun _ _ => rfl) fields
  simp [field?, withContext, Context.field?, Context.withField, hinsert]

namespace Defect

theorem category_code (d : Defect) : d.code.category = .parse := by
  cases d <;> simp only [code] <;> decide

/-- Whether the words ended before the rule did, so that further words might help. -/
def isEarlyEnd : Defect → Bool
  | .missingThen | .unexpectedEnd _ => true
  | _ => false

theorem isEarlyEnd_eq_false {d : Defect} (hthen : d.code ≠ .missingThen)
    (hend : d.code ≠ .unexpectedEnd) : d.isEarlyEnd = false := by
  cases d with
  | missingThen => exact absurd rfl hthen
  | unexpectedEnd expected => exact absurd rfl hend
  | _ => rfl

end Defect

/-! ## Words behind a defect -/

theorem Rule.exists_tokenize_append (line more : String) :
    ∃ further, tokenize (line ++ " " ++ more) = tokenize line ++ further := by
  have htext : (line ++ " " ++ more).toList = line.toList ++ ' ' :: more.toList := by
    simp [String.toList_append]
  refine ⟨(if line.toList.any isStray then [] else tokens more.toList).map String.ofList, ?_⟩
  rw [tokenize, htext, tokens_append_separator (by decide), List.map_append]
  rfl

namespace RuleLanguage

variable {α : Type} [Scalar α] {l : RuleLanguage α} {words : List String} {d : Defect}

/-- Conditions that were read up to THEN are read the same, and more words are left. -/
theorem conditions_append {as : List (Antecedent α)} {cs : List Connective} {rest : List String}
    (h : l.conditions words = .ok (as, cs, rest)) (more : List String) :
    l.conditions (words ++ more) = .ok (as, cs, rest ++ more) := by
  obtain ⟨front, joint, rfl, hjoint, hfront⟩ := conditions_iff.mp h
  exact conditions_iff.mpr ⟨front, joint, by simp, hjoint, hfront⟩

/-- The reader of conditions does not go beyond a defect. -/
theorem conditions_append_error (h : l.conditions words = .error d) (hd : d.isEarlyEnd = false)
    (more : List String) : l.conditions (words ++ more) = .error d := by
  fun_induction conditions l words with
  | case1 | case2 | case3 =>
      cases h
      cases hd
  | case4 name keyword hkeyword label rest ih =>
      simp only [List.cons_append, conditions, hkeyword, if_true, bind_eq_error] at h ⊢
      rcases h with hbad | ⟨a, ha, h⟩
      · exact .inl hbad
      · refine .inr ⟨a, ha, ?_⟩
        cases rest with
        | nil =>
            cases h
            cases hd
        | cons word rest =>
            by_cases hthen : isWord "THEN" word = true
            · simp [hthen] at h
            · simp only [List.cons_append, hthen, Bool.false_eq_true, if_false] at h ⊢
              cases hjoint : Connective.ofKeyword? word with
              | none => simpa only [hjoint] using h
              | some c =>
                  simp only [hjoint, bind_eq_error, reduceCtorEq, and_false, exists_false,
                    or_false] at h ⊢
                  exact ih h
  | case5 name keyword rest hkeyword =>
      rw [List.cons_append, List.cons_append, conditions.eq_def]
      simpa [hkeyword] using h

variable [Numeral α]

/-- The reader of conclusions does not go beyond a defect. -/
theorem conclusions_append_error (h : l.conclusions words = .error d) (hd : d.isEarlyEnd = false)
    (more : List String) : l.conclusions (words ++ more) = .error d := by
  fun_induction conclusions l words with
  | case1 | case2 =>
      cases h
      cases hd
  | case3 name word rest ih =>
      rw [List.cons_append, List.cons_append, conclusions.eq_def]
      simp only [bind_eq_error] at h ⊢
      rcases h with hbad | ⟨_, hrelation, h⟩
      · exact .inl hbad
      · refine .inr ⟨_, hrelation, ?_⟩
        cases rest with
        | nil =>
            cases h
            cases hd
        | cons value rest =>
            simp only [List.cons_append, bind_eq_error] at h ⊢
            rcases h with hbad | ⟨c, hc, h⟩
            · exact .inl hbad
            · refine .inr ⟨c, hc, ?_⟩
              cases rest with
              | nil => cases h
              | cons token rest =>
                  by_cases hcomma : token = ","
                  · simp only [List.cons_append, hcomma, if_true, bind_eq_error, reduceCtorEq,
                      and_false, exists_false, or_false] at h ⊢
                    exact ih h
                  · simpa [hcomma] using h

/-- A defect stays the first one, whatever words follow. -/
theorem ofTokens_append_error (h : l.ofTokens words = .error d) (hne : words ≠ [])
    (hd : d.isEarlyEnd = false) (more : List String) : l.ofTokens (words ++ more) = .error d := by
  cases words with
  | nil => exact absurd rfl hne
  | cons opening rest =>
      by_cases hopening : isWord "IF" opening = true
      · cases rest with
        | nil =>
            rw [ofTokens_conditional hopening (by simp), conditions] at h
            cases h
            cases hd
        | cons first rest =>
            by_cases hfirst : isWord "THEN" first = true
            · simp only [List.cons_append, ofTokens_unconditional hopening hfirst, bind_eq_error,
                reduceCtorEq, and_false, exists_false, or_false] at h ⊢
              exact conclusions_append_error h hd more
            · have hfront (tail : List String) :
                  ∀ word ∈ (first :: tail).head?, isWord "THEN" word = false := by
                simpa using hfirst
              rw [ofTokens_conditional hopening (hfront rest), bind_eq_error] at h
              rw [List.cons_append, List.cons_append, ofTokens_conditional hopening (hfront _),
                ← List.cons_append, bind_eq_error]
              rcases h with hbad | ⟨⟨as, cs, tail⟩, hconditions, h⟩
              · exact .inl (conditions_append_error hbad hd more)
              · refine .inr ⟨_, conditions_append hconditions more, ?_⟩
                simp only [bind_eq_error, reduceCtorEq, and_false, exists_false, or_false] at h ⊢
                exact conclusions_append_error h hd more
      · simpa [ofTokens, hopening] using h

/-! ## Whole lines -/

/-- The report of a rejected line is a parse error that names the line. Unless the line ended too
early, whatever is written behind it is rejected under the same code and with the same message. -/
theorem parse_error_stays (l : RuleLanguage α) {line : String} {e : RuleError}
    (h : l.parse line = .error e) :
    e.fault.category = .parse ∧ e.fault.field? "line" = some line ∧
    (e.fault.code ≠ .missingThen → e.fault.code ≠ .unexpectedEnd →
      (e.fault.code = .missingIf → Rule.tokenize line ≠ []) → ∀ more : String,
      ∃ e', l.parse (line ++ " " ++ more) = .error e' ∧
        e'.fault.code = e.fault.code ∧ e'.fault.message = e.fault.message) := by
  obtain ⟨d, hd, rfl⟩ := mapError_eq_error.mp h
  refine ⟨d.category_code, Fault.field?_withContext d.fault "line" line, ?_⟩
  intro hthen hend hif more
  have hne : Rule.tokenize line ≠ [] := by
    intro hempty
    rw [hempty] at hd
    cases hd
    exact hif rfl hempty
  obtain ⟨further, hfurther⟩ := Rule.exists_tokenize_append line more
  refine ⟨⟨d, line ++ " " ++ more⟩, ?_, rfl, rfl⟩
  refine mapError_eq_error.mpr ⟨d, ?_, rfl⟩
  rw [hfurther]
  exact ofTokens_append_error hd hne (Defect.isEarlyEnd_eq_false hthen hend) further

/-- A wind that may be a storm. -/
def ferryLanguage : RuleLanguage Float where
  vocabulary := ⟨[⟨"Wind", 5, 150,
    [⟨"Storm", ⟨.triangle 60 150 150, by decide +kernel, by decide +kernel, by decide +kernel⟩⟩],
    by decide +kernel, by decide +kernel, by decide +kernel, by decide +kernel⟩]⟩
  mode := .mamdani

/-- The last word of a line is no set of its variable, and no further conclusion makes up for it. -/
theorem parse_error_stays_ferry :
    ∃ e, ferryLanguage.parse "if wind is storm then wind is calm" = .error e ∧
      e.fault.code = .unknownFuzzySet ∧ e.fault.category = .parse ∧
      e.fault.field? "line" = some "if wind is storm then wind is calm" ∧
      ∀ more, ∃ e', ferryLanguage.parse ("if wind is storm then wind is calm" ++ " " ++ more) =
          .error e' ∧ e'.fault.code = .unknownFuzzySet ∧
        e'.fault.message = "Variable 'Wind' has no fuzzy set named 'calm'" := by
  have hfailure : failure? (ferryLanguage.parse "if wind is storm then wind is calm") =
      some ⟨.unknownSet "Wind" "calm", "if wind is storm then wind is calm"⟩ := by decide +kernel
  have hparse := failure?_eq_some_iff.mp hfailure
  obtain ⟨hcategory, hline, hstays⟩ := parse_error_stays ferryLanguage hparse
  refine ⟨_, hparse, rfl, hcategory, hline, fun more => ?_⟩
  obtain ⟨e', hparse', hcode, hmessage⟩ := hstays nofun nofun nofun more
  exact ⟨e', hparse', hcode, hmessage.trans (by decide +kernel)⟩

end RuleLanguage

end FuzzyInference
