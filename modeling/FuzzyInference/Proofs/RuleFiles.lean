import FuzzyInference.Decimal.Binary64
import FuzzyInference.Proofs.Editing
import FuzzyInference.Proofs.Files
import FuzzyInference.Proofs.Lines
import FuzzyInference.Proofs.Legibility

/-! Rule files. A saved rule base is loaded with all its rules in order; a file keeps neither weights
nor enabled flags. -/

namespace FuzzyInference

open RuleLanguage (Legible)

variable {α : Type} [Scalar α] {l : RuleLanguage α}

/-! ## One rule -/

/-- A rule with the weight and the flag of a new one. -/
def Rule.renewed (r : Rule α) : Rule α := { r with weight := 1, enabled := true }

theorem RuleLanguage.Fresh.renewed_eq {mode : Mode} {r : Rule α} (h : Fresh mode r) :
    r.renewed = r := by
  rw [Rule.renewed, ← h.weight, ← h.enabled]

namespace RuleBase

variable [Numeral α]

/-- A rule that comes from text is legible, and its text says all but weight and flag. -/
theorem Written.legible {r : Rule α} (h : Written l r)
    (hback : ∀ c ∈ r.consequents, c.ReadsBack) :
    Legible l r ∧ r.canonical = r.renewed := by
  obtain ⟨line, r₀, hparse, hr⟩ := h
  rw [hr] at hback ⊢
  obtain ⟨hlegible, hcanonical⟩ := RuleLanguage.legible_of_parse hparse hback
  have hfresh := (RuleLanguage.parse_eq_ok_iff.mp hparse).fresh
  constructor
  · exact ⟨hlegible.conditionTokens, hlegible.conclusionTokens, hlegible.conditions,
      hlegible.conclusions, hlegible.connectives, hlegible.consequents, hlegible.front⟩
  · exact hcanonical.trans hfresh.renewed_eq.symm

/-- A line that holds the text of a legible rule is that rule: it is neither blank nor a comment. -/
theorem Line.read_text {r : Rule α} (h : Legible l r) :
    Line.read l r.text = .rule r.canonical := by
  have hhead := Rule.head?_text r
  have htrim : Text.trim r.text = r.text := by
    refine Text.trim_eq_self ?_ h.spells_text.last
    rw [hhead]
    rintro c ⟨rfl⟩
    decide
  have hempty : r.text.isEmpty = false := by
    rw [Bool.eq_false_iff, Ne, String.isEmpty_iff]
    intro htext
    simp [htext] at hhead
  have hidle : (r.text.isEmpty || r.text.toList.head? == some '#') = false := by
    rw [hempty, hhead]
    decide
  simp only [Line.read, htrim, hidle, Bool.false_eq_true, if_false, h.parse_text]

/-! ## Whole files -/

/-- Every line of a saved file is a rule, and none is bad. -/
theorem readLines_fileText {b : RuleBase α} (h : ∀ r ∈ b.rules, Legible l r) :
    readLines l b.fileText = (b.rules.map Rule.canonical, []) := by
  have htext : b.fileText = String.join ((b.rules.map Rule.text).map (· ++ "\n")) := by
    rw [fileText, List.map_map]
    rfl
  have hlines : Text.lines b.fileText = b.rules.map Rule.text := by
    rw [htext]
    apply Text.lines_join
    intro t ht
    obtain ⟨r, hr, rfl⟩ := List.mem_map.mp ht
    exact (h r hr).spells_text.line
  have hread : (Text.lines b.fileText).map (Line.read l) =
      b.rules.map fun r => .rule r.canonical := by
    rw [hlines, List.map_map]
    apply List.map_congr_left
    intro r hr
    rw [Function.comp_apply, Line.read_text (h r hr)]
  have hrules : (b.rules.map fun r => Line.rule r.canonical).filterMap Line.rule? =
      b.rules.map Rule.canonical := by
    rw [List.filterMap_map, ← List.filterMap_eq_map]
    rfl
  rw [readLines, hread, hrules]
  refine Prod.ext rfl (List.filterMap_eq_nil_iff.mpr ?_)
  rintro ⟨line, position⟩ hline
  obtain ⟨r, -, rfl⟩ := List.mem_map.mp (List.fst_mem_of_mem_zipIdx hline)
  rfl

theorem save_eq_ok {files files' : Files} {path : String} {b : RuleBase α}
    (h : b.save files path = .ok files') : files.writeText path b.fileText = .ok files' := by
  unfold save at h
  split at h
  · rename_i hwrite
    cases h
    exact hwrite
  · cases h

/-- Saving a rule base whose rules come from text, and loading the file where the language is the
same, gives the same rules in the same order with the weights and flags of new ones. -/
theorem WrittenIn.load_of_save {b b' : RuleBase α} (h : WrittenIn l b)
    (hback : ∀ r ∈ b.rules, ∀ c ∈ r.consequents, c.ReadsBack)
    {files files' : Files} {path : String} (hsave : b.save files path = .ok files')
    (hlanguage : b'.language = some l) :
    b'.load files' path =
      { base := { b' with rules := b.rules.map Rule.renewed }
        answer := .ok (.loaded ⟨b.rules.length, 0⟩) } := by
  have hlegible (r : Rule α) (hr : r ∈ b.rules) := (h.rules r hr).legible (hback r hr)
  have hcontent := Files.readText_writeText (save_eq_ok hsave)
  have hlines := readLines_fileText fun r hr => (hlegible r hr).1
  have hrenewed : b.rules.map Rule.canonical = b.rules.map Rule.renewed :=
    List.map_congr_left fun r hr => (hlegible r hr).2
  simp only [RuleBase.load, hcontent, hlanguage, hlines, hrenewed, List.length_map,
    List.length_nil]

/-- The rules that a run of edits leads to, saved to a file, are loaded from it all in order, with
nothing skipped and nothing reported. Only weights and enabled flags are lost. -/
theorem load_saved_run (l : RuleLanguage α) (steps : List (Files × Edit α))
    (hsteps : ∀ step ∈ steps, step.2.isTextual = true) {saved : RuleBase α}
    (hrun : run { language := some l } steps = saved)
    (hback : ∀ r ∈ saved.rules, ∀ c ∈ r.consequents, c.ReadsBack)
    {files files' : Files} {path : String} (hsave : saved.save files path = .ok files')
    (b : RuleBase α) (hlanguage : b.language = some l) :
    b.load files' path =
      { base := { rules := saved.rules.map Rule.renewed, language := some l }
        answer := .ok (.loaded ⟨saved.rules.length, 0⟩)
        reported := [] } := by
  have hwritten : WrittenIn l saved := by
    rw [← hrun]
    exact (WrittenIn.empty l).run hsteps
  rw [hwritten.load_of_save hback hsave hlanguage, hlanguage]

/-- A speed that may be fast, and a distance in metres. -/
def stoppingLanguage : RuleLanguage Float where
  vocabulary := ⟨[
    ⟨"Speed", 0, 200,
      [⟨"Fast", ⟨.triangle 100 200 200, by decide +kernel, by decide +kernel, by decide +kernel⟩⟩],
      by decide +kernel, by decide +kernel, by decide +kernel, by decide +kernel⟩,
    ⟨"Distance", 0, 500, [],
      by decide +kernel, by decide +kernel, by decide +kernel, by decide +kernel⟩]⟩
  mode := .sugeno

/-- A text that is rejected, and two rules that are changed afterwards. -/
def stoppingSteps : List (Files × Edit Float) :=
  [.addText "IF THEN Speed IS Fast", .addText "if SPEED is fast then distance = 2.5e2",
    .addText "IF THEN Distance = -0.1", .setWeight 0 0.5, .disable 1].map (Files.bare [], ·)

def stoppingRules : RuleBase Float := run { language := some stoppingLanguage } stoppingSteps

theorem load_saved_stopping_rules :
    (stoppingRules.save (.bare []) "stopping.rules").isOk = true ∧ stoppingRules.rules.length = 2 ∧
    ∀ files, stoppingRules.save (.bare []) "stopping.rules" = .ok files →
      RuleBase.load files "stopping.rules" { language := some stoppingLanguage } =
        { base := { rules := stoppingRules.rules.map Rule.renewed, language := some stoppingLanguage }
          answer := .ok (.loaded ⟨2, 0⟩)
          reported := [] } := by
  have hlength : stoppingRules.rules.length = 2 := by decide +kernel
  refine ⟨by decide +kernel, hlength, fun files hsave => ?_⟩
  rw [← hlength]
  exact load_saved_run stoppingLanguage stoppingSteps (by decide) rfl (by decide +kernel) hsave _ rfl

end RuleBase

end FuzzyInference
