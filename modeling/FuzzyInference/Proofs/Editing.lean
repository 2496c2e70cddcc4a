import FuzzyInference.Proofs.Fallible
import FuzzyInference.RuleBase

/-! Runs of edits that take their rules from text. Every rule such a run leads to was read from some
line, and differs from what was read in weight and enabled flag only. -/

namespace FuzzyInference

variable {α : Type} [Scalar α] [Numeral α]

/-- An edit that neither takes a rule as it is nor changes the language. -/
def Edit.isTextual : Edit α → Bool
  | .add _ | .setLanguage _ => false
  | .addText _ | .remove _ | .enable _ | .disable _ | .setWeight .. | .clear | .load _ => true

namespace RuleBase

/-- Edits one after the other, each with the files as they are then. A failed edit changes nothing,
and the next one follows all the same. -/
def run (b : RuleBase α) (steps : List (Files × Edit α)) : RuleBase α :=
  steps.foldl (fun b step => (b.apply step.1 step.2).base) b

variable {l : RuleLanguage α} {b : RuleBase α}

/-! ## Rules that come from text -/

/-- A rule as it was read from some line, but for its weight and its enabled flag. -/
def Written (l : RuleLanguage α) (r : Rule α) : Prop :=
  ∃ line r₀, l.parse line = .ok r₀ ∧ r = { r₀ with weight := r.weight, enabled := r.enabled }

theorem Written.of_parse {line : String} {r : Rule α} (h : l.parse line = .ok r) : Written l r :=
  ⟨line, r, h, rfl⟩

theorem Written.retouch {r : Rule α} (h : Written l r) (weight : α) (enabled : Bool) :
    Written l { r with weight, enabled } := by
  obtain ⟨line, r₀, hparse, hr⟩ := h
  refine ⟨line, r₀, hparse, ?_⟩
  rw [hr]

/-- Every rule that a file gives is what one of its lines reads as. -/
theorem written_of_mem_readLines {content : String} {r : Rule α}
    (h : r ∈ (readLines l content).1) : Written l r := by
  obtain ⟨line, hline, hr⟩ := List.mem_filterMap.mp h
  obtain ⟨raw, -, rfl⟩ := List.mem_map.mp hline
  unfold Line.read at hr
  dsimp only at hr
  split at hr
  · cases hr
  · split at hr
    · rename_i hparse
      cases hr
      exact .of_parse hparse
    · cases hr

/-- A rule base with a language, all of whose rules come from text in it. -/
structure WrittenIn (l : RuleLanguage α) (b : RuleBase α) : Prop where
  language : b.language = some l
  rules : ∀ r ∈ b.rules, Written l r

namespace WrittenIn

theorem empty (l : RuleLanguage α) : WrittenIn l { language := some l } := ⟨rfl, by simp⟩

theorem settle (h : WrittenIn l b) {changed : Except RuleBaseError (RuleBase α)}
    (hchanged : ∀ b', changed = .ok b' → WrittenIn l b') : WrittenIn l (b.settle changed).base := by
  cases changed with
  | error error => exact h
  | ok b' => exact hchanged b' rfl

theorem addText (h : WrittenIn l b) {text : String} {b' : RuleBase α}
    (htext : b.addText text = .ok b') : WrittenIn l b' := by
  unfold RuleBase.addText at htext
  rw [h.language] at htext
  cases hparse : l.parse text with
  | error error =>
      simp [hparse] at htext
  | ok r =>
      simp only [hparse] at htext
      cases htext
      refine ⟨rfl, ?_⟩
      rw [List.forall_mem_append]
      exact ⟨h.rules, by simpa using Written.of_parse hparse⟩

theorem update (h : WrittenIn l b) {index : Nat} {f : Rule α → Rule α} {b' : RuleBase α}
    (hf : ∀ r, Written l r → Written l (f r)) (hupdate : b.update index f = .ok b') :
    WrittenIn l b' := by
  unfold RuleBase.update at hupdate
  split at hupdate
  · cases hupdate
    refine ⟨h.language, fun r hr => ?_⟩
    obtain ⟨i, hi, rfl⟩ := List.mem_iff_getElem.mp hr
    rw [List.getElem_modify]
    split
    · exact hf _ (h.rules _ (List.getElem_mem _))
    · exact h.rules _ (List.getElem_mem _)
  · cases hupdate

theorem remove (h : WrittenIn l b) (index : Nat) :
    WrittenIn l { b with rules := b.rules.eraseIdx index } :=
  ⟨h.language, fun r hr => h.rules r (List.mem_of_mem_eraseIdx hr)⟩

theorem load (h : WrittenIn l b) (files : Files) (path : String) :
    WrittenIn l (b.load files path).base := by
  unfold RuleBase.load
  split
  · exact h
  · rename_i content _
    rw [h.language]
    refine ⟨rfl, fun r hr => ?_⟩
    exact written_of_mem_readLines hr

/-- One edit keeps the form, whether it succeeds or fails. -/
theorem apply (h : WrittenIn l b) {files : Files} {edit : Edit α}
    (hedit : edit.isTextual = true) : WrittenIn l (b.apply files edit).base := by
  cases edit with
  | add | setLanguage => cases hedit
  | addText text => exact h.settle fun b' hb' => h.addText hb'
  | remove index =>
      unfold RuleBase.apply
      dsimp only
      split
      · exact h.remove index
      · exact h
  | enable index =>
      exact h.settle fun b' hb' => h.update (fun r hr => hr.retouch r.weight true) hb'
  | disable index =>
      exact h.settle fun b' hb' => h.update (fun r hr => hr.retouch r.weight false) hb'
  | setWeight index weight =>
      exact h.settle fun b' hb' => h.update (fun r hr => hr.retouch weight r.enabled) hb'
  | clear => exact ⟨h.language, by simp [RuleBase.apply, RuleBase.settle]⟩
  | load path => exact h.load files path

/-- A run keeps the form. -/
theorem run (h : WrittenIn l b) {steps : List (Files × Edit α)}
    (hsteps : ∀ step ∈ steps, step.2.isTextual = true) : WrittenIn l (b.run steps) := by
  induction steps generalizing b with
  | nil => exact h
  | cons step steps ih =>
      rw [List.forall_mem_cons] at hsteps
      exact ih (h.apply hsteps.1) hsteps.2

end WrittenIn

end RuleBase

end FuzzyInference
