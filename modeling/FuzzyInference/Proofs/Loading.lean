import FuzzyInference.Proofs.RuleFiles
import FuzzyInference.Proofs.Session

/-! Loading a rule file line by line. It comes to the same as clearing the rule base and adding the
lines that say something one by one, whether or not some of them are refused. -/

namespace FuzzyInference

variable {α : Type} [Scalar α] [Numeral α]

/-- The place and the message of a line that was left out. -/
def Diagnostic.skipped? (d : Diagnostic α) : Option (Nat × String) :=
  match d with
  | .skippedRuleLine place _ => some (place, d.message)
  | .emptyFuzzification .. | .noRuleFired .. => none

namespace RuleBase

/-- Whether a trimmed line is empty or a comment. -/
def IsIdle (line : String) : Prop := line = "" ∨ line.toList.head? = some '#'

instance (line : String) : Decidable (IsIdle line) := inferInstanceAs (Decidable (_ ∨ _))

/-- The trimmed lines that say something, each with its place. Lines that say nothing have a place
as well. -/
def statements (place : Nat) (lines : List String) : List (String × Nat) :=
  ((lines.map Text.trim).zipIdx place).filter fun statement => ¬ IsIdle statement.1

/-- The places at which something was refused, and why. -/
def refusals (places : List Nat) (answers : List (Except RuleBaseError (Reply α))) :
    List (Nat × RuleBaseError) :=
  (places.zip answers).filterMap fun (place, answer) => (failure? answer).map (place, ·)

section Refusals

variable (place : Nat) (places : List Nat) (answers : List (Except RuleBaseError (Reply α)))

omit [Numeral α]

@[simp] theorem refusals_ok (reply : Reply α) :
    refusals (place :: places) (.ok reply :: answers) = refusals places answers := rfl

@[simp] theorem refusals_error (error : RuleBaseError) :
    refusals (place :: places) (.error error :: answers) =
      (place, error) :: refusals places answers := rfl

end Refusals

/-! ## One line -/

namespace Line

/-- What is answered when a line is added that is not idle. -/
def answer? : Line α → Option (Except RuleBaseError (Reply α))
  | .idle => none
  | .rule _ => some (.ok .done)
  | .bad error => some (.error (.rule error))

/-- The refusal of a line that stands at the given place. -/
def refusal? (place : Nat) : Line α → Option (Nat × RuleBaseError)
  | .bad error => some (place, .rule error)
  | .idle | .rule _ => none

theorem read_cases (l : RuleLanguage α) (raw : String) :
    (IsIdle (Text.trim raw) ∧ read l raw = .idle) ∨
      ¬ IsIdle (Text.trim raw) ∧
        ((∃ r, l.parse (Text.trim raw) = .ok r ∧ read l raw = .rule r) ∨
          ∃ e, l.parse (Text.trim raw) = .error e ∧ read l raw = .bad e) := by
  have hidle : ((Text.trim raw).isEmpty || (Text.trim raw).toList.head? == some '#') = true ↔
      IsIdle (Text.trim raw) := by simp [IsIdle]
  unfold read
  by_cases h : IsIdle (Text.trim raw)
  · simp [h, hidle.mpr h]
  · cases hparse : l.parse (Text.trim raw) <;> simp [h, mt hidle.mp h, hparse]

end Line

/-! ## All lines -/

theorem statements_cons (place : Nat) (raw : String) (lines : List String) :
    statements place (raw :: lines) =
      if IsIdle (Text.trim raw) then statements (place + 1) lines
      else (Text.trim raw, place) :: statements (place + 1) lines := by
  by_cases h : IsIdle (Text.trim raw) <;> simp [statements, List.zipIdx_cons, h]

variable {l : RuleLanguage α} {files : Files}

/-- Adding lines one by one keeps those that are rules and leaves the sink alone. -/
theorem run_statements (place : Nat) (lines : List String) (rules : List (Rule α))
    (sink : List (Diagnostic α)) :
    Session.run ⟨⟨rules, some l⟩, sink⟩
        ((statements place lines).map fun statement => (files, .addText statement.1)) =
      ((lines.map (Line.read l)).filterMap Line.answer?,
        ⟨⟨rules ++ (lines.map (Line.read l)).filterMap Line.rule?, some l⟩, sink⟩) := by
  -- The rules added so far stand before those of the lines to come.
  induction lines generalizing place rules with
  | nil => simp [statements, Session.run]
  | cons raw lines ih =>
      rw [statements_cons]
      rcases Line.read_cases l raw with ⟨hidle, hread⟩ | ⟨hspeaks, hparse⟩
      · simp [hidle, hread, ih, List.filterMap_cons, Line.answer?, Line.rule?]
      · rcases hparse with ⟨r, hparse, hread⟩ | ⟨e, hparse, hread⟩
        · have hstep : Session.step ⟨⟨rules, some l⟩, sink⟩ files (.addText (Text.trim raw)) =
              (.ok .done, ⟨⟨rules ++ [r], some l⟩, sink⟩) := by
            simp [Session.step, apply_of_does (.addText hparse)]
          simp [hspeaks, Session.run, hstep, hread, ih, Line.answer?, Line.rule?]
        · have hstep : Session.step ⟨⟨rules, some l⟩, sink⟩ files (.addText (Text.trim raw)) =
              (.error (.rule e), ⟨⟨rules, some l⟩, sink⟩) :=
            Session.step_of_refused (.rejected rfl hparse)
          simp [hspeaks, Session.run, hstep, hread, ih, List.filterMap_cons, Line.answer?,
            Line.rule?]

/-- What is refused are the bad lines, at their places among all lines. -/
theorem refusals_statements (l : RuleLanguage α) (place : Nat) (lines : List String) :
    refusals ((statements place lines).map Prod.snd)
        ((lines.map (Line.read l)).filterMap Line.answer?) =
      ((lines.map (Line.read l)).zipIdx place).filterMap fun line => line.1.refusal? line.2 := by
  induction lines generalizing place with
  | nil => rfl
  | cons raw lines ih =>
      rw [statements_cons, List.map_cons, List.zipIdx_cons]
      rcases Line.read_cases l raw with ⟨hidle, hread⟩ | ⟨hspeaks, hparse⟩
      · rw [if_pos hidle, hread, List.filterMap_cons_none rfl, List.filterMap_cons_none rfl, ih]
      · rw [if_neg hspeaks, List.map_cons]
        rcases hparse with ⟨r, -, hread⟩ | ⟨e, -, hread⟩
        · rw [hread, List.filterMap_cons_some (f := Line.answer?) rfl, refusals_ok,
            List.filterMap_cons_none rfl, ih]
        · rw [hread, List.filterMap_cons_some (f := Line.answer?) rfl, refusals_error, ih]
          rfl

/-! ## Whole files -/

/-- The diagnostics of a file tell the places of its bad lines and what is wrong with them. -/
theorem map_skipped?_readLines (l : RuleLanguage α) (content : String) :
    (readLines l content).2.map Diagnostic.skipped? =
      (refusals ((statements 1 (Text.lines content)).map Prod.snd)
        (((Text.lines content).map (Line.read l)).filterMap Line.answer?)).map
          fun refusal => some (refusal.1, refusal.2.fault.text) := by
  rw [refusals_statements, readLines, List.map_filterMap, List.map_filterMap]
  congr 1
  funext p
  obtain ⟨line, place⟩ := p
  cases line <;> rfl

theorem length_readLines (l : RuleLanguage α) (content : String) :
    (readLines l content).2.length =
      (refusals ((statements 1 (Text.lines content)).map Prod.snd)
        (((Text.lines content).map (Line.read l)).filterMap Line.answer?)).length := by
  have h := congrArg List.length (map_skipped?_readLines l content)
  simpa using h

/-- Loading a file is clearing the rule base and adding the lines that say something one after the
other. The rules are those that are there in the end; a line that is refused is counted as skipped
and reported, with its place among all lines and the text of the refusal. -/
theorem load_eq_replay (start : Session α) {files : Files} {path content : String}
    (hcontent : files.readText path = .ok content) {l : RuleLanguage α}
    (hlanguage : start.base.language = some l) :
    let replay := (start.step files .clear).2.run
      ((statements 1 (Text.lines content)).map fun statement => (files, .addText statement.1))
    let refused := refusals ((statements 1 (Text.lines content)).map Prod.snd) replay.1
    ∃ reported,
      start.step files (.load path) =
        (.ok (.loaded ⟨replay.2.base.rules.length, refused.length⟩),
          ⟨replay.2.base, start.sink ++ reported⟩) ∧
      reported.map Diagnostic.skipped? =
        refused.map fun refusal => some (refusal.1, refusal.2.fault.text) := by
  obtain ⟨⟨rules, language⟩, sink⟩ := start
  cases hlanguage
  have hclear : (Session.step ⟨⟨rules, some l⟩, sink⟩ files .clear).2 = ⟨⟨[], some l⟩, sink⟩ := by
    simp [Session.step, apply_of_does .clear]
  have hloaded : (readLines l content).1 =
      ((Text.lines content).map (Line.read l)).filterMap Line.rule? := rfl
  have hskipped := map_skipped?_readLines l content
  have hlength := length_readLines l content
  cases hlines : readLines l content with
  | mk loaded reported =>
      rw [hlines] at hloaded hskipped hlength
      have hdoes : Edit.Does files ⟨rules, some l⟩ (.load path) ⟨loaded, some l⟩
          (.loaded ⟨loaded.length, reported.length⟩) reported := .load hcontent hlines
      have hload := apply_of_does hdoes
      rw [hclear, run_statements, List.nil_append, ← hloaded]
      refine ⟨reported, ?_, hskipped⟩
      rw [← hlength]
      simp only [Session.step, hload]

/-- Two rules, two bad lines, two comments and two blank lines. Some end in `\r\n`. -/
def distanceText : String := "# near and far\r\n\r\n  IF THEN Distance = 1\r\n" ++
  "IF THEN Height = 2\n \n\t# far\nif then distance = 3\nTHEN\n"

def distanceFiles : Files := (Files.bare []).put ["distance.rules"] (.file distanceText.toUTF8)

theorem load_eq_replay_distance :
    let start : Session Float := ⟨⟨[{}], some stoppingLanguage⟩, []⟩
    let (answer, after) := start.step distanceFiles (.load "distance.rules")
    distanceFiles.readText "distance.rules" = .ok distanceText ∧
      answer = .ok (.loaded ⟨2, 2⟩) ∧
      after.base.rules.map Rule.text = ["IF THEN Distance = 1", "IF THEN Distance = 3"] ∧
      after.sink.map Diagnostic.skipped? =
        [some (4, "[2005] Unknown variable: Height in rule 'IF THEN Height = 2'"),
          some (8, "[2001] Rule must start with IF in rule 'THEN'")] := by
  have hread : (distanceFiles.readText "distance.rules").toOption = some distanceText := by
    decide +kernel
  have hcontent : distanceFiles.readText "distance.rules" = .ok distanceText := by
    cases h : distanceFiles.readText "distance.rules" with
    | error e =>
        rw [h] at hread
        cases hread
    | ok content =>
        rw [h] at hread
        exact congrArg Except.ok (Option.some.inj hread)
  intro start
  obtain ⟨reported, hstep, hreported⟩ := load_eq_replay start hcontent rfl
  rw [hstep]
  refine ⟨hcontent, ?_⟩
  simp only [Except.ok.injEq, Reply.loaded.injEq, start, List.nil_append, hreported]
  decide +kernel

end RuleBase

end FuzzyInference
