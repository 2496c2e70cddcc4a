import FuzzyInference.Command.Run
import FuzzyInference.Decimal.Binary64
import FuzzyInference.Proofs.Building
import FuzzyInference.Proofs.Paths

/-! Checking a rule file before it is used. A check and an evaluation with the same rule file come to
it by ways of their own, a relative path and an absolute one, and find the same rules and the same bad
lines in it. -/

namespace FuzzyInference

/-! ## Loading -/

theorem RuleBase.load_of_readText {α : Type} [Scalar α] [Numeral α] {files : Files}
    {path text : String} (h : files.readText path = .ok text) (l : RuleLanguage α) :
    RuleBase.load files path { language := some l } =
      { base := ⟨parsable l text, some l⟩
        answer := .ok (.loaded ⟨(parsable l text).length, (readLines l text).2.length⟩)
        reported := (readLines l text).2 } := by
  simp only [load, h, ← rules_readLines]

/-- What is reported of a text are bad lines, each with its place and what is wrong with it. -/
theorem RuleBase.exists_of_mem_readLines {α : Type} [Scalar α] [Numeral α] {l : RuleLanguage α}
    {text : String} {d : Diagnostic α} (hd : d ∈ (readLines l text).2) :
    ∃ line error, d = .skippedRuleLine line error := by
  obtain ⟨⟨line, place⟩, -, hline⟩ := List.mem_filterMap.mp hd
  cases line with
  | idle | rule => cases hline
  | bad error =>
      cases hline
      exact ⟨place, error, rfl⟩

namespace Command

variable {files : Files} {c : Config Float} {w : Vocabulary Float} {path text : String}

/-! ## The rule file of an evaluation -/

theorem rulesFile?_withRules (files : Files) (path : String) (c : Config Float) :
    (withRules files (some path) c).rulesFile? = some (files.absolute path) := by
  simp [withRules, Config.rulesFile?, Files.isAbsolute_absolute]

theorem fileRules_withRules (base : RuleBase Float) :
    (withRules files (some path) c).fileRules files base =
      base.load files (files.absolute path) := by
  rw [Config.fileRules, rulesFile?_withRules]

/-- With a rule file given, an engine has the rules of that file alone, and what is reported are its
bad lines. -/
theorem build_withRules (hvocabulary : c.vocabulary = .ok w)
    (hread : files.readText (files.absolute path) = .ok text) :
    (withRules files (some path) c).build files =
      ⟨(RuleBase.readLines (c.language w) text).2,
        c.assemble w ⟨RuleBase.parsable (c.language w) text, some (c.language w)⟩⟩ := by
  have hvocabulary' : (withRules files (some path) c).vocabulary = .ok w := hvocabulary
  have hlanguage : (withRules files (some path) c).language w = c.language w := rfl
  have hload := RuleBase.load_of_readText hread (c.language w)
  simp only [Config.build, hvocabulary', hlanguage, fileRules_withRules, hload]
  rfl

/-! ## Checks -/

/-- What a check prints. -/
def checkReport : ReportFormat → String → Mode → LoadReport → List (Diagnostic Float) → String
  | .text => checkText
  | .json => checkJson

theorem check_eq_ok (hvocabulary : c.vocabulary = .ok w) (hread : files.readText path = .ok text) :
    check files c path = .ok
      { output := checkReport c.general.format path c.engine.mode
          ⟨(RuleBase.parsable (c.language w) text).length,
            (RuleBase.readLines (c.language w) text).2.length⟩
          (RuleBase.readLines (c.language w) text).2
        exitCode := if 0 < (RuleBase.readLines (c.language w) text).2.length then 1 else 0 } := by
  have hload := RuleBase.load_of_readText hread (c.language w)
  rw [check, bind_eq_ok]
  refine ⟨w, mapError_eq_ok.mpr hvocabulary, ?_⟩
  rw [bind_eq_ok]
  refine ⟨_, mapError_eq_ok.mpr (congrArg Edited.answer hload), ?_⟩
  simp only [hload]
  cases c.general.format <;> rfl

/-! ## Whole runs -/

variable {e : Environment} {o : Options} {arguments : List String}

theorem Options.configured_eq_ok_iff : o.configured e files = .ok c ↔
    ∃ loaded, loadConfig e files o.config = .ok loaded ∧
      c = { loaded with general :=
        { verbosity := if o.verbose then .debug else if o.quiet then .quiet
            else loaded.general.verbosity
          format := o.format.getD loaded.general.format } } := by
  rw [configured, bind_eq_ok]
  exact exists_congr fun _ => and_congr_right fun _ => ⟨fun h => (Except.ok.inj h).symm,
    fun h => congrArg Except.ok h.symm⟩

/-- Options that name the same configuration agree on all of it but the general settings. -/
theorem Options.exists_configured {evaluation : Options} (hsame : evaluation.config = o.config)
    (h : evaluation.configured e files = .ok c) :
    ∃ general, o.configured e files = .ok { c with general := general } := by
  obtain ⟨loaded, hloaded, rfl⟩ := configured_eq_ok_iff.mp h
  exact ⟨_, configured_eq_ok_iff.mpr ⟨loaded, hsame ▸ hloaded, rfl⟩⟩

end Command

namespace Command.Keeper

def settings : String := "engine.mode=\"sugeno\"\n[[variables]]\nname=\"Lock\"\nstart=0\nend=8"

def rules : String := "# sluice\nIF THEN Lock = 1\nIF THEN Sluice = 0\n"

/-- The files of a keeper who is at home. -/
def files : Files :=
  ((Files.bare ["home", "keeper"]).put ["home", "keeper", "lock.toml"] (.file settings.toUTF8)).put
    ["home", "keeper", "lock.rules"] (.file rules.toUTF8)

def evaluation : Options := { config := some "lock.toml", format := some .json }

def arguments : List String := ["--config", "lock.toml", "check", "lock.rules"]

def refusal : String := "line 3: [2005] Unknown variable: Sluice in rule 'IF THEN Sluice = 0'"

end Command.Keeper

end FuzzyInference
