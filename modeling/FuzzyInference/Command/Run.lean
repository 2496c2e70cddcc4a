import FuzzyInference.Command.Request
import FuzzyInference.Command.Usage
import FuzzyInference.Config.Build
import FuzzyInference.Config.Sample
import FuzzyInference.Config.Search
import FuzzyInference.Data.Json.Writer

/-! The commands at work. A command reads files and the environment, and answers what is printed, an
exit code and the files after it. -/

namespace FuzzyInference.Command

/-- Why a command gave up. -/
structure Failure where
  summary : String
  cause : Option String := none
deriving DecidableEq, Repr

/-- What a command that does its work leaves behind. -/
structure Success where
  output : String := ""
  remarks : String := ""
  exitCode : Nat := 0
  /-- The files after it, if it wrote one. -/
  files : Option Files := none

/-- The end of a run. -/
structure Completion where
  exitCode : Nat
  output : String
  remarks : String
  files : Files

namespace Failure

/-- The lines of a cause are indented. -/
def text (f : Failure) : String :=
  let indent (c : Char) : List Char := if c = '\n' then "\n    ".toList else [c]
  let cause := match f.cause with
    | some cause => "\n\nCaused by:\n    " ++ String.ofList (cause.toList.flatMap indent)
    | none => ""
  "Error: " ++ f.summary ++ cause ++ "\n"

end Failure

/-! ## Texts -/

def places : Nat := 4

def lines (ls : List String) : String := String.join (ls.map (· ++ "\n"))

/-- The fields of a record in the order of their names. -/
def sorted (fields : List (String × Datum)) : Datum :=
  .record (fields.mergeSort fun a b => decide (a.1 ≤ b.1))

def evaluationText (outputs strengths : List (String × Float)) : String :=
  lines (strengths.map fun (rule, x) => Binary64.renderFixed places x ++ "  " ++ rule)
    ++ (if strengths.isEmpty then "" else "\n")
    ++ lines (outputs.map fun (name, x) => name ++ " = " ++ Binary64.renderFixed places x)

def evaluationJson (mode : Mode) (outputs : List (String × Float))
    (strengths : Option (List (String × Float))) : String :=
  let strength (s : String × Float) : Datum := .record [("rule", .text s.1), ("strength", .real s.2)]
  let fields : List (String × Datum) :=
    [("mode", .text mode.name), ("outputs", sorted (outputs.map fun (name, x) => (name, .real x)))]
      ++ (strengths.map fun ss => ("rules", Datum.list (ss.map strength))).toList
  Json.pretty (.record fields) ++ "\n"

def checkText (path : String) (mode : Mode) (report : LoadReport)
    (reported : List (Diagnostic Float)) : String :=
  lines (reported.map fun d => s!"{path}: " ++ d.text)
    ++ mode.name ++ s!" {report.loaded} rules loaded, {report.skipped} skipped\n"

def checkJson (path : String) (mode : Mode) (report : LoadReport)
    (reported : List (Diagnostic Float)) : String :=
  Json.pretty (.record
    [("file", .text path), ("loaded", .whole report.loaded), ("mode", .text mode.name),
     ("skipped", .list (reported.map fun d => .text d.text))]) ++ "\n"

/-! ## Commands -/

def loadConfig (e : Environment) (files : Files) (path : Option String) :
    Except Failure (Config Float) := do
  let config ← match path with
    | some path =>
      ((Config.load files path).map (·.override e)).mapError fun error =>
        { summary := s!"Failed to load config: {path}", cause := some error.message }
    | none => (Config.find e files).mapError fun error =>
        { summary := "Failed to load config", cause := some error.message }
  if config.subjects.isEmpty then
    .error
      { summary := "Configuration defines no variables; run `fuzzylogic init-config` for an example" }
  else .ok config

/-- The configuration with another rule file in place of all its rules. -/
def withRules (files : Files) (path : Option String) (c : Config Float) : Config Float :=
  match path with
  | some path => { c with rules := { file := some (files.absolute path), inline := [] } }
  | none => c

/-- The strength of each rule under some inputs. A disabled rule has none. -/
def strengths (engine : Engine Float) (inputs : List (String × Float)) :
    Except (EvaluationError Float) (List (String × Float)) := do
  let readings ← (engine.read inputs).result
  engine.base.rules.mapM fun rule => do
    let strength ← if rule.enabled then engine.strength readings rule else .ok 0
    .ok (rule.text, strength)

def evaluate (files : Files) (c : Config Float) (inputs : List (String × Float))
    (rules : Option String) (fired : Bool) : Except Failure Success := do
  let engine ← ((withRules files rules c).build files).result.mapError fun error =>
    { summary := "Failed to build fuzzy engine", cause := some error.fault.text : Failure }
  let outputs ← (engine.evaluate inputs).result.mapError fun error =>
    { summary := "Evaluation failed", cause := some error.fault.text : Failure }
  let strengths ← if fired then
      ((strengths engine inputs).map some).mapError fun error =>
        ({ summary := error.fault.text } : Failure)
    else .ok none
  .ok { output := match c.general.format with
    | .text => evaluationText outputs (strengths.getD [])
    | .json => evaluationJson engine.mode outputs strengths }

def check (files : Files) (c : Config Float) (path : String) : Except Failure Success := do
  let w ← c.vocabulary.mapError fun error =>
    { summary := "Invalid variable definitions", cause := some error.fault.text : Failure }
  let loaded := RuleBase.load files path { language := some (c.language w) }
  let reply ← loaded.answer.mapError fun error =>
    { summary := s!"Failed to read rule file: {path}", cause := some error.fault.text : Failure }
  let report : LoadReport := match reply with
    | .loaded report => report
    | _ => ⟨0, 0⟩
  .ok
    { output := match c.general.format with
        | .text => checkText path c.engine.mode report loaded.reported
        | .json => checkJson path c.engine.mode report loaded.reported
      exitCode := if 0 < report.skipped then 1 else 0 }

def writeSample (files : Files) (output : Option String) (force : Bool) : Except Failure Success :=
  match output with
  | none => .ok { output := Config.sampleText }
  | some path =>
    if files.pathExists path && !force then
      .error { summary := s!"{path} already exists (use --force to overwrite)" }
    else
      match files.writeText path Config.sampleText with
      | .error error =>
        .error { summary := s!"Failed to write {path}", cause := some error.message }
      | .ok files =>
        .ok { remarks := s!"Wrote default configuration to {path}\n", files := some files }

/-- The configuration as the options of the command line leave it. -/
def Options.configured (o : Options) (e : Environment) (files : Files) :
    Except Failure (Config Float) := do
  let c ← loadConfig e files o.config
  let verbosity := if o.verbose then .debug else if o.quiet then .quiet else c.general.verbosity
  .ok { c with general := { verbosity, format := o.format.getD c.general.format } }

def perform (e : Environment) (files : Files) (o : Options) (task : Task) :
    Except Failure Success :=
  match task with
  | .writeSample output force => writeSample files output force
  | .evaluate inputs rules fired => do evaluate files (← o.configured e files) inputs rules fired
  | .check path => do check files (← o.configured e files) path

def run (e : Environment) (files : Files) (arguments : List String) : Completion :=
  match Request.ofArguments arguments with
  | .error misuse => ⟨2, "", misuse.text, files⟩
  | .ok (.notice .version) => ⟨0, versionText, "", files⟩
  | .ok (.notice (.help topic full)) => ⟨0, topic.text full, "", files⟩
  | .ok (.perform o task) =>
    match perform e files o task with
    | .error failure => ⟨1, "", failure.text, files⟩
    | .ok s => ⟨s.exitCode, s.output, s.remarks, s.files.getD files⟩

end FuzzyInference.Command
