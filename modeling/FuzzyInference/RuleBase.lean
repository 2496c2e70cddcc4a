import FuzzyInference.Diagnostic
import FuzzyInference.Files.Basic

/-! An ordered list of rules that can be edited, written to a file and read from one. An edit that
fails leaves the rule base as it was. -/

namespace FuzzyInference

structure RuleBase (α : Type) [Scalar α] where
  rules : List (Rule α) := []
  /-- The language in which rules are added as text. -/
  language : Option (RuleLanguage α) := none

/-- How many lines of a file became rules, and how many were left out. -/
structure LoadReport where
  loaded : Nat
  skipped : Nat
deriving DecidableEq, Repr

inductive RuleBaseError where
  | noLanguage
  | rule (error : RuleError)
  | indexOutOfRange (index size : Nat)
  | file (path : String) (error : FileError)
deriving DecidableEq, Repr

namespace RuleBaseError

def fault : RuleBaseError → Fault
  | .noLanguage => (Fault.internal "Rule base has no parser attached").withHint
      "Create the rule base with RuleBase::with_parser"
  | .rule error => error.fault
  | .indexOutOfRange index size => .evaluation .ruleIndexOutOfRange
      s!"Rule index {index} out of range (rule base has {size} rules)"
  | .file path error => error.fault.withContext "path" path

end RuleBaseError

/-- A change of a rule base. -/
inductive Edit (α : Type) [Scalar α] where
  | add (rule : Rule α)
  | addText (text : String)
  | remove (index : Nat)
  | enable (index : Nat)
  | disable (index : Nat)
  | setWeight (index : Nat) (weight : α)
  | clear
  | setLanguage (language : RuleLanguage α)
  /-- Takes the rules of a file in place of all rules. -/
  | load (path : String)

/-- What an edit that succeeds answers. -/
inductive Reply (α : Type) [Scalar α] where
  | done
  | removed (rule : Rule α)
  | loaded (report : LoadReport)

/-- What an edit leads to: the rule base after it, its answer, and what it reported. -/
structure Edited (α : Type) [Scalar α] where
  base : RuleBase α
  answer : Except RuleBaseError (Reply α)
  reported : List (Diagnostic α) := []

namespace RuleBase

variable {α : Type} [Scalar α] [Numeral α]

/-- What one line of a rule file amounts to. -/
inductive Line (α : Type) [Scalar α] where
  /-- Nothing but blanks, or a comment. -/
  | idle
  | rule (rule : Rule α)
  | bad (error : RuleError)

namespace Line

def read (l : RuleLanguage α) (raw : String) : Line α :=
  let line := Text.trim raw
  if line.isEmpty || line.toList.head? == some '#' then .idle
  else
    match l.parse line with
    | .ok r => .rule r
    | .error e => .bad e

def rule? : Line α → Option (Rule α)
  | .rule r => some r
  | _ => none

/-- The diagnostic of a line that stands at the given position. -/
def diagnostic? (position : Nat) : Line α → Option (Diagnostic α)
  | .bad error => some (.skippedRuleLine position error)
  | _ => none

end Line

/-- The rules of a rule file in the order of its lines, and a diagnostic for each bad line. -/
def readLines (l : RuleLanguage α) (content : String) : List (Rule α) × List (Diagnostic α) :=
  let read := (Text.lines content).map (Line.read l)
  (read.filterMap Line.rule?,
    (read.zipIdx 1).filterMap fun (line, position) => line.diagnostic? position)

/-- A rule file that cannot be read is reported before a missing language. -/
def load (files : Files) (path : String) (b : RuleBase α) : Edited α :=
  match files.readText path with
  | .error error => { base := b, answer := .error (.file path error) }
  | .ok content =>
    match b.language with
    | none => { base := b, answer := .error .noLanguage }
    | some l =>
      let (rules, reported) := readLines l content
      { base := { b with rules }
        answer := .ok (.loaded ⟨rules.length, reported.length⟩)
        reported }

def addText (text : String) (b : RuleBase α) : Except RuleBaseError (RuleBase α) :=
  match b.language with
  | none => .error .noLanguage
  | some l =>
    match l.parse text with
    | .error error => .error (.rule error)
    | .ok rule => .ok { b with rules := b.rules ++ [rule] }

/-- Changes the rule at a position. -/
def update (index : Nat) (f : Rule α → Rule α) (b : RuleBase α) :
    Except RuleBaseError (RuleBase α) :=
  if index < b.rules.length then .ok { b with rules := b.rules.modify index f }
  else .error (.indexOutOfRange index b.rules.length)

/-- The rule base after a change that answers nothing, or as it was. -/
def settle (b : RuleBase α) : Except RuleBaseError (RuleBase α) → Edited α
  | .ok changed => { base := changed, answer := .ok .done }
  | .error error => { base := b, answer := .error error }

def apply (files : Files) (b : RuleBase α) : Edit α → Edited α
  | .add rule => b.settle (.ok { b with rules := b.rules ++ [rule] })
  | .addText text => b.settle (b.addText text)
  | .remove index =>
    match b.rules[index]? with
    | some rule =>
      { base := { b with rules := b.rules.eraseIdx index }, answer := .ok (.removed rule) }
    | none => { base := b, answer := .error (.indexOutOfRange index b.rules.length) }
  | .enable index => b.settle (b.update index ({ · with enabled := true }))
  | .disable index => b.settle (b.update index ({ · with enabled := false }))
  | .setWeight index weight => b.settle (b.update index ({ · with weight }))
  | .clear => b.settle (.ok { b with rules := [] })
  | .setLanguage language => b.settle (.ok { b with language := some language })
  | .load path => b.load files path

def enabledRules (b : RuleBase α) : List (Rule α) := b.rules.filter (·.enabled)

/-- The text of a rule file: each rule on a line of its own. -/
def fileText (b : RuleBase α) : String := String.join (b.rules.map fun r => r.text ++ "\n")

def save (files : Files) (path : String) (b : RuleBase α) : Except RuleBaseError Files :=
  match files.writeText path b.fileText with
  | .ok files => .ok files
  | .error error => .error (.file path error)

end RuleBase

end FuzzyInference
