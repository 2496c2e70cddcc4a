import FuzzyInference.Command.Arguments

/-! What a command line asks for. -/

namespace FuzzyInference.Command

/-- Options of every command. -/
structure Options where
  config : Option String := none
  format : Option ReportFormat := none
  verbose : Bool := false
  quiet : Bool := false
deriving DecidableEq, Repr

inductive Task where
  /-- The crisp outputs for some inputs, and the strength of each rule if `fired`. -/
  | evaluate (inputs : List (String × Float)) (rules : Option String) (fired : Bool)
  /-- The bad lines of a rule file. -/
  | check (rules : String)
  /-- An example of a configuration, printed or written to a new file. -/
  | writeSample (output : Option String) (force : Bool)

inductive Request where
  | notice (notice : Notice)
  | perform (options : Options) (task : Task)

/-- The last of several settings that fit. -/
def last? {β : Type} (given : List Setting) (read : Setting → Option β) : Option β :=
  (given.filterMap read).getLast?

def given? (given : List Setting) (flag : Flag) : Bool := given.any (·.flag == flag)

/-- Later settings count more than earlier ones. -/
def Options.ofSettings (given : List Setting) : Options where
  config := last? given fun | .config path => some path | _ => none
  format := last? given fun | .format format => some format | _ => none
  verbose := given? given .verbose
  quiet := given? given .quiet

def Task.ofSettings (name : Name) (given : List Setting) (plain : List String) :
    Except Misuse Task :=
  match name with
  | .evaluate =>
    match given.filterMap fun | .input name x => some (name, x) | _ => none with
    | [] => .error .missingInput
    | inputs =>
      .ok (.evaluate inputs (last? given fun | .rules path => some path | _ => none)
        (given? given .fired))
  | .check =>
    match plain with
    | path :: _ => .ok (.check path)
    | [] => .error .missingRules
  | .writeSample =>
    .ok (.writeSample (last? given fun | .output path => some path | _ => none)
      (given? given .force))

/-- Help on the program or on one command, which has no commands of its own. -/
def helpOn : List String → Except Misuse Request
  | [] => .ok (.notice (.help .program true))
  | word :: further =>
    let topic? := if word = "help" then some Topic.help else (Name.ofWord? word).map .command
    match topic?, further with
    | none, _ => .error (.unexpected word)
    | some _, extra :: _ => .error (.unexpected extra)
    | some topic, [] => .ok (.notice (.help topic true))

def Request.ofArguments (arguments : List String) : Except Misuse Request := do
  match ← scan none [] [] arguments with
  | .notice n => .ok (.notice n)
  | .words .. => .error .missingCommand
  | .command outer word further =>
    if word = "help" then helpOn further
    else
      match Name.ofWord? word with
      | none => .error (.unexpected word)
      | some name =>
        match ← scan (some name) [] [] further with
        | .notice n => .ok (.notice n)
        | .command _ word _ => .error (.unexpected word)
        | .words inner plain => do
          let task ← Task.ofSettings name inner plain
          .ok (.perform (.ofSettings (outer ++ inner)) task)

end FuzzyInference.Command
