import FuzzyInference.Config.Setting
import FuzzyInference.Decimal.Binary64
import FuzzyInference.Text.Line

/-! The words of a command line: options of the program as a whole, a command, and the options of that
command. Options of the program may also stand after the command. -/

namespace FuzzyInference.Command

inductive Name where
  | evaluate
  | check
  | writeSample
deriving DecidableEq, Repr

inductive Flag where
  | config
  | format
  | verbose
  | quiet
  | input
  | rules
  | fired
  | output
  | force
  | help
  | version
deriving DecidableEq, Repr

/-- An option with its value. -/
inductive Setting where
  | config (path : String)
  | format (format : ReportFormat)
  | verbose
  | quiet
  | input (name : String) (value : Float)
  | rules (path : String)
  | fired
  | output (path : String)
  | force

/-- What help is about. -/
inductive Topic where
  | program
  | command (name : Name)
  /-- Help itself. -/
  | help
deriving DecidableEq, Repr

/-- What is shown in place of any work. -/
inductive Notice where
  | help (topic : Topic) (full : Bool)
  | version
deriving DecidableEq, Repr

/-- Why a command line is refused. -/
inductive Misuse where
  | unknownOption (word : String)
  | missingValue (flag : Flag)
  | unwantedValue (flag : Flag)
  | invalidValue (flag : Flag) (value : String)
  | repeated (flag : Flag)
  | unexpected (word : String)
  | missingCommand
  | missingInput
  | missingRules
deriving DecidableEq, Repr

namespace Name

def word : Name → String
  | .evaluate => "eval"
  | .check => "check"
  | .writeSample => "init-config"

def all : List Name := [.evaluate, .check, .writeSample]

def ofWord? (s : String) : Option Name := all.find? (·.word == s)

end Name

namespace Flag

def long : Flag → String
  | .config => "config"
  | .format => "format"
  | .verbose => "verbose"
  | .quiet => "quiet"
  | .input => "input"
  | .rules => "rules"
  | .fired => "fired"
  | .output => "output"
  | .force => "force"
  | .help => "help"
  | .version => "version"

def short? : Flag → Option Char
  | .config => some 'c'
  | .format => some 'f'
  | .verbose => some 'v'
  | .quiet => some 'q'
  | .input => some 'i'
  | .output => some 'o'
  | .help => some 'h'
  | .version => some 'V'
  | .rules | .fired | .force => none

def takesValue : Flag → Bool
  | .config | .format | .input | .rules | .output => true
  | _ => false

/-- Only inputs may be given more than once. -/
def repeatable (f : Flag) : Bool := f == .input

/-- The options that may stand before a command, or after the given one. -/
def available : Option Name → List Flag
  | none => [.config, .format, .verbose, .quiet, .help, .version]
  | some .evaluate => [.config, .format, .verbose, .quiet, .input, .rules, .fired, .help]
  | some .check => [.config, .format, .verbose, .quiet, .help]
  | some .writeSample => [.config, .format, .verbose, .quiet, .output, .force, .help]

end Flag

namespace Setting

def flag : Setting → Flag
  | .config _ => .config
  | .format _ => .format
  | .verbose => .verbose
  | .quiet => .quiet
  | .input .. => .input
  | .rules _ => .rules
  | .fired => .fired
  | .output _ => .output
  | .force => .force

end Setting

/-! ## Values -/

/-- A path is not empty. -/
def path? (s : String) : Option String := if s = "" then none else some s

def format? (s : String) : Option ReportFormat := ReportFormat.all.find? (·.name == s)

/-- The text before and after the first equals sign. -/
def splitAtEquals? (s : String) : Option (String × String) :=
  let cs := s.toList
  match cs.dropWhile (· != '=') with
  | [] => none
  | _ :: value => some (String.ofList (cs.takeWhile (· != '=')), String.ofList value)

/-- A named number, written `name=number`, with blanks allowed around both. -/
def input? (s : String) : Option (String × Float) := do
  let (name, value) ← splitAtEquals? s
  let literal ← Literal.read? (Text.trim value).toList
  some (Text.trim name, Binary64.ofLiteral literal)

namespace Flag

/-- The setting that an option with a value amounts to. -/
def setting? (f : Flag) (value : String) : Option Setting :=
  match f with
  | .config => (path? value).map .config
  | .format => (format? value).map .format
  | .input => (input? value).map fun (name, x) => .input name x
  | .rules => (path? value).map .rules
  | .output => (path? value).map .output
  | .verbose => some .verbose
  | .quiet => some .quiet
  | .fired => some .fired
  | .force => some .force
  | .help | .version => none

end Flag

/-! ## Words -/

inductive Word where
  /-- Two dashes alone: what follows is no option. -/
  | stop
  | long (name : String) (value : Option String)
  /-- Letters after a single dash. -/
  | short (letters : List Char)
  | plain (text : String)

def Word.ofText (s : String) : Word :=
  match s.toList with
  | ['-', '-'] => .stop
  | '-' :: '-' :: body =>
    match splitAtEquals? (String.ofList body) with
    | some (name, value) => .long name (some value)
    | none => .long (String.ofList body) none
  | '-' :: c :: cs => .short (c :: cs)
  | _ => .plain s

def Word.isPlain : Word → Bool
  | .plain _ => true
  | _ => false

/-- How far one word leads. -/
inductive Step where
  | done (given : List Setting)
  /-- The option still needs its value. -/
  | awaits (flag : Flag) (given : List Setting)
  | help (full : Bool)
  | version

def addValue (f : Flag) (value : String) (given : List Setting) : Except Misuse (List Setting) :=
  match f.setting? value with
  | none => .error (.invalidValue f value)
  | some s =>
    if !f.repeatable && given.any (·.flag == f) then .error (.repeated f) else .ok (given ++ [s])

/-- One option, with the value in the same word if there is one. Help is full if it is asked for in
full. -/
def addFlag (f : Flag) (full : Bool) (value : Option String) (given : List Setting) :
    Except Misuse Step :=
  if f.takesValue then
    match value with
    | some value => (addValue f value given).map .done
    | none => .ok (.awaits f given)
  else if value.isSome then .error (.unwantedValue f)
  else
    match f with
    | .help => .ok (.help full)
    | .version => .ok .version
    | f => (addValue f "" given).map .done

/-- Letters in one word. Those after an option with a value are its value, less an equals sign. -/
def addLetters (flags : List Flag) (given : List Setting) : List Char → Except Misuse Step
  | [] => .ok (.done given)
  | c :: cs =>
    match flags.find? fun f => f.short? == some c with
    | none => .error (.unknownOption (String.ofList ['-', c]))
    | some f =>
      if f.takesValue then
        let value := match cs with
          | [] => none
          | '=' :: cs => some (String.ofList cs)
          | cs => some (String.ofList cs)
        addFlag f false value given
      else
        match addFlag f false none given with
        | .ok (.done given) => addLetters flags given cs
        | other => other

def addWord (flags : List Flag) (given : List Setting) : Word → Except Misuse Step
  | .long name value =>
    match flags.find? fun f => f.long == name with
    | none => .error (.unknownOption ("--" ++ name))
    | some f => addFlag f true value given
  | .short letters => addLetters flags given letters
  | .stop | .plain _ => .ok (.done given)

/-! ## Command lines -/

/-- The command that a command line names, or whose own words come now. -/
inductive Scanned where
  | notice (notice : Notice)
  /-- A first word that is no option, and what follows it. -/
  | command (given : List Setting) (word : String) (further : List String)
  | words (given : List Setting) (plain : List String)

/-- How many words a command takes beside its options. -/
def Name.plainWords : Option Name → Nat
  | some .check => 1
  | _ => 0

def addPlain (name : Option Name) (plain : List String) (text : String) :
    Except Misuse (List String) :=
  if plain.length < Name.plainWords name ∧ text ≠ "" then .ok (plain ++ [text])
  else .error (.unexpected text)

def Name.topic : Option Name → Topic
  | none => .program
  | some name => .command name

/-- Reads words up to the end or, where no command has been named yet, up to the one that names it. -/
def scan (name : Option Name) (given : List Setting) (plain : List String) :
    List String → Except Misuse Scanned
  | [] => .ok (.words given plain)
  | text :: rest =>
    match Word.ofText text with
    | .stop => (rest.foldlM (addPlain name) plain).map (.words given)
    | .plain text =>
      if name.isNone then .ok (.command given text rest)
      else
        match addPlain name plain text with
        | .error misuse => .error misuse
        | .ok plain => scan name given plain rest
    | word =>
      match addWord (Flag.available name) given word with
      | .error misuse => .error misuse
      | .ok (.help full) => .ok (.notice (.help (Name.topic name) full))
      | .ok .version => .ok (.notice .version)
      | .ok (.done given) => scan name given plain rest
      | .ok (.awaits flag given) =>
        match rest with
        | [] => .error (.missingValue flag)
        | value :: rest =>
          if (Word.ofText value).isPlain then
            match addValue flag value given with
            | .error misuse => .error misuse
            | .ok given => scan name given plain rest
          else .error (.missingValue flag)

end FuzzyInference.Command
