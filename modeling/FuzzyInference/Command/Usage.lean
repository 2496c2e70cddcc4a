import FuzzyInference.Command.Arguments

/-! What is shown in place of any work. Help has two forms: a summary with one line per option, and the
full form with one paragraph per option. -/

namespace FuzzyInference.Command

def versionText : String := "fuzzylogic 0.1.0\n"

/-! ## What there is to say -/

namespace Name

def about : Name → String
  | .evaluate => "Evaluate the configured system for crisp inputs"
  | .check => "Load a rule file and report lines that fail to parse"
  | .writeSample => "Print (or write) a default configuration file"

end Name

namespace Flag

/-- What the value of an option is called. -/
def valueName? : Flag → Option String
  | .config | .rules | .output => some "FILE"
  | .format => some "FORMAT"
  | .input => some "NAME=VALUE"
  | _ => none

def about (full : Bool) : Flag → String
  | .config => "Configuration file (defaults to the standard search path)"
  | .format => "Output format (overrides the configuration)"
  | .verbose => "Verbose output"
  | .quiet => "Quiet mode (errors only)"
  | .input => "Input value as NAME=VALUE (repeatable)"
  | .rules => "Rule file to use instead of the configured one"
  | .fired => "Also print the firing strength of every rule"
  | .output => "Write to this file instead of stdout"
  | .force => "Overwrite an existing file"
  | .help => if full then "Print help (see a summary with '-h')" else "Print help (see more with '--help')"
  | .version => "Print version"

/-- Values that an option is restricted to, with what they mean. -/
def choices : Flag → List (String × String)
  | .format =>
    [(ReportFormat.text.name, "NAME = VALUE lines"), (ReportFormat.json.name, "JSON object")]
  | _ => []

/-- An option as it is written. A missing letter leaves its room. -/
def term (f : Flag) : String :=
  let letter := match f.short? with
    | some c => String.ofList ['-', c, ',', ' ']
    | none => "    "
  let value := match f.valueName? with
    | some name => " <" ++ name ++ ">"
    | none => ""
  letter ++ "--" ++ f.long ++ value

end Flag

namespace Topic

def about : Topic → String
  | .program => "Mamdani and Sugeno fuzzy inference engine"
  | .command name => name.about
  | .help => "Print this message or the help of the given subcommand(s)"

def usage : Topic → String
  | .program => "fuzzylogic [OPTIONS] <COMMAND>"
  | .command .evaluate => "fuzzylogic eval [OPTIONS] --input <NAME=VALUE>"
  | .command .check => "fuzzylogic check [OPTIONS] <RULES>"
  | .command .writeSample => "fuzzylogic init-config [OPTIONS]"
  | .help => "fuzzylogic help [COMMAND]..."

/-- Words beside the options, with what they mean. -/
def words : Topic → List (String × String)
  | .command .check => [("<RULES>", "Rule file, one rule per line")]
  | .help => [("[COMMAND]...", "Print help for the subcommand(s)")]
  | _ => []

def commands : Topic → List (String × String)
  | .program =>
    Name.all.map (fun name => (name.word, name.about)) ++ [("help", Topic.help.about)]
  | _ => []

/-- The options in the order in which help lists them. -/
def options : Topic → List Flag
  | .program => [.config, .format, .verbose, .quiet, .help, .version]
  | .command .evaluate => [.config, .input, .format, .rules, .fired, .verbose, .quiet, .help]
  | .command .check => [.config, .format, .verbose, .quiet, .help]
  | .command .writeSample => [.config, .output, .format, .force, .verbose, .quiet, .help]
  | .help => []

end Topic

/-! ## How it is laid out -/

/-- Terms and their meanings in two columns. -/
def columns (entries : List (String × String)) : String :=
  let width := (entries.map fun e => e.1.length).foldl max 0
  "\n".intercalate (entries.map fun (term, meaning) =>
    "  " ++ term ++ String.ofList (List.replicate (width - term.length + 2) ' ') ++ meaning)

/-- Each term with its meaning below it, and a blank line between. -/
def paragraphs (entries : List (String × String)) : String :=
  "\n\n".intercalate (entries.map fun (term, meaning) => "  " ++ term ++ "\n" ++ meaning)

def indented (line : String) : String := "          " ++ line

def Flag.summary (f : Flag) : String × String :=
  let choices := match f.choices with
    | [] => ""
    | choices => " [possible values: " ++ ", ".intercalate (choices.map Prod.fst) ++ "]"
  (f.term, f.about false ++ choices)

def Flag.paragraph (f : Flag) : String × String :=
  let choices := match f.choices with
    | [] => []
    | choices => "" :: indented "Possible values:"
        :: choices.map fun (name, meaning) => indented ("- " ++ name ++ ": " ++ meaning)
  (f.term, "\n".intercalate (indented (f.about true) :: choices))

/-- A part of the help under its title, if there is anything in it. -/
def titled (title : String) {β : Type} (entries : List β) (lay : List β → String) : List String :=
  if entries.isEmpty then [] else [title ++ ":\n" ++ lay entries]

namespace Topic

/-- Help itself has only the short form, as it has no options. -/
def text (t : Topic) (full : Bool) : String :=
  let full := full && !t.options.isEmpty
  let words (entries : List (String × String)) : String :=
    if full then paragraphs (entries.map fun (term, meaning) => (term, indented meaning))
    else columns entries
  let options (flags : List Flag) : String :=
    if full then paragraphs (flags.map Flag.paragraph) else columns (flags.map Flag.summary)
  "\n\n".intercalate
    ([t.about, "Usage: " ++ t.usage] ++ titled "Commands" t.commands columns
      ++ titled "Arguments" t.words words ++ titled "Options" t.options options) ++ "\n"

end Topic

namespace Misuse

def message : Misuse → String
  | .unknownOption word => s!"unexpected argument '{word}' found"
  | .missingValue flag => "a value is required for '--" ++ flag.long ++ "' but none was supplied"
  | .unwantedValue flag => "unexpected value for '--" ++ flag.long ++ "' found; no more were expected"
  | .invalidValue flag value => s!"invalid value '{value}' for '--" ++ flag.long ++ "'"
  | .repeated flag => "the argument '--" ++ flag.long ++ "' cannot be used multiple times"
  | .unexpected word => s!"unexpected argument '{word}' found"
  | .missingCommand => "a command is required but none was given"
  | .missingInput => "the following required arguments were not provided: --input <NAME=VALUE>"
  | .missingRules => "the following required arguments were not provided: <RULES>"

def text (m : Misuse) : String :=
  "error: " ++ m.message ++ "\n\nFor more information, try '--help'.\n"

end Misuse

end FuzzyInference.Command
