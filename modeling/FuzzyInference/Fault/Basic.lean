import FuzzyInference.Fault.Code
import FuzzyInference.Keyed

/-! A fault as it is reported: its code and message, what is known about where it arose, and a hint.
The causes themselves are types of the modules in which they arise. -/

namespace FuzzyInference

/-- What is known about where a fault arose. -/
structure Context where
  fields : List (String × String) := []
  location : Option String := none
  causes : List String := []
deriving DecidableEq, Repr

structure Fault where
  code : Code
  message : String
  context : Option Context := none
  hint : Option String := none
deriving DecidableEq, Repr

namespace Context

/-- A field takes the place of an earlier one of the same name. -/
def withField (c : Context) (key value : String) : Context :=
  { c with fields := Keyed.insert Prod.fst (key, value) c.fields }

def field? (c : Context) (key : String) : Option String :=
  (Keyed.get? Prod.fst key c.fields).map Prod.snd

end Context

namespace Fault

def withCode (f : Fault) (code : Code) : Fault := { f with code }

def withContext (f : Fault) (key value : String) : Fault :=
  { f with context := some ((f.context.getD {}).withField key value) }

def withCause (f : Fault) (cause : String) : Fault :=
  let c := f.context.getD {}
  { f with context := some { c with causes := c.causes ++ [cause] } }

/-- Names the place where the fault was found. -/
def located (f : Fault) (location : String) : Fault :=
  { f with context := some { f.context.getD {} with location := some location } }

def withHint (f : Fault) (hint : String) : Fault := { f with hint := some hint }

def category (f : Fault) : Category := f.code.category

def isParseError (f : Fault) : Bool := f.category == .parse

def field? (f : Fault) (key : String) : Option String := f.context.bind (·.field? key)

/-- The report in full: number and message, the rule and the place concerned, the causes one a line,
and the hint. -/
def text (f : Fault) : String :=
  let part (lead : String) (value : Option String) (tail : String) : String :=
    (value.map fun v => lead ++ v ++ tail).getD ""
  let causes := match f.context with
    | some { causes := c :: cs, .. } =>
      "\nCaused by:" ++ String.join ((c :: cs).map fun c => "\n  - " ++ c)
    | _ => ""
  "[" ++ toString f.code.number ++ "] " ++ f.message
    ++ part " in rule '" (f.field? "line") "'"
    ++ part " at " (f.context.bind (·.location)) ""
    ++ causes
    ++ part "\nHint: " f.hint ""

/-! ## Kinds of fault -/

def invalidShape (message : String) : Fault := { code := .invalidShape, message }

def invalidSamples (samples : Nat) : Fault where
  code := .invalidSampleCount
  message := s!"Samples must be >= 3 (got {samples})"

def missingFields (fields : List String) : Fault :=
  withContext
    { code := .missingBuilderField
      message := "Engine configuration is incomplete: missing " ++ ", ".intercalate fields }
    "missing" (",".intercalate fields)

/-- A fault in the text of a rule, with the line concerned. -/
def parse (code : Code) (message line : String) : Fault :=
  withContext { code, message } "line" line

def unknownVariable (name : String) : Fault where
  code := .unknownVariable
  message := s!"Unknown variable: {name}"

def unknownSet (variableName label : String) : Fault where
  code := .unknownFuzzySet
  message := s!"Variable '{variableName}' has no fuzzy set named '{label}'"

def consequentMismatch (engine consequent : String) : Fault where
  code := .consequentMismatch
  message := s!"{engine} inference cannot evaluate consequent '{consequent}'"

def evaluation (code : Code) (message : String) : Fault := { code, message }

def io (message : String) : Fault := { code := .ioError, message }

def config (message : String) : Fault := { code := .configError, message }

def internal (message : String) : Fault := { code := .internalError, message }

end Fault

end FuzzyInference
