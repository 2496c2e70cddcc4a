import FuzzyInference.Text.LowerCase

/-! Settings with a few alternatives. Each alternative has one canonical name, which files use, and
further names that are read in any case where a person types them. -/

namespace FuzzyInference

/-- How results are printed. -/
inductive ReportFormat where
  | text
  | json
deriving DecidableEq, Repr

/-- How much is logged. -/
inductive Verbosity where
  | quiet
  | normal
  | verbose
  | debug
deriving DecidableEq, Repr

/-- The sampling methods of defuzzification. -/
inductive Sampling where
  | centroid
  | meanOfMax
deriving DecidableEq, Repr

namespace ReportFormat

def name : ReportFormat → String
  | .text => "text"
  | .json => "json"

def all : List ReportFormat := [.text, .json]

def ofName? (s : String) : Option ReportFormat :=
  match Text.lowerCase s with
  | "text" | "txt" | "plain" => some .text
  | "json" => some .json
  | _ => none

end ReportFormat

namespace Verbosity

def name : Verbosity → String
  | .quiet => "quiet"
  | .normal => "normal"
  | .verbose => "verbose"
  | .debug => "debug"

def all : List Verbosity := [.quiet, .normal, .verbose, .debug]

def ofName? (s : String) : Option Verbosity :=
  match Text.lowerCase s with
  | "quiet" | "q" | "0" => some .quiet
  | "normal" | "n" | "1" => some .normal
  | "verbose" | "v" | "2" => some .verbose
  | "debug" | "d" | "3" => some .debug
  | _ => none

/-- The least severe messages that are logged. -/
def threshold : Verbosity → String
  | .quiet => "error"
  | .normal => "warn"
  | .verbose => "info"
  | .debug => "debug"

end Verbosity

namespace Sampling

def name : Sampling → String
  | .centroid => "centroid"
  | .meanOfMax => "mean_of_max"

def all : List Sampling := [.centroid, .meanOfMax]

def ofName? (s : String) : Option Sampling :=
  match Text.lowerCase s with
  | "centroid" | "cog" => some .centroid
  | "mean_of_max" | "mean-of-max" | "mom" => some .meanOfMax
  | _ => none

end Sampling

end FuzzyInference
