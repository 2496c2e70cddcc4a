import FuzzyInference.Config.Setting
import FuzzyInference.Inference.Mamdani
import FuzzyInference.Files.Basic

/-! The description of a whole fuzzy system: its settings, its variables and where its rules stand.
Nothing in it is checked until the system is built. -/

namespace FuzzyInference

structure GeneralSettings where
  verbosity : Verbosity := .normal
  format : ReportFormat := .text
deriving DecidableEq, Repr

structure InferenceSettings where
  mode : Mode := .mamdani
  operators : MamdaniOperators := {}
  sampling : Sampling := .centroid
  samples : Nat := 1001
deriving DecidableEq, Repr

structure SetSpec (α : Type) where
  label : String
  shape : String
  params : List α
deriving BEq

structure VariableSpec (α : Type) where
  name : String
  start : α
  stop : α
  sets : List (SetSpec α) := []
deriving BEq

structure RuleSources where
  file : Option String := none
  inline : List String := []
deriving DecidableEq, Repr

structure Config (α : Type) where
  general : GeneralSettings := {}
  engine : InferenceSettings := {}
  subjects : List (VariableSpec α) := []
  rules : RuleSources := {}
  /-- The file that the configuration was read from. -/
  source : Option String := none

/-- Why a configuration could not be read or written. -/
inductive ConfigError where
  | file (path : String) (error : FileError)
  | malformed (path : String)
  /-- A number in it is too large for the format. -/
  | unwritable
deriving DecidableEq, Repr

namespace ConfigError

def message : ConfigError → String
  | .file path error => s!"IO error reading {path}: " ++ error.message
  | .malformed path => s!"Parse error in {path}"
  | .unwritable => "Serialization error"

def code : ConfigError → Code
  | .file .. => .ioError
  | .malformed _ => .invalidConfigSyntax
  | .unwritable => .configError

def fault (e : ConfigError) : Fault := { code := e.code, message := e.message }

end ConfigError

namespace Config

variable {α : Type}

/-- The path of the rule file. A relative path starts at the directory of the configuration. -/
def rulesFile? (c : Config α) : Option String :=
  c.rules.file.map fun file =>
    if Path.isAbsolute file then file
    else
      match c.source.bind Path.parent? with
      | some directory => Path.join directory file
      | none => file

end Config

end FuzzyInference
