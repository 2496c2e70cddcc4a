import FuzzyInference.Config.Basic
import FuzzyInference.Data.Decode
import FuzzyInference.Data.Toml.Writer

/-! The written form of a configuration. Fields that are left out have their default values. -/

namespace FuzzyInference

namespace GeneralSettings

def ofDatum? (format : Format) (d : Datum) : Option GeneralSettings := do
  let fields ← d.known? format ["log_level", "format"]
  some
    { verbosity := ← Fields.optional? fields "log_level"
        (Datum.choice? format Verbosity.all Verbosity.name) .normal
      format := ← Fields.optional? fields "format"
        (Datum.choice? format ReportFormat.all ReportFormat.name) .text }

def datum (s : GeneralSettings) : Datum :=
  .record [("log_level", .text s.verbosity.name), ("format", .text s.format.name)]

end GeneralSettings

namespace InferenceSettings

def ofDatum? (format : Format) (d : Datum) : Option InferenceSettings := do
  let fields ← d.known? format
    ["mode", "and", "or", "implication", "aggregation", "defuzzifier", "samples"]
  let snorm := Datum.choice? format SNorm.all SNorm.name
  some
    { mode := ← Fields.optional? fields "mode" (Datum.choice? format Mode.all Mode.name) .mamdani
      operators :=
        { and := ← Fields.optional? fields "and" (Datum.choice? format TNorm.all TNorm.name) .min
          or := ← Fields.optional? fields "or" snorm .max
          implication := ← Fields.optional? fields "implication"
            (Datum.choice? format Implication.all Implication.name) .min
          aggregation := ← Fields.optional? fields "aggregation" snorm .max }
      sampling := ← Fields.optional? fields "defuzzifier"
        (Datum.choice? format Sampling.all Sampling.name) .centroid
      samples := ← Fields.optional? fields "samples" Datum.count? 1001 }

def datum (s : InferenceSettings) : Datum :=
  .record
    [("mode", .text s.mode.name),
     ("and", .text s.operators.and.name),
     ("or", .text s.operators.or.name),
     ("implication", .text s.operators.implication.name),
     ("aggregation", .text s.operators.aggregation.name),
     ("defuzzifier", .text s.sampling.name),
     ("samples", .whole s.samples)]

end InferenceSettings

namespace SetSpec

def ofDatum? (format : Format) (d : Datum) : Option (SetSpec Float) := do
  let fields ← d.known? format ["label", "shape", "params"]
  some
    { label := ← Fields.required? fields "label" Datum.text?
      shape := ← Fields.required? fields "shape" Datum.text?
      params := ← Fields.required? fields "params" (Datum.items? Datum.number?) }

def datum (s : SetSpec Float) : Datum :=
  .record
    [("label", .text s.label), ("shape", .text s.shape), ("params", .list (s.params.map .real))]

end SetSpec

namespace VariableSpec

def ofDatum? (format : Format) (d : Datum) : Option (VariableSpec Float) := do
  let fields ← d.known? format ["name", "start", "end", "sets"]
  some
    { name := ← Fields.required? fields "name" Datum.text?
      start := ← Fields.required? fields "start" Datum.number?
      stop := ← Fields.required? fields "end" Datum.number?
      sets := ← Fields.optional? fields "sets" (Datum.items? (SetSpec.ofDatum? format)) [] }

def datum (v : VariableSpec Float) : Datum :=
  .record
    [("name", .text v.name), ("start", .real v.start), ("end", .real v.stop),
     ("sets", .list (v.sets.map SetSpec.datum))]

end VariableSpec

namespace RuleSources

def ofDatum? (format : Format) (d : Datum) : Option RuleSources := do
  let fields ← d.known? format ["file", "inline"]
  some
    { file := ← Fields.optional? fields "file" (Datum.optional? Datum.text?) none
      inline := ← Fields.optional? fields "inline" (Datum.items? Datum.text?) [] }

def datum (s : RuleSources) : Datum :=
  .record
    ((s.file.map fun file => ("file", Datum.text file)).toList
      ++ [("inline", .list (s.inline.map .text))])

end RuleSources

namespace Config

def ofDatum? (format : Format) (d : Datum) : Option (Config Float) := do
  let fields ← d.known? format ["general", "engine", "variables", "rules"]
  some
    { general := ← Fields.optional? fields "general" (GeneralSettings.ofDatum? format) {}
      engine := ← Fields.optional? fields "engine" (InferenceSettings.ofDatum? format) {}
      subjects := ←
        Fields.optional? fields "variables" (Datum.items? (VariableSpec.ofDatum? format)) []
      rules := ← Fields.optional? fields "rules" (RuleSources.ofDatum? format) {} }

def fields (c : Config Float) : List (String × Datum) :=
  [("general", c.general.datum), ("engine", c.engine.datum),
   ("variables", .list (c.subjects.map VariableSpec.datum)), ("rules", c.rules.datum)]

/-- Stands for the path of a text that comes from no file. -/
def textPath : String := "<string>"

def ofToml (path text : String) : Except ConfigError (Config Float) :=
  match (Toml.read? text).bind (ofDatum? .toml) with
  | some c => .ok c
  | none => .error (.malformed path)

def toToml (c : Config Float) : Except ConfigError String :=
  match Toml.write? c.fields with
  | some text => .ok text
  | none => .error .unwritable

def load (files : Files) (path : String) : Except ConfigError (Config Float) :=
  match files.readText path with
  | .error error => .error (.file path error)
  | .ok text => (ofToml path text).map ({ · with source := some path })

def save (files : Files) (path : String) (c : Config Float) : Except ConfigError Files := do
  let text ← c.toToml
  match files.writeText path text with
  | .error error => .error (.file path error)
  | .ok files => .ok files

end Config

end FuzzyInference
