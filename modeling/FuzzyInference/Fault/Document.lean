import FuzzyInference.Fault.Basic
import FuzzyInference.Data.Decode
import FuzzyInference.Data.Json.Writer

/-! Faults as documents, for programs to read. Parts that say nothing are left out. -/

namespace FuzzyInference

namespace Context

def datum (c : Context) : Datum :=
  .record
    ((if c.fields = [] then [] else [("fields", .record (c.fields.map fun (k, v) => (k, .text v)))])
      ++ (c.location.map fun s => ("location", Datum.text s)).toList
      ++ if c.causes = [] then [] else [("causes", .list (c.causes.map .text))])

/-- Named texts. The last of several of one name counts. -/
def namedTexts? : Datum → Option (List (String × String))
  | .record fields => do
    let pairs ← fields.mapM fun (k, d) => d.text?.map fun v => (k, v)
    some (Keyed.collect Prod.fst pairs)
  | _ => none

def ofDatum? (format : Format) (d : Datum) : Option Context := do
  let fields ← d.known? format ["fields", "location", "causes"]
  some
    { fields := ← Fields.optional? fields "fields" namedTexts? []
      location := ← Fields.optional? fields "location" (Datum.optional? Datum.text?) none
      causes := ← Fields.optional? fields "causes" (Datum.items? Datum.text?) [] }

end Context

namespace Fault

def datum (f : Fault) : Datum :=
  .record
    ([("code", .text f.code.name), ("message", .text f.message)]
      ++ (f.context.map fun c => ("context", c.datum)).toList
      ++ (f.hint.map fun s => ("hint", Datum.text s)).toList)

def ofDatum? (format : Format) (d : Datum) : Option Fault := do
  let fields ← d.known? format ["code", "message", "context", "hint"]
  some
    { code := ← Fields.required? fields "code" (Datum.choice? format Code.all Code.name)
      message := ← Fields.required? fields "message" Datum.text?
      context := ←
        Fields.optional? fields "context" (Datum.optional? (Context.ofDatum? format)) none
      hint := ← Fields.optional? fields "hint" (Datum.optional? Datum.text?) none }

/-- A fault on one line of JSON. -/
def jsonText (f : Fault) : String := Json.compact f.datum

end Fault

end FuzzyInference
