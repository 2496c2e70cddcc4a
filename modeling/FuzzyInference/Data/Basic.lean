import FuzzyInference.Decimal.Binary64

/-! Documents: values, lists and records, nested as the text formats allow. -/

namespace FuzzyInference

inductive Datum where
  | null
  | boolean (value : Bool)
  | whole (value : Int)
  | real (value : Float)
  | text (value : String)
  /-- A date, a time or both, as it is written. -/
  | moment (value : String)
  | list (items : List Datum)
  /-- Fields in the order in which they are written. -/
  | record (fields : List (String × Datum))
  /-- A well-formed value whose text is no text, as some character in it is half of a pair. -/
  | unreadable

namespace Datum

def isRecord : Datum → Bool
  | .record _ => true
  | _ => false

end Datum

end FuzzyInference
