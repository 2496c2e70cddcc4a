import FuzzyInference.Data.Basic

/-! Documents taken apart by their expected form. A reader of a form answers `none` on any other. -/

namespace FuzzyInference

/-- Where a document comes from. The two formats are the same data but for what they do with values
that nobody asked for. -/
inductive Format where
  | json
  | toml
deriving DecidableEq, Repr

namespace Datum

def text? : Datum → Option String
  | .text value => some value
  | _ => none

def number? : Datum → Option Float
  | .whole n => some (Binary64.ofLiteral (.finite (decide (n < 0)) n.natAbs 0))
  | .real x => some x
  | _ => none

def count? : Datum → Option Nat
  | .whole n => if 0 ≤ n then some n.toNat else none
  | _ => none

def items? {β : Type} (read : Datum → Option β) : Datum → Option (List β)
  | .list items => items.mapM read
  | _ => none

/-- Null stands for no value. -/
def optional? {β : Type} (read : Datum → Option β) : Datum → Option (Option β)
  | .null => some none
  | d => (read d).map some

/-- Whether a value says no more than the name in front of it. -/
def saysNothing : Format → Datum → Bool
  | .json, .null => true
  | .toml, .record [] | .toml, .list [] => true
  | _, _ => false

/-- One of several alternatives, given by its name: alone, or in front of a value that says nothing. -/
def choice? {β : Type} (format : Format) (all : List β) (name : β → String) : Datum → Option β
  | .text s => all.find? fun b => name b == s
  | .record [(s, d)] =>
    if saysNothing format d then all.find? fun b => name b == s else none
  | _ => none

/-- The fields of the given names. No field occurs twice. In place of a record a list may give the
values in the order of the names. Other fields do not matter, nor do items beyond the names in TOML. -/
def known? (format : Format) (names : List String) : Datum → Option (List (String × Datum))
  | .record fields =>
    let known := fields.filter fun (key, _) => key ∈ names
    if (known.map Prod.fst).Nodup then some known else none
  | .moment _ => some []
  | .list items =>
    if format = .json ∧ names.length < items.length then none else some (names.zip items)
  | _ => none

end Datum

namespace Fields

/-- A field that must be there. -/
def required? {β : Type} (fields : List (String × Datum)) (name : String)
    (read : Datum → Option β) : Option β :=
  (fields.lookup name).bind read

/-- A field that may be left out. -/
def optional? {β : Type} (fields : List (String × Datum)) (name : String)
    (read : Datum → Option β) (otherwise : β) : Option β :=
  match fields.lookup name with
  | some d => read d
  | none => some otherwise

end Fields

end FuzzyInference
