import FuzzyInference.Data.Basic
import FuzzyInference.Keyed

/-! Tables under construction. Headers and dotted keys open tables step by step; how a table came
about decides what may still be added to it. -/

namespace FuzzyInference.Toml

inductive Origin where
  /-- Opened by a header of its own. -/
  | header
  /-- Made on the way of a header to a table within. -/
  | passed
  /-- Made on the way of a dotted key. -/
  | dotted
deriving DecidableEq, Repr

inductive Node where
  /-- A value that is complete. -/
  | value (value : Datum)
  | table (origin : Origin) (fields : List (String × Node))
  /-- A list of tables, of which the last can be added to. -/
  | series (tables : List (List (String × Node)))

abbrev Fields := List (String × Node)

namespace Node

mutual

def datum : Node → Datum
  | .value d => d
  | .table _ fields => .record (data fields)
  | .series tables => .list (records tables)

def data : List (String × Node) → List (String × Datum)
  | [] => []
  | (key, node) :: rest => (key, node.datum) :: data rest

def records : List (List (String × Node)) → List Datum
  | [] => []
  | fields :: rest => .record (data fields) :: records rest

end

end Node

namespace Fields

def get? (fields : Fields) (key : String) : Option Node :=
  (Keyed.get? Prod.fst key fields).map Prod.snd

def put (fields : Fields) (key : String) (node : Node) : Fields :=
  Keyed.insert Prod.fst (key, node) fields

/-- Changes the table that a path of keys leads to; of a series, its last table. Missing tables are
made with the given origin. A dotted key does not enter a table that has a header. -/
def within (made : Origin) (change : Origin → Fields → Option Fields) :
    Origin → List String → Fields → Option Fields
  | origin, [], fields => change origin fields
  | _, key :: path, fields =>
    match fields.get? key with
    | none => do
      let inner ← within made change made path []
      some (fields.put key (.table made inner))
    | some (.table origin inner) =>
      if made = .dotted ∧ origin = .header then none
      else do
        let inner ← within made change origin path inner
        some (fields.put key (.table origin inner))
    | some (.series tables) => do
      let inner ← within made change .header path (tables.getLastD [])
      some (fields.put key (.series (tables.dropLast ++ [inner])))
    | some (.value _) => none

/-- Adds a value under a key that may be dotted. The table it goes into has no field of that name,
and it is the current one or came about by dotted keys alone. -/
def assign (path : List String) (key : String) (value : Datum) (fields : Fields) : Option Fields :=
  within .dotted (fun origin inner =>
    if origin = .dotted ↔ path = [] then none
    else if (inner.get? key).isSome then none
    else some (inner.put key (.value value))) .header path fields

/-- Opens the table of a header, which no other header or key has opened. -/
def openTable (path : List String) (key : String) (fields : Fields) : Option Fields :=
  within .passed (fun _ inner =>
    match inner.get? key with
    | none => some (inner.put key (.table .header []))
    | some (.table .passed nested) => some (inner.put key (.table .header nested))
    | some _ => none) .header path fields

/-- Opens one more table of a series. -/
def openNext (path : List String) (key : String) (fields : Fields) : Option Fields :=
  within .passed (fun _ inner =>
    match inner.get? key with
    | none => some (inner.put key (.series [[]]))
    | some (.series tables) => some (inner.put key (.series (tables ++ [[]])))
    | some _ => none) .header path fields

end Fields

end FuzzyInference.Toml
