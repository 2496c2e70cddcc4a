import FuzzyInference.Data.Toml.Reader

/-! Writing TOML for people to read: every table has a header of its own and a blank line before it,
and longer lists have one item on a line. -/

namespace FuzzyInference.Toml

/-- Shortest digits, never a power of ten, and a point in every number. -/
def realStyle : Style where
  plain := none
  pointZero := true
  tie := .up
  infinite := "inf"
  notANumber := "nan"

/-! ## Strings -/

/-- The greatest number of successive marks, given how many came just before. -/
def longestRun (mark : Char) : Nat → List Char → Nat
  | run, [] => run
  | run, c :: rest => if c = mark then longestRun mark (run + 1) rest else max run (longestRun mark 0 rest)

/-- Text between double quotes. Up to `free` successive quotes stand as they are, of which `run` came
just before; line ends stand as they are between triple quotes. -/
def escaped (triple : Bool) (free : Nat) : Nat → List Char → List Char
  | _, [] => []
  | run, c :: rest =>
    let further (cs : List Char) : List Char := cs ++ escaped triple free 0 rest
    if c = '"' then
      if run < free then c :: escaped triple free (run + 1) rest else further ['\\', '"']
    else if c = '\\' then further ['\\', '\\']
    else if c = '\x08' then further ['\\', 'b']
    else if c = '\t' then further ['\\', 't']
    else if c = '\n' then further (if triple then ['\n'] else ['\\', 'n'])
    else if c = '\x0c' then further ['\\', 'f']
    else if c = '\r' then further ['\\', 'r']
    else if isPrintable c then further [c]
    else further ('\\' :: 'u' :: (Text.hexDigits 4 c.toNat).map Char.toUpper)

/-- A text between marks, on a line of its own if it has line ends. -/
def between (marks : String) (text body : List Char) : String :=
  marks ++ (if text.contains '\n' then "\n" else "") ++ String.ofList body ++ marks

/-- The first form that needs no escapes, or double quotes with escapes. -/
def quote (s : String) : String :=
  let cs := s.toList
  let plain := cs.all fun c => isPrintable c || c == '\n'
  let lines := cs.contains '\n'
  let backslash := cs.contains '\\'
  let doubles := longestRun '"' 0 cs
  let singles := longestRun '\'' 0 cs
  let double (body : List Char) : String := String.ofList ('"' :: body ++ ['"'])
  if plain && !backslash && !lines && doubles == 0 then double (escaped false 0 0 cs)
  else if plain && !lines && singles == 0 then String.ofList ('\'' :: cs ++ ['\''])
  else if plain && !backslash && doubles ≤ 2 then between "\"\"\"" cs (escaped true 2 0 cs)
  else if plain && singles ≤ 2 then between "'''" cs cs
  else if lines then between "\"\"\"" cs (escaped true 2 0 cs)
  else double (escaped false 0 0 cs)

def keyText (key : String) : String :=
  if key ≠ "" ∧ key.toList.all isBare then key else quote key

/-! ## Values -/

/-- Whether each whole number has a written form. -/
def fits : Datum → Bool
  | .whole n => (whole? n).isSome
  | .list items => fitsAll items
  | .record fields => fitsFields fields
  | _ => true
where
  fitsAll : List Datum → Bool
    | [] => true
    | x :: rest => fits x && fitsAll rest
  fitsFields : List (String × Datum) → Bool
    | [] => true
    | (_, x) :: rest => fits x && fitsFields rest

/-- Whether a value has headers of its own. -/
def isTabular : Datum → Bool
  | .record _ => true
  | .list (x :: items) => x.isRecord && items.all Datum.isRecord
  | _ => false

mutual

/-- A value on the right of an equals sign. There is no way to write null or what is unreadable. -/
def valueText : Datum → String
  | .null | .unreadable => ""
  | .boolean value => if value then "true" else "false"
  | .whole value => toString value
  | .real value => Binary64.render realStyle value
  | .text value => quote value
  | .moment value => value
  | .list [] => "[]"
  | .list [x] => "[" ++ valueText x ++ "]"
  | .list (x :: items) => "[\n    " ++ valueText x ++ "," ++ furtherItems items
  | .record fields => "\x7b" ++ inlineFields " " fields ++ " \x7d"

def furtherItems : List Datum → String
  | [] => "\n]"
  | x :: items => "\n    " ++ valueText x ++ "," ++ furtherItems items

def inlineFields (lead : String) : List (String × Datum) → String
  | [] => ""
  | (key, x) :: fields => lead ++ keyText key ++ " = " ++ valueText x ++ inlineFields ", " fields

end

/-! ## Documents -/

/-- The fields of a table that have no headers of their own, each on its line. -/
def ownText (fields : List (String × Datum)) : String :=
  String.join (fields.filterMap fun (key, x) =>
    match x with
    | .null | .unreadable => none
    | x => if isTabular x then none else some (keyText key ++ " = " ++ valueText x ++ "\n"))

def pathText (path : List String) : String := ".".intercalate (path.map keyText)

mutual

/-- The tables within a table, each with its header. -/
def sections (path : List String) : List (String × Datum) → List String
  | [] => []
  | (key, .record fields) :: rest =>
    ("[" ++ pathText (path ++ [key]) ++ "]\n" ++ ownText fields)
      :: sections (path ++ [key]) fields ++ sections path rest
  | (key, .list items) :: rest =>
    (if isTabular (.list items) then series (path ++ [key]) items else []) ++ sections path rest
  | _ :: rest => sections path rest

/-- The tables of a list of tables, each with its header. -/
def series (path : List String) : List Datum → List String
  | [] => []
  | .record fields :: rest =>
    ("[[" ++ pathText path ++ "]]\n" ++ ownText fields)
      :: sections path fields ++ series path rest
  | _ :: rest => series path rest

end

/-- The text of a document with the given fields, unless a number is too large to be written. -/
def write? (fields : List (String × Datum)) : Option String :=
  if fits (.record fields) then
    let own := ownText fields
    let parts := (if own = "" then [] else [own]) ++ sections [] fields
    some ("\n".intercalate parts)
  else none

end FuzzyInference.Toml
