import FuzzyInference.Data.Toml.Quoted
import FuzzyInference.Data.Toml.Number
import FuzzyInference.Data.Toml.Table

/-! Reading TOML. -/

namespace FuzzyInference.Toml

/-- Values are nested less deep than this, and a key has fewer parts. -/
def nestingLimit : Nat := 80

/-! ## Keys -/

def isBare (c : Char) : Bool := c.isAlphanum || c == '_' || c == '-'

def simpleKey? (text : List Char) : Option (String × List Char) :=
  match text.head? with
  | some '"' | some '\'' => line? text
  | _ =>
    match text.takeWhile isBare with
    | [] => none
    | cs => some (String.ofList cs, text.dropWhile isBare)

/-- The parts of a key with points between them, and the rest without blanks in front. -/
def keyParts? : Nat → List Char → Option (List String × List Char)
  | 0, _ => none
  | fuel + 1, text => do
    let (part, rest) ← simpleKey? (skipBlanks text)
    match skipBlanks rest with
    | '.' :: rest => (keyParts? fuel rest).map fun (parts, rest) => (part :: parts, rest)
    | rest => some ([part], rest)

/-- The last part of a key and the path of those before it. -/
structure Key where
  path : List String
  last : String

def key? (text : List Char) : Option (Key × List Char) := do
  let (parts, rest) ← keyParts? (text.length + 1) text
  if parts.length < nestingLimit then
    some (⟨parts.dropLast, parts.getLastD ""⟩, rest)
  else none

/-! ## Values -/

def word? : List Char → Option (Datum × List Char)
  | 't' :: 'r' :: 'u' :: 'e' :: rest => some (.boolean true, rest)
  | 'f' :: 'a' :: 'l' :: 's' :: 'e' :: rest => some (.boolean false, rest)
  | _ => none

def simple? (text : List Char) : Option (Datum × List Char) :=
  (((string? text).map fun (s, rest) => (Datum.text s, rest)).or (word? text)).or
    ((moment? text).or (number? text))

mutual

/-- A value, with the number of levels that it may be nested in. -/
def value? (levels : Nat) : Nat → List Char → Option (Datum × List Char)
  | 0, _ => none
  | fuel + 1, text =>
    match text with
    | '[' :: rest =>
      if levels ≤ 1 then none
      else
        match skipLines rest.length rest with
        | ']' :: rest => some (.list [], rest)
        | rest => (items? (levels - 1) fuel rest).map fun (xs, rest) => (.list xs, rest)
    | '\x7b' :: rest =>
      if levels ≤ 1 then none
      else
        match skipBlanks rest with
        | '\x7d' :: rest => some (.record [], rest)
        | rest => (fields? (levels - 1) fuel [] rest).map fun (fields, rest) =>
          (.record (Node.data fields), rest)
    | _ => simple? text

/-- Items and the closing bracket. A comma may stand before it. -/
def items? (levels : Nat) : Nat → List Char → Option (List Datum × List Char)
  | 0, _ => none
  | fuel + 1, text => do
    let (x, rest) ← value? levels fuel text
    match skipLines rest.length rest with
    | ']' :: rest => some ([x], rest)
    | ',' :: rest =>
      match skipLines rest.length rest with
      | ']' :: rest => some ([x], rest)
      | rest => (items? levels fuel rest).map fun (xs, rest) => (x :: xs, rest)
    | _ => none

/-- Fields on one line and the closing brace, added to those before. -/
def fields? (levels : Nat) : Nat → Fields → List Char → Option (Fields × List Char)
  | 0, _, _ => none
  | fuel + 1, before, text => do
    let (key, rest) ← key? text
    let (x, rest) ← value? levels fuel (skipBlanks (← mark? '=' rest))
    let fields ← before.assign key.path key.last x
    match skipBlanks rest with
    | '\x7d' :: rest => some (fields, rest)
    | ',' :: rest => fields? levels fuel fields rest
    | _ => none

end

/-! ## Documents -/

/-- A document read up to some line. -/
structure Draft where
  root : Fields := []
  /-- The path of the table that assignments go into. -/
  current : List String := []

namespace Draft

/-- A header and what it opens. -/
def header (d : Draft) (text : List Char) : Option (Draft × List Char) :=
  match text with
  | '[' :: '[' :: rest => do
    let (key, rest) ← key? rest
    let rest ← mark? ']' (← mark? ']' rest)
    some (⟨← d.root.openNext key.path key.last, key.path ++ [key.last]⟩, rest)
  | '[' :: rest => do
    let (key, rest) ← key? rest
    let rest ← mark? ']' rest
    some (⟨← d.root.openTable key.path key.last, key.path ++ [key.last]⟩, rest)
  | _ => none

/-- A key and its value in the current table. -/
def assignment (d : Draft) (text : List Char) : Option (Draft × List Char) := do
  let (key, rest) ← key? text
  let rest := skipBlanks (← mark? '=' rest)
  let (x, rest) ← value? nestingLimit (2 * rest.length + 2) rest
  let root ← Fields.within .passed (fun _ fields => fields.assign key.path key.last x) .header
    d.current d.root
  some ({ d with root }, rest)

/-- What a line says, and what follows it. -/
def line (d : Draft) (text : List Char) : Option (Draft × List Char) :=
  match lineEnd? text with
  | some rest => some (d, rest)
  | none => do
    let (d, rest) ← match text.head? with
      | some '[' => d.header text
      | _ => d.assignment text
    some (d, ← lineEnd? rest)

def lines (d : Draft) : Nat → List Char → Option Draft
  | 0, _ => none
  | fuel + 1, text =>
    match skipBlanks text with
    | [] => some d
    | text => (d.line text).bind fun (d, rest) => d.lines fuel rest

end Draft

/-- The document that a text holds. A byte order mark may stand in front. -/
def read? (text : String) : Option Datum :=
  let cs := match text.toList with
    | '\ufeff' :: rest => rest
    | cs => cs
  (({} : Draft).lines (cs.length + 1) cs).map fun d => .record (Node.data d.root)

end FuzzyInference.Toml
