import FuzzyInference.Data.Basic
import FuzzyInference.Text.Hexadecimal

/-! Reading JSON. Each reader takes a text and gives what stands at its front together with the rest. -/

namespace FuzzyInference.Json

def isBlank (c : Char) : Bool := c == ' ' || c == '\t' || c == '\n' || c == '\r'

def skipBlanks (text : List Char) : List Char := text.dropWhile isBlank

/-! ## Strings -/

/-- The second half of a pair. -/
def lowHalf? : List Char → Option (Nat × List Char)
  | '\\' :: 'u' :: text => do
    let (n, rest) ← Text.hexNumber? 4 text
    if 0xDC00 ≤ n ∧ n < 0xE000 then some (n, rest) else none
  | _ => none

/-- A character given by its number. One beyond the first plane is written as a pair of halves; a half
that stands alone is no character. -/
def numbered? (text : List Char) : Option (Option Char × List Char) := do
  let (n, rest) ← Text.hexNumber? 4 text
  if 0xD800 ≤ n ∧ n < 0xDC00 then
    match lowHalf? rest with
    | some (m, rest) =>
      some (Char.ofNat (0x10000 + (n - 0xD800) * 0x400 + (m - 0xDC00)), rest)
    | none => some (none, rest)
  else if 0xDC00 ≤ n ∧ n < 0xE000 then some (none, rest)
  else some (Char.ofNat n, rest)

/-- What the characters after a backslash stand for. -/
def escape? : List Char → Option (Option Char × List Char)
  | '"' :: rest => some ('"', rest)
  | '\\' :: rest => some ('\\', rest)
  | '/' :: rest => some ('/', rest)
  | 'b' :: rest => some ('\x08', rest)
  | 'f' :: rest => some ('\x0c', rest)
  | 'n' :: rest => some ('\n', rest)
  | 'r' :: rest => some ('\r', rest)
  | 't' :: rest => some ('\t', rest)
  | 'u' :: rest => numbered? rest
  | _ => none

/-- The content of a string after its opening quote, up to the closing one. It is no text if
something in it is no character. -/
def quoted? : Nat → List Char → Option (Option (List Char) × List Char)
  | 0, _ => none
  | _, [] => none
  | fuel + 1, c :: rest =>
    if c = '"' then some (some [], rest)
    else do
      let (c, rest) ← if c = '\\' then escape? rest
        else if c.toNat < 32 then none else some (some c, rest)
      let (cs, rest) ← quoted? fuel rest
      some (do some ((← c) :: (← cs)), rest)

def text? (text : List Char) : Option (Option String × List Char) :=
  (quoted? text.length text).map fun (cs, rest) => (cs.map String.ofList, rest)

/-! ## Numbers -/

/-- The digits at the front, at least one. -/
def digits? (text : List Char) : Option (List Char × List Char) :=
  match text.takeWhile Char.isDigit with
  | [] => none
  | ds => some (ds, text.dropWhile Char.isDigit)

/-- A whole part has no leading zero but the digit zero itself. -/
def wholePart? : List Char → Option (List Char × List Char)
  | '0' :: rest => some (['0'], rest)
  | text => digits? text

def fraction? : List Char → Option (List Char × List Char)
  | '.' :: rest => digits? rest
  | text => some ([], text)

/-- A power of ten, `none` where there is none to read. -/
def power? : List Char → Option (Option Int × List Char)
  | c :: rest =>
    if c = 'e' ∨ c = 'E' then do
      let (negative, rest) := Literal.sign? rest
      let (ds, rest) ← digits? rest
      let n : Int := Literal.digitsValue ds
      some (some (if negative then -n else n), rest)
    else some (none, c :: rest)
  | [] => some (none, [])

/-- Whole numbers are those that 64 bits hold, with or without a sign. The zero with a minus sign is
not among them. -/
def wholeOrReal (negative : Bool) (digits : List Char) : Datum :=
  let n := Literal.digitsValue digits
  if negative then
    if 0 < n ∧ n ≤ Nat.pow 2 63 then .whole (-n) else .real (Binary64.ofLiteral (.finite true n 0))
  else if n < Nat.pow 2 64 then .whole n
  else .real (Binary64.ofLiteral (.finite false n 0))

def number? (text : List Char) : Option (Datum × List Char) := do
  let (negative, text) := match text with
    | '-' :: rest => (true, rest)
    | text => (false, text)
  let (whole, text) ← wholePart? text
  let (fraction, text) ← fraction? text
  let (power, text) ← power? text
  if fraction = [] ∧ power = none then some (wholeOrReal negative whole, text)
  else
    let literal := Literal.ofParts negative whole fraction (power.getD 0)
    some (.real (Binary64.ofLiteral literal), text)

/-! ## Documents -/

/-- A word and the value it stands for. -/
def word? : List Char → Option (Datum × List Char)
  | 'n' :: 'u' :: 'l' :: 'l' :: rest => some (.null, rest)
  | 't' :: 'r' :: 'u' :: 'e' :: rest => some (.boolean true, rest)
  | 'f' :: 'a' :: 'l' :: 's' :: 'e' :: rest => some (.boolean false, rest)
  | _ => none

/-- A string. It can be passed over even if it is no text. -/
def textDatum : Option String → Datum
  | some s => .text s
  | none => .unreadable

/-- A record, whose names must be texts. -/
def recordDatum (fields : List (Option String × Datum)) : Datum :=
  match fields.mapM fun (key, x) => key.map fun key => (key, x) with
  | some fields => .record fields
  | none => .unreadable

mutual

def value? : Nat → List Char → Option (Datum × List Char)
  | 0, _ => none
  | fuel + 1, text =>
    match skipBlanks text with
    | '"' :: rest => (text? rest).map fun (s, rest) => (textDatum s, rest)
    | '[' :: rest =>
      match skipBlanks rest with
      | ']' :: rest => some (.list [], rest)
      | rest => (items? fuel rest).map fun (xs, rest) => (.list xs, rest)
    | '\x7b' :: rest =>
      match skipBlanks rest with
      | '\x7d' :: rest => some (.record [], rest)
      | rest => (fields? fuel rest).map fun (xs, rest) => (recordDatum xs, rest)
    | text => (word? text).or (number? text)

/-- Items and the closing bracket. -/
def items? : Nat → List Char → Option (List Datum × List Char)
  | 0, _ => none
  | fuel + 1, text => do
    let (x, rest) ← value? fuel text
    match skipBlanks rest with
    | ']' :: rest => some ([x], rest)
    | ',' :: rest => (items? fuel rest).map fun (xs, rest) => (x :: xs, rest)
    | _ => none

/-- Fields and the closing brace. -/
def fields? : Nat → List Char → Option (List (Option String × Datum) × List Char)
  | 0, _ => none
  | fuel + 1, text =>
    match skipBlanks text with
    | '"' :: rest => do
      let (key, rest) ← text? rest
      match skipBlanks rest with
      | ':' :: rest =>
        let (x, rest) ← value? fuel rest
        match skipBlanks rest with
        | '\x7d' :: rest => some ([(key, x)], rest)
        | ',' :: rest => (fields? fuel rest).map fun (xs, rest) => ((key, x) :: xs, rest)
        | _ => none
      | _ => none
    | _ => none

end

/-- The document that a text holds. Each character costs at most two steps. -/
def read? (text : String) : Option Datum := do
  let cs := text.toList
  let (x, rest) ← value? (2 * cs.length + 2) cs
  if skipBlanks rest = [] then some x else none

end FuzzyInference.Json
