import FuzzyInference.Data.Basic
import FuzzyInference.Text.Hexadecimal

/-! Numbers, dates and times of TOML. -/

namespace FuzzyInference.Toml

/-! ## Numbers -/

/-- Further digits of a number. A single underscore may stand between two digits. -/
def furtherDigits (isDigit : Char → Bool) : List Char → List Char × List Char
  | '_' :: d :: rest =>
    if isDigit d then
      let (ds, rest) := furtherDigits isDigit rest
      (d :: ds, rest)
    else ([], '_' :: d :: rest)
  | d :: rest =>
    if isDigit d then
      let (ds, rest) := furtherDigits isDigit rest
      (d :: ds, rest)
    else ([], d :: rest)
  | [] => ([], [])

def digits? (isDigit : Char → Bool) : List Char → Option (List Char × List Char)
  | d :: rest =>
    if isDigit d then
      let (ds, rest) := furtherDigits isDigit rest
      some (d :: ds, rest)
    else none
  | [] => none

/-- A whole part has no leading zero but the digit zero itself. -/
def wholePart? : List Char → Option (List Char × List Char)
  | '0' :: rest => some (['0'], rest)
  | text => digits? Char.isDigit text

def fraction? : List Char → Option (List Char × List Char)
  | '.' :: rest => digits? Char.isDigit rest
  | text => some ([], text)

/-- A power of ten, `none` where there is none to read. -/
def power? : List Char → Option (Option Int × List Char)
  | c :: rest =>
    if c = 'e' ∨ c = 'E' then do
      let (negative, rest) := Literal.sign? rest
      let (ds, rest) ← digits? Char.isDigit rest
      let n : Int := Literal.digitsValue ds
      some (some (if negative then -n else n), rest)
    else some (none, c :: rest)
  | [] => some (none, [])

/-- Whole numbers are those that 64 bits hold together with a sign. -/
def whole? (n : Int) : Option Datum :=
  if -(Nat.pow 2 63 : Nat) ≤ n ∧ n < (Nat.pow 2 63 : Nat) then some (.whole n) else none

/-- A number in a base other than ten. -/
def based? (base : Nat) (text : List Char) : Option (Datum × List Char) := do
  let isDigit (c : Char) : Bool := ((Text.hexValue? c).map fun d => decide (d < base)).getD false
  let (ds, rest) ← digits? isDigit text
  let n := ds.foldl (fun n d => base * n + (Text.hexValue? d).getD 0) 0
  some (← whole? n, rest)

def isPlusInfinity (x : Float) : Bool := !x.isFinite && decide (0 < x)

def decimal? (negative : Bool) (text : List Char) : Option (Datum × List Char) := do
  let (whole, text) ← wholePart? text
  let (fraction, text) ← fraction? text
  let (power, text) ← power? text
  if fraction = [] ∧ power = none then
    let n : Int := Literal.digitsValue whole
    some (← whole? (if negative then -n else n), text)
  else
    let x := Binary64.ofLiteral (Literal.ofParts negative whole fraction (power.getD 0))
    if isPlusInfinity x then none else some (.real x, text)

/-- A number. A base other than ten allows no sign. -/
def number? : List Char → Option (Datum × List Char)
  | '0' :: 'x' :: rest => based? 16 rest
  | '0' :: 'o' :: rest => based? 8 rest
  | '0' :: 'b' :: rest => based? 2 rest
  | text =>
    let (negative, text) := Literal.sign? text
    match text with
    | 'i' :: 'n' :: 'f' :: rest => some (.real (Binary64.ofLiteral (.infinite negative)), rest)
    | 'n' :: 'a' :: 'n' :: rest => some (.real (Binary64.ofLiteral .notANumber), rest)
    | text => decimal? negative text

/-! ## Dates and times -/

/-- Exactly `count` decimal digits with a value between two bounds. -/
def field? (count low high : Nat) (text : List Char) : Option (Nat × List Char) :=
  let ds := text.take count
  let n := Literal.digitsValue ds
  if ds.length = count ∧ ds.all Char.isDigit ∧ low ≤ n ∧ n ≤ high then some (n, text.drop count)
  else none

def mark? (mark : Char) : List Char → Option (List Char)
  | c :: rest => if c = mark then some rest else none
  | [] => none

def isLeapYear (year : Nat) : Bool :=
  year % 4 == 0 && (year % 100 != 0 || year % 400 == 0)

def daysInMonth (year month : Nat) : Nat :=
  match month with
  | 2 => if isLeapYear year then 29 else 28
  | 4 | 6 | 9 | 11 => 30
  | _ => 31

def skipDate? (text : List Char) : Option (List Char) := do
  let (year, rest) ← field? 4 0 9999 text
  let (month, rest) ← field? 2 1 12 (← mark? '-' rest)
  let (_, rest) ← field? 2 1 (daysInMonth year month) (← mark? '-' rest)
  some rest

/-- A time of day; its last minute may have a leap second. -/
def skipTime? (text : List Char) : Option (List Char) := do
  let (_, rest) ← field? 2 0 23 text
  let (_, rest) ← field? 2 0 59 (← mark? ':' rest)
  let (_, rest) ← field? 2 0 60 (← mark? ':' rest)
  match rest with
  | '.' :: d :: _ => some (if d.isDigit then (rest.drop 1).dropWhile Char.isDigit else rest)
  | _ => some rest

def skipOffset? : List Char → Option (List Char)
  | 'Z' :: rest | 'z' :: rest => some rest
  | '+' :: rest | '-' :: rest => do
    let (_, rest) ← field? 2 0 23 rest
    let (_, rest) ← field? 2 0 59 (← mark? ':' rest)
    some rest
  | _ => none

/-- A date alone, a date and a time with or without an offset, or a time alone. -/
def skipMoment? (text : List Char) : Option (List Char) :=
  match skipDate? text with
  | none => skipTime? text
  | some rest =>
    let time? := match rest with
      | 'T' :: further | 't' :: further | ' ' :: further => skipTime? further
      | _ => none
    some (match time? with
      | none => rest
      | some rest => (skipOffset? rest).getD rest)

def moment? (text : List Char) : Option (Datum × List Char) :=
  (skipMoment? text).map fun rest =>
    (.moment (String.ofList (text.take (text.length - rest.length))), rest)

end FuzzyInference.Toml
