import FuzzyInference.Data.Basic
import FuzzyInference.Text.Hexadecimal

/-! Writing JSON, on one line or indented by two blanks a level. -/

namespace FuzzyInference.Json

/-- Shortest digits; a power of ten stands where the leading digit is at 10¹⁶ or above, or below
10⁻⁵. -/
def realStyle : Style where
  plain := some (-5, 16)
  pointZero := true
  plusSign := true
  tie := .toEven
  infinite := "null"
  notANumber := "null"

/-- There is no way to write a number that is not finite. -/
def realText (x : Float) : String :=
  if x.isFinite then Binary64.render realStyle x else "null"

def escape (c : Char) : List Char :=
  if c = '"' then ['\\', '"']
  else if c = '\\' then ['\\', '\\']
  else if c = '\x08' then ['\\', 'b']
  else if c = '\x0c' then ['\\', 'f']
  else if c = '\n' then ['\\', 'n']
  else if c = '\r' then ['\\', 'r']
  else if c = '\t' then ['\\', 't']
  else if c.toNat < 32 then '\\' :: 'u' :: Text.hexDigits 4 c.toNat
  else [c]

def quote (s : String) : String := String.ofList ('"' :: s.toList.flatMap escape ++ ['"'])

/-- How items are set apart. -/
inductive Layout where
  | compact
  /-- Each item on a line of its own, at the given depth. -/
  | indented (depth : Nat)

namespace Layout

def deeper : Layout → Layout
  | .compact => .compact
  | .indented depth => .indented (depth + 1)

def lineBreak : Layout → String
  | .compact => ""
  | .indented depth => "\n" ++ String.ofList (List.replicate (2 * depth) ' ')

def colon : Layout → String
  | .compact => ":"
  | .indented _ => ": "

end Layout

mutual

/-- There is no way to write a value that is unreadable. -/
def write (l : Layout) : Datum → String
  | .null | .unreadable => "null"
  | .boolean value => if value then "true" else "false"
  | .whole value => toString value
  | .real value => realText value
  | .text value | .moment value => quote value
  | .list [] => "[]"
  | .list (x :: xs) => "[" ++ l.deeper.lineBreak ++ write l.deeper x ++ furtherItems l xs
  | .record [] => "\x7b\x7d"
  | .record ((key, x) :: fields) =>
    "\x7b" ++ l.deeper.lineBreak ++ quote key ++ l.colon ++ write l.deeper x
      ++ furtherFields l fields

def furtherItems (l : Layout) : List Datum → String
  | [] => l.lineBreak ++ "]"
  | x :: xs => "," ++ l.deeper.lineBreak ++ write l.deeper x ++ furtherItems l xs

def furtherFields (l : Layout) : List (String × Datum) → String
  | [] => l.lineBreak ++ "\x7d"
  | (key, x) :: fields =>
    "," ++ l.deeper.lineBreak ++ quote key ++ l.colon ++ write l.deeper x
      ++ furtherFields l fields

end

def compact (d : Datum) : String := write .compact d

def pretty (d : Datum) : String := write (.indented 0) d

end FuzzyInference.Json
