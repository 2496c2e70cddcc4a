import FuzzyInference.Text.Hexadecimal

/-! Blanks, line ends and the four kinds of strings of TOML. Each reader takes a text and gives what
stands at its front together with the rest. -/

namespace FuzzyInference.Toml

def isBlank (c : Char) : Bool := c == ' ' || c == '\t'

def skipBlanks (text : List Char) : List Char := text.dropWhile isBlank

/-- A tab, and all but control characters. -/
def isPrintable (c : Char) : Bool := c == '\t' || (decide (32 ≤ c.toNat) && c.toNat != 127)

def lineBreak? : List Char → Option (List Char)
  | '\n' :: rest => some rest
  | '\r' :: '\n' :: rest => some rest
  | _ => none

/-- Nothing on a line but blanks and a comment, and then its end or the end of the text. -/
def lineEnd? (text : List Char) : Option (List Char) :=
  let rest := match skipBlanks text with
    | '#' :: rest => rest.dropWhile isPrintable
    | rest => rest
  if rest = [] then some [] else lineBreak? rest

/-- Blanks, comments and line ends. A comment counts only together with the end of its line. -/
def skipLines : Nat → List Char → List Char
  | 0, text => text
  | fuel + 1, text =>
    let text := skipBlanks text
    let rest := match text with
      | '#' :: rest => rest.dropWhile isPrintable
      | rest => rest
    match lineBreak? rest with
    | some rest => skipLines fuel rest
    | none => text

/-! ## Strings -/

/-- A character given by its number in `count` hexadecimal digits. -/
def numbered? (count : Nat) (text : List Char) : Option (Char × List Char) := do
  let (n, rest) ← Text.hexNumber? count text
  if n.isValidChar then some (Char.ofNat n, rest) else none

/-- What the characters after a backslash stand for. -/
def escape? : List Char → Option (Char × List Char)
  | '"' :: rest => some ('"', rest)
  | '\\' :: rest => some ('\\', rest)
  | 'b' :: rest => some ('\x08', rest)
  | 'f' :: rest => some ('\x0c', rest)
  | 'n' :: rest => some ('\n', rest)
  | 'r' :: rest => some ('\r', rest)
  | 't' :: rest => some ('\t', rest)
  | 'u' :: rest => numbered? 4 rest
  | 'U' :: rest => numbered? 8 rest
  | _ => none

/-- How far a string extends and whether a backslash is special in it. -/
structure Quotes where
  mark : Char
  /-- Between three marks, a string may extend over several lines. -/
  triple : Bool
  escapes : Bool

/-- What follows blanks and line ends. -/
def skipBreaks : List Char → List Char
  | '\r' :: '\n' :: rest => skipBreaks rest
  | c :: rest => if isBlank c || c == '\n' then skipBreaks rest else c :: rest
  | [] => []

/-- A backslash at the end of a line hides all blanks and line ends up to the next other character. -/
def hiddenBreak? (text : List Char) : Option (List Char) :=
  (lineBreak? (skipBlanks text)).map skipBreaks

/-- The end of a string. Up to two marks before three closing ones belong to the string. -/
def closing? (q : Quotes) (text : List Char) : Option (List Char × List Char) :=
  let run := (text.takeWhile (· == q.mark)).length
  if q.triple then
    if 3 ≤ run then
      some (List.replicate (min run 5 - 3) q.mark, text.drop (min run 5))
    else none
  else if 1 ≤ run then some ([], text.drop 1)
  else none

/-- The content of a string after its opening marks, up to the closing ones. A line end is read as a
single character. -/
def content? (q : Quotes) : Nat → List Char → Option (List Char × List Char)
  | 0, _ => none
  | fuel + 1, text =>
    match closing? q text with
    | some closed => some closed
    | none =>
      let further (c : Char) (rest : List Char) : Option (List Char × List Char) :=
        (content? q fuel rest).map fun (cs, rest) => (c :: cs, rest)
      match text with
      | [] => none
      | c :: rest =>
        if q.escapes ∧ c = '\\' then
          match if q.triple then hiddenBreak? rest else none with
          | some rest => content? q fuel rest
          | none => (escape? rest).bind fun (c, rest) => further c rest
        else if isPrintable c then further c rest
        else if q.triple then (lineBreak? text).bind (further '\n')
        else none

def finish? (q : Quotes) (text : List Char) : Option (String × List Char) :=
  (content? q (text.length + 1) text).map fun (cs, rest) => (String.ofList cs, rest)

/-- A string on a single line, without or with escapes. -/
def line? : List Char → Option (String × List Char)
  | '"' :: rest => finish? ⟨'"', false, true⟩ rest
  | '\'' :: rest => finish? ⟨'\'', false, false⟩ rest
  | _ => none

/-- A string of any kind. A line end right after three opening marks does not belong to it. -/
def string? : List Char → Option (String × List Char)
  | '"' :: '"' :: '"' :: rest => finish? ⟨'"', true, true⟩ ((lineBreak? rest).getD rest)
  | '\'' :: '\'' :: '\'' :: rest => finish? ⟨'\'', true, false⟩ ((lineBreak? rest).getD rest)
  | text => line? text

end FuzzyInference.Toml
