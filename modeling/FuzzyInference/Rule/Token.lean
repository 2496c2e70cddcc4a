import FuzzyInference.Text.Line

/-! The words of a rule. A comma is a word of its own; all other words are runs of characters that are
neither blank nor commas. -/

namespace FuzzyInference.Rule

/-- The blanks that separate words. Any other blank ends the rule where it stands. -/
def isSeparator (c : Char) : Bool := c == ' ' || c == '\t' || c == '\r' || c == '\n'

def isWordChar (c : Char) : Bool := c != ',' && !Text.isBlank c

def tokens : List Char → List (List Char)
  | [] => []
  | c :: rest =>
    if c = ',' then [','] :: tokens rest
    else if isSeparator c then tokens rest
    else if Text.isBlank c then []
    else
      match rest, tokens rest with
      | d :: _, word :: words => if isWordChar d then (c :: word) :: words else [c] :: word :: words
      | _, words => [c] :: words

def tokenize (line : String) : List String := (tokens line.toList).map String.ofList

end FuzzyInference.Rule
