import FuzzyInference.Text.CaseTable

/-! Two foldings of letter case: the ASCII one for keywords and set labels, and full lower-casing for
the names of variables and of operators. -/

namespace FuzzyInference.Text

/-- What remains of a text when the case of its ASCII letters is ignored. -/
def caseKey (s : String) : List Char := s.toList.map Char.toLower

def eqIgnoringCase (s t : String) : Bool := caseKey s == caseKey t

def inRanges (ranges : List (Nat × Nat)) (c : Char) : Bool :=
  ranges.any fun (first, last) => decide (first ≤ c.toNat) && decide (c.toNat ≤ last)

def isCased (c : Char) : Bool := c.isAlpha || inRanges casedRanges c

def isIgnorable (c : Char) : Bool := inRanges ignorableRanges c

/-- The lower-case form of a character outside any context. -/
def lowerChar (c : Char) : List Char :=
  if c.toNat < 128 then [c.toLower]
  else if c = 'İ' then ['i', '\u0307']
  else
    let run := lowerRuns.find? fun (first, last, step, _) =>
      decide (first ≤ c.toNat) && decide (c.toNat ≤ last) && (c.toNat - first) % step == 0
    match run with
    | some (_, _, _, offset) => [Char.ofNat (c.toNat + offset).toNat]
    | none => [c]

/-- Whether the first character that counts is a letter with case. -/
def opensCased (cs : List Char) : Bool :=
  ((cs.dropWhile isIgnorable).head?.map isCased).getD false

/-- Lowers a text, given the characters before it, nearest first. A capital sigma at the end of a
word becomes the final letter. -/
def lowerFrom (before : List Char) : List Char → List Char
  | [] => []
  | c :: rest =>
    (if c = 'Σ' then [if opensCased before && !opensCased rest then 'ς' else 'σ']
      else lowerChar c) ++ lowerFrom (c :: before) rest

def lowerCase (s : String) : String := String.ofList (lowerFrom [] s.toList)

end FuzzyInference.Text
