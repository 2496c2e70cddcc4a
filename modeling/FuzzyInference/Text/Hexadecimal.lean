/-! Hexadecimal digits. -/

namespace FuzzyInference.Text

/-- The value of a digit, whose letters may have either case. -/
def hexValue? (c : Char) : Option Nat :=
  if c.isDigit then some (c.toNat - '0'.toNat)
  else if 'a' ≤ c ∧ c ≤ 'f' then some (c.toNat - 'a'.toNat + 10)
  else if 'A' ≤ c ∧ c ≤ 'F' then some (c.toNat - 'A'.toNat + 10)
  else none

/-- Exactly `count` digits at the front of a text, most significant first, and what follows them. -/
def hexNumber? (count : Nat) (text : List Char) : Option (Nat × List Char) := do
  let digits ← (text.take count).mapM hexValue?
  if digits.length = count then
    some (digits.foldl (fun n d => 16 * n + d) 0, text.drop count)
  else none

/-- The lower-case digits of a number, with zeros in front up to a width. -/
def hexDigits (width n : Nat) : List Char :=
  let ds := Nat.toDigits 16 n
  List.replicate (width - ds.length) '0' ++ ds

end FuzzyInference.Text
