/-! Numbers as they are written: a sign, decimal digits and a power of ten, or one of the two
special values. The reader accepts the free form used in rule text and on the command line. -/

namespace FuzzyInference

inductive Literal where
  /-- `digits * 10 ^ exponent`, negated if `negative`. Zero keeps its sign. -/
  | finite (negative : Bool) (digits : Nat) (exponent : Int)
  | infinite (negative : Bool)
  | notANumber
deriving DecidableEq, Repr

namespace Literal

/-- The value of a string of decimal digits, most significant first. -/
def digitsValue (ds : List Char) : Nat :=
  ds.foldl (fun n d => 10 * n + (d.toNat - '0'.toNat)) 0

/-- A sign in front of a text, if there is one; the sign `-` is `true`. -/
def sign? : List Char → Bool × List Char
  | '-' :: rest => (true, rest)
  | '+' :: rest => (false, rest)
  | text => (false, text)

/-- A whole and a fractional part, read against a written power of ten. -/
def ofParts (negative : Bool) (whole fraction : List Char) (power : Int) : Literal :=
  .finite negative (digitsValue (whole ++ fraction)) (power - fraction.length)

/-- What follows the digits: nothing, or `e` or `E` with a signed power of ten. -/
def power? : List Char → Option Int
  | [] => some 0
  | c :: rest =>
    if c = 'e' ∨ c = 'E' then
      let (negative, digits) := sign? rest
      if digits ≠ [] ∧ digits.all Char.isDigit then
        some (if negative then -(digitsValue digits : Int) else digitsValue digits)
      else none
    else none

/-- Digits with an optional point and power of ten; at least one digit stands beside the point. -/
def unsigned? (negative : Bool) (text : List Char) : Option Literal :=
  let whole := text.takeWhile Char.isDigit
  match text.dropWhile Char.isDigit with
  | '.' :: rest =>
    let fraction := rest.takeWhile Char.isDigit
    if whole = [] ∧ fraction = [] then none
    else (power? (rest.dropWhile Char.isDigit)).map (ofParts negative whole fraction)
  | rest => if whole = [] then none else (power? rest).map (ofParts negative whole [])

/-- The free form: a decimal number, `inf`, `infinity` or `nan` in any case, with an optional sign. -/
def read? (text : List Char) : Option Literal :=
  let (negative, body) := sign? text
  let word := body.map Char.toLower
  if word = "inf".toList ∨ word = "infinity".toList then some (.infinite negative)
  else if word = "nan".toList then some .notANumber
  else unsigned? negative body

end Literal

/-- Scalars that have a written form. -/
class Numeral (α : Type) where
  /-- The nearest value to a literal. -/
  ofLiteral : Literal → α
  /-- The value inside running text. -/
  text : α → String
  /-- The value as a member of a list of parameters. -/
  memberText : α → String

end FuzzyInference
