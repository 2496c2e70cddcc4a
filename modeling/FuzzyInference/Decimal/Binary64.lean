import FuzzyInference.Decimal.Literal
import FuzzyInference.Decimal.Style
import FuzzyInference.Scalar.Binary64

/-! Decimal text of binary64 numbers, read and written. -/

namespace FuzzyInference.Binary64

/-- A binary64 number taken apart. -/
inductive Parts where
  | zero (negative : Bool)
  | finite (negative : Bool) (magnitude : Dyadic)
  | infinite (negative : Bool)
  | notANumber

def parts (x : Float) : Parts :=
  let bits : Nat := x.toBits.toNat
  let negative := bits / Nat.pow 2 63 == 1
  let exponent : Nat := bits / Nat.pow 2 52 % Nat.pow 2 11
  let fraction : Nat := bits % Nat.pow 2 52
  if exponent == 2047 then if fraction == 0 then .infinite negative else .notANumber
  else if exponent == 0 then
    if fraction == 0 then .zero negative else .finite negative ⟨fraction, -1074, false⟩
  else .finite negative
    ⟨Nat.pow 2 52 + fraction, (exponent : Int) - 1075, fraction == 0 && exponent > 1⟩

/-- The text of a number in a given style. Zero keeps its sign. -/
def render (style : Style) (x : Float) : String :=
  let signed (negative : Bool) (body : List Char) : String :=
    String.ofList (if negative then '-' :: body else body)
  match parts x with
  | .zero negative => signed negative (style.layout ⟨0, 0⟩)
  | .finite negative magnitude => signed negative (style.layout (magnitude.shortest style.tie))
  | .infinite negative => signed negative style.infinite.toList
  | .notANumber => style.notANumber

/-- The text of a number with a fixed count of places after the point. -/
def renderFixed (places : Nat) (x : Float) : String :=
  let signed (negative : Bool) (body : List Char) : String :=
    String.ofList (if negative then '-' :: body else body)
  match parts x with
  | .zero negative => signed negative ((⟨0, 0, false⟩ : Dyadic).fixed places)
  | .finite negative magnitude => signed negative (magnitude.fixed places)
  | .infinite negative => signed negative "inf".toList
  | .notANumber => "NaN"

/-- Numbers in running text: shortest digits, never a power of ten, no point on whole numbers. -/
def textStyle : Style where
  plain := none
  pointZero := false
  tie := .up
  infinite := "inf"
  notANumber := "NaN"

/-- Numbers as members of a list: whole numbers keep `.0`, and a power of ten stands where the
leading digit is at 10¹⁶ or above, or below 10⁻⁴. -/
def memberStyle : Style where
  plain := some (-4, 16)
  pointZero := true
  tie := .up
  infinite := "inf"
  notANumber := "NaN"

/-- The nearest binary64 number, a half to the even neighbour. Powers of ten far outside the range
are cut first, so that no huge power is ever formed. -/
def ofLiteral : Literal → Float
  | .notANumber => 0 / 0
  | .infinite negative => if negative then -1 / 0 else 1 / 0
  | .finite negative digits exponent =>
    let size : Int := exponent + (Decimal.digitChars digits).length
    let magnitude : Float :=
      if digits = 0 then 0
      else if size > 400 then 1 / 0
      else if size < -400 then 0
      else Float.ofScientific digits (exponent < 0) exponent.natAbs
    if negative then -magnitude else magnitude

instance : Numeral Float where
  ofLiteral := ofLiteral
  text := render textStyle
  memberText := render memberStyle

end FuzzyInference.Binary64
