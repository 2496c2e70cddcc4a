import FuzzyInference.Decimal.Shortest

/-! How the digits of a number are laid out: positionally, with a power of ten, or with a fixed
number of places. A `Style` is the set of decisions of one kind of output. -/

namespace FuzzyInference

namespace Decimal

def digitChars (n : Nat) : List Char := Nat.toDigits 10 n

/-- The power of ten of the leading digit. -/
def leading (d : Decimal) : Int := d.exponent + (digitChars d.digits).length - 1

/-- Digits before and after the point, without a power of ten. A value below one has a zero before
the point, a whole value has nothing after it. -/
def positional (d : Decimal) : List Char × List Char :=
  let ds := digitChars d.digits
  if 0 ≤ d.exponent then (ds ++ List.replicate d.exponent.toNat '0', [])
  else
    let places := (-d.exponent).toNat
    if places < ds.length then (ds.take (ds.length - places), ds.drop (ds.length - places))
    else (['0'], List.replicate (places - ds.length) '0' ++ ds)

/-- One digit before the point and the power of ten after the letter `e`. -/
def scientific (plusSign : Bool) (d : Decimal) : List Char :=
  let point : List Char → List Char
    | [] => []
    | ds => '.' :: ds
  match digitChars d.digits with
  | [] => []
  | c :: ds =>
    let e := d.leading
    let sign := if e < 0 then ['-'] else if plusSign then ['+'] else []
    c :: point ds ++ ['e'] ++ sign ++ digitChars e.natAbs

end Decimal

structure Style where
  /-- Powers of the leading digit that are written positionally, first and one past the last;
  `none` for all of them. -/
  plain : Option (Int × Int)
  /-- Whether a whole number ends in `.0`. -/
  pointZero : Bool
  /-- Whether a positive power of ten has a sign. -/
  plusSign : Bool := false
  tie : Tie
  infinite : String
  notANumber : String

namespace Style

def layout (s : Style) (d : Decimal) : List Char :=
  let plain := match s.plain with
    | none => true
    | some (first, past) => first ≤ d.leading && d.leading < past
  if plain then
    match d.positional with
    | (whole, []) => if s.pointZero then whole ++ ".0".toList else whole
    | (whole, fraction) => whole ++ '.' :: fraction
  else d.scientific s.plusSign

end Style

/-- `numerator / denominator` to the nearest whole number, a half to the even neighbour. -/
def roundHalfEven (numerator denominator : Nat) : Nat :=
  let q := numerator / denominator
  match compare (2 * (numerator % denominator)) denominator with
  | .lt => q
  | .gt => q + 1
  | .eq => if q % 2 == 0 then q else q + 1

/-- A value with exactly `places` digits after the point. -/
def Dyadic.fixed (x : Dyadic) (places : Nat) : List Char :=
  let n := roundHalfEven (x.mantissa * Nat.pow 2 x.exponent.toNat * Nat.pow 10 places)
    (Nat.pow 2 (-x.exponent).toNat)
  let ds := Decimal.digitChars n
  let padded := List.replicate (places + 1 - ds.length) '0' ++ ds
  let whole := padded.take (padded.length - places)
  if places = 0 then whole else whole ++ '.' :: padded.drop (padded.length - places)

end FuzzyInference
