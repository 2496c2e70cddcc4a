/-! The shortest decimal that reads back as a given binary value, by exact integer arithmetic. -/

namespace FuzzyInference

/-- The positive value `mantissa * 2 ^ exponent`. At a power of two the gap to the value below is
half the gap to the value above; `narrow` says so. -/
structure Dyadic where
  mantissa : Nat
  exponent : Int
  narrow : Bool

/-- `digits * 10 ^ exponent` -/
structure Decimal where
  digits : Nat
  exponent : Int
deriving DecidableEq, Repr

/-- What to do when two candidates are equally near. -/
inductive Tie where
  | up
  | toEven

namespace Dyadic

/-- `a * 10 ^ i` against `b * 2 ^ j`, exactly. -/
def compareScaled (a : Nat) (i : Int) (b : Nat) (j : Int) : Ordering :=
  compare (a * Nat.pow 10 i.toNat * Nat.pow 2 (-j).toNat)
    (b * Nat.pow 2 j.toNat * Nat.pow 10 (-i).toNat)

/-- Whether reading `c * 10 ^ g` gives this value back: the decimal lies between the two halfway
points to the neighbours, which belong to the value exactly if its mantissa is even. -/
def readsBack (x : Dyadic) (c : Nat) (g : Int) : Bool :=
  let low := compareScaled c g (if x.narrow then 4 * x.mantissa - 1 else 4 * x.mantissa - 2)
    (x.exponent - 2)
  let high := compareScaled c g (4 * x.mantissa + 2) (x.exponent - 2)
  let even := x.mantissa % 2 == 0
  (low == .gt || (even && low == .eq)) && (high == .lt || (even && high == .eq))

/-- The greatest multiple of `10 ^ g` that is at most the value, in units of `10 ^ g`. -/
def below (x : Dyadic) (g : Int) : Nat :=
  (x.mantissa * Nat.pow 2 x.exponent.toNat * Nat.pow 10 (-g).toNat) /
    (Nat.pow 2 (-x.exponent).toNat * Nat.pow 10 g.toNat)

/-- Of the two neighbours of the value on the grid `10 ^ g`, the nearest that reads back. -/
def onGrid? (x : Dyadic) (tie : Tie) (g : Int) : Option Nat :=
  let c := x.below g
  match x.readsBack c g, x.readsBack (c + 1) g with
  | false, false => none
  | true, false => some c
  | false, true => some (c + 1)
  | true, true =>
    match compareScaled (2 * c + 1) g (2 * x.mantissa) x.exponent, tie with
    | .gt, _ => some c
    | .lt, _ => some (c + 1)
    | .eq, .up => some (c + 1)
    | .eq, .toEven => some (if c % 2 == 0 then c else c + 1)

/-- The exact decimal value, which always reads back. -/
def exact (x : Dyadic) : Decimal :=
  if 0 ≤ x.exponent then ⟨x.mantissa * Nat.pow 2 x.exponent.toNat, 0⟩
  else ⟨x.mantissa * Nat.pow 5 (-x.exponent).toNat, x.exponent⟩

/-- A power of ten that is at least the value and at most a few times ten too large. -/
def scale (x : Dyadic) : Int :=
  ((x.mantissa.log2 + 1 : Int) + x.exponent) * 30103 / 100000 + 1

/-- The coarsest grid that has a decimal reading back decides. Seventeen digits always do; the
range leaves room for the estimate of the first grid. -/
def shortest (x : Dyadic) (tie : Tie) : Decimal :=
  ((List.range 22).findSome? fun (i : Nat) =>
    let g := x.scale - (i : Int)
    (x.onGrid? tie g).map (⟨·, g⟩)).getD x.exact

end Dyadic

end FuzzyInference
