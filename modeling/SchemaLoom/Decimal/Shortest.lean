import SchemaLoom.Decimal.Binary64

/-!
# The shortest decimal of a binary number

A decimal reads back as a number when it lies between the midpoints to the number's two neighbours,
the midpoints included when the significand is even. The shortest decimal is a multiple of the
largest power of ten that has a multiple in that interval, and of those the one nearest to the
number.
-/

namespace SchemaLoom.Decimal

/-- The value `digits * 10 ^ power`. -/
structure Scientific where
  digits : Nat
  power : Int
deriving DecidableEq, Repr

namespace Binary64

/-- The interval of the decimals that read back as the number, in quarters of its unit: lower end,
number, upper end. Below a power of two the spacing halves. -/
def interval (x : Binary64) : Nat × Nat × Nat :=
  let m := 4 * x.significand
  let below := if x.significand = twoTo 52 && x.exponent > minExponent then 1 else 2
  (m - below, m, m + 2)

/-- Whether the ends of the interval read back as the number. -/
def endsIncluded (x : Binary64) : Bool := x.significand % 2 == 0

/-- The multiple of `10 ^ power` nearest to the number, if one of its two neighbours on that grid
reads back as the number. -/
def onGrid? (x : Binary64) (power : Int) : Option Nat :=
  let unit := x.exponent - 2
  let (lower, value, upper) := x.interval
  -- quarters of a unit and grid points in one common measure
  let quarter := twoTo unit * tenTo (-power)
  let step := tenTo power * twoTo (-unit)
  let inside (point : Nat) : Bool :=
    if x.endsIncluded then lower * quarter ≤ point && point ≤ upper * quarter
    else lower * quarter < point && point < upper * quarter
  let value := value * quarter
  let k := value / step
  match inside (k * step), inside ((k + 1) * step) with
  | false, false => none
  | true, false => some k
  | false, true => some (k + 1)
  | true, true =>
    let down := value - k * step
    let up := (k + 1) * step - value
    if down < up then some k
    else if up < down then some (k + 1)
    else if k % 2 = 0 then some k else some (k + 1)

/-- Tries ever finer grids, beginning with `power`. -/
def searchGrids (x : Binary64) : Nat → Int → Scientific
  | 0, power => ⟨0, power⟩
  | tries + 1, power =>
    match x.onGrid? power with
    | some digits => ⟨digits, power⟩
    | none => x.searchGrids tries (power - 1)

/-- A power of ten above the number. -/
def powerAbove (x : Binary64) : Int :=
  (x.exponent + (x.significand.log2 : Int) + 1) * 30103 / 100000 + 1

/-- The shortest decimal that reads back as the number, without its sign. -/
def shortest (x : Binary64) : Scientific :=
  if x.isZero then ⟨0, 0⟩ else x.searchGrids 24 x.powerAbove

end Binary64

end SchemaLoom.Decimal
