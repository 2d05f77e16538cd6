/-!
# Finite 64-bit binary floating point numbers

A number is kept as sign, significand and power of two, so that everything said about it is said
about natural numbers. `roundRatio` gives the number nearest to a quotient, an exact half going to
the even significand; products, quotients and the reading of a decimal are this one rounding applied
to an exact quotient.
-/

namespace SchemaLoom.Decimal

/-- The value `± significand * 2 ^ exponent`. -/
structure Binary64 where
  negative : Bool
  significand : Nat
  exponent : Int
deriving DecidableEq, Repr, Inhabited

namespace Binary64

/-- The exponent of the smallest numbers. -/
def minExponent : Int := -1074

/-- The exponent of the largest numbers. -/
def maxExponent : Int := 971

def zero (negative : Bool) : Binary64 := ⟨negative, 0, minExponent⟩

def isZero (x : Binary64) : Bool := x.significand == 0

def withSign (negative : Bool) (x : Binary64) : Binary64 := { x with negative }

/-- Equality of values: the two zeros are equal. -/
def sameValue (x y : Binary64) : Bool := x == y || (x.isZero && y.isZero)

/-- The natural number nearest to `num / den`, a half going to the even one. -/
def divNearest (num den : Nat) : Nat :=
  let q := num / den
  let r := num % den
  if 2 * r < den then q
  else if 2 * r > den then q + 1
  else if q % 2 = 0 then q else q + 1

/-- Two to a power; one when the power is negative. -/
def twoTo (e : Int) : Nat := Nat.pow 2 e.toNat

/-- Ten to a power; one when the power is negative. -/
def tenTo (e : Int) : Nat := Nat.pow 10 e.toNat

/-- `num / den` in units of `2 ^ e`, rounded. -/
def scaledQuotient (num den : Nat) (e : Int) : Nat :=
  divNearest (num * twoTo (-e)) (den * twoTo e)

/-- `num / den` in units of `2 ^ e`, rounded down. -/
def floorQuotient (num den : Nat) (e : Int) : Nat :=
  num * twoTo (-e) / (den * twoTo e)

/-- The unit in which the significand of `num / den` has 53 bits, or the smallest unit. -/
def unitFor (num den : Nat) : Int :=
  let e : Int := (num.log2 : Int) - (den.log2 : Int) - 53
  let e := if floorQuotient num den e < twoTo 53 then e else e + 1
  max e minExponent

/-- The non-negative number nearest to `num / den`; nothing when that is beyond the largest. -/
def roundRatio (num den : Nat) : Option Binary64 :=
  if num = 0 then some (zero false)
  else
    let e := unitFor num den
    let m := scaledQuotient num den e
    let (m, e) := if m = twoTo 53 then (twoTo 52, e + 1) else (m, e)
    if e > maxExponent then none else some ⟨false, m, e⟩

def ofNat? (n : Nat) : Option Binary64 := roundRatio n 1

/-- The product, rounded once. -/
def mul? (x y : Binary64) : Option Binary64 :=
  let m := x.significand * y.significand
  let e := x.exponent + y.exponent
  (roundRatio (m * twoTo e) (twoTo (-e))).map (withSign (x.negative != y.negative))

/-- The quotient by a number other than zero, rounded once. -/
def div? (x y : Binary64) : Option Binary64 :=
  let e := x.exponent - y.exponent
  (roundRatio (x.significand * twoTo e) (y.significand * twoTo (-e))).map
    (withSign (x.negative != y.negative))

/-- The number of decimal digits. -/
def digitCount (n : Nat) : Nat := (Nat.toDigits 10 n).length

/-- The non-negative number nearest to `digits * 10 ^ power`; nothing beyond the largest. Powers far
outside the range are decided by the size alone. -/
def ofDecimal? (digits : Nat) (power : Int) : Option Binary64 :=
  let magnitude : Int := (digitCount digits : Int) + power
  if digits = 0 then some (zero false)
  else if magnitude > 310 then none
  else if magnitude < -330 then some (zero false)
  else roundRatio (digits * tenTo power) (tenTo (-power))

end Binary64

end SchemaLoom.Decimal
