import SchemaLoom.Decimal.Shortest

/-!
# Decimal notation

Digits of natural numbers and the written form of a floating point number: positional with a point
for magnitudes from `10 ^ -5` up to `10 ^ 16`, scientific outside.
-/

namespace SchemaLoom.Decimal

/-- The character of a digit below sixteen. -/
def digitChar (n : Nat) : Char :=
  if n < 10 then Char.ofNat (48 + n) else Char.ofNat (87 + n)

/-- The decimal digits of a number, without leading zeros. -/
def digits (n : Nat) : List Char :=
  if n < 10 then [digitChar n] else digits (n / 10) ++ [digitChar (n % 10)]
termination_by n

def integer (n : Int) : List Char :=
  if n < 0 then '-' :: digits n.natAbs else digits n.natAbs

/-- How a floating point number is written outside the positional range. -/
structure Style where
  /-- Whether an exponent that is not negative carries a plus sign. -/
  plusSign : Bool
deriving DecidableEq, Repr

def zeros (n : Nat) : List Char := List.replicate n '0'

/-- The digits with a point so that the last digit has the weight `10 ^ power`. -/
def positional (ds : List Char) (power : Int) : List Char :=
  if 0 ≤ power then ds ++ zeros power.toNat ++ ['.', '0']
  else
    let places := (-power).toNat
    if places < ds.length then
      ds.take (ds.length - places) ++ '.' :: ds.drop (ds.length - places)
    else '0' :: '.' :: zeros (places - ds.length) ++ ds

/-- One digit, the others behind a point, and the exponent of the first. -/
def scientific (style : Style) (ds : List Char) (exponent : Int) : List Char :=
  let fraction := match ds.drop 1 with
    | [] => []
    | rest => '.' :: rest
  let sign := if exponent < 0 then ['-'] else if style.plusSign then ['+'] else []
  ds.take 1 ++ fraction ++ 'e' :: sign ++ digits exponent.natAbs

/-- The shortest text that reads back as the number. -/
def real (style : Style) (x : Binary64) : List Char :=
  let sign := if x.negative then ['-'] else []
  let s := x.shortest
  let ds := digits s.digits
  let exponent : Int := (ds.length : Int) + s.power - 1
  if x.isZero then sign ++ ['0', '.', '0']
  else if -5 ≤ exponent && exponent < 16 then sign ++ positional ds s.power
  else sign ++ scientific style ds exponent

end SchemaLoom.Decimal
