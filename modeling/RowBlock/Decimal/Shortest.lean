import RowBlock.Decimal.Binary
import RowBlock.Text.Listing

set_option autoImplicit false

/-! # The shortest decimal that reads back

A floating point number is written with the fewest decimal digits that still round to it, and
of those with the digits nearest to it. The digits are found in exact arithmetic: on the grid
of `k`-digit decimals, for `k = 1, 2, …`, the two neighbours of the number are tested against
the interval of reals that round to it; its ends belong to it when the significand is even
(`Neighbourhood`).
-/

namespace RowBlock.Decimal

/-! ## Powers of ten -/

def digitCount (n : Nat) : Nat := (Nat.toDigits 10 n).length

/-- The greatest `t` with `10 ^ t ≤ num / den`, for positive `num` and `den`. -/
def floorLog10 (num den : Nat) : Int :=
  if den ≤ num then (digitCount (num / den) : Int) - 1
  else
    let t := digitCount (den / num)
    if den ≤ num * 10 ^ (t - 1) then -((t - 1 : Nat) : Int) else -(t : Int)

/-- `num / den` in units of `10 ^ place`, as a quotient again. -/
def inUnits (num den : Nat) (place : Int) : Nat × Nat :=
  if 0 ≤ place then (num, den * 10 ^ place.toNat) else (num * 10 ^ (-place).toNat, den)

/-! ## The interval of a number

A decimal reads back as the number exactly if it lies in the interval between the middles to both
neighbours. All bounds are naturals over a common denominator, and comparisons are by multiplying
out. -/

/-- A positive number of a format as the quotient `num / den`, with the interval of reals that
round to it, from `low / scale` to `high / scale`. The number begins at the digit `top`. -/
structure Neighbourhood where
  num : Nat
  den : Nat
  low : Nat
  high : Nat
  scale : Nat
  closed : Bool
  top : Int
  deriving DecidableEq, Repr

namespace Neighbourhood

/-- The neighbourhood of `significand · 2 ^ exponent`. Below a power of two the next number is
half as far away as above it. -/
def of (f : Format) (significand : Nat) (exponent : Int) : Neighbourhood :=
  let (num, den) := quotient significand exponent
  let narrowBelow := significand = 2 ^ (f.precision - 1) ∧ f.least < exponent
  let (low, scale) :=
    quotient (4 * significand - (if narrowBelow then 1 else 2)) (exponent - 2)
  let (high, _) := quotient (4 * significand + 2) (exponent - 2)
  ⟨num, den, low, high, scale, significand % 2 == 0, floorLog10 num den⟩

/-- Whether `d · 10 ^ place` rounds to the number. -/
def holds (n : Neighbourhood) (d : Nat) (place : Int) : Bool :=
  let (x, unit) := if 0 ≤ place then (d * 10 ^ place.toNat * n.scale, 1)
    else (d * n.scale, 10 ^ (-place).toNat)
  if n.closed then n.low * unit ≤ x && x ≤ n.high * unit
  else n.low * unit < x && x < n.high * unit

def nearest (n : Neighbourhood) (place : Int) : Nat :=
  let (num, den) := inUnits n.num n.den place
  roundDiv num den

/-- The best number of units of `10 ^ place`, if one reads back. -/
def onGrid? (n : Neighbourhood) (place : Int) : Option Nat :=
  let (num, den) := inUnits n.num n.den place
  let q := num / den
  match n.holds q place, n.holds (q + 1) place with
  | true, true => some (n.nearest place)
  | true, false => some q
  | false, true => some (q + 1)
  | false, false => none

end Neighbourhood

/-! ## Digits

The search runs over the number of digits, and at each number of digits only the two decimals next
to the number need to be looked at. -/

/-- Moves trailing zeros of `d · 10 ^ place` into the exponent. -/
def stripZeros : Nat → Nat → Int → Nat × Int
  | 0, d, place => (d, place)
  | fuel + 1, d, place =>
    if d ≠ 0 ∧ d % 10 = 0 then stripZeros fuel (d / 10) (place + 1) else (d, place)

/-- **Shortest decimal.** Digits and exponent of the shortest decimal that rounds to
`significand · 2 ^ exponent` in the format; seventeen digits always do for the formats here. -/
def shortest (f : Format) (significand : Nat) (exponent : Int) : Nat × Int :=
  let n := Neighbourhood.of f significand exponent
  let found := (List.range 17).findSome? fun k : Nat =>
    (n.onGrid? (n.top - k)).map fun d => (d, n.top - k)
  let (d, place) := found.getD (n.num, 0)
  stripZeros 17 d place

/-! ## Texts -/

/-- Digits with a decimal point, `10 ^ place` being the unit of the last one. A number without
fraction keeps `.0`. -/
def positional (d : Nat) (place : Int) : String :=
  let digits := toString d
  let count := digits.length
  let top : Int := place + count - 1
  if top < 0 then "0." ++ String.ofList (List.replicate (-top - 1).toNat '0') ++ digits
  else
    let whole := top.toNat + 1
    if count ≤ whole then digits ++ String.ofList (List.replicate (whole - count) '0') ++ ".0"
    else String.ofList (digits.toList.take whole) ++ "." ++
      String.ofList (digits.toList.drop whole)

def scientific (d : Nat) (place : Int) : String :=
  let digits := toString d
  let top : Int := place + digits.length - 1
  let head := String.ofList (digits.toList.take 1)
  let tail := String.ofList (digits.toList.drop 1)
  let mantissa := if tail.isEmpty then head else head ++ "." ++ tail
  mantissa ++ "e" ++ (if top < 0 then "-" else "+") ++ Text.zeroPadded 2 top.natAbs

def text (f : Format) : Value → String
  | .nan => "nan"
  | .infinite negative => if negative then "-inf" else "inf"
  | .finite negative m e =>
    let body := if m = 0 then "0.0" else
      let (num, den) := quotient m e
      let (d, place) := shortest f m e
      if den ≤ num * 10 ^ 4 ∧ num < den * 10 ^ f.wholeDigits then positional d place
      else scientific d place
    if negative then "-" ++ body else body

def floatText (x : Float) : String := text Format.double (Value.ofFloat x)

end RowBlock.Decimal
