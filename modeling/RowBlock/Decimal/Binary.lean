import RowBlock.Arithmetic

set_option autoImplicit false

/-! # Binary floating point numbers, exactly

A finite binary floating point number is `± significand · 2 ^ exponent`. A `Format` says how
many bits a significand has and which exponents occur; `Format.round` rounds an exact quotient
of naturals to a format, to the nearest number and, half way, to the even one. All arithmetic
on the values is done on naturals.
-/

namespace RowBlock.Decimal

/-! ## Formats and values

A format is given by its precision and the exponents of the last place. The three formats embed into
each other, so a value of any of them can be kept as one of the largest. -/

/-- A binary floating point format, and how long its numbers may get in decimal. -/
structure Format where
  /-- Number of bits of a significand, the leading one included. -/
  precision : Nat
  /-- Exponent of the last place of the smallest numbers. -/
  least : Int
  /-- Exponent of the last place of the largest numbers. -/
  most : Int
  /-- The most digits before the point of a number that is written positionally. -/
  wholeDigits : Nat
  deriving DecidableEq, Repr

namespace Format

def half : Format := ⟨11, -24, 5, 3⟩

def single : Format := ⟨24, -149, 104, 6⟩

def double : Format := ⟨53, -1074, 971, 16⟩

end Format

inductive Value where
  | nan
  | infinite (negative : Bool)
  | finite (negative : Bool) (significand : Nat) (exponent : Int)
  deriving DecidableEq, Repr

/-! ## Rounding

The place of the last digit is found from the size of the quotient and not below that of the
smallest numbers, so that gradual underflow needs no case of its own. Rounding up may carry into one
digit more, which moves the place by one. -/

/-- `num / den` rounded to a whole number, half way to the even one. -/
def roundDiv (num den : Nat) : Nat :=
  let q := num / den
  let r := num % den
  if 2 * r < den || (2 * r == den && q % 2 == 0) then q else q + 1

/-- The greatest `t` with `2 ^ t ≤ num / den`, for positive `num` and `den`. -/
def floorLog2 (num den : Nat) : Int :=
  let t : Int := (num.log2 : Int) - den.log2
  let reached := if 0 ≤ t then den * 2 ^ t.toNat ≤ num else den ≤ num * 2 ^ (-t).toNat
  if reached then t else t - 1

/-- `significand · 2 ^ exponent` as a quotient of naturals. -/
def quotient (significand : Nat) (exponent : Int) : Nat × Nat :=
  if 0 ≤ exponent then (significand * 2 ^ exponent.toNat, 1)
  else (significand, 2 ^ (-exponent).toNat)

/-- **Correct rounding.** The number of the format nearest to `± num / den`. -/
def Format.round (f : Format) (negative : Bool) (num den : Nat) : Value :=
  if num = 0 then .finite negative 0 f.least
  else
    let place := max f.least (floorLog2 num den - (f.precision - 1))
    let q :=
      if 0 ≤ place then roundDiv num (den * 2 ^ place.toNat)
      else roundDiv (num * 2 ^ (-place).toNat) den
    let (q, place) := if q = 2 ^ f.precision then (q / 2, place + 1) else (q, place)
    if f.most < place then .infinite negative else .finite negative q place

namespace Value

/-! ## Bit patterns

The core library gives and takes floats as sixty-four bits, and cells of floating point types are
kept that way too. -/

/-- The value of a sixty-four bit pattern. -/
def ofBits (bits : Nat) : Value :=
  let negative := bits / 2 ^ 63 % 2 == 1
  let field : Nat := bits / 2 ^ 52 % 2 ^ 11
  let fraction : Nat := bits % 2 ^ 52
  if field = 2047 then (if fraction = 0 then .infinite negative else .nan)
  else if field = 0 then .finite negative fraction Format.double.least
  else .finite negative (fraction + 2 ^ 52) ((field : Int) - 1075)

/-- The nearest number of another format. -/
def narrow (f : Format) : Value → Value
  | .finite negative m e =>
    let (num, den) := quotient m e
    f.round negative num den
  | v => v

/-- The sixty-four bit pattern of a value, rounded to that format first. -/
def toBits (v : Value) : Nat :=
  let pack (negative : Bool) (field fraction : Nat) : Nat :=
    (if negative then 2 ^ 63 else 0) + field * 2 ^ 52 + fraction
  match v.narrow Format.double with
  | .nan => pack false 2047 (2 ^ 51)
  | .infinite negative => pack negative 2047 0
  | .finite negative m e =>
    if m < 2 ^ 52 then pack negative 0 m else pack negative (e + 1075).toNat (m - 2 ^ 52)

def ofFloat (x : Float) : Value :=
  ofBits x.toBits.toNat

def toFloat (v : Value) : Float :=
  Float.ofBits (UInt64.ofNat v.toBits)

/-- The value of a whole number in a format. -/
def ofInt (f : Format) (n : Int) : Value :=
  f.round (n < 0) n.natAbs 1

def truncate? : Value → Option Int
  | .finite negative m e =>
    let (num, den) := quotient m e
    some (if negative then -((num / den : Nat) : Int) else (num / den : Nat))
  | _ => none

end Value

/-- The float nearest to a whole number; `none` when it lies beyond all of them. -/
def floatOfInt? (n : Int) : Option Float :=
  match Value.ofInt Format.double n with
  | .finite negative m e => some (Value.finite negative m e).toFloat
  | _ => none

end RowBlock.Decimal
