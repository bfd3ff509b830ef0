import RowBlock.Decimal.Binary

set_option autoImplicit false

/-! # Reading a decimal as a float

A decimal has a sign, digits with at most one point among them and an exponent; it is read as
the nearest float. The names of infinity and of the undefined value are read too.
-/

namespace RowBlock.Decimal

def digitsValue (cs : List Char) : Nat :=
  cs.foldl (fun n c => 10 * n + (c.toNat - 48)) 0

def takeSign : List Char → Bool × List Char
  | '-' :: rest => (true, rest)
  | '+' :: rest => (false, rest)
  | rest => (false, rest)

/-- The exponent part of a decimal: nothing, or the letter, a sign and digits. -/
def exponent? : List Char → Option Int
  | [] => some 0
  | c :: rest =>
    if c = 'e' || c = 'E' then
      let (negative, digits) := takeSign rest
      if digits.isEmpty || !digits.all Char.isDigit then none
      else some (if negative then -(digitsValue digits : Int) else digitsValue digits)
    else none

def scale (negative : Bool) (d : Nat) (e : Int) : Value :=
  if 0 ≤ e then Format.double.round negative (d * 10 ^ e.toNat) 1
  else Format.double.round negative d (10 ^ (-e).toNat)

/-- **Reading.** The float a decimal text stands for. -/
def float? (s : String) : Option Float :=
  let (negative, body) := takeSign s.toList
  let word := (String.ofList body).toLower
  if word = "nan" then some (Value.nan).toFloat
  else if word = "inf" || word = "infinity" then some (Value.infinite negative).toFloat
  else
    let whole := body.takeWhile Char.isDigit
    let rest := body.drop whole.length
    let (fraction, rest) :=
      match rest with
      | '.' :: more =>
        let fraction := more.takeWhile Char.isDigit
        (fraction, more.drop fraction.length)
      | _ => ([], rest)
    if whole.isEmpty && fraction.isEmpty then none
    else (exponent? rest).map fun e =>
      (scale negative (digitsValue (whole ++ fraction)) (e - fraction.length)).toFloat

end RowBlock.Decimal
