import RowBlock.Decimal.Binary

set_option autoImplicit false

/-! # Whole and floating point numbers together

A time is a whole number or a float. Two whole numbers are added exactly, and their quotient is
rounded once; as soon as a float takes part, both are floats. A whole number beyond the range of
floats cannot become one, and neither can a quotient. Numbers compare by their exact values.
-/

namespace RowBlock.Decimal

/-! ## Errors

The errors are those of whole numbers that are too large. Floats overflow to infinity in sums,
differences and quotients without an error; only their squares are checked. -/

inductive NumberError where
  | tooLarge
  | quotientTooLarge
  | outOfRange
  | pastWords
  deriving DecidableEq, Repr

def NumberError.message : NumberError → String
  | tooLarge => "int too large to convert to float"
  | quotientTooLarge => "integer division result too large for a float"
  | outOfRange => "(34, 'Numerical result out of range')"
  | pastWords => "Python int too large to convert to C long"

/-! ## Arithmetic

A sum stays whole as long as only whole numbers have been added, and is converted at the first
float. So the order of the numbers decides where rounding begins. -/

/-- A whole number or a float. -/
inductive Number where
  | whole (n : Int)
  | real (x : Float)

namespace Number

def toFloat : Number → Except NumberError Float
  | whole n =>
    match floatOfInt? n with
    | some x => .ok x
    | none => .error .tooLarge
  | real x => .ok x

def add : Number → Number → Except NumberError Number
  | whole m, whole n => .ok (whole (m + n))
  | x, y => do return real ((← x.toFloat) + (← y.toFloat))

def sum (xs : List Number) : Except NumberError Number := xs.foldlM add (whole 0)

/-- The quotient by a positive count. -/
def divide (x : Number) (count : Nat) : Except NumberError Float :=
  match x with
  | whole n =>
    match Format.double.round (n < 0) n.natAbs count with
    | .finite negative m e => .ok (Value.finite negative m e).toFloat
    | _ => .error .quotientTooLarge
  | real x => .ok (x / Float.ofNat count)

def minus (x : Number) (y : Float) : Except NumberError Float := do return (← x.toFloat) - y

def square (x : Float) : Except NumberError Float :=
  let y := x ^ (2 : Float)
  if x.isFinite && y.isInf then .error .outOfRange else .ok y

/-! ## Order

A whole number is compared with a float by their exact values, without rounding either, so that
comparison also works where conversion fails. -/

/-- Whether `± m · 2 ^ e` is less than a whole number. -/
def valueLess (v : Value) (n : Int) : Bool :=
  match v with
  | .nan => false
  | .infinite negative => negative
  | .finite negative m e =>
    let (num, den) := quotient m e
    let top : Int := if negative then -(num : Int) else num
    top < n * den

/-- Whether a whole number is less than `± m · 2 ^ e`. -/
def lessThanValue (n : Int) (v : Value) : Bool :=
  match v with
  | .nan => false
  | .infinite negative => !negative
  | .finite negative m e =>
    let (num, den) := quotient m e
    let top : Int := if negative then -(num : Int) else num
    n * den < top

/-- Whether a number is less than another; the undefined value is not comparable. -/
def less : Number → Number → Bool
  | whole m, whole n => m < n
  | real x, real y => x < y
  | whole m, real y => lessThanValue m (Value.ofFloat y)
  | real x, whole n => valueLess (Value.ofFloat x) n

/-- The first of the least numbers. -/
def least : Number → List Number → Number :=
  List.foldl fun best x => if x.less best then x else best

/-- The first of the greatest numbers. -/
def greatest : Number → List Number → Number :=
  List.foldl fun best x => if best.less x then x else best

end Number

end RowBlock.Decimal
