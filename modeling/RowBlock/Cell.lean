import RowBlock.Decimal.Fused

set_option autoImplicit false

/-! # Cell types

The cells of a tensor share one type: a signed or unsigned integer of fixed width, a binary
floating point number, or a truth value. A cell is held as one integer *word*: the integer
itself; one or zero for a truth value; and for a floating point number the sixty-four bit
pattern of its value, which every format here embeds into.

Integer arithmetic wraps: `IntType.wrap` reduces modulo `2 ^ width` into the range of the type.
Two types have a common type to compute in (`CellType.promote`).
-/

namespace RowBlock

open Decimal

/-! ## Integer types

A type is a width and whether it has a sign, and its range follows from the two. `wrap` is what all
integer arithmetic of the library ends with: `holds_wrap` says that it gives a value of the type,
and `wrap_of_holds` that it changes nothing else. -/

/-- How many bits an integer has. -/
inductive Width where
  | w8
  | w16
  | w32
  | w64
  deriving DecidableEq, Repr

def Width.bits : Width → Nat
  | .w8 => 8
  | .w16 => 16
  | .w32 => 32
  | .w64 => 64

/-- An integer type of fixed width. -/
structure IntType where
  signed : Bool
  width : Width
  deriving DecidableEq, Repr

namespace IntType

def int8 : IntType := ⟨true, .w8⟩
def int16 : IntType := ⟨true, .w16⟩
def int32 : IntType := ⟨true, .w32⟩
def int64 : IntType := ⟨true, .w64⟩
def uint8 : IntType := ⟨false, .w8⟩
def uint16 : IntType := ⟨false, .w16⟩
def uint32 : IntType := ⟨false, .w32⟩
def uint64 : IntType := ⟨false, .w64⟩

def modulus (t : IntType) : Nat := 2 ^ t.width.bits

def least (t : IntType) : Int := if t.signed then -2 ^ (t.width.bits - 1) else 0

def greatest (t : IntType) : Int :=
  if t.signed then 2 ^ (t.width.bits - 1) - 1 else 2 ^ t.width.bits - 1

/-- Whether the type has the value. -/
def Holds (t : IntType) (x : Int) : Prop := t.least ≤ x ∧ x ≤ t.greatest

instance (t : IntType) (x : Int) : Decidable (t.Holds x) :=
  inferInstanceAs (Decidable (_ ∧ _))

/-- **Wrapping.** The value of the type that differs from `x` by a multiple of the modulus. -/
def wrap (t : IntType) (x : Int) : Int :=
  if t.signed then x.bmod t.modulus else x % t.modulus

def name (t : IntType) : String :=
  (if t.signed then "int" else "uint") ++ toString t.width.bits

/-- A wrapped value is one of the type. -/
theorem holds_wrap (t : IntType) (x : Int) : t.Holds (t.wrap x) := by
  rcases t with ⟨signed, width⟩
  cases signed
  · cases width <;> simp only [Holds, wrap, least, greatest, modulus, Width.bits,
      Bool.false_eq_true, if_false, Nat.reducePow] <;> omega
  · cases width <;> simp only [Holds, wrap, least, greatest, modulus, Width.bits, if_true,
      Int.bmod_def, Nat.reducePow] <;> split <;> omega

/-- Wrapping keeps the values of the type. -/
theorem wrap_of_holds (t : IntType) {x : Int} (h : t.Holds x) : t.wrap x = x := by
  rcases t with ⟨signed, width⟩
  revert h
  cases signed
  · cases width <;> simp only [Holds, wrap, least, greatest, modulus, Width.bits,
      Bool.false_eq_true, if_false, Nat.reducePow] <;> omega
  · cases width <;> simp only [Holds, wrap, least, greatest, modulus, Width.bits, if_true,
      Int.bmod_def, Nat.reducePow] <;> split <;> omega

/-- The common type of two integer types; `none` for a signed type and `uint64`, which no
integer type covers. -/
def promote? (s t : IntType) : Option IntType :=
  if s.signed = t.signed then
    some (if s.width.bits < t.width.bits then t else s)
  else
    let (signed, unsigned) := if s.signed then (s, t) else (t, s)
    if unsigned.width.bits < signed.width.bits then some signed
    else
      match unsigned.width with
      | .w8 => some int16
      | .w16 => some int32
      | .w32 => some int64
      | .w64 => none

end IntType

/-! ## Floating point types

The types are ordered by their precision, and the common type of two of them is the larger one. -/

/-- A floating point type. -/
inductive FloatType where
  | half
  | single
  | double
  deriving DecidableEq, Repr

namespace FloatType

def format : FloatType → Format
  | half => .half
  | single => .single
  | double => .double

def name : FloatType → String
  | half => "float16"
  | single => "float32"
  | double => "float64"

def max (s t : FloatType) : FloatType :=
  if s.format.precision < t.format.precision then t else s

end FloatType

/-- The type of the cells of a tensor. -/
inductive CellType where
  | int (type : IntType)
  | float (type : FloatType)
  | bool
  deriving DecidableEq, Repr

namespace CellType

def name : CellType → String
  | int t => t.name
  | float t => t.name
  | bool => "bool"

def isInt : CellType → Bool
  | int _ => true
  | _ => false

/-! ## Conversion

A number becomes an integer by way of a signed word, and a word wraps into the type it is meant for.
A number out of the range of the word gives a fixed value in its place, as the processor has it, so
conversion never fails; the kernel that wants an error asks for the range itself. -/

def floatValue (word : Int) : Value := Value.ofBits word.toNat

/-- The word of a number, rounded to the floating point type. -/
def floatWord (t : FloatType) (v : Value) : Int := (v.narrow t.format).toBits

/-- The whole part of a number, cut toward zero, in a signed type; its least value where the type
does not have the whole part. -/
def wholePart (t : IntType) (v : Value) : Int :=
  match v.truncate? with
  | some n => if t.Holds n then n else t.least
  | none => t.least

/-- The whole part of a number as `uint64`. From `2 ^ 63` on it is cut in two steps, of which the
first takes `2 ^ 63` away. -/
def wholeWord (v : Value) : Int :=
  match v with
  | .infinite false => 0
  | _ =>
    match v.truncate? with
    | some n => if n < 2 ^ 63 then wholePart .int64 v else if n < 2 ^ 64 then n else 0
    | none => wholePart .int64 v

/-- A number converted to an integer type: it is cut to a signed word, of 32 bits where these
suffice for the type, and the word wraps. -/
def toInt (t : IntType) (v : Value) : Int :=
  match t.signed, t.width with
  | _, .w8 | _, .w16 | true, .w32 => t.wrap (wholePart .int32 v)
  | false, .w32 | true, .w64 => t.wrap (wholePart .int64 v)
  | false, .w64 => t.wrap (wholeWord v)

def isNonzero : Value → Bool
  | .finite _ m _ => m != 0
  | _ => true

/-- **Conversion of a cell** to another type: integers wrap, numbers lose their fraction, and
every non-zero cell is true. -/
def convert (source target : CellType) (word : Int) : Int :=
  match source, target with
  | float _, float t => floatWord t (floatValue word)
  | float _, int t => toInt t (floatValue word)
  | float _, bool => if isNonzero (floatValue word) then 1 else 0
  | _, float t => floatWord t (Value.ofInt t.format word)
  | _, int t => t.wrap word
  | _, bool => if word = 0 then 0 else 1

/-! ## Common types and arithmetic

Two integer types compute in the narrowest one that holds both, except a signed type beside
`uint64`, which compute in double precision. Truth values give way to any other type. Sums and
products are of two cells of one type, so operands are converted before them. -/

/-- The floating point type that an integer type is computed in beside numbers. -/
def floatFor (t : IntType) : FloatType :=
  match t.width with
  | .w8 => .half
  | .w16 => .single
  | _ => .double

/-- **The common type** two cells are computed in. -/
def promote : CellType → CellType → CellType
  | bool, t => t
  | s, bool => s
  | int s, int t =>
    match s.promote? t with
    | some u => int u
    | none => float .double
  | int s, float t => float (t.max (floatFor s))
  | float s, int t => float (s.max (floatFor t))
  | float s, float t => float (s.max t)

/-- Two numbers combined by a float operation, rounded to the type. -/
def combine (t : FloatType) (op : Float → Float → Float) (x y : Int) : Int :=
  floatWord t (Value.ofFloat (op (floatValue x).toFloat (floatValue y).toFloat))

/-- The product of two numbers and a third one added, rounded to the type once. -/
def fused (t : FloatType) (x y z : Int) : Int :=
  match t.format.fused? (floatValue x) (floatValue y) (floatValue z) with
  | some v => floatWord t v
  | none => combine t (· + ·) (combine t (· * ·) x y) z

/-- The sum of two cells of a type; truth values add up to their disjunction. -/
def add (t : CellType) (x y : Int) : Int :=
  match t with
  | int t => t.wrap (x + y)
  | float t => combine t (· + ·) x y
  | bool => if x = 0 ∧ y = 0 then 0 else 1

/-- The product of two cells of a type; truth values multiply to their conjunction. -/
def mul (t : CellType) (x y : Int) : Int :=
  match t with
  | int t => t.wrap (x * y)
  | float t => combine t (· * ·) x y
  | bool => if x = 0 ∨ y = 0 then 0 else 1

end CellType

end RowBlock
