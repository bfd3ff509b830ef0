import RowBlock.Decimal.Number
import RowBlock.Error.Kind
import RowBlock.Random.Bounded
import RowBlock.Tensor.Room

set_option autoImplicit false

/-! # Operands

The product of a job is square: `A` has `n` rows and `m` columns, `B` has `m` rows and `n`
columns, and both hold integers (`Operands.check`). Operands that are not read from files are
filled with a pattern, each row counting up from one, or with random integers from a range. The
random cells of `A` and then of `B`, row by row, are one stream that depends on the seed and
the range alone.
-/

namespace RowBlock

/-! ## Errors -/

inductive OperandError where
  | notMatrices (a b : List Nat)
  | notIntegers (a b : CellType)
  | unfit (a b : List Nat)
  | room (error : RoomError)
  | rowPastFloats
  | rowPastWords
  | countPastWords
  | emptyPattern
  | lowAboveHigh (low high : Int)
  | negativeSeed
  | lowOutOfRange (type : IntType)
  | highOutOfRange (type : IntType)
  | unbounded (shape : List Nat)
  | noDraw
  deriving DecidableEq, Repr

namespace OperandError

def kind : OperandError → ErrorKind
  | room e => e.kind
  | rowPastFloats | countPastWords => .overflow
  | _ => .value

def message : OperandError → String
  | notMatrices a b =>
    s!"Matrices must be 2-D, got A{Tensor.shapeText a} and B{Tensor.shapeText b}"
  | notIntegers a b => s!"Matrices must hold integers, got {a.name} and {b.name}"
  | unfit a b =>
    s!"B must have shape {Tensor.shapeText a.reverse} to multiply A{Tensor.shapeText a}, " ++
      s!"got B{Tensor.shapeText b}"
  | room e => e.message
  | rowPastFloats => Decimal.NumberError.quotientTooLarge.message
  | rowPastWords => "Maximum allowed size exceeded"
  | countPastWords => "Python int too large to convert to C long"
  | emptyPattern => "cannot reshape array of size 0 into shape (0)"
  | lowAboveHigh low high => s!"--low ({low}) must not exceed --high ({high})"
  | negativeSeed => "expected non-negative integer"
  | lowOutOfRange type => s!"low is out of bounds for {type.name}"
  | highOutOfRange type => s!"high is out of bounds for {type.name}"
  | unbounded shape =>
    "shape mismatch: objects cannot be broadcast to a single shape.  Mismatch is between arg 0 " ++
      s!"with shape (0,) and arg 2 with shape {Tensor.shapeText shape}."
  | noDraw => "no acceptable word was drawn"

end OperandError

namespace Operands

/-! ## The check

The three conditions are checked in this order, for operands of any origin. -/

/-- **The check** that `A` can be multiplied with `B` into a square matrix of integers; returns
the order of the product and the inner extent. -/
def check (a b : Tensor) : Except OperandError (Nat × Nat) :=
  if a.rank ≠ 2 ∨ b.rank ≠ 2 then .error (.notMatrices a.shape b.shape)
  else if !a.type.isInt || !b.type.isInt then .error (.notIntegers a.type b.type)
  else if b.shape ≠ [a.cols, a.rows] then .error (.unfit a.shape b.shape)
  else .ok (a.rows, a.cols)

/-! ## The pattern

A row is computed once and repeated. Extents may be any whole numbers here, and the first thing that
goes wrong with one that is negative or too large decides the error. -/

/-- The length of a row that counts up to `m`. It is computed as a float, and the least float past
the signed words counts as no cells. -/
def rowLength (m : Int) : Except OperandError Nat :=
  match (Decimal.Value.ofInt .double m).truncate? with
  | none => .error .rowPastFloats
  | some x =>
    if x < -2 ^ 63 ∨ 2 ^ 63 < x then .error .rowPastWords
    else .ok (if x = 2 ^ 63 then 0 else x.toNat)

variable [Memory]

/-- **A matrix whose rows count up from one**: a row is made and laid out `n` times. -/
def counting (type : IntType) (n m : Int) : Except OperandError Tensor := do
  let length ← rowLength m
  let _ ← (Tensor.room (.int type) [length]).mapError .room
  if 0 < length ∧ n ≠ 1 ∧ ¬IntType.int64.Holds n then throw .countPastWords
  if length = 0 ∧ n < 0 ∧ IntType.int64.Holds n then throw .emptyPattern
  let _ ← (Tensor.room (.int type) [n, length]).mapError .room
  return .matrix (.int type) n.toNat length fun _ j => type.wrap (j + 1)

/-- **The pattern**: both operands count up from one in each row. -/
def pattern (n m : Int) (type : IntType) : Except OperandError (Tensor × Tensor) := do
  return (← counting type n m, ← counting type m n)

/-! ## Random cells

The seed and the bounds are checked before the shapes, and the bounds against the type only if there
are cells to draw. Both operands are drawn from one stream; the second one starts where the first
ends. -/

def checkRange (type : IntType) (low high : Int) : Except OperandError Unit :=
  if low < type.least then .error (.lowOutOfRange type)
  else if type.greatest < high then .error (.highOutOfRange type)
  else .ok ()

def cellCount (n m : Int) : Int :=
  if IntType.int64.Holds n ∧ IntType.int64.Holds m then IntType.int64.wrap (n * m) else n * m

/-- The shapes of both operands, if there is room for them. -/
def shapes (n m : Int) (type : IntType) : Except OperandError (List Nat × List Nat) := do
  let a ← (Tensor.room (.int type) [n, m]).mapError .room
  return (a, a.reverse)

/-- **Random operands** with cells from `low` to `high`. The range is not looked at when there are
no cells. -/
def random (n m : Int) (type : IntType) (low high seed : Int) :
    Except OperandError (Tensor × Tensor) := do
  if high < low then throw (.lowAboveHigh low high)
  if seed < 0 then throw .negativeSeed
  if cellCount n m ≠ 0 then checkRange type low high
  let (a, b) ← shapes n m type
  match Random.boundedList low (high - low).toNat (2 * a.prod) (.ofSeed seed.toNat) with
  | none => throw .noDraw
  | some (cells, _) =>
    let stream := cells.toArray
    return (.generate (.int type) a fun i => stream.getD i 0,
      .generate (.int type) b fun i => stream.getD (a.prod + i) 0)

/-- **Random operands without bounds.** No cell can be drawn then, and the empty list of bounds
stands beside a matrix of one column at most. -/
def unbounded (n m : Int) (type : IntType) (seed : Int) :
    Except OperandError (Tensor × Tensor) := do
  if seed < 0 then throw .negativeSeed
  let (a, b) ← shapes n m type
  if cellCount n m ≠ 0 then
    if m ≠ 1 then throw (.unbounded a)
    if n ≠ 1 then throw (.unbounded b)
  return (.zeros (.int type) a, .zeros (.int type) b)

end Operands

end RowBlock
