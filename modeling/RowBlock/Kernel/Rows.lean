import RowBlock.Kernel.Error

set_option autoImplicit false

/-! # The row kernel

Each cell of the product is summed up step by step. The running sum starts in the type of the
left operand and from the first step on lives in the common type of both operands, where every
product and every sum wraps (`runningSum`). The finished sum is stored in the type of the left
operand (`store`). A sum that a signed type does not have is an error at that cell; to any other
type it is converted.

The kernel reads as many rows of the right operand as the left one has columns. A right operand
with fewer rows is an error at the first step beyond them; surplus rows are never read.
-/

namespace RowBlock.Kernel

/-! ## Sums

The sum is a word of the common type at every step. For integers it could as well be taken exactly
and wrapped at the end; for floating point numbers the order of the steps and the rounding after
each of them are part of the result. -/

def runningSum (type : CellType) (steps : Nat) (left right : Nat → Int) : Int :=
  (List.range steps).foldl (fun sum j => type.add sum (type.mul (left j) (right j))) 0

/-! ## Storing a sum

A signed type refuses what it does not hold, because the sum goes through an unbounded integer on
its way; the undefined value and infinity have no such integer. Every other type converts, so an
unsigned type takes any sum wrapped. A sum that is in the type of the left operand already is stored
as it is. -/

def wholeSum (type : CellType) (sum : Int) : Except KernelError Int :=
  match type with
  | .float _ =>
    match CellType.floatValue sum with
    | .nan => .error .undefinedCell
    | .infinite _ => .error .infiniteCell
    | value => .ok (value.truncate?.getD 0)
  | _ => .ok sum

/-- A finished sum of type `source`, stored in a cell of a signed integer type, which has to hold
its whole part. One beyond all signed types is an error of its own. -/
def storeSigned (source : CellType) (t : IntType) (sum : Int) : Except KernelError Int := do
  let n ← wholeSum source sum
  if t.Holds n then return n
  else if IntType.int64.Holds n then .error (.outOfRange n t)
  else .error .tooLarge

def store (source target : CellType) (sum : Int) : Except KernelError Int :=
  if source = target then .ok sum
  else
    match target with
    | .int t => if t.signed then storeSigned source t sum else .ok (source.convert (.int t) sum)
    | _ => .ok (source.convert target sum)

/-! ## The product

The order of the checks of a cell matters to the error that is reported: without columns nothing is
read and the cell is zero, a row beyond the right operand is noticed before its cells turn out to be
blocks, and only a finished sum is stored. The product is allocated before the first cell is
computed. -/

def rowCell (a b : Tensor) (i k : Nat) : Except KernelError Int :=
  if a.cols = 0 then .ok 0
  else if b.rows < a.cols then .error (.pastAxis b.rows b.rows)
  else if b.rank ≠ 2 then .error .cellIsBlock
  else
    let common := a.type.promote b.type
    store common a.type <|
      runningSum common a.cols (fun j => a.type.convert common (a.entry i j))
        (fun j => b.type.convert common (b.entry j k))

/-- **The row kernel**: the product of a block of rows with a matrix, in the type of the rows. -/
def multiplyRows [Memory] (a b : Tensor) : Except KernelError Tensor :=
  if a.rank < 2 then .error (.tooFewAxes a.rank)
  else if 2 < a.rank then .error .tooManyAxes
  else if b.rank < 2 then .error .noSecondAxis
  else do
    let shape ← (Tensor.room a.type [a.rows, b.cols]).mapError .room
    let cells ← (List.range (a.rows * b.cols)).mapM fun p => rowCell a b (p / b.cols) (p % b.cols)
    .ok (Tensor.generate a.type shape fun p => cells.getD p 0)

end RowBlock.Kernel
