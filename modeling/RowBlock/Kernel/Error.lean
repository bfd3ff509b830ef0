import RowBlock.Tensor.Room
import RowBlock.Text.Quoted

set_option autoImplicit false

/-! # Errors of the kernels

A kernel refuses operands that do not fit and products there is no room for, and the row kernel
also cells that do not fit the result.
-/

namespace RowBlock

/-! ## The errors

An operand of the row kernel is unpacked into rows and columns before anything is computed, and the
errors of that come first. Then there are the errors of its loop, in the order of the cells. The
whole-product kernel checks its shapes at once and fails on nothing but these and the room for the
result. -/

/-- Why a kernel has no product. -/
inductive KernelError where
  | unknown (name : String)
  | tooFewAxes (rank : Nat)
  | tooManyAxes
  | noSecondAxis
  | pastAxis (place extent : Nat)
  | cellIsBlock
  | outOfRange (value : Int) (type : IntType)
  | tooLarge
  | infiniteCell
  | undefinedCell
  | scalarOperand (operand : Nat)
  | innerMismatch (right left : Nat)
  | outerMismatch (left right : List Nat) (rows cols : Nat)
  | room (error : RoomError)
  | unavailable
  deriving DecidableEq, Repr

namespace KernelError

/-! ## Classes and texts

The texts of the whole-product kernel quote the extents it works on (`coreAxes`) and, where the
outer axes do not match, both shapes with the two axes of the matrix left open (`openShape`). -/

def coreAxes : String := "(n?,k),(k,m?)->(n?,m?)"

def openShape (shape : List Nat) : String :=
  let outer := shape.take (shape.length - 2)
  Text.tightTuple (shape.map toString) ++ "->" ++
    Text.tightTuple (outer.map toString ++ ["newaxis", "newaxis"])

def kind : KernelError → ErrorKind
  | noSecondAxis | pastAxis _ _ => .index
  | outOfRange _ _ | tooLarge | infiniteCell => .overflow
  | unavailable => .missingModule
  | room e => e.kind
  | _ => .value

def message : KernelError → String
  | unknown name => s!"Unknown kernel '{name}', choose from ['gpu', 'loop', 'numpy']"
  | tooFewAxes rank => s!"not enough values to unpack (expected 2, got {rank})"
  | tooManyAxes => "too many values to unpack (expected 2)"
  | noSecondAxis => "tuple index out of range"
  | pastAxis place extent =>
    s!"index {place} is out of bounds for axis 0 with size {extent}"
  | cellIsBlock => "setting an array element with a sequence."
  | outOfRange value type => s!"Python integer {value} out of bounds for {type.name}"
  | tooLarge => "Python int too large to convert to C long"
  | infiniteCell => "cannot convert float infinity to integer"
  | undefinedCell => "cannot convert float NaN to integer"
  | scalarOperand operand =>
    s!"matmul: Input operand {operand} does not have enough dimensions (has 0, gufunc core " ++
      "with signature " ++ coreAxes ++ " requires 1)"
  | innerMismatch right left =>
    "matmul: Input operand 1 has a mismatch in its core dimension 0, with gufunc signature " ++
      coreAxes ++ s!" (size {right} is different from {left})"
  | outerMismatch left right rows cols =>
    "operands could not be broadcast together with remapped shapes [original->remapped]: " ++
      openShape left ++ " " ++ openShape right ++ s!"  and requested shape ({rows},{cols})"
  | room e => e.message
  | unavailable => "No module named 'cupy'"

end KernelError

end RowBlock
