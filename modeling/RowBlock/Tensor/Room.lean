import RowBlock.Decimal.Fixed
import RowBlock.Error.Kind
import RowBlock.Tensor

set_option autoImplicit false

/-! # Room for a tensor

The extents a new tensor is asked for may be any integers. They have to be signed words, none of
them negative, and the cells have to be addressable and to fit into memory; `Tensor.room` returns
the shape or says which of these fails first. A tensor without cells takes no memory, but its
other extents have to be addressable all the same.

How much memory there is depends on the machine, and nothing is said about that here: it is the
instance of `Memory` that a program runs with.
-/

namespace RowBlock

/-- The most bytes that a tensor may take. -/
class Memory where
  bytes : Nat

/-- The bytes of a cell of a type. -/
def CellType.bytes : CellType → Nat
  | .int t => t.width.bits / 8
  | .float .half => 2
  | .float .single => 4
  | .float .double => 8
  | .bool => 1

/-! ## Refusals

Only the last of the errors is one of memory; the first three say that no machine could have such a
tensor. The text of the last one names the size asked for in the greatest unit it reaches
(`sizeText`). -/

inductive RoomError where
  | pastWords
  | negative
  | pastAddresses
  | pastMemory (type : CellType) (shape : List Nat)
  deriving DecidableEq, Repr

namespace RoomError

def kind : RoomError → ErrorKind
  | pastMemory _ _ => .memory
  | _ => .value

def units : List String := ["bytes", "KiB", "MiB", "GiB", "TiB", "PiB", "EiB"]

/-- A number of bytes in the greatest unit it reaches, with three digits, and four before the point
where there are as many. -/
def sizeText (bytes : Nat) : String :=
  let step := bytes.log2 / 10
  let step := if Decimal.roundDiv bytes (1024 ^ step) = 1024 then step + 1 else step
  let unit := 1024 ^ step
  let places :=
    if Decimal.roundDiv (100 * bytes) unit < 1000 then 2
    else if Decimal.roundDiv (10 * bytes) unit < 1000 then 1
    else 0
  Decimal.withPoint false places (Decimal.roundDiv (10 ^ places * bytes) unit) ++ " " ++
    units.getD step ""

def message : RoomError → String
  | pastWords => "Maximum allowed dimension exceeded"
  | negative => "negative dimensions are not allowed"
  | pastAddresses =>
    "array is too big; \x60arr.size * arr.dtype.itemsize\x60 is larger than the maximum " ++
      "possible size."
  | pastMemory type shape =>
    s!"Unable to allocate {sizeText (type.bytes * shape.prod)} for an array with shape " ++
      s!"{Tensor.shapeText shape} and data type {type.name}"

end RoomError

namespace Tensor

/-! ## The check

The extents are looked at from the first to the last, and a negative one is reported only if no
product before it is too large. An extent of zero does not empty the running product, which is why a
tensor without cells can still be too big. -/

def checkExtents (bytes : Nat) : List Int → Except RoomError Unit
  | [] => .ok ()
  | n :: ns =>
    if n < 0 then .error .negative
    else if n = 0 then checkExtents bytes ns
    else if IntType.int64.Holds (bytes * n) then checkExtents (bytes * n.toNat) ns
    else .error .pastAddresses

/-- **The shape** of a tensor with these extents, if there is room for it. -/
def room [Memory] (type : CellType) (extents : List Int) : Except RoomError (List Nat) := do
  if extents.any (¬IntType.int64.Holds ·) then throw .pastWords
  checkExtents type.bytes extents
  let shape := extents.map Int.toNat
  if Memory.bytes < type.bytes * shape.prod then throw (.pastMemory type shape)
  return shape

end Tensor

end RowBlock
