import RowBlock.Csv.Error
import RowBlock.File
import RowBlock.Kernel.Error
import RowBlock.Log
import RowBlock.Operands
import RowBlock.Options.Settings
import RowBlock.Partition
import RowBlock.Report
import RowBlock.Role
import RowBlock.Statistics
import RowBlock.Tensor.Room
import RowBlock.Transport

set_option autoImplicit false

/-! # Errors

Everything that can go wrong in a job, by the part of the library that notices it. An error has
a kind, which decides whether a job reports it, and a text.
-/

namespace RowBlock

/-- What went wrong. -/
inductive Error where
  | partition (error : PartitionError)
  | kernel (error : KernelError)
  | operand (error : OperandError)
  | role (error : RoleError)
  | transport (error : TransportError)
  | table (error : CsvError)
  | file (error : FileError)
  | statistics (error : StatisticsError)
  | report (error : ReportError)
  | number (error : Decimal.NumberError)
  | setting (error : SettingError)
  | log (error : LogError)
  | missingKey (key : String)
  | tooManyPlaces (rank : Nat)
  | noSuchAxis
  | room (error : RoomError)
  | blockUnfit (block place : List Nat)
  | wrongProduct

namespace Error

/-! ## Kinds and texts

Errors of one part of the library have one kind or leave it to the part. The texts are those of the
parts, and a key that is missing is its own text. -/

def kind : Error → ErrorKind
  | partition _ => .value
  | kernel e => e.kind
  | operand e => e.kind
  | role e => e.kind
  | transport _ => .transport
  | table e => e.kind
  | file e => e.kind
  | statistics e => e.kind
  | report e => e.kind
  | number _ => .overflow
  | setting e => e.kind
  | log e => e.kind
  | room e => e.kind
  | missingKey _ => .missingKey
  | tooManyPlaces _ | noSuchAxis => .index
  | blockUnfit _ _ | wrongProduct => .value

def message : Error → String
  | partition e => e.message
  | kernel e => e.message
  | operand e => e.message
  | role e => e.message
  | transport e => e.message
  | table e => e.message
  | file e => e.message
  | statistics e => e.message
  | report e => e.message
  | number e => e.message
  | setting e => e.message
  | log e => e.message
  | room e => e.message
  | missingKey key => key
  | tooManyPlaces rank =>
    s!"too many indices for array: array is {rank}-dimensional, but 2 were indexed"
  | noSuchAxis => "tuple index out of range"
  | blockUnfit block place =>
    let shape (extents : List Nat) := Text.tightTuple (extents.map toString)
    s!"could not broadcast input array from shape {shape block} into shape {shape place}"
  | wrongProduct =>
    "Result check FAILED: distributed result does not match single-process product!"

/-- The line that reports an error. -/
def line (e : Error) : String := e.kind.name ++ ": " ++ e.message

end Error

end RowBlock
