import RowBlock.Csv.Records
import RowBlock.Error.Kind
import RowBlock.Tensor
import RowBlock.Text.Utf8

set_option autoImplicit false

/-! # Errors of tables

Why a table cannot be read as a matrix of integers, or a tensor not be written as a table.
-/

namespace RowBlock

/-! ## The errors

A table without any record, and one whose records do not fit together, have errors of their own
classes. All faults of the entries are errors of value, and their texts begin with the name of the
file. -/

/-- What is wrong with a table. -/
inductive CsvError where
  | noRecords
  | records (error : Csv.RecordError)
  | notText (fault : Text.Utf8.Fault)
  | missingEntries (path : String)
  | notIntegers (path : String) (type? : Option CellType)
  | outOfRange (path : String) (low high : Int) (type : IntType)
  | notTwoAxes (shape : List Nat)
  deriving DecidableEq, Repr

namespace CsvError

def kind : CsvError → ErrorKind
  | noRecords => .emptyData
  | records _ => .parsing
  | notText _ => .decoding
  | _ => .value

def message : CsvError → String
  | noRecords => "No columns to parse from file"
  | records (.tooLong expected line found) =>
    "Error tokenizing data. C error: " ++
      s!"Expected {expected} fields in line {line}, saw {found}\n"
  | records (.openQuote line) =>
    s!"Error tokenizing data. C error: EOF inside string starting at row {line}"
  | notText fault => fault.message
  | missingEntries path => s!"{path}: matrix has missing entries"
  | notIntegers path type? =>
    let name := (type?.map CellType.name).getD "object"
    s!"{path}: matrix entries must be integers, found {name}"
  | outOfRange path low high type =>
    s!"{path}: entries in [{low}, {high}] do not fit " ++
      s!"{type.name} [{type.least}, {type.greatest}]"
  | notTwoAxes shape => s!"Must pass 2-d input. shape={Tensor.shapeText shape}"

end CsvError

end RowBlock
