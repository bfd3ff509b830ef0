import RowBlock.Csv.Column
import RowBlock.Csv.Error

set_option autoImplicit false

/-! # Matrices as tables

A matrix is stored as a table without a heading, one row a line. Reading never changes a value:
a table whose entries are not all integers of the wanted type is refused (`Csv.read`). Writing
puts a comma between cells and a line feed after each row (`Csv.write`).
-/

namespace RowBlock.Csv

/-! ## Reading

The faults are looked for in a fixed order, in the table as a whole before the next kind is looked
for: records of unequal length, bytes that are no text, missing entries, columns of another type,
entries out of range. The range is judged by the least and the greatest entry, which the error names
too. -/

def columnFields (records : List (List Field)) (j : Nat) : List Field :=
  records.map (·.getD j [])

def extremes : List Int → Option (Int × Int)
  | [] => none
  | n :: ns => some (ns.foldl min n, ns.foldl max n)

/-- **Reading** a matrix of integers of a type from the bytes of a file. -/
def read (path : String) (type : IntType) (bytes : List UInt8) : Except CsvError Tensor := do
  let rows ← (records bytes).mapError .records
  match rows with
  | [] => .error .noRecords
  | first :: _ =>
    let fields := (List.range first.length).map (columnFields rows)
    let columns := fields.map Column.ofFields
    let fault? := (columns.zip fields).findSome? fun (column, all) => column.fault? all
    match fault? with
    | some fault => .error (.notText fault)
    | none =>
      if (columns.zip fields).any fun (column, all) => column.lacks all then
        .error (.missingEntries path)
      else
        let type? := commonType? columns
        match type? with
        | some (.int _) =>
          let values := columns.map Column.values
          let (low, high) := (extremes values.flatten).getD (0, 0)
          if type.Holds low ∧ type.Holds high then
            .ok (Tensor.matrix (.int type) rows.length first.length fun i j =>
              (values.getD j []).getD i 0)
          else .error (.outOfRange path low high type)
        | _ => .error (.notIntegers path type?)

/-! ## Writing

Nothing but the shape can be wrong with a tensor that is written. A tensor with one axis is written
as a column, one cell a line. -/

def cellText (type : CellType) (word : Int) : String :=
  let s := Tensor.cellText type word
  match type with
  | .float _ => if s = "nan" then "" else s
  | _ => s

/-- A line of a table. A single empty field is quoted, so that the line is not a blank one. -/
def line : List String → String
  | [""] => "\x22\x22\n"
  | cells => String.intercalate "," cells ++ "\n"

/-- **Writing** a tensor of at most two axes; one axis makes a column. -/
def write (t : Tensor) : Except CsvError String :=
  let rowsOf (rows cols : Nat) : String :=
    String.join <| (List.range rows).map fun i =>
      line <| (List.range cols).map fun j => cellText t.type (t.word (i * cols + j))
  match t.shape with
  | [rows, cols] => .ok (rowsOf rows cols)
  | [rows] => .ok (rowsOf rows 1)
  | shape => .error (.notTwoAxes shape)

end RowBlock.Csv
