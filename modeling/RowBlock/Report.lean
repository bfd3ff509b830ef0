import RowBlock.Decimal.Fixed
import RowBlock.Decimal.Number
import RowBlock.Error.Kind
import RowBlock.Payload

set_option autoImplicit false

/-! # The report of a round

Matrices are printed one row a line with tabs between the cells. The report of a round shows the
operands and the product under headings, and the time the round took.
-/

namespace RowBlock

/-! ## Errors

Matrices can always be shown. The errors belong to the other payloads a caller may pass, which are
iterated twice, and to times no float is large enough for. -/

inductive ReportError where
  | notIterable (typeName : String)
  | noAxes
  | number (error : Decimal.NumberError)
  deriving DecidableEq, Repr

namespace ReportError

def kind : ReportError → ErrorKind
  | number _ => .overflow
  | _ => .type

def message : ReportError → String
  | notIterable typeName => s!"'{typeName}' object is not iterable"
  | noAxes => "iteration over a 0-d array"
  | number error => error.message

end ReportError

namespace Report

/-! ## Matrices and other rows

A matrix is shown cell by cell. Whatever else has rows with items is shown by the same rule, and
each item as the text of its own. -/

/-- **A matrix** as text. -/
def matrix (t : Tensor) : String :=
  String.intercalate "\n" <| (List.range t.rows).map fun i =>
    String.intercalate "\t" <| (List.range t.cols).map fun j =>
      Tensor.cellText t.type (t.entry i j)

def parts (t : Tensor) : List Payload :=
  match t.shape with
  | [] => []
  | [n] => (List.range n).map fun i => .scalar t.type (t.word i)
  | n :: shape => (List.range n).map fun i =>
    .tensor (.generate t.type shape fun j => t.word (i * shape.prod + j))

def items : Payload → Except ReportError (List Payload)
  | .list items => .ok items
  | .text s => .ok (s.toList.map fun c => .text (String.singleton c))
  | .dict entries => .ok (entries.map fun (key, _) => .text key)
  | .tensor t => if t.rank = 0 then .error .noAxes else .ok (parts t)
  | .scalar type _ => .error (.notIterable ("numpy." ++ type.name))
  | p => .error (.notIterable p.typeName)

/-- Anything that has rows with items, as text. -/
def rowsOf (p : Payload) : Except ReportError String := do
  let rows ← (← items p).mapM fun row => do
    return String.intercalate "\t" ((← items row).map Payload.plainText)
  return String.intercalate "\n" rows

def grid (p : Payload) : Except ReportError String :=
  match p.matrix? with
  | some t => .ok (matrix t)
  | none => rowsOf p

/-! ## The report

The report is written part by part, and an error in one of the parts leaves the parts before it
written (`joinParts`). What a round reports is therefore a text together with the error that cut it
short. -/

def timeLine (elapsed : Decimal.Number) : Except ReportError String :=
  (elapsed.toFloat.map fun x => "Total time elapsed :: " ++ Decimal.fixed 6 x ++ "\n").mapError
    .number

/-- The parts of a round's report in the order they are written. -/
def roundParts (a b product : Tensor) (elapsed : Decimal.Number) (showMatrices : Bool) :
    List (Except ReportError String) :=
  let shown (t : Tensor) : Except ReportError String := (grid (.tensor t)).map (· ++ "\n")
  (if showMatrices then
    [.ok "Matrix A:\n", shown a, .ok "Matrix B:\n", shown b,
      .ok "\nThe Resultant Matrix is ::\n", shown product]
  else []) ++ [timeLine elapsed]

/-- The text of parts up to the first error, and that error. -/
def joinParts : List (Except ReportError String) → String × Option ReportError
  | [] => ("", none)
  | .error e :: _ => ("", some e)
  | .ok s :: rest =>
    let (text, error?) := joinParts rest
    (s ++ text, error?)

/-- **The report of a round**: its text, and the error that cut it short. -/
def round (a b product : Tensor) (elapsed : Decimal.Number) (showMatrices : Bool) :
    String × Option ReportError :=
  joinParts (roundParts a b product elapsed showMatrices)

end Report

end RowBlock
