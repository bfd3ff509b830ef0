import RowBlock.Cell
import RowBlock.Decimal.Number
import RowBlock.Partition

set_option autoImplicit false

/-! # The chart of a job

A chart has two panels: a bar for every assignment, over the label of its worker, and a line
through the times of the rounds. Bars with the same label stand at the same place. The heights
of the bars are words of one type, or floats where no such type has them all (`barHeights`).
-/

namespace RowBlock

open Decimal

/-! ## Panels -/

structure Panel where
  title : String
  across : String
  upward : String
  deriving DecidableEq, Repr

/-- What a chart shows. -/
structure Chart where
  /-- The bars: the label of a worker and the number of its rows. -/
  bars : List (String × Int)
  /-- The points of the line: the number of a round and its time. -/
  points : List (Nat × Float)

namespace Chart

def barPanel : Panel := ⟨"Row Partition", "Worker rank", "Rows assigned"⟩

def linePanel : Panel := ⟨"Time per Round", "Round", "Round Time (s)"⟩

def legend : String := "Time (s)"

def stroke : String := "-"

def mark : String := "o"

def logger : String := "matplotlib.category"

/-- What is logged about labels that could be numbers, as the numbers of workers can. -/
def labelNote : String :=
  "Using categorical units to plot a list of strings that are all parsable as floats or " ++
    "dates. If these strings should be plotted as numbers, cast to the appropriate data type " ++
    "before plotting."

/-! ## Bars

A label stands at the place where it first occurs, so two bars of one label lie over each other. In
a job the labels are the ranks of the workers and differ. -/

def distinct (labels : List String) : List String :=
  labels.foldl (fun seen label => if seen.contains label then seen else seen ++ [label]) []

def categories (chart : Chart) : List String := distinct (chart.bars.map Prod.fst)

def categoryOf (chart : Chart) (label : String) : Nat := chart.categories.idxOf label

/-- The heights of bars as they are drawn. Each has to be a signed or an unsigned word. -/
def barHeights (heights : List Int) : Except NumberError (List Int) :=
  let signed (n : Int) : Bool := IntType.int64.Holds n
  let unsigned (n : Int) : Bool := IntType.uint64.Holds n && !signed n
  if !heights.all (fun n => signed n || unsigned n) then .error .pastWords
  else if heights.all signed || heights.all unsigned then .ok heights
  else .ok (heights.map fun n => ((Value.ofInt .double n).truncate?).getD n)

/-- **The chart** of assignments and times. -/
def ofRounds (assignments : List Assignment) (times : List Number) :
    Except NumberError Chart := do
  let heights ← barHeights (assignments.map Assignment.rowCount)
  let times ← times.mapM Number.toFloat
  let labels := assignments.map fun a => toString a.worker
  return ⟨labels.zip heights, (List.range times.length).map (· + 1) |>.zip times⟩

end Chart

end RowBlock
