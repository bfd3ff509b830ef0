import RowBlock.Decimal.Fixed
import RowBlock.Decimal.Number
import RowBlock.Error.Kind

set_option autoImplicit false

/-! # Statistics of round times

The least, greatest and mean time of the rounds of a job and their standard deviation in
percent of the mean, and the one-row table they are written to.
-/

namespace RowBlock

open Decimal

/-! ## Errors -/

inductive StatisticsError where
  | noTimes
  | number (error : NumberError)
  deriving DecidableEq, Repr

namespace StatisticsError

def kind : StatisticsError → ErrorKind
  | noTimes => .value
  | number _ => .overflow

def message : StatisticsError → String
  | noTimes => "No round times recorded"
  | number error => error.message

end StatisticsError

/-! ## The four numbers

Times are floats in a job, but they may also be whole numbers, and then the least and the greatest
stay whole. The mean is always a float; the deviation is the whole number zero if the mean is zero. -/

structure Statistics where
  least : Number
  greatest : Number
  mean : Float
  deviation : Number

namespace Statistics

def variance (times : List Number) (mean : Float) : Except NumberError Float := do
  let squares ← times.mapM fun t => do return Number.real (← Number.square (← t.minus mean))
  (← Number.sum squares).divide times.length

/-- The least and greatest of `t :: ts`, its mean, and the deviation in percent of the mean,
which is zero where the mean is. -/
def ofNonempty (t : Number) (ts : List Number) : Except NumberError Statistics := do
  let times := t :: ts
  let mean ← (← Number.sum times).divide times.length
  let variance ← variance times mean
  let deviation :=
    if mean == 0 then Number.whole 0 else .real (variance.sqrt / mean * 100)
  return ⟨Number.least t ts, Number.greatest t ts, mean, deviation⟩

/-- **The statistics** of the times of all rounds. -/
def ofTimes : List Number → Except StatisticsError Statistics
  | [] => .error .noTimes
  | t :: ts => (ofNonempty t ts).mapError .number

/-! ## Texts

The line for the report and the table show the same numbers, each rounded to a fixed number of
places from its exact value. -/

def placed (places : Nat) (x : Number) : Except StatisticsError String :=
  (x.toFloat.map (fixed places)).mapError .number

def line (s : Statistics) : Except StatisticsError String := do
  return "Round time metrics: min=" ++ (← placed 6 s.least) ++ "s, max=" ++
    (← placed 6 s.greatest) ++ "s, avg=" ++ fixed 6 s.mean ++ "s, stddev=" ++
    (← placed 2 s.deviation) ++ "%"

def headings : List String :=
  ["Workers", "Rows", "Inner", "Rounds", "Total_t_min(s)", "Total_t_max(s)", "Total_t_avg(s)",
    "Total_stddev(%)"]

/-- **The table**: the size of the job and the statistics of its times in one row. -/
def table (rows inner workers : Int) (times : List Number) : Except StatisticsError String := do
  let s ← ofTimes times
  let row := [toString workers, toString rows, toString inner, toString times.length,
    ← placed 6 s.least, ← placed 6 s.greatest, fixed 6 s.mean, ← placed 2 s.deviation]
  return String.intercalate "," headings ++ "\n" ++ String.intercalate "," row ++ "\n"

end Statistics

end RowBlock
