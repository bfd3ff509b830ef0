import RowBlock.Text.Listing

set_option autoImplicit false

/-! # Partitions of rows

The rows of a matrix are dealt to the workers `1, 2, …` as contiguous ranges in worker order,
as evenly as possible: every worker gets the quotient, and the first ones, as many as the
remainder says, get one row more (`shares`). The ranges lie end to end (`layOut`). A list of
assignments is checked on its own by `Partition.check`: ranges end to end from row zero, no
negative count, all rows covered, counts that differ by at most one.
-/

namespace RowBlock

/-! ## Assignments

An assignment is three integers and nothing more: it may name no worker of the job, lie outside the
matrix or have a negative count. What a list of them has to satisfy is said by the check, and what
the dealing gives by the lemmas about it. -/

/-- The rows from `offset` up to before `offset + rowCount` belong to a worker. -/
structure Assignment where
  worker : Int
  offset : Int
  rowCount : Int
  deriving DecidableEq, Repr

def Assignment.stop (a : Assignment) : Int := a.offset + a.rowCount

/-! ## Refusals

The first two are errors of the dealing, the others of the check. A message names the worker whose
range is at fault and the row where its range had to start. -/

inductive PartitionError where
  | noWorkers (workers : Int)
  | negativeRows (rows : Int)
  | nobody
  | misplaced (worker start expected : Int)
  | negativeCount (worker : Int)
  | covers (covered expected : Int)
  | unbalanced (counts : List Int)
  deriving DecidableEq, Repr

def PartitionError.message : PartitionError → String
  | noWorkers workers => s!"Cannot partition across {workers} workers: need at least 1."
  | negativeRows rows => s!"Row count must be non-negative, got {rows}."
  | nobody => "Partition has no workers."
  | misplaced worker start expected =>
    s!"Worker {worker} starts at row {start}, expected {expected}."
  | negativeCount worker => s!"Worker {worker} has a negative row count."
  | covers covered expected => s!"Partition covers {covered} rows, expected {expected}."
  | unbalanced counts => s!"Partition is unbalanced: {Text.bracketed (counts.map toString)}."

namespace Partition

/-! ## Dealing and checking

The check walks the list once (`endOf`) and knows after each range where the next one has to start,
so gaps, overlaps and ranges out of order are all one error. Only then are the counts compared, by
the difference of the largest and the smallest (`spread`). -/

def shares (rows workers : Nat) : List Nat :=
  (List.range workers).map fun i => rows / workers + if i < rows % workers then 1 else 0

/-- Row counts laid end to end, the first at a row and for a worker. -/
def layOut (worker offset : Int) : List Nat → List Assignment
  | [] => []
  | count :: counts => ⟨worker, offset, count⟩ :: layOut (worker + 1) (offset + count) counts

/-- **The balanced partition** of rows among workers. -/
def balanced (rows workers : Int) : Except PartitionError (List Assignment) :=
  if workers < 1 then .error (.noWorkers workers)
  else if rows < 0 then .error (.negativeRows rows)
  else .ok (layOut 1 0 (shares rows.toNat workers.toNat))

def endOf (offset : Int) : List Assignment → Except PartitionError Int
  | [] => .ok offset
  | a :: rest =>
    if a.offset ≠ offset then .error (.misplaced a.worker a.offset offset)
    else if a.rowCount < 0 then .error (.negativeCount a.worker)
    else endOf a.stop rest

def spread : List Int → Int
  | [] => 0
  | c :: cs => cs.foldl max c - cs.foldl min c

/-- **The check** that a list of assignments deals the rows evenly and in order. -/
def check (assignments : List Assignment) (rows : Int) : Except PartitionError Unit :=
  if assignments.isEmpty then .error .nobody
  else do
    let covered ← endOf 0 assignments
    if covered ≠ rows then .error (.covers covered rows)
    else
      let counts := assignments.map Assignment.rowCount
      if 1 < spread counts then .error (.unbalanced counts) else .ok ()

end Partition

end RowBlock
