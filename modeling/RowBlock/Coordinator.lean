import RowBlock.Decimal.Fixed
import RowBlock.Endpoint

set_option autoImplicit false

/-! # The coordinator

In a round the coordinator deals the rows of `A` to the workers and sends each of them, in rank
order, the number of its first row, the number of its rows, the rows themselves and all of `B`.
Then it collects a reply from every worker: first row, number of rows and the block of the
product, which it checks against the assignment and places into the product. A worker without
rows may be left without `B`.
-/

namespace RowBlock

structure Coordinator where
  endpoint : Endpoint
  order : Order
  skipEmpty : Bool
  deriving DecidableEq, Repr

namespace Coordinator

def logger : String := "roles"

/-- The coordinator on a rank, which has to be rank zero of a job with workers. -/
def create (endpoint : Endpoint) (order : String) (skipEmpty : Bool) :
    Except RoleError Coordinator :=
  if !endpoint.isCoordinator then .error (.coordinatorOn endpoint.rank)
  else do
    let order ← Order.named order
    endpoint.requireWorkers
    return ⟨endpoint, order, skipEmpty⟩

/-! ## Scatter

The four sends to a worker are the whole of its work. A worker is sent its share before the next one
is looked at; all assignments are known by then and are shown by one line of the log at the end. -/

def omits (skipEmpty : Bool) (rowCount : Int) : Bool := rowCount == 0 && skipEmpty

def rowsOf (a : Tensor) (assignment : Assignment) : Except Error Tensor :=
  if a.rank < 2 then .error (.tooManyPlaces a.rank)
  else .ok (a.rowsBetween assignment.offset assignment.stop)

def assign (c : Coordinator) (a b : Tensor) (assignment : Assignment) : Process Unit := do
  Endpoint.send (.int assignment.offset) assignment.worker .work
  Endpoint.send (.int assignment.rowCount) assignment.worker .work
  let rows ← Process.ofExcept id (rowsOf a assignment)
  Endpoint.send (.tensor rows) assignment.worker .work
  if omits c.skipEmpty assignment.rowCount then return ()
  Endpoint.send (.tensor b) assignment.worker .work

def rangesText (assignments : List Assignment) : String :=
  Text.bracketed <| assignments.map fun s => Text.tuple [toString s.offset, toString s.rowCount]

/-- **Sending out the work** of a round. -/
def scatter (c : Coordinator) (a b : Tensor) (assignments : List Assignment) :
    Process Unit := do
  Process.forEach (c.assign a b) assignments
  Process.note logger .info ("scatter complete: " ++ rangesText assignments)

/-! ## Gather

A reply is three fields. In rank order the coordinator waits for the assigned workers one after the
other; in arrival order it takes the first field of whichever reply is next and stays with its
sender for the other two. A sender that is not waited for any more is refused, also a worker that
replies twice. The rows of a reply go where its assignment says, because the first two fields are
compared with it. -/

/-- The assignment of a worker; of several the last one counts. -/
def assignmentOf? (assignments : List Assignment) (worker : Int) : Option Assignment :=
  assignments.reverse.find? (·.worker == worker)

/-- The first field of the next reply, with the worker it comes from: the given one, or
whichever is first. -/
def nextReply (c : Coordinator) (worker : Int) : Process (Int × Int) := do
  match c.order with
  | .rank =>
    let offset ← Endpoint.receiveInt (Source.ofInt worker) .result
    return (worker, offset)
  | .arrival =>
    let (sender, payload) ← Endpoint.receiveAny .result
    let offset ← Process.ofExcept .transport (Field.int sender payload)
    return (sender, offset)

def placed (product block : Tensor) (offset rowCount : Int) : Except Error Tensor :=
  if rowCount = 0 then .ok product
  else (product.placeRows block offset (offset + rowCount)).mapError fun (b, room) =>
    .blockUnfit b room

/-- The rest of a reply whose first field is known. -/
def finishReply (c : Coordinator) (expected : Assignment) (cols : Int) (product : Tensor)
    (worker offset : Int) : Process Tensor := do
  Process.ofExcept .transport (Field.known worker "offset" offset expected.offset)
  let rowCount ← Endpoint.receiveInt (Source.ofInt worker) .result
  Process.ofExcept .transport (Field.known worker "row_count" rowCount expected.rowCount)
  let cols? := if omits c.skipEmpty rowCount then none else some cols
  let block ← Endpoint.receiveBlock (Source.ofInt worker) .result rowCount cols?
  let product ← Process.ofExcept id (placed product block offset rowCount)
  Process.note logger .debug
    s!"placed rows [{offset}, {offset + rowCount}) from rank {worker}"
  return product

/-- Collects one reply for each assignment left; `waiting` holds the workers that have not
replied yet. -/
def collect (c : Coordinator) (assignments : List Assignment) (cols : Int) (product : Tensor)
    (waiting : List Int) : List Assignment → Process Tensor
  | [] => return product
  | assignment :: rest => do
    let (worker, offset) ← c.nextReply assignment.worker
    if !waiting.contains worker then
      .failed (.transport (.unexpected worker))
    else
      match assignmentOf? assignments worker with
      | none => .failed (.missingKey (toString worker))
      | some expected =>
        let product ← c.finishReply expected cols product worker offset
        c.collect assignments cols product (waiting.filter (· != worker)) rest

/-- The number of rows assignments cover, by the last one. -/
def rowsCovered (assignments : List Assignment) : Int :=
  (assignments.getLast?.map Assignment.stop).getD 0

variable [Memory]

/-- **Collecting the replies** of a round. -/
def gather (c : Coordinator) (assignments : List Assignment) (cols : Int) (type : CellType) :
    Process Tensor := do
  let shape ← Process.ofExcept .room (Tensor.room type [rowsCovered assignments, cols])
  let product ← c.collect assignments cols (.zeros type shape)
    (assignments.map Assignment.worker) assignments
  Process.note logger .info "gather complete"
  return product

/-! ## Rounds

A round is measured from before the rows are dealt to after the last reply was placed. The product
has the cell type of `A`. -/

/-- **A round**: the product of two operands. -/
def round (c : Coordinator) (a b : Tensor) : Process RoundResult := do
  if a.rank = 0 then .failed .noSuchAxis
  else
    let start ← Process.now
    let assignments ← Process.ofExcept .partition
      (Partition.balanced a.rows c.endpoint.workers)
    Process.ofExcept .partition (Partition.check assignments a.rows)
    c.scatter a b assignments
    if b.rank < 2 then .failed .noSuchAxis
    else
      let product ← c.gather assignments b.cols a.type
      let stop ← Process.now
      let elapsed := stop - start
      Process.note logger .info
        s!"round finished in {Decimal.fixed 6 elapsed}s over {assignments.length} workers"
      return ⟨product, assignments, elapsed⟩

/-- A round for each pair of operands; every result is published. -/
def rounds (c : Coordinator) : List (Tensor × Tensor) → Process Unit :=
  Process.forEach fun (a, b) => do
    let result ← c.round a b
    Process.request (.publish result)

end Coordinator

end RowBlock
