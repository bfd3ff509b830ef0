import RowBlock.Endpoint
import RowBlock.Kernel

set_option autoImplicit false

/-! # Workers

In a round a worker receives its work from the coordinator, multiplies its rows with `B` and
replies with the number of its first row, the number of its rows and their product. It keeps
nothing from one round to the next.
-/

namespace RowBlock

/-! ## Workers and their work

The kernel of a worker is a value and not a name: a name that is unknown fails where the worker is
made. -/

structure Worker where
  endpoint : Endpoint
  kernel : Kernel
  skipEmpty : Bool
  deriving DecidableEq, Repr

structure Work where
  offset : Int
  rowCount : Int
  rows : Tensor
  right? : Option Tensor

namespace Worker

def logger : String := "roles"

/-- The worker on a rank, which is not the coordinator's. -/
def create (endpoint : Endpoint) (kernel : Except Error Kernel) (skipEmpty : Bool) :
    Except Error Worker :=
  if endpoint.isCoordinator then .error (.role .workerOnCoordinator)
  else do
    let kernel ← kernel
    return ⟨endpoint, kernel, skipEmpty⟩

def coordinator : Source := .rank coordinatorRank

/-! ## A round

A round is a receive, a computation and a reply. Nothing is sent before the product is there, so a
worker whose kernel fails has sent nothing in that round. -/

/-- **Receiving the work** of a round. -/
def receive (w : Worker) : Process Work := do
  let offset ← Endpoint.receiveInt coordinator .work
  let rowCount ← Endpoint.receiveInt coordinator .work
  let rows ← Endpoint.receiveBlock coordinator .work rowCount none
  if rowCount = 0 ∧ w.skipEmpty then return ⟨offset, rowCount, rows, none⟩
  let right ← Endpoint.receiveBlock coordinator .work rows.cols none
  Process.note logger .info s!"assigned rows [{offset}, {offset + rowCount})"
  return ⟨offset, rowCount, rows, some right⟩

variable [Memory]

/-- **The product** of some work; without rows the kernel is not needed. -/
def compute (w : Worker) (work : Work) : Except KernelError Tensor :=
  match work.right? with
  | none => .ok (.zeros work.rows.type [0, 0])
  | some right =>
    if work.rowCount = 0 then do
      let shape ← (Tensor.room work.rows.type [0, right.cols]).mapError .room
      .ok (.zeros work.rows.type shape)
    else w.kernel.multiply work.rows right

def reply (offset rowCount : Int) (block : Payload) : Process Unit := do
  Endpoint.send (.int offset) coordinatorRank .result
  Endpoint.send (.int rowCount) coordinatorRank .result
  Endpoint.send block coordinatorRank .result

/-- **A round.** -/
def round (w : Worker) : Process Unit := do
  let work ← w.receive
  let block ← Process.ofExcept .kernel (w.compute work)
  reply work.offset work.rowCount (.tensor block)

def rounds (w : Worker) (n : Nat) : Process Unit := w.round.times n

end Worker

end RowBlock
