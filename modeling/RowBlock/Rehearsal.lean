import RowBlock.Coordinator
import RowBlock.Machine
import RowBlock.Schedule
import RowBlock.Script

set_option autoImplicit false

/-! # Rehearsals

A rehearsal runs a number of rounds with the same operands on all ranks of a job, without
command line, files or report: rank zero coordinates, every other rank works or plays a script.
-/

namespace RowBlock

/-- What a rehearsal consists of. -/
structure Rehearsal where
  size : Nat
  a : Tensor
  b : Tensor
  order : String
  skipEmpty : Bool
  workerSkipEmpty : Bool
  kernel : String
  rounds : Nat
  schedule : List Nat
  clock : List Float
  scripts : List (Nat × List ScriptStep)

namespace Rehearsal

def coordinatorPart (r : Rehearsal) : Process Unit := do
  let c ← Process.ofExcept .role (Coordinator.create ⟨0, r.size⟩ r.order r.skipEmpty)
  c.rounds (List.replicate r.rounds (r.a, r.b))

def workerPart (r : Rehearsal) (rank : Nat) : Process Unit := do
  let kernel := (Kernel.named r.kernel).mapError Error.kernel
  let w ← Process.ofExcept id (Worker.create ⟨rank, r.size⟩ kernel r.workerSkipEmpty)
  match r.scripts.lookup rank with
  | some steps => Script.play w Script.noWork steps
  | none => w.rounds r.rounds

def part (r : Rehearsal) (rank : Nat) : Process Unit :=
  if rank = coordinatorRank then r.coordinatorPart else r.workerPart rank

def receives (r : Rehearsal) : Nat :=
  7 * r.size * r.rounds + (r.scripts.map fun (_, steps) => Script.receives steps).sum

/-- **The run** of a rehearsal: what becomes of each rank, and the host afterwards. -/
def run (r : Rehearsal) : List Outcome × Host :=
  Schedule.run ((List.range r.size).map r.part) (0 :: r.schedule) r.receives
    (.initial r.size r.clock ⟨[]⟩ 0)

end Rehearsal

end RowBlock
