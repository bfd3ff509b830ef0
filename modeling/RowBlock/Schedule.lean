import RowBlock.Host

set_option autoImplicit false

/-! # Schedules

The ranks of a job take turns. A pass goes through the ranks in a fixed order and lets each one
run that can: one that has not started, or that waits for a message which has come. Passes are
repeated until nobody can run, or a rank aborts the job, which ends everything at once.

Every turn but a rank's first takes a message, so the number of receives a job can make bounds
the number of passes; it is given as a limit.
-/

namespace RowBlock

/-! ## Ranks in a job

A rank that waits when nobody can run any more stays waiting; after an abort it is killed, like the
ranks that did not start. -/

inductive Outcome where
  | done
  | failed (error : Error)
  | waiting (source : Source) (channel : Channel)
  | exited (code : Nat)
  | aborted (code : Int)
  | killed

inductive Task where
  | fresh (process : Process Unit)
  | waiting (source : Source) (channel : Channel) (rest : Process Unit)
  | ended (outcome : Outcome)

/-- A running job. -/
structure Schedule where
  tasks : List Task
  host : Host
  aborted : Bool

namespace Schedule

/-! ## Turns and passes

A turn runs a rank as far as it comes, and other ranks see nothing of it before its end. The order
of the ranks in a pass is given, and with it the whole run: there is no other choice in it. -/

/-- The process a rank can run now. -/
def ready? (s : Schedule) (rank : Nat) : Option (Process Unit) :=
  match s.tasks[rank]? with
  | some (.fresh process) => some process
  | some (.waiting source channel rest) =>
    if s.host.network.offers rank source channel then some rest else none
  | _ => none

def taskOf : Host.Progress Unit → Task
  | .done () => .ended .done
  | .failed e => .ended (.failed e)
  | .waiting source channel rest => .waiting source channel rest
  | .exited code => .ended (.exited code)
  | .aborted code => .ended (.aborted code)

def isAbort : Host.Progress Unit → Bool
  | .aborted _ => true
  | _ => false

def turn (s : Schedule) (rank : Nat) (process : Process Unit) : Schedule :=
  let (progress, host) := s.host.run rank process
  ⟨s.tasks.set rank (taskOf progress), host, isAbort progress⟩

/-- One pass: whether a rank had a turn, and the job after it. -/
def pass (s : Schedule) : List Nat → Bool × Schedule
  | [] => (false, s)
  | rank :: ranks =>
    if s.aborted then (false, s)
    else
      match s.ready? rank with
      | none => s.pass ranks
      | some process => (true, ((s.turn rank process).pass ranks).2)

/-- Passes until nobody has a turn. -/
def passes (order : List Nat) : Nat → Schedule → Schedule
  | 0, s => s
  | limit + 1, s =>
    match s.pass order with
    | (true, s) => passes order limit s
    | (false, s) => s

def outcome (aborted : Bool) : Task → Outcome
  | .fresh _ => .killed
  | .waiting source channel _ => if aborted then .killed else .waiting source channel
  | .ended o => o

/-- **Running a job**: one process for each rank, the order of the ranks, and a limit on the
receives the processes make. -/
def run (processes : List (Process Unit)) (order : List Nat) (receives : Nat) (host : Host) :
    List Outcome × Host :=
  let s := passes order (receives + 2) ⟨processes.map .fresh, host, false⟩
  (s.tasks.map (outcome s.aborted), s.host)

end Schedule

end RowBlock
