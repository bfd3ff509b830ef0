import RowBlock.Machine
import RowBlock.Program
import RowBlock.Schedule
import RowBlock.Script

set_option autoImplicit false

/-! # Jobs

A job runs the program on all its ranks with one command line and one set of files. A rank with
a script plays it in place of the program, as a worker of the same settings.
-/

namespace RowBlock

/-- What a job consists of. -/
structure Job where
  size : Nat
  args : List String
  files : List (String × List UInt8)
  schedule : List Nat
  clock : List Float
  scripts : List (Nat × List ScriptStep)
  /-- What a rank is given that asks for fresh entropy. -/
  entropy : Nat := 0

/-- What a job leaves behind. -/
structure JobResult where
  outcomes : List Outcome
  consoles : List Console
  /-- The files that were not there before, by path. -/
  files : List (String × Content)
  messages : Nat

namespace Job

def scripted (args : List String) (e : Endpoint) (steps : List ScriptStep) : Process Unit := do
  let s ← Program.settings args
  let w ← Process.ofExcept id (Program.workerOn s e)
  Script.play w Script.noWork steps

def process (job : Job) (rank : Nat) : Process Unit :=
  let e : Endpoint := ⟨rank, job.size⟩
  match job.scripts.lookup rank with
  | some steps => scripted job.args e steps
  | none => Program.main job.args e

def rounds (args : List String) : Nat :=
  match Options.parse args with
  | .ok s => s.rounds.toNat
  | .error _ => 0

def receives (job : Job) : Nat :=
  7 * job.size * rounds job.args +
    (job.scripts.map fun (_, steps) => Script.receives steps).sum

def filesOf (files : List (String × List UInt8)) : Files :=
  .ofList (files.map fun (path, bytes) => (path, .bytes bytes))

/-- The operands a command line asks for, and what is written on the way. -/
def operands (args : List String) (files : List (String × List UInt8)) :
    Host.Progress (Tensor × Tensor) × Console :=
  let (progress, host) := (Host.initial 1 [] (filesOf files) 0).run coordinatorRank do
    Program.operands (← Program.settings args)
  (progress, host.console coordinatorRank)

def newFiles (old new : Files) : List (String × Content) :=
  (new.entries.filter fun (names, _) => (old.get? names).isNone).map fun (names, content) =>
    (Files.pathOf names, content)

/-- **The run** of a job. -/
def run (job : Job) : JobResult :=
  let old := filesOf job.files
  let (outcomes, host) :=
    Schedule.run ((List.range job.size).map job.process) (0 :: job.schedule) job.receives
      (.initial job.size job.clock old job.entropy)
  ⟨outcomes, host.consoles, newFiles old host.files, host.network.sent.length⟩

end Job

end RowBlock
