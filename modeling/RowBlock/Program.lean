import RowBlock.Coordinator
import RowBlock.Csv.Matrix
import RowBlock.Options.Parse
import RowBlock.Worker

set_option autoImplicit false

/-! # The program

Every rank of a job runs the same program with the same command line. The coordinator gets the
operands, runs the rounds, checks the product if asked to, and only then reports: the round's
report, statistics over several rounds, and the files named for the product, the statistics and
the chart. A failure that is reported (`ErrorKind.isReported`) is logged and aborts the job.
-/

namespace RowBlock

namespace Program

def logger : String := "matmul_main"

/-! ## Operands

Operands come from two files, from the pattern or from the generator, in the type that the settings
name. Only rank zero asks for them, and they are checked before anything is sent. -/

def load (path : String) (type : IntType) : Process Tensor := do
  let bytes ← Process.ofExcept .file (← Process.request (.read path))
  Process.ofExcept .table (Csv.read path type bytes)

def loadSecond (setting : Option (Setting String)) (type : IntType) : Process Tensor :=
  match setting with
  | some (.value path) => load path type
  | _ => .failed (.setting .blankPath)

/-- The seed of the generator: without one it is fresh entropy, and a blank one is as good as zero. -/
def seedOf : Option (Setting Int) → Process Int
  | some (.value seed) => return seed
  | some .blank => return 0
  | none => do return Int.ofNat (← Process.request .entropy)

variable [Memory]

def randomOperands (s : Settings Int) (type : IntType) : Process (Tensor × Tensor) :=
  match s.low, s.high with
  | .value low, .value high =>
    -- the bounds are compared before there is a generator
    if high < low then .failed (.operand (.lowAboveHigh low high))
    else do
      let seed ← seedOf s.seed
      Process.ofExcept .operand (Operands.random s.rows s.inner type low high seed)
  | .blank, .value _ => .failed (.setting (.notComparable ">" "list" "int"))
  | .value _, .blank => .failed (.setting (.notComparable ">" "int" "list"))
  | .blank, .blank => do
    let seed ← seedOf s.seed
    Process.ofExcept .operand (Operands.unbounded s.rows s.inner type seed)

def filledOperands (s : Settings Int) (type : IntType) : Process (Tensor × Tensor) :=
  if s.fill = .value .random then randomOperands s type
  else Process.ofExcept .operand (Operands.pattern s.rows s.inner type)

def givenOperands (s : Settings Int) (type : IntType) : Process (Tensor × Tensor) :=
  match Setting.file? s.matrixA with
  | some path => do
    let a ← load path type
    let b ← loadSecond s.matrixB type
    return (a, b)
  | none => filledOperands s type

/-- The type of the operands, looked up by its name. -/
def typeOf : Setting IntType → Except Error IntType
  | .blank => .error (.setting .blankName)
  | .value type =>
    match Settings.types.lookup type.name with
    | some type => .ok type
    | none => .error (.missingKey (Text.quoted type.name))

/-- **The operands** of a job. -/
def operands (s : Settings Int) : Process (Tensor × Tensor) := do
  let type ← Process.ofExcept id (typeOf s.type)
  let (a, b) ← givenOperands s type
  let _ ← Process.ofExcept .operand (Operands.check a b)
  return (a, b)

/-! ## Rounds

All rounds of a job have the same operands. The coordinator logs the time of each; of the products
only the last one is used. -/

def orderName : Setting Order → String
  | .value order => order.name
  | .blank => "[]"

def kernelOf : Setting Kernel → Except Error Kernel
  | .value kernel => (Kernel.named kernel.name).mapError .kernel
  | .blank => .error (.setting .blankName)

def workerOn (s : Settings Int) (e : Endpoint) : Except Error Worker :=
  Worker.create e (kernelOf s.kernel) s.skipEmpty

/-- The rounds from a number on, one result for each. -/
def roundsFrom (c : Coordinator) (a b : Tensor) (number : Nat) :
    Nat → Process (List RoundResult)
  | 0 => return []
  | left + 1 => do
    let result ← c.round a b
    Process.note logger .info s!"round {number}: {Decimal.fixed 6 result.elapsed}s"
    let results ← roundsFrom c a b (number + 1) left
    return result :: results

/-! ## Reports

Nothing is written before all rounds are done and the product has been checked. Then the outputs
follow one another, and the first that fails ends the job with those before it done. -/

def say (text : String) : Process Unit := Process.request (.print .output text)

/-- The product compared with the product of the whole operands. -/
def verify (a b product : Tensor) : Process Unit := do
  let expected ← Process.ofExcept .kernel (Kernel.matmul a b)
  if product.agrees expected then return () else .failed .wrongProduct

def reportRound (s : Settings Int) (a b : Tensor) (result : RoundResult) : Process Unit := do
  let (text, error?) := Report.round a b result.product (.real result.elapsed) (!s.quiet)
  say text
  match error? with
  | some e => .failed (.report e)
  | none => return ()

def verifiedLine : String :=
  "Result check passed: distributed result matches single-process product.\n"

def reportTimes (times : List Decimal.Number) : Process Unit := do
  let s ← Process.ofExcept .statistics (Statistics.ofTimes times)
  say ((← Process.ofExcept .statistics s.line) ++ "\n")

def save (path : String) (content : Content) : Process Unit := do
  Process.ofExcept .file (← Process.request (.write path content))

def saveText (path text : String) : Process Unit := save path (.bytes (Text.Utf8.encode text))

/-- Something done with the file of a setting, if it names one. -/
def withFile (setting : Option (Setting String)) (act : String → Process Unit) : Process Unit :=
  match Setting.file? setting with
  | some path => act path
  | none => return ()

/-- The chart of a job. Its labels are noted when they are collected and when the bars are placed
at them. -/
def drawn (assignments : List Assignment) (times : List Decimal.Number) : Process Chart := do
  Process.note Chart.logger .info Chart.labelNote
  Process.note Chart.logger .info Chart.labelNote
  Process.ofExcept .number (Chart.ofRounds assignments times)

/-- **The outputs** of a job whose rounds are done. -/
def report (s : Settings Int) (e : Endpoint) (a b : Tensor) (results : List RoundResult)
    (last : RoundResult) : Process Unit := do
  let times := results.map fun r => Decimal.Number.real r.elapsed
  reportRound s a b last
  if s.verify then say verifiedLine
  if 1 < s.rounds then reportTimes times
  withFile s.output fun path => do
    saveText path (← Process.ofExcept .table (Csv.write last.product))
  withFile s.stats fun path => do
    saveText path (← Process.ofExcept .statistics
      (Statistics.table a.rows a.cols e.workers times))
  withFile s.plot fun path => do
    save path (.chart (← drawn last.assignments times))

/-! ## Ranks

The roles are taken after the operands are there, so a worker waits for its first message while rank
zero reads its files. `giveUp` is the error policy of the program: failures of the reported kinds
are logged and abort the job, and all others leave `main` as they are. -/

/-- The coordinator's part of a job. -/
def coordinate (s : Settings Int) (e : Endpoint) : Process (Option RoundResult) := do
  let (a, b) ← operands s
  let c ← Process.ofExcept .role (Coordinator.create e (orderName s.order) s.skipEmpty)
  let results ← roundsFrom c a b 1 s.rounds.toNat
  match results.getLast? with
  | none => return none
  | some last =>
    if s.verify then verify a b last.product
    report s e a b results last
    return some last

def work (s : Settings Int) (e : Endpoint) : Process (Option RoundResult) := do
  let w ← Process.ofExcept id (workerOn s e)
  w.rounds s.rounds.toNat
  return none

/-- **The part of a rank**; the coordinator returns the result of its last round. -/
def run (s : Settings Int) (e : Endpoint) : Process (Option RoundResult) := do
  Process.ofExcept .role e.requireWorkers
  if e.isCoordinator then coordinate s e else work s e

/-- Logs a failure that is reported and aborts the job. -/
def giveUp {α : Type} (error : Error) : Process α :=
  if error.kind.isReported then do
    Process.note logger .error error.line
    nomatch ← Endpoint.abort 1
  else .failed error

def settings (args : List String) : Process (Settings Int) :=
  match Options.parse args with
  | .ok s => return s
  | .error (.failed e) => .failed (.setting e)
  | .error (.exit code output errors) => do
    Process.request (.print .output output)
    Process.request (.print .errors errors)
    nomatch ← Process.request (.exit code)

/-- Sets up the log of a rank; the threshold is looked up by its name. -/
def setUpLog (rank : Nat) : Setting Level → Process Unit
  | .value level => do
    let name ← Process.ofExcept .log (LogName.named level.name)
    let threshold ← Process.ofExcept .log name.threshold
    Process.request (.setUpLog ⟨rank, threshold⟩)
  | .blank => .failed (.log .levelNotText)

/-- **The program** on a rank. -/
def main (args : List String) (e : Endpoint) : Process Unit := do
  let s ← settings args
  setUpLog e.rank s.logLevel
  let _ ← (run s e).recover giveUp

end Program

end RowBlock
