import RowBlock.Error.Kind
import RowBlock.Log.Name

set_option autoImplicit false

/-! # Log records

What a rank does is recorded at five levels. A rank writes the records of its threshold and
above to its error stream, each on a line that opens with the rank, the level and the name of
the logger; before the log is set up, only warnings and errors are written, and only their
text.
-/

namespace RowBlock

/-! ## Errors

A threshold is given by a name of the logging facility, and not every name it has stands for a
level. The errors say which of the two went wrong. -/

inductive LogError where
  | unknownName (name : String)
  | unknownLevel (text : String)
  | noLevel (shown : String)
  | recordLevel
  | levelNotText
  deriving DecidableEq, Repr

namespace LogError

def kind : LogError → ErrorKind
  | unknownName _ => .missingName
  | unknownLevel _ => .value
  | noLevel _ | recordLevel | levelNotText => .type

def message : LogError → String
  | unknownName name => s!"module 'logging' has no attribute '{name}'"
  | unknownLevel text => s!"Unknown level: {Text.quoted text}"
  | noLevel shown => s!"Level not an integer or a valid string: {shown}"
  | recordLevel => "level must be an integer"
  | levelNotText => "attribute name must be string, not 'list'"

end LogError

def LogName.named (name : String) : Except LogError LogName :=
  match LogName.named? name with
  | some named => .ok named
  | none => .error (.unknownName name)

/-- The threshold a name gives; a name that stands for nothing leaves the plain one. -/
def LogName.threshold : LogName → Except LogError Level
  | level l => .ok l
  | nothing => .ok .warning
  | text t => .error (.unknownLevel t)
  | part shown => .error (.noLevel shown)

/-! ## Records -/

structure LogRecord where
  logger : String
  level : Level
  text : String
  deriving DecidableEq, Repr

/-- How a rank writes its log, once that is set up. -/
structure LogSetup where
  rank : Int
  threshold : Level
  deriving DecidableEq, Repr

/-- The log of a rank: not set up, or set up for good. -/
abbrev Log := Option LogSetup

namespace Log

def configure (log : Log) (setup : LogSetup) : Log := log.or (some setup)

def admits (log : Log) (record : LogRecord) : Bool :=
  let threshold := (log.map LogSetup.threshold).getD .warning
  record.level != .notSet && threshold.number ≤ record.level.number

def loggerName (name : String) : String := if name = "" then "root" else name

/-- **The line of a record**, empty if it is not written. -/
def line (log : Log) (record : LogRecord) : String :=
  if log.admits record then
    match log with
    | some setup =>
      s!"[Rank {setup.rank}] {record.level.name} {loggerName record.logger}: {record.text}\n"
    | none => record.text ++ "\n"
  else ""

/-! ## Named levels

Here a log is driven from outside: it is set up once or several times by name, and records are made
whose level is given by name as well. What was written before an error stays written. -/

/-- Sets the log up once for each rank and name of a threshold. After the first time a threshold
only has to have a name that is known. -/
def configureAll (log : Log) : List (Int × String) → Except LogError Log
  | [] => .ok log
  | (rank, threshold) :: rest => do
    let name ← LogName.named threshold
    let setup? ← if log.isSome then .ok none else (name.threshold).map fun t => some ⟨rank, t⟩
    configureAll (log.or setup?) rest

/-- The lines of records, each given by logger, name of the level and text, up to the first
name that is no level, and the error about it. -/
def lines (log : Log) : List (String × String × String) → String × Option LogError
  | [] => ("", none)
  | (logger, level, text) :: rest =>
    match LogName.named level with
    | .error e => ("", some e)
    | .ok (.level level) =>
      let (after, error?) := log.lines rest
      (log.line ⟨logger, level, text⟩ ++ after, error?)
    | .ok _ => ("", some .recordLevel)

/-- **What is written** by a log that is set up with some names and then given some records, and
the error that ended it. -/
def transcript (setups : List (Int × String)) (records : List (String × String × String)) :
    String × Option LogError :=
  match configureAll none setups with
  | .error e => ("", some e)
  | .ok log => log.lines records

end Log

end RowBlock
