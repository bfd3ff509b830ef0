import RowBlock.Job

set_option autoImplicit false

/-! # The command line

Runs a job with the arguments of the command line. The environment variable `ROWBLOCK_RANKS`
says how many ranks the job has; without it there is one. All ranks run in this one process, on
a clock of their own. The files named for the operands are read before the job, and the files it
makes are written after it, a chart as the list of its bars and points.
-/

namespace RowBlock.Main

def inputPaths (args : List String) : List String :=
  match Options.parse args with
  | .ok s => [s.matrixA, s.matrixB].filterMap Setting.file?
  | .error _ => []

def readFiles : List String → IO (List (String × List UInt8))
  | [] => return []
  | path :: rest => do
    let files ← readFiles rest
    try
      let bytes ← IO.FS.readBinFile path
      return (path, bytes.toList) :: files
    catch _ => return files

/-- What a chart shows, line by line. -/
def chartText (chart : Chart) : String :=
  String.join (chart.bars.map fun (label, height) => s!"{label}: {height}\n") ++
    String.join (chart.points.map fun (x, y) => s!"{x}: {Decimal.fixed 6 y}\n")

def writeFile (path : String) : Content → IO Unit
  | .bytes bytes => IO.FS.writeBinFile path ⟨bytes.toArray⟩
  | .chart chart => IO.FS.writeFile path (chartText chart)

def exitCode : Outcome → UInt32
  | .done | .killed => 0
  | .exited code => code.toUInt32
  | .aborted code => code.toNat.toUInt32
  | .failed _ | .waiting _ _ => 1

/-- What a rank that did not end well leaves in its error stream. -/
def closingLine : Outcome → String
  | .failed e => e.line ++ "\n"
  | _ => ""

end RowBlock.Main

open RowBlock RowBlock.Main in
/-- Runs a job, prints what its ranks printed, and writes the files it made. -/
def main (args : List String) : IO UInt32 := do
  let size := ((← IO.getEnv "ROWBLOCK_RANKS").bind String.toNat?).getD 1
  let files ← readFiles (inputPaths args)
  let entropy := (← IO.getRandomBytes 16).foldl (fun n byte => 256 * n + byte.toNat) 0
  let result := Job.run ⟨size, args, files, (List.range size).drop 1, [], [], entropy⟩
  for (console, outcome) in result.consoles.zip result.outcomes do
    IO.print console.output
    IO.eprint (console.errors ++ closingLine outcome)
  for (path, content) in result.files do
    writeFile path content
  return (result.outcomes.map exitCode).foldl max 0
