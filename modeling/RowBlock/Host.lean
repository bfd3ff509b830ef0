import RowBlock.Process

set_option autoImplicit false

/-! # The host of a job

The host is the world the ranks of a job run in: the network, a clock, the files, and for each
rank its text streams and its log. `Host.serve` answers one request of a rank. A receive that
finds no message is not answered; `Host.run` runs a process until it ends or comes to such a
receive.
-/

namespace RowBlock

/-! ## The clock

The readings are those of the test at hand; what follows after the last one is fixed, so that every
run has times. -/

structure Clock where
  readings : List Float
  calls : Nat

namespace Clock

def ofReadings (readings : List Float) : Clock := ⟨readings, 0⟩

/-- The time at a call. -/
def timeAt (readings : List Float) (call : Nat) : Float :=
  match readings[call]?, readings.getLast? with
  | some t, _ => t
  | none, some last => last + 0.25 * Float.ofNat (call + 1 - readings.length)
  | none, none => 0.25 * Float.ofNat call

def read (clock : Clock) : Float × Clock :=
  (timeAt clock.readings clock.calls, { clock with calls := clock.calls + 1 })

end Clock

/-! ## Consoles

A rank has a console of its own. Where a rank has none, writing to it does nothing. -/

structure Console where
  output : String
  errors : String
  log : Log

namespace Console

def empty : Console := ⟨"", "", none⟩

def write (console : Console) (stream : Stream) (text : String) : Console :=
  match stream with
  | .output => { console with output := console.output ++ text }
  | .errors => { console with errors := console.errors ++ text }

def record (console : Console) (entry : LogRecord) : Console :=
  console.write .errors (console.log.line entry)

def setUpLog (console : Console) (setup : LogSetup) : Console :=
  { console with log := console.log.configure setup }

end Console

/-! ## The host

One host serves all ranks. Requests change its parts one at a time, and only messages and files can
carry anything from one rank to another. -/

/-- The state of the world around the ranks. -/
structure Host where
  network : Network
  clock : Clock
  files : Files
  /-- What a rank is given that asks for fresh entropy. -/
  entropy : Nat
  consoles : List Console
  published : List RoundResult

namespace Host

def initial (size : Nat) (readings : List Float) (files : Files) (entropy : Nat) : Host :=
  ⟨.empty size, .ofReadings readings, files, entropy, List.replicate size .empty, []⟩

def console (h : Host) (rank : Nat) : Console := h.consoles.getD rank .empty

def onConsole (h : Host) (rank : Nat) (f : Console → Console) : Host :=
  { h with consoles := h.consoles.modify rank f }

inductive Served (α : Type) where
  | answered (answer : α)
  | waiting (source : Source) (channel : Channel)
  | exited (code : Nat)
  | aborted (code : Int)

/-- **Serving a request** of a rank. -/
def serve (h : Host) (rank : Nat) : (r : Request) → Served r.Answer × Host
  | .send dest channel payload =>
    let (answer, network) := h.network.send rank dest channel payload
    (.answered answer, { h with network })
  | .receive source channel =>
    match h.network.receive rank source channel with
    | (.refused cause, network) => (.answered (.error cause), { h with network })
    | (.taken sender payload, network) => (.answered (.ok (sender, payload)), { h with network })
    | (.nothing, network) => (.waiting source channel, { h with network })
  | .clock =>
    let (time, clock) := h.clock.read
    (.answered time, { h with clock })
  | .entropy => (.answered h.entropy, h)
  | .setUpLog setup => (.answered (), h.onConsole rank (·.setUpLog setup))
  | .record entry => (.answered (), h.onConsole rank (·.record entry))
  | .print stream text => (.answered (), h.onConsole rank (·.write stream text))
  | .read path => (.answered (h.files.read path), h)
  | .write path content =>
    match h.files.write path content with
    | .ok files => (.answered (.ok ()), { h with files })
    | .error e => (.answered (.error e), h)
  | .publish result => (.answered (), { h with published := h.published ++ [result] })
  | .exit code => (.exited code, h)
  | .abort code => (.aborted code, h)

inductive Progress (α : Type) where
  | done (a : α)
  | failed (error : Error)
  | waiting (source : Source) (channel : Channel) (rest : Process α)
  | exited (code : Nat)
  | aborted (code : Int)

/-- **Running a process** of a rank until it ends or waits for a message. -/
def run {α : Type} (h : Host) (rank : Nat) : Process α → Progress α × Host
  | .done a => (.done a, h)
  | .failed e => (.failed e, h)
  | .ask r next =>
    match h.serve rank r with
    | (.answered answer, h) => h.run rank (next answer)
    | (.waiting source channel, h) => (.waiting source channel (.ask r next), h)
    | (.exited code, h) => (.exited code, h)
    | (.aborted code, h) => (.aborted code, h)

end Host

end RowBlock
