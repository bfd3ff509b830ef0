import RowBlock.Process

set_option autoImplicit false

/-! # Endpoints

An endpoint is a rank's access to the messages of its job. Sends and receives that the network
refuses fail; those that succeed are recorded in the log. Fields are received and checked in one
step.
-/

namespace RowBlock

/-- A rank in a job of some size. -/
structure Endpoint where
  rank : Nat
  size : Nat
  deriving DecidableEq, Repr

namespace Endpoint

def logger : String := "mpiMGR"

def isCoordinator (e : Endpoint) : Bool := e.rank == coordinatorRank

def workers (e : Endpoint) : Int := (e.size : Int) - 1

def requireWorkers (e : Endpoint) : Except RoleError Unit :=
  if e.size < 2 then .error (.tooFewRanks e.size) else .ok ()

/-! ## Messages

Each of these is one request to the network, whose refusal becomes an error of transport. A check
that fails comes after the log line of the receive, so the log shows what was received even if it
was not accepted. -/

/-- **Sending** a payload to a rank. -/
def send (payload : Payload) (dest : Int) (channel : Channel) : Process Unit := do
  let payload := payload.contiguous
  match ← Process.request (.send dest channel payload) with
  | .error cause => .failed (.transport (.notSent dest channel cause))
  | .ok () =>
    Process.note logger .debug
      s!"sent {payload.describe} to rank {dest} on {channel.name}"

/-- Receiving a payload together with the rank it comes from. -/
def receiveFrom (source : Source) (channel : Channel) : Process (Nat × Payload) := do
  match ← Process.request (.receive source channel) with
  | .error cause => .failed (.transport (.notReceived source channel cause))
  | .ok (sender, payload) =>
    Process.note logger .debug
      s!"received {payload.describe} from rank {source.number} on {channel.name}"
    return (sender, payload)

def receive (source : Source) (channel : Channel) : Process Payload := do
  let (_, payload) ← receiveFrom source channel
  return payload

def receiveAny (channel : Channel) : Process (Nat × Payload) := receiveFrom .any channel

def receiveInt (source : Source) (channel : Channel) : Process Int := do
  let payload ← receive source channel
  Process.ofExcept .transport (Field.int source.number payload)

def receiveBlock (source : Source) (channel : Channel) (rows : Int) (cols? : Option Int) :
    Process Tensor := do
  let payload ← receive source channel
  Process.ofExcept .transport (Field.block source.number rows cols? payload)

def abort (code : Int) : Process Empty := do
  Process.note logger .error s!"aborting job with code {code}"
  Process.request (.abort code)

end Endpoint

end RowBlock
