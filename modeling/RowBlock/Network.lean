import RowBlock.Message

set_option autoImplicit false

/-! # The network of a job

The ranks `0, …, size - 1` of a job share one network. A send appends to the list of pending
messages and completes at once; a receive takes the first pending message for its rank that
comes from the right source on the right channel. Both can be refused: for a rank that does not
exist, and by an injected fault, which lets a number of a rank's calls pass and refuses all
later ones. A refused call, and a receive that finds nothing, leave the pending list as it was.
-/

namespace RowBlock

/-! ## Calls and faults

A fault counts the calls of one kind that one rank makes. It is struck before the call is looked at,
so also by calls that would have been refused. -/

inductive Refusal where
  | invalidRank
  | injectedFault
  deriving DecidableEq, Repr

def Refusal.text : Refusal → String
  | .invalidRank => "invalid rank"
  | .injectedFault => "injected fault"

/-- The calls of a rank that a fault can hit. -/
inductive Call where
  | send
  | receive
  deriving DecidableEq, Repr

/-- A fault of one kind of call of one rank, with the number of calls that still pass. -/
structure Fault where
  rank : Nat
  call : Call
  passing : Nat
  deriving DecidableEq, Repr

/-! ## The state -/

structure Network where
  size : Nat
  /-- The messages not taken yet, in the order they were sent. -/
  pending : List Message
  /-- All messages sent, the latest first. -/
  sent : List Message
  faults : List Fault

inductive Delivery where
  | refused (cause : Refusal)
  | taken (source : Nat) (payload : Payload)
  | nothing

namespace Network

def empty (size : Nat) : Network := ⟨size, [], [], []⟩

/-- Counts a call of a rank against its fault, if there is one: `true` when the fault refuses
it. -/
def strike (rank : Nat) (call : Call) : List Fault → Bool × List Fault
  | [] => (false, [])
  | f :: fs =>
    if f.rank = rank ∧ f.call = call then
      match f.passing with
      | 0 => (true, f :: fs)
      | n + 1 => (false, { f with passing := n } :: fs)
    else
      let (struck, fs) := strike rank call fs
      (struck, f :: fs)

/-- Injects a fault in place of an earlier one for the same calls. -/
def inject (net : Network) (fault : Fault) : Network :=
  { net with faults := fault :: net.faults.filter fun f =>
      !(f.rank == fault.rank && f.call == fault.call) }

def heal (net : Network) : Network := { net with faults := [] }

def hasRank (net : Network) (n : Int) : Bool := 0 ≤ n && n < net.size

/-! ## Sending and receiving

The pending list is in the order of the sends. Messages of one rank to another on one channel are
taken in that order, because a receive takes the first message that fits; between channels and
senders no order is kept. -/

/-- **Sending** a payload from a rank. -/
def send (net : Network) (rank : Nat) (dest : Int) (channel : Channel) (payload : Payload) :
    Except Refusal Unit × Network :=
  let (struck, faults) := strike rank .send net.faults
  let net := { net with faults }
  if struck then (.error .injectedFault, net)
  else if net.hasRank dest then
    let message : Message := ⟨rank, dest.toNat, channel, payload⟩
    (.ok (), { net with pending := net.pending ++ [message], sent := message :: net.sent })
  else (.error .invalidRank, net)

def fits (rank : Nat) (source : Source) (channel : Channel) (m : Message) : Bool :=
  m.dest == rank && m.channel == channel && source.admits m.source

def takeFirst (p : Message → Bool) : List Message → Option (Message × List Message)
  | [] => none
  | m :: ms =>
    if p m then some (m, ms) else (takeFirst p ms).map fun (found, rest) => (found, m :: rest)

/-- Whether a source can be received from at all. -/
def hasSource (net : Network) : Source → Bool
  | .any => true
  | .rank n => net.hasRank n

/-- **Receiving** on behalf of a rank. -/
def receive (net : Network) (rank : Nat) (source : Source) (channel : Channel) :
    Delivery × Network :=
  let (struck, faults) := strike rank .receive net.faults
  let net := { net with faults }
  if struck then (.refused .injectedFault, net)
  else if net.hasSource source then
    match takeFirst (fits rank source channel) net.pending with
    | some (m, rest) => (.taken m.source m.payload, { net with pending := rest })
    | none => (.nothing, net)
  else (.refused .invalidRank, net)

def offers (net : Network) (rank : Nat) (source : Source) (channel : Channel) : Bool :=
  net.pending.any (fits rank source channel)

end Network

end RowBlock
