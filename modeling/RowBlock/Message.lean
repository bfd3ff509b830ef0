import RowBlock.Payload

set_option autoImplicit false

/-! # Messages

Ranks exchange messages on two channels: work goes from the coordinator to a worker, results
come back. A receive names the rank it waits for, or takes a message from any rank.
-/

namespace RowBlock

/-! ## Channels and sources

A receive from a rank that does not exist is refused by the network, so a source is any integer
here; one integer stands for all ranks. -/

/-- The direction of a message. -/
inductive Channel where
  | work
  | result
  deriving DecidableEq, Repr

def Channel.name : Channel → String
  | .work => "WORK"
  | .result => "RESULT"

/-- Whom a receive takes a message from. -/
inductive Source where
  | any
  | rank (number : Int)
  deriving DecidableEq, Repr

namespace Source

/-- The number that stands for any rank. -/
def anyNumber : Int := -2

def ofInt (n : Int) : Source := if n = anyNumber then any else rank n

def number : Source → Int
  | any => anyNumber
  | rank n => n

def admits : Source → Nat → Bool
  | any, _ => true
  | rank n, sender => n == sender

end Source

/-- One message. -/
structure Message where
  source : Nat
  dest : Nat
  channel : Channel
  payload : Payload

/-- The message in one line: `0>1 WORK 5`. -/
def Message.line (m : Message) : String :=
  s!"{m.source}>{m.dest} {m.channel.name} {m.payload.describe}"

end RowBlock
