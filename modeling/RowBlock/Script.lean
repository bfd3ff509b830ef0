import RowBlock.Worker

set_option autoImplicit false

/-! # Scripts

A script stands in for a worker and plays its part step by step, rightly or wrongly: it receives
work and keeps it, replies with shifted row numbers or with any block, or sends anything to
anybody.
-/

namespace RowBlock

/-- A step of a script. -/
inductive ScriptStep where
  | receive
  | reply (offsetShift countShift : Int)
  | replyBlock (block : Payload)
  | round
  | send (dest : Int) (channel : Channel) (payload : Payload)

namespace Script

def noWork : Work := ⟨0, 0, .zeros (.int .int64) [0, 0], none⟩

/-- **Playing** a script with the work received last. -/
def play [Memory] (w : Worker) (work : Work) : List ScriptStep → Process Unit
  | [] => return ()
  | .receive :: rest => do
    let work ← w.receive
    play w work rest
  | .reply offsetShift countShift :: rest => do
    let block ← Process.ofExcept .kernel (w.compute work)
    Worker.reply (work.offset + offsetShift) (work.rowCount + countShift) (.tensor block)
    play w work rest
  | .replyBlock block :: rest => do
    Worker.reply work.offset work.rowCount block
    play w work rest
  | .round :: rest => do
    w.round
    play w work rest
  | .send dest channel payload :: rest => do
    Endpoint.send payload dest channel
    play w work rest

def receives (steps : List ScriptStep) : Nat := 4 * steps.length

end Script

end RowBlock
