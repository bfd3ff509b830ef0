import RowBlock.Coordinator
import RowBlock.Host
import RowBlock.Worker

set_option autoImplicit false

/-! # Sessions

A session drives the ranks of a job by hand, one command at a time, without a schedule: messages
are sent and received, faults injected, and the coordinator and the workers take their single
steps. A command that would have to wait for a message ends there, and leaves what it did before
in place.
-/

namespace RowBlock

/-! ## Commands and answers

A command names the rank that acts. Ranks of a session share nothing but the network; a coordinator
and workers are made by commands and kept for those that follow. -/

inductive Command where
  | info (rank : Nat)
  | requireWorkers (rank : Nat)
  | send (rank : Nat) (dest : Int) (channel : Channel) (payload : Payload)
  | receive (rank : Nat) (source : Source) (channel : Channel)
  | receiveAny (rank : Nat) (channel : Channel)
  | receiveInt (rank : Nat) (source : Source) (channel : Channel)
  | receiveBlock (rank : Nat) (source : Source) (channel : Channel) (rows : Int)
      (cols? : Option Int)
  | abort (rank : Nat) (code? : Option Int)
  | inject (fault : Fault)
  | heal
  | coordinator (rank : Nat) (order : String) (skipEmpty : Bool)
  | worker (rank : Nat) (kernel : String) (skipEmpty : Bool)
  | scatter (a b : Tensor) (assignments? : Option (List Assignment))
  | gather (assignments : List Assignment) (cols : Int) (type : CellType)
  | round (a b : Tensor)
  | workerReceive (rank : Nat)
  | workerCompute (rank : Nat)
  | workerReply (rank : Nat)
  | workerRound (rank : Nat)

inductive Answer where
  | nothing
  | info (endpoint : Endpoint)
  | payload (payload : Payload)
  | received (source : Nat) (payload : Payload)
  | number (n : Int)
  | block (t : Tensor)
  | aborted (rank : Nat) (code : Int)
  | assignments (assignments : List Assignment)
  | round (result : RoundResult)
  | work (work : Work)

/-- What comes of a command: an answer, an error, a receive that finds no message, or nothing
to work with. -/
inductive Reaction where
  | answer (answer : Answer)
  | failed (error : Error)
  | wouldWait (rank : Nat) (source : Source) (channel : Channel)
  | noState (rank : Nat)

/-! ## The state

A worker that receives work loses what it had received and computed before, also if the receive
fails. So nothing can be sent that belongs to an earlier round. -/

/-- The state of a session. What workers received and computed is kept for each rank. -/
structure Session where
  host : Host
  coordinator? : Option Coordinator
  workers : List (Nat × Worker)
  works : List (Nat × Work)
  blocks : List (Nat × Tensor)

namespace Session

def initial (size : Nat) (readings : List Float) : Session :=
  ⟨.initial size readings ⟨[]⟩ 0, none, [], [], []⟩

/-- Forgets what a rank received and computed. -/
def forget (s : Session) (rank : Nat) : Session :=
  { s with works := s.works.filter (·.1 != rank), blocks := s.blocks.filter (·.1 != rank) }

def endpoint (s : Session) (rank : Nat) : Endpoint := ⟨rank, s.host.network.size⟩

def react (s : Session) (reaction : Reaction) : Reaction × Session := (reaction, s)

/-! ## Running a command

A command runs at most one process, and whatever this did to the host stays done, also if it fails
or has to wait. The answer is made from its result. -/

/-- Runs a process of a rank and goes on with its result. -/
def perform {α : Type} (s : Session) (rank : Nat) (p : Process α)
    (next : α → Session → Reaction × Session) : Reaction × Session :=
  let (progress, host) := s.host.run rank p
  let s := { s with host }
  match progress with
  | .done a => next a s
  | .failed e => s.react (.failed e)
  | .waiting source channel _ => s.react (.wouldWait rank source channel)
  | .exited _ => s.react (.answer .nothing)
  | .aborted code => s.react (.answer (.aborted rank code))

def answering {α : Type} (s : Session) (rank : Nat) (p : Process α) (answer : α → Answer) :
    Reaction × Session :=
  s.perform rank p fun a s => s.react (.answer (answer a))

def taking {ε α : Type} (s : Session) (error : ε → Error) (result : Except ε α)
    (next : α → Session) : Reaction × Session :=
  match result with
  | .ok a => (.answer .nothing, next a)
  | .error e => s.react (.failed (error e))

def withCoordinator (s : Session) (next : Coordinator → Reaction × Session) :
    Reaction × Session :=
  match s.coordinator? with
  | some c => next c
  | none => s.react (.noState coordinatorRank)

/-- Goes on with what is kept for a rank, if there is something. -/
def withKept {α : Type} (s : Session) (rank : Nat) (kept : List (Nat × α))
    (next : α → Reaction × Session) : Reaction × Session :=
  match kept.lookup rank with
  | some a => next a
  | none => s.react (.noState rank)

/-- The assignments of a scatter that names none. -/
def assignmentsFor (s : Session) (a : Tensor) : Except Error (List Assignment) :=
  if a.rank = 0 then .error .noSuchAxis
  else (Partition.balanced a.rows (s.endpoint coordinatorRank).workers).mapError .partition

def defaultCode : Int := 1

/-- **One command.** -/
def step [Memory] (s : Session) : Command → Reaction × Session
  | .info rank => s.react (.answer (.info (s.endpoint rank)))
  | .requireWorkers rank => s.taking .role (s.endpoint rank).requireWorkers fun _ => s
  | .send rank dest channel payload =>
    s.answering rank (Endpoint.send payload dest channel) fun _ => .nothing
  | .receive rank source channel =>
    s.answering rank (Endpoint.receive source channel) .payload
  | .receiveAny rank channel =>
    s.answering rank (Endpoint.receiveAny channel) fun (source, p) => .received source p
  | .receiveInt rank source channel =>
    s.answering rank (Endpoint.receiveInt source channel) .number
  | .receiveBlock rank source channel rows cols? =>
    s.answering rank (Endpoint.receiveBlock source channel rows cols?) .block
  | .abort rank code? =>
    s.answering rank (Endpoint.abort (code?.getD defaultCode)) fun never => nomatch never
  | .inject fault =>
    (.answer .nothing, { s with host.network := s.host.network.inject fault })
  | .heal => (.answer .nothing, { s with host.network := s.host.network.heal })
  | .coordinator rank order skipEmpty =>
    s.taking .role (Coordinator.create (s.endpoint rank) order skipEmpty) fun c =>
      { s with coordinator? := some c }
  | .worker rank kernel skipEmpty =>
    let kernel := (Kernel.named kernel).mapError Error.kernel
    s.taking id (Worker.create (s.endpoint rank) kernel skipEmpty) fun w =>
      { s with workers := (rank, w) :: s.workers }
  | .scatter a b assignments? =>
    s.withCoordinator fun c =>
      match (assignments?.map .ok).getD (s.assignmentsFor a) with
      | .error e => s.react (.failed e)
      | .ok assignments =>
        s.answering coordinatorRank (c.scatter a b assignments) fun _ =>
          .assignments assignments
  | .gather assignments cols type =>
    s.withCoordinator fun c =>
      s.answering coordinatorRank (c.gather assignments cols type) .block
  | .round a b =>
    s.withCoordinator fun c => s.answering coordinatorRank (c.round a b) .round
  | .workerReceive rank =>
    let s := s.forget rank
    s.withKept rank s.workers fun w =>
      s.perform rank w.receive fun work s =>
        (.answer (.work work), { s with works := (rank, work) :: s.works })
  | .workerCompute rank =>
    s.withKept rank s.works fun work =>
      s.withKept rank s.workers fun w =>
        match w.compute work with
        | .error e => s.react (.failed (.kernel e))
        | .ok block => (.answer (.block block), { s with blocks := (rank, block) :: s.blocks })
  | .workerReply rank =>
    s.withKept rank s.works fun work =>
      s.withKept rank s.blocks fun block =>
        s.answering rank (Worker.reply work.offset work.rowCount (.tensor block)) fun _ =>
          .nothing
  | .workerRound rank =>
    s.withKept rank s.workers fun w => s.answering rank w.round fun _ => .nothing

/-- **A list of commands**: what comes of each, with the messages pending after it. -/
def runAll [Memory] (s : Session) : List Command → List (Reaction × List Message)
  | [] => []
  | command :: rest =>
    let (reaction, s) := s.step command
    (reaction, s.host.network.pending) :: s.runAll rest

end Session

end RowBlock
