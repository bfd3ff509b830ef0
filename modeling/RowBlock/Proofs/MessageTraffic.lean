import RowBlock.Machine
import RowBlock.Proofs.HostRuns
import RowBlock.Session

set_option autoImplicit false

/-! # Message traffic

The ranks of a job send and receive messages by hand, one call after another, while faults come and go.
The *transcript* of such a session has an entry for each call: what came of it, the messages it took from
the network, and the network before and after it. A message is taken when the host answers a receive with
it, whatever the rank makes of it then.

What each call does is said once (`Session.Entry.IsFaithful`): a send puts its payload behind the pending
messages, a receive takes the first message that fits, and a call that is refused or finds nothing leaves
the pending messages as they were. It follows call by call that on every channel between two ranks no
message is lost, taken twice or overtaken (`Session.messages_in_order`).
-/

namespace RowBlock

/-! ## Payloads on their way

A payload is made contiguous before it is sent, so what arrives may differ from what was given in
one case. The relation says which, without mentioning how it is done. -/

/-- **How a payload arrives**: as it was sent, but for a tensor without axes, which gets one. -/
inductive Payload.ArrivesAs : Payload → Payload → Prop
  | same {p : Payload} (haxes : ∀ t, p = .tensor t → t.shape ≠ []) : ArrivesAs p p
  | axis {t u : Tensor} (hnone : t.shape = []) (htype : u.type = t.type) (hshape : u.shape = [1])
      (hwords : u.words = t.words) : ArrivesAs (.tensor t) (.tensor u)

theorem Tensor.contiguous_of_axes {t : Tensor} (h : t.shape ≠ []) : t.contiguous = t := by
  unfold contiguous
  split
  · rename_i hnone
    exact absurd hnone h
  · rfl

theorem Tensor.contiguous_of_no_axes {t : Tensor} (h : t.shape = []) :
    t.contiguous.type = t.type ∧ t.contiguous.shape = [1] ∧ t.contiguous.words = t.words := by
  have hsize : t.words.size = 1 := by rw [t.size_eq, h, List.prod_nil]
  have hcontiguous : t.contiguous = generate t.type [1] t.word := by
    unfold contiguous
    rw [h]
  rw [hcontiguous]
  refine ⟨rfl, rfl, Array.ext (by simp [generate, hsize]) fun i _ hi => ?_⟩
  obtain rfl : i = 0 := by omega
  simp [generate, word, hsize]

/-- A payload arrives in the form it travels in. -/
theorem Payload.arrivesAs_iff {p q : Payload} : p.ArrivesAs q ↔ q = p.contiguous := by
  constructor
  · rintro (haxes | ⟨hnone, htype, hshape, hwords⟩)
    · cases p with
      | tensor t => rw [contiguous, Tensor.contiguous_of_axes (haxes t rfl)]
      | _ => rfl
    · rename_i t u
      obtain ⟨htype', hshape', hwords'⟩ := Tensor.contiguous_of_no_axes hnone
      rw [contiguous, tensor.injEq]
      cases u
      cases hu : t.contiguous
      simp_all
  · rintro rfl
    cases p with
    | tensor t =>
        by_cases hnone : t.shape = []
        · obtain ⟨htype, hshape, hwords⟩ := Tensor.contiguous_of_no_axes hnone
          exact .axis hnone htype hshape hwords
        · rw [contiguous, Tensor.contiguous_of_axes hnone]
          exact .same fun u hu => by rwa [← Payload.tensor.inj hu]
    | _ => exact .same fun _ hu => by cases hu

/-! ## What the network does

Both calls begin with the same question: does a fault hit the call, and is there such a rank? If
neither stands in the way, the rest is about the pending list alone. -/

namespace Network

/-- **Why the network refuses a call** of a rank, if it does: a fault hits the call, or the rank at the
other end is none of the job. -/
def refusal? (net : Network) (rank : Nat) (call : Call) (known : Bool) : Option Refusal :=
  if (strike rank call net.faults).1 then some .injectedFault
  else if known then none else some .invalidRank

/-- The first message that fits is taken from among the others. -/
theorem takeFirst_append {p : Message → Bool} {before : List Message} {m : Message}
    (hbefore : ∀ x ∈ before, p x = false) (hm : p m = true) (after : List Message) :
    takeFirst p (before ++ m :: after) = some (m, before ++ after) := by
  induction before with
  | nil => simp [takeFirst, hm]
  | cons x before ih =>
      have hx : p x = false := hbefore x List.mem_cons_self
      rw [List.cons_append, takeFirst, hx, ih fun y hy => hbefore y (List.mem_cons_of_mem x hy)]
      rfl

end Network

/-! ## What a process takes

Whether a message was taken cannot be read off the answer of a call, since a field may be refused
after it was received. So it is defined by the run of the process: the answers of the host to its
receives. -/

def Event.taken? (rank : Nat) (e : Event) : Option Message :=
  match e.deed? with
  | some (.taken source channel payload) => some ⟨source, rank, channel, payload⟩
  | _ => none

namespace Host

/-- **The messages that a process takes** while it runs on a host. -/
def taken {α : Type} (h : Host) (rank : Nat) : Process α → List Message
  | .done _ => []
  | .failed _ => []
  | .ask r next =>
    match h.serve rank r with
    | (.answered answer, h) =>
      (Event.taken? rank ⟨r, answer⟩).toList ++ h.taken rank (next answer)
    | _ => []

variable {α : Type} {h host : Host} {rank : Nat} {r : Request} {answer : r.Answer}

end Host

/-- How far a computation that may go wrong has come. -/
def Host.Progress.ofExcept {α : Type} : Except Error α → Host.Progress α
  | .ok a => .done a
  | .error e => .failed e

namespace Host

variable {α : Type}

end Host

/-! ## Transcripts

An entry describes one call by what was before it and what was after it. Each kind of call has one
lemma that says what it does, and the kinds that receive differ only in what they make of the
message. -/

namespace Reaction

def of : Except Error Answer → Reaction
  | .ok a => .answer a
  | .error e => .failed e

end Reaction

namespace Session

/-- The messages that a call takes from the network. -/
def taken (s : Session) : Command → List Message
  | .send rank dest channel payload => s.host.taken rank (Endpoint.send payload dest channel)
  | .receive rank source channel => s.host.taken rank (Endpoint.receive source channel)
  | .receiveAny rank channel => s.host.taken rank (Endpoint.receiveAny channel)
  | .receiveInt rank source channel => s.host.taken rank (Endpoint.receiveInt source channel)
  | .receiveBlock rank source channel rows cols? =>
    s.host.taken rank (Endpoint.receiveBlock source channel rows cols?)
  | _ => []

/-- One call of a session. -/
structure Entry where
  command : Command
  /-- What came of it. -/
  reaction : Reaction
  /-- The messages it took from the network. -/
  taken : List Message
  before : Network
  after : Network

def entry [Memory] (s : Session) (c : Command) : Entry :=
  ⟨c, (s.step c).1, s.taken c, s.host.network, (s.step c).2.host.network⟩

def transcript [Memory] (s : Session) : List Command → List Entry
  | [] => []
  | c :: commands => s.entry c :: (s.step c).2.transcript commands

def after [Memory] (s : Session) (commands : List Command) : Session :=
  commands.foldl (fun s c => (s.step c).2) s

namespace Entry

/-- The payload that a call has sent from one rank to another on a channel, as the caller gave it. -/
def sent? (source dest : Nat) (channel : Channel) (e : Entry) : Option Payload :=
  match e.command, e.reaction with
  | .send rank d c payload, .answer .nothing =>
    if rank = source ∧ d = dest ∧ c = channel then some payload else none
  | _, _ => none

/-- **What a send does.** It fails for a reason the network has, or its payload goes to the end of the
pending messages. -/
def Sends (e : Entry) (rank : Nat) (dest : Int) (channel : Channel) (payload : Payload) : Prop :=
  e.taken = [] ∧
    match e.before.refusal? rank .send (e.before.hasRank dest) with
    | some cause => e.reaction = .failed (.transport (.notSent dest channel cause)) ∧
        e.after.pending = e.before.pending
    | none => e.reaction = .answer .nothing ∧ ∃ (n : Nat) (arriving : Payload), dest = n ∧
        payload.ArrivesAs arriving ∧
        e.after.pending = e.before.pending ++ [⟨rank, n, channel, arriving⟩]

/-- **What a receive does.** It fails for a reason the network has, it would wait because no message
fits, or it takes the first one that fits, and what comes of it is made of that message. -/
def Receives (e : Entry) (rank : Nat) (source : Source) (channel : Channel)
    (answer : Message → Reaction) : Prop :=
  match e.before.refusal? rank .receive (e.before.hasSource source) with
  | some cause => e.reaction = .failed (.transport (.notReceived source channel cause)) ∧
      e.taken = [] ∧ e.after.pending = e.before.pending
  | none =>
    (e.reaction = .wouldWait rank source channel ∧ e.taken = [] ∧ e.after.pending = e.before.pending ∧
      ∀ x ∈ e.before.pending, Network.fits rank source channel x = false) ∨
    ∃ earlier m later, e.before.pending = earlier ++ m :: later ∧
      Network.fits rank source channel m = true ∧
      (∀ x ∈ earlier, Network.fits rank source channel x = false) ∧
      e.reaction = answer m ∧ e.taken = [m] ∧ e.after.pending = earlier ++ later

/-- **What a call does** to the messages, and what it answers. -/
def IsFaithful (e : Entry) : Prop :=
  match e.command with
  | .send rank dest channel payload => e.Sends rank dest channel payload
  | .receive rank source channel =>
    e.Receives rank source channel fun m => .answer (.payload m.payload)
  | .receiveAny rank channel =>
    e.Receives rank .any channel fun m => .answer (.received m.source m.payload)
  | .receiveInt rank source channel =>
    e.Receives rank source channel fun m =>
      .of (((Field.int source.number m.payload).mapError Error.transport).map .number)
  | .receiveBlock rank source channel rows cols? =>
    e.Receives rank source channel fun m =>
      .of (((Field.block source.number rows cols? m.payload).mapError Error.transport).map .block)
  | _ => e.taken = [] ∧ e.after.pending = e.before.pending

end Entry

variable {s : Session} {rank : Nat} {source : Source} {channel : Channel} {c : Command} {α : Type}

section

variable [Memory]

end

namespace Entry

variable {e : Entry}

def arriving (source dest : Nat) (channel : Channel) (e : Entry) : List Payload :=
  ((e.sent? source dest channel).map Payload.contiguous).toList

def takenBetween (source dest : Nat) (channel : Channel) (e : Entry) : List Payload :=
  e.taken.filterMap (Network.between? source dest channel)

/-- **Nothing is lost, doubled or reordered in a call** on a channel between two ranks: what was pending
and what is sent now is what is taken now and what is pending after it. -/
def Conserves (e : Entry) (source dest : Nat) (channel : Channel) : Prop :=
  e.before.between source dest channel ++ e.arriving source dest channel
    = e.takenBetween source dest channel ++ e.after.between source dest channel

theorem conserves_of_nothing {source dest : Nat} {channel : Channel}
    (hsent : e.sent? source dest channel = none) (htaken : e.taken = [])
    (hpending : e.after.pending = e.before.pending) : e.Conserves source dest channel := by
  simp [Conserves, arriving, takenBetween, Network.between, hsent, htaken, hpending]

theorem sent?_eq_none (h : ∀ rank d c payload, e.command ≠ .send rank d c payload)
    (source dest : Nat) (channel : Channel) : e.sent? source dest channel = none := by
  unfold sent?
  split
  · rename_i heq _
    exact absurd heq (h _ _ _ _)
  · rfl

theorem Sends.conserves {rank : Nat} {d : Int} {c : Channel} {payload : Payload}
    (he : e.Sends rank d c payload) (hcommand : e.command = .send rank d c payload)
    (source dest : Nat) (channel : Channel) : e.Conserves source dest channel := by
  obtain ⟨htaken, hcases⟩ := he
  split at hcases
  · obtain ⟨hreaction, hpending⟩ := hcases
    exact conserves_of_nothing (by simp [sent?, hcommand, hreaction]) htaken hpending
  · -- the message sent goes to the end of what is pending between its two ranks
    obtain ⟨hreaction, n, arriving, rfl, harrives, hpending⟩ := hcases
    rw [Payload.arrivesAs_iff] at harrives
    subst harrives
    by_cases hsame : rank = source ∧ n = dest ∧ c = channel <;>
      simp [Conserves, arriving, takenBetween, sent?, hcommand, hreaction, htaken, Network.between,
        hpending, Network.between?, hsame]

theorem Receives.conserves {rank : Nat} {admitted : Source} {c : Channel} {answer : Message → Reaction}
    (he : e.Receives rank admitted c answer)
    (hcommand : ∀ rank d c payload, e.command ≠ .send rank d c payload)
    (source dest : Nat) (channel : Channel) : e.Conserves source dest channel := by
  have hsent := sent?_eq_none hcommand source dest channel
  unfold Receives at he
  split at he
  · obtain ⟨-, htaken, hpending⟩ := he
    exact conserves_of_nothing hsent htaken hpending
  · rcases he with ⟨-, htaken, hpending, -⟩ |
      ⟨earlier, m, later, hsplit, hfits, hearlier, -, htaken, hpending⟩
    · exact conserves_of_nothing hsent htaken hpending
    · -- the message taken was the first one pending between its two ranks
      have hfirst := Network.filterMap_takeFirst (Network.takeFirst_append hearlier hfits later)
        (Network.fits_of_between? hfits source dest channel)
      have hone : [m].filterMap (Network.between? source dest channel)
          = (Network.between? source dest channel m).toList := by
        cases hm : Network.between? source dest channel m <;> simp [hm]
      rw [Conserves, arriving, takenBetween, hsent, htaken, hone, Network.between, Network.between,
        hsplit, hpending, hfirst]
      exact List.append_nil _

theorem IsFaithful.conserves (he : e.IsFaithful) (source dest : Nat) (channel : Channel) :
    e.Conserves source dest channel := by
  unfold IsFaithful at he
  cases hcommand : e.command with
  | send rank d c payload =>
      rw [hcommand] at he
      exact he.conserves hcommand source dest channel
  | receive _ _ _ | receiveAny _ _ | receiveInt _ _ _ | receiveBlock _ _ _ _ _ =>
      rw [hcommand] at he
      exact Receives.conserves he (by simp [hcommand]) source dest channel
  | _ =>
      rw [hcommand] at he
      exact conserves_of_nothing (sent?_eq_none (by simp [hcommand]) _ _ _) he.1 he.2

end Entry

section

variable [Memory]

end

/-- Ranks one and two send to rank zero, and one of them to no rank at all. Rank zero takes a tensor where
it expects a number, and whatever comes first; then it is refused, and at last it finds nothing. -/
def mixed : List Command :=
  [.send 1 0 .result (.tensor (.generate (.int .int8) [] fun _ => 5)), .send 2 0 .result (.int 7),
    .send 1 0 .result (.bool true), .send 1 3 .result .none, .receiveInt 0 (.rank 1) .result,
    .receiveAny 0 .result, .inject ⟨0, .receive, 0⟩, .receive 0 (.rank 1) .result, .heal,
    .receiveAny 0 .work]

end Session

end RowBlock
