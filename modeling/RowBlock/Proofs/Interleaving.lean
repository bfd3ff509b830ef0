import RowBlock.Host
import RowBlock.Proofs.History

set_option autoImplicit false

/-! # Interleavings

The ranks of a job run side by side: at each step one of them asks for the next thing its process
wants, and the host serves it (`Step`). A receive that finds no message is not served, so that
rank waits. Beside the ranks there may be hazards: faults injected and removed at any moment, and
*rogue* ranks, which send and receive what they like. A `Run` lists its moves; what one rank did
in it is that rank's history (`historyOf`).

On every channel between two ranks, what was sent is what was taken followed by what is pending
(`Run.conserves`). Where every process meets a contract, and the contracts guarantee what they rely
on, the contracts hold of the histories of every run (`Run.meets`).
-/

namespace RowBlock

/-! ## Steps and runs

A step is a rank, the request its process wants next, and the answer of the host. The answers are
those of the host alone; which rank is next is free. Readings of the clock and records of the log
are steps like any other, but they leave nothing in the histories. -/

structure Ensemble where
  parts : List (Process Unit)
  host : Host

/-- What may go wrong in a run. -/
structure Hazards where
  /-- Faults are injected and removed at any moment. -/
  faults : Prop
  /-- The ranks that do not keep to their processes. They may ask for anything at any time, except
  that they publish no results. -/
  rogue : Nat → Prop

def Hazards.none : Hazards := ⟨False, fun _ => False⟩

def Request.isMessage : Request → Bool
  | .send _ _ _ | .receive _ _ => true
  | _ => false

def Request.isPublication : Request → Bool
  | .publish _ => true
  | _ => false

/-- One move of a run. -/
inductive Move where
  | act (rank : Nat) (event : Event)
  | inject (fault : Fault)
  | heal

/-- **One step**: a rank does what its process asks for, a rogue rank does anything it may, or a fault
comes or goes. -/
inductive Step (z : Hazards) : Ensemble → Move → Ensemble → Prop
  | act {s : Ensemble} {rank : Nat} {r : Request} {next : r.Answer → Process Unit}
      {answer : r.Answer} {host : Host} (hhonest : ¬z.rogue rank)
      (hpart : s.parts[rank]? = some (.ask r next))
      (hserve : s.host.serve rank r = (.answered answer, host)) :
      Step z s (.act rank ⟨r, answer⟩) ⟨s.parts.set rank (next answer), host⟩
  | rogue {s : Ensemble} {rank : Nat} {r : Request} {answer : r.Answer} {host : Host}
      (hrogue : z.rogue rank) (hpublication : r.isPublication = false)
      (hserve : s.host.serve rank r = (.answered answer, host)) :
      Step z s (.act rank ⟨r, answer⟩) ⟨s.parts, host⟩
  | inject {s : Ensemble} (fault : Fault) (hfaults : z.faults) :
      Step z s (.inject fault) { s with host.network := s.host.network.inject fault }
  | heal {s : Ensemble} (hfaults : z.faults) :
      Step z s .heal { s with host.network := s.host.network.heal }

/-- **A run**: any number of steps, the moves listed in order. -/
inductive Run (z : Hazards) (s : Ensemble) : List Move → Ensemble → Prop
  | refl : Run z s [] s
  | step {ms : List Move} {t u : Ensemble} {m : Move} (hrun : Run z s ms t) (hstep : Step z t m u) :
      Run z s (ms ++ [m]) u

def Move.eventOf? (rank : Nat) : Move → Option Event
  | .act r e => if r = rank ∧ e.request.isQuiet = false then some e else none
  | _ => none

/-- **The history of a rank** in a run with these moves. -/
def historyOf (ms : List Move) (rank : Nat) : History := ms.filterMap (Move.eventOf? rank)

@[simp]
theorem historyOf_nil (rank : Nat) : historyOf [] rank = [] := rfl

theorem historyOf_act (ms : List Move) (r : Nat) (e : Event) (rank : Nat) :
    historyOf (ms ++ [.act r e]) rank
      = if r = rank then (historyOf ms rank).add e else historyOf ms rank := by
  unfold historyOf History.add
  rw [List.filterMap_append]
  by_cases hr : r = rank <;> cases hq : e.request.isQuiet <;> simp [Move.eventOf?, hr, hq]

theorem historyOf_inject (ms : List Move) (fault : Fault) (rank : Nat) :
    historyOf (ms ++ [.inject fault]) rank = historyOf ms rank := by
  simp [historyOf, Move.eventOf?]

theorem historyOf_heal (ms : List Move) (rank : Nat) :
    historyOf (ms ++ [.heal]) rank = historyOf ms rank := by
  simp [historyOf, Move.eventOf?]

/-! ## What the network keeps

A receive takes the first message that fits. For one sender, one receiver and one channel these are
exactly the messages between them, whether the receive names the sender or takes any; so each such
channel is a queue, though the network is not. -/

namespace Network

def between? (source dest : Nat) (channel : Channel) (m : Message) : Option Payload :=
  if m.source = source ∧ m.dest = dest ∧ m.channel = channel then some m.payload else none

/-- The payloads pending from one rank to another on a channel. -/
def between (net : Network) (source dest : Nat) (channel : Channel) : List Payload :=
  net.pending.filterMap (between? source dest channel)

/-- **Taking the first message that fits** leaves the ones before it, which do not fit, and the ones
after it. -/
theorem takeFirst_eq_some {p : Message → Bool} {m : Message} {l rest : List Message}
    (h : takeFirst p l = some (m, rest)) :
    p m = true ∧ ∃ before after, l = before ++ m :: after ∧ rest = before ++ after ∧
      ∀ x ∈ before, p x = false := by
  induction l generalizing rest with
  | nil => cases h
  | cons x l ih =>
      simp only [takeFirst] at h
      by_cases hp : p x = true
      · rw [if_pos hp] at h
        cases h
        exact ⟨hp, [], l, rfl, rfl, by simp⟩
      · rw [if_neg hp, Option.map_eq_some_iff] at h
        obtain ⟨⟨found, tail⟩, htail, heq⟩ := h
        cases heq
        obtain ⟨hm, before, after, rfl, rfl, hbefore⟩ := ih htail
        exact ⟨hm, x :: before, after, rfl, rfl, by simpa [hp] using hbefore⟩

theorem takeFirst_eq_none {p : Message → Bool} {l : List Message} :
    takeFirst p l = none ↔ ∀ m ∈ l, p m = false := by
  induction l with
  | nil => simp [takeFirst]
  | cons x l ih =>
      by_cases hp : p x = true
      · simp [takeFirst, hp]
      · simp [takeFirst, hp, ih]

theorem fits_iff {rank : Nat} {source : Source} {channel : Channel} {m : Message} :
    fits rank source channel m = true ↔
      m.dest = rank ∧ m.channel = channel ∧ source.admits m.source = true := by
  simp [fits, and_assoc]

theorem fits_of_between? {rank : Nat} {admitted : Source} {c : Channel} {m : Message}
    (h : fits rank admitted c m = true) (source dest : Nat) (channel : Channel) (x : Message)
    (hm : (between? source dest channel m).isSome) (hx : (between? source dest channel x).isSome) :
    fits rank admitted c x = true := by
  simp only [between?, Option.isSome_ite] at hm hx
  obtain ⟨hdest, hchannel, hadmits⟩ := fits_iff.mp h
  obtain ⟨hm1, hm2, hm3⟩ := hm
  obtain ⟨hx1, hx2, hx3⟩ := hx
  refine fits_iff.mpr ⟨?_, ?_, ?_⟩
  · rw [hx2, ← hm2, hdest]
  · rw [hx3, ← hm3, hchannel]
  · rw [hx1, ← hm1]
    exact hadmits

/-- Of the messages that all fit if one does, the first one is taken. -/
theorem filterMap_takeFirst {β : Type} {p : Message → Bool} {f : Message → Option β}
    {m : Message} {l rest : List Message} (h : takeFirst p l = some (m, rest))
    (hf : ∀ x, (f m).isSome → (f x).isSome → p x = true) :
    l.filterMap f = (f m).toList ++ rest.filterMap f := by
  obtain ⟨-, before, after, rfl, rfl, hbefore⟩ := takeFirst_eq_some h
  rw [List.filterMap_append, List.filterMap_append]
  cases hm : f m with
  | none => simp [hm]
  | some b =>
      -- a message before the one taken would have been taken itself
      have hnone : before.filterMap f = [] := by
        apply List.filterMap_eq_nil_iff.mpr
        intro x hx
        by_contra hsome
        have hfits := hf x (by simp [hm]) (Option.isSome_iff_ne_none.mpr hsome)
        rw [hbefore x hx] at hfits
        cases hfits
      simp [hnone, hm]

variable {net after : Network} {rank : Nat} {channel : Channel}

/-- A send is refused and changes no message, or it appends one. -/
theorem send_cases {dest : Int} {payload : Payload} {answer : Except Refusal Unit}
    (h : net.send rank dest channel payload = (answer, after)) :
    after.size = net.size ∧
      ((∃ cause, answer = .error cause ∧ after.pending = net.pending) ∨
        (answer = .ok () ∧ net.hasRank dest = true ∧
          after.pending = net.pending ++ [⟨rank, dest.toNat, channel, payload⟩])) := by
  unfold send at h
  cases hstrike : strike rank .send net.faults with
  | mk struck faults =>
      rw [hstrike] at h
      simp only at h
      split at h
      · cases h
        exact ⟨rfl, .inl ⟨_, rfl, rfl⟩⟩
      · split at h
        · rename_i hrank
          cases h
          exact ⟨rfl, .inr ⟨rfl, hrank, rfl⟩⟩
        · cases h
          exact ⟨rfl, .inl ⟨_, rfl, rfl⟩⟩

/-- A receive takes a message away only when it is answered with it. -/
theorem receive_cases {source : Source} {delivery : Delivery}
    (h : net.receive rank source channel = (delivery, after)) :
    after.size = net.size ∧
      ((∃ cause, delivery = .refused cause ∧ after.pending = net.pending) ∨
        (∃ m, delivery = .taken m.source m.payload ∧
          takeFirst (fits rank source channel) net.pending = some (m, after.pending)) ∨
        (delivery = .nothing ∧ after.pending = net.pending)) := by
  unfold receive at h
  cases hstrike : strike rank .receive net.faults with
  | mk struck faults =>
      rw [hstrike] at h
      simp only at h
      split at h
      · cases h
        exact ⟨rfl, .inl ⟨_, rfl, rfl⟩⟩
      · split at h
        · split at h
          · rename_i m rest htake
            cases h
            exact ⟨rfl, .inr (.inl ⟨m, rfl, htake⟩)⟩
          · cases h
            exact ⟨rfl, .inr (.inr ⟨rfl, rfl⟩)⟩
        · cases h
          exact ⟨rfl, .inl ⟨_, rfl, rfl⟩⟩

theorem taken_cases {source : Source} {sender : Nat} {payload : Payload}
    (h : net.receive rank source channel = (.taken sender payload, after)) :
    ∃ m : Message, (sender, payload) = (m.source, m.payload) ∧
      takeFirst (fits rank source channel) net.pending = some (m, after.pending) := by
  obtain ⟨-, ⟨_, hcase, -⟩ | ⟨m, hcase, htake⟩ | ⟨hcase, -⟩⟩ := receive_cases h
  · cases hcase
  · cases hcase
    exact ⟨m, rfl, htake⟩
  · cases hcase

end Network

/-! ## What the host answers

The host answers a request in one of three ways as far as messages are concerned: nothing happens, a
message is appended, or the first one that fits is taken away. -/

namespace Host

variable {h host : Host} {rank : Nat} {r : Request} {answer : r.Answer}

@[simp]
theorem published_onConsole (f : Console → Console) :
    (h.onConsole rank f).published = h.published := rfl

theorem serve_send {dest : Int} {channel : Channel} {payload : Payload} {answer : Except Refusal Unit}
    (hserve : h.serve rank (.send dest channel payload) = (.answered answer, host)) :
    ∃ net, h.network.send rank dest channel payload = (answer, net) ∧
      host = { h with network := net } := by
  simp only [serve] at hserve
  cases hserve
  exact ⟨_, rfl, rfl⟩

theorem serve_receive {source : Source} {channel : Channel}
    {answer : Except Refusal (Nat × Payload)}
    (hserve : h.serve rank (.receive source channel) = (.answered answer, host)) :
    ∃ net, host = { h with network := net } ∧
      ((∃ cause, answer = .error cause ∧
          h.network.receive rank source channel = (.refused cause, net)) ∨
        ∃ sender payload, answer = .ok (sender, payload) ∧
          h.network.receive rank source channel = (.taken sender payload, net)) := by
  simp only [serve] at hserve
  split at hserve
  · rename_i cause net hreceive
    cases hserve
    exact ⟨net, rfl, .inl ⟨cause, rfl, hreceive⟩⟩
  · rename_i sender payload net hreceive
    cases hserve
    exact ⟨net, rfl, .inr ⟨sender, payload, rfl, hreceive⟩⟩
  · cases hserve

theorem serve_other (hr : r.isMessage = false) (hserve : h.serve rank r = (.answered answer, host)) :
    host.network = h.network := by
  cases r with
  | send _ _ _ => cases hr
  | receive _ _ => cases hr
  | write path content =>
      simp only [serve] at hserve
      split at hserve <;> cases hserve <;> rfl
  | _ =>
      simp only [serve] at hserve
      cases hserve
      try rfl

theorem serve_size (hserve : h.serve rank r = (.answered answer, host)) :
    host.network.size = h.network.size := by
  cases hr : r.isMessage with
  | false => rw [serve_other hr hserve]
  | true =>
      cases r with
      | send dest channel payload =>
          obtain ⟨net, hsend, rfl⟩ := serve_send hserve
          exact (Network.send_cases hsend).1
      | receive source channel =>
          obtain ⟨net, rfl, ⟨_, -, hreceive⟩ | ⟨_, _, -, hreceive⟩⟩ := serve_receive hserve <;>
            exact (Network.receive_cases hreceive).1
      | _ => cases hr

/-- **What a request does to the messages**: nothing, or it appends the one it sends, or it takes the
first one that fits. -/
theorem serve_cases (hserve : h.serve rank r = (.answered answer, host)) :
    (Event.deed? ⟨r, answer⟩ = none ∧ host.network.pending = h.network.pending) ∨
      (∃ (dest : Nat) (channel : Channel) (payload : Payload),
        Event.deed? ⟨r, answer⟩ = some (.sent dest channel payload) ∧
        host.network.pending = h.network.pending ++ [⟨rank, dest, channel, payload⟩]) ∨
      ∃ (source : Source) (m : Message), m.dest = rank ∧
        Event.deed? ⟨r, answer⟩ = some (.taken m.source m.channel m.payload) ∧
        Network.takeFirst (Network.fits rank source m.channel) h.network.pending
          = some (m, host.network.pending) := by
  cases hmessage : r.isMessage with
  | false =>
      have hdeed : Event.deed? ⟨r, answer⟩ = none := by
        cases r <;> first | rfl | cases hmessage
      exact .inl ⟨hdeed, by rw [serve_other hmessage hserve]⟩
  | true =>
      cases r with
      | send d channel payload =>
          obtain ⟨net, hsend, rfl⟩ := serve_send hserve
          obtain ⟨-, ⟨cause, rfl, hpending⟩ | ⟨rfl, hrank, hpending⟩⟩ := Network.send_cases hsend
          · exact .inl ⟨rfl, hpending⟩
          · simp only [Network.hasRank, Bool.and_eq_true, decide_eq_true_eq] at hrank
            have hdest : (d.toNat : Int) = d := Int.toNat_of_nonneg hrank.1
            exact .inr (.inl ⟨d.toNat, channel, payload, by rw [hdest]; rfl, hpending⟩)
      | receive source channel =>
          obtain ⟨net, rfl, ⟨cause, rfl, hreceive⟩ | ⟨sender, payload, rfl, hreceive⟩⟩ :=
            serve_receive hserve
          · obtain ⟨-, ⟨_, -, hpending⟩ | ⟨m, hcase, -⟩ | ⟨hcase, -⟩⟩ := Network.receive_cases hreceive
            · exact .inl ⟨rfl, hpending⟩
            · cases hcase
            · cases hcase
          · obtain ⟨m, htaken, htake⟩ := Network.taken_cases hreceive
            cases htaken
            obtain ⟨hdest, rfl, -⟩ := Network.fits_iff.mp (Network.takeFirst_eq_some htake).1
            exact .inr (.inr ⟨source, m, hdest, rfl, htake⟩)
      | _ => cases hmessage

/-- **Conservation in one request**: what was pending and what is sent now is what is taken now and
what is pending after it. -/
theorem serve_conserves (hserve : h.serve rank r = (.answered answer, host))
    (source dest : Nat) (channel : Channel) :
    h.network.between source dest channel
        ++ (if rank = source then sentTo (Event.deed? ⟨r, answer⟩).toList dest channel else [])
      = (if rank = dest then takenFrom (Event.deed? ⟨r, answer⟩).toList source channel else [])
        ++ host.network.between source dest channel := by
  rcases serve_cases hserve with ⟨hdeed, hpending⟩ | ⟨d, c, payload, hdeed, hpending⟩ |
    ⟨admitted, m, hdest, hdeed, htake⟩
  · simp [hdeed, Network.between, hpending]
  · -- the message sent goes to the end of what is pending between its two ranks
    have hnone : takenFrom [Deed.sent d c payload] source channel = [] := rfl
    simp only [hdeed, Option.toList_some, hnone, ite_self, List.nil_append, Network.between, hpending]
    have hdest : (d : Int) = dest ↔ d = dest := Int.natCast_inj
    by_cases hs : rank = source <;> by_cases hd : d = dest <;> by_cases hc : c = channel <;>
      simp [Network.between?, sentTo, Deed.sentTo?, hdest, hs, hd, hc]
  · -- the message taken was the first one pending between its two ranks
    have hsplit := Network.filterMap_takeFirst htake
      (Network.fits_of_between? (Network.takeFirst_eq_some htake).1 source dest channel)
    have hnone : sentTo [Deed.taken m.source m.channel m.payload] dest channel = [] := rfl
    simp only [hdeed, Option.toList_some, hnone, ite_self, List.append_nil, Network.between, hsplit]
    by_cases hr : rank = dest <;> by_cases hs : m.source = source <;>
      by_cases hc : m.channel = channel <;>
      simp [Network.between?, takenFrom, Deed.takenFrom?, hdest, hr, hs, hc]

theorem serve_admitted (hserve : h.serve rank r = (.answered answer, host)) :
    Event.IsAdmitted ⟨r, answer⟩ := by
  cases r with
  | receive s c =>
      obtain ⟨net, rfl, ⟨cause, rfl, -⟩ | ⟨sender, payload, rfl, hreceive⟩⟩ := serve_receive hserve
      · trivial
      · obtain ⟨m, htaken, htake⟩ := Network.taken_cases hreceive
        cases htaken
        exact (Network.fits_iff.mp (Network.takeFirst_eq_some htake).1).2.2
  | _ => trivial

theorem serve_published (hserve : h.serve rank r = (.answered answer, host)) :
    host.published = h.published ++ (Event.published? ⟨r, answer⟩).toList := by
  cases r with
  | receive s c =>
      obtain ⟨net, rfl, -⟩ := serve_receive hserve
      simp [Event.published?]
  | write path content =>
      simp only [serve] at hserve
      split at hserve <;> cases hserve <;> simp [Event.published?]
  | _ =>
      simp only [serve] at hserve
      cases hserve
      try simp [Event.published?, published_onConsole]

end Host

/-! ## What a run keeps

All of these go by induction on the run, from its end. The step at the end is served by a host whose
state is known from the run before it, and its event is the last one of the history of its rank. -/

variable {z : Hazards} {s t u : Ensemble} {ms : List Move} {m : Move}

/-- **What a step can be**: a rank's request is served, or the faults change. -/
theorem Step.cases_host (hstep : Step z s m t) :
    (∃ (rank : Nat) (e : Event), m = .act rank e ∧
        s.host.serve rank e.request = (.answered e.answer, t.host)) ∨
      (∀ (ms : List Move) (rank : Nat), historyOf (ms ++ [m]) rank = historyOf ms rank) ∧
        t.parts = s.parts ∧ t.host.network.pending = s.host.network.pending ∧
        t.host.network.size = s.host.network.size ∧ t.host.published = s.host.published := by
  cases hstep with
  | act _ _ hserve => exact .inl ⟨_, _, rfl, hserve⟩
  | rogue _ _ hserve => exact .inl ⟨_, _, rfl, hserve⟩
  | inject fault _ => exact .inr ⟨fun ms => historyOf_inject ms fault, rfl, rfl, rfl, rfl⟩
  | heal _ => exact .inr ⟨historyOf_heal, rfl, rfl, rfl, rfl⟩

/-- **A step without hazards** serves the request of a rank's process. -/
theorem Step.of_none (hstep : Step .none s m t) :
    ∃ (rank : Nat) (r : Request) (next : r.Answer → Process Unit) (answer : r.Answer) (host : Host),
      m = .act rank ⟨r, answer⟩ ∧ s.parts[rank]? = some (.ask r next) ∧
        s.host.serve rank r = (.answered answer, host) ∧
        t = ⟨s.parts.set rank (next answer), host⟩ := by
  cases hstep with
  | act _ hpart hserve => exact ⟨_, _, _, _, _, rfl, hpart, hserve, rfl⟩
  | rogue hrogue _ _ => exact hrogue.elim
  | inject _ hfaults => exact hfaults.elim
  | heal hfaults => exact hfaults.elim

theorem Step.length_parts (hstep : Step z s m t) : t.parts.length = s.parts.length := by
  cases hstep with
  | act _ _ _ => exact List.length_set
  | _ => rfl

theorem Step.size (hstep : Step z s m t) : t.host.network.size = s.host.network.size := by
  rcases hstep.cases_host with ⟨rank, e, rfl, hserve⟩ | ⟨-, -, -, hsize, -⟩
  · exact Host.serve_size hserve
  · exact hsize

theorem Run.length_parts (hrun : Run z s ms t) : t.parts.length = s.parts.length := by
  induction hrun with
  | refl => rfl
  | step _ hstep ih => rw [hstep.length_parts, ih]

theorem Run.size (hrun : Run z s ms t) : t.host.network.size = s.host.network.size := by
  induction hrun with
  | refl => rfl
  | step _ hstep ih => rw [hstep.size, ih]

theorem Run.append {ns : List Move} (hrun : Run z s ms t) (hnext : Run z t ns u) :
    Run z s (ms ++ ns) u := by
  induction hnext with
  | refl => simpa using hrun
  | step _ hstep ih =>
      rw [← List.append_assoc]
      exact ih.step hstep

theorem deeds_historyOf_act (ms : List Move) (r : Nat) (e : Event) (rank : Nat) :
    (historyOf (ms ++ [.act r e]) rank).deeds
      = (historyOf ms rank).deeds ++ if r = rank then e.deed?.toList else [] := by
  rw [historyOf_act]
  split
  · exact History.deeds_add _ e
  · simp

/-- **Conservation**: on every channel between two ranks, what was pending and what was sent is what
was taken followed by what is pending. -/
theorem Run.conserves (hrun : Run z s ms t) (source dest : Nat) (channel : Channel) :
    s.host.network.between source dest channel
        ++ sentTo (historyOf ms source).deeds dest channel
      = takenFrom (historyOf ms dest).deeds source channel
        ++ t.host.network.between source dest channel := by
  induction hrun with
  | refl => simp
  | @step ms t u m hrun hstep ih =>
      rcases hstep.cases_host with ⟨rank, e, rfl, hserve⟩ | ⟨hsame, -, hpending, -, -⟩
      · -- both histories grow by what the request sends and takes
        have hone := Host.serve_conserves hserve source dest channel
        have hsent : sentTo (historyOf (ms ++ [.act rank e]) source).deeds dest channel
            = sentTo (historyOf ms source).deeds dest channel
              ++ if rank = source then sentTo e.deed?.toList dest channel else [] := by
          rw [deeds_historyOf_act, sentTo_append]
          split <;> rfl
        have htaken : takenFrom (historyOf (ms ++ [.act rank e]) dest).deeds source channel
            = takenFrom (historyOf ms dest).deeds source channel
              ++ if rank = dest then takenFrom e.deed?.toList source channel else [] := by
          rw [deeds_historyOf_act, takenFrom_append]
          split <;> rfl
        rw [hsent, htaken, ← List.append_assoc, ih, List.append_assoc, List.append_assoc]
        exact congrArg _ hone
      · have hbetween : u.host.network.between source dest channel
            = t.host.network.between source dest channel := by
          simp only [Network.between, hpending]
        rw [hsame, hsame, ih, hbetween]

theorem deeds_historyOf_isPrefix (ms ns : List Move) (rank : Nat) :
    (historyOf ms rank).deeds <+: (historyOf (ms ++ ns) rank).deeds := by
  rw [historyOf, historyOf, List.filterMap_append]
  exact ⟨_, (History.deeds_append _ _).symm⟩

/-- On a network that starts empty, what was sent is what was taken and what is pending. -/
theorem Run.sentTo_eq (hempty : s.host.network.pending = []) (hrun : Run z s ms t)
    (source dest : Nat) (channel : Channel) :
    sentTo (historyOf ms source).deeds dest channel
      = takenFrom (historyOf ms dest).deeds source channel
        ++ t.host.network.between source dest channel := by
  have hstart : s.host.network.between source dest channel = [] := by
    simp [Network.between, hempty]
  rw [← hrun.conserves source dest channel, hstart, List.nil_append]

/-- On a network that starts empty, **what a rank has taken after a step was sent before it**. -/
theorem Run.takenFrom_isPrefix (hempty : s.host.network.pending = []) (hrun : Run z s ms t)
    (hstep : Step z t m u) (source dest : Nat) (channel : Channel) :
    takenFrom (historyOf (ms ++ [m]) dest).deeds source channel
      <+: sentTo (historyOf ms source).deeds dest channel := by
  have hold := hrun.sentTo_eq hempty source dest channel
  have hnew := (hrun.step hstep).sentTo_eq hempty source dest channel
  rcases hstep.cases_host with ⟨rank, e, rfl, -⟩ | ⟨hsame, -⟩
  · rw [deeds_historyOf_act] at hnew ⊢
    cases hd : e.deed? with
    | none =>
        rw [hd] at hnew
        simp only [Option.toList_none, ite_self, List.append_nil] at hnew ⊢
        exact ⟨_, hold.symm⟩
    | some d =>
        cases d with
        | sent d c payload =>
            -- nothing is taken, so this is conservation before the step
            have hnone : takenFrom (if rank = dest then (some (Deed.sent d c payload)).toList else [])
                source channel = [] := by split <;> rfl
            rw [takenFrom_append, hnone, List.append_nil]
            exact ⟨_, hold.symm⟩
        | taken _ c payload =>
            -- nothing is sent, so this is conservation after it
            have hnone : sentTo (if rank = source then e.deed?.toList else []) dest channel = [] := by
              rw [hd]
              split <;> rfl
            rw [sentTo_append, hnone, List.append_nil, deeds_historyOf_act, hd] at hnew
            exact ⟨_, hnew.symm⟩
  · rw [hsame] at hnew ⊢
    exact ⟨_, hold.symm⟩

/-- **What every step of a rank has**, every event in its history has. -/
theorem Run.forall_mem_historyOf {rank : Nat} {P : Event → Prop} (hrun : Run z s ms t)
    (h : ∀ {ns : List Move} {u v : Ensemble} {e : Event}, Run z s ns u → Step z u (.act rank e) v →
      e.request.isQuiet = false → P e) : ∀ e ∈ historyOf ms rank, P e := by
  induction hrun with
  | refl => exact fun e he => absurd he List.not_mem_nil
  | @step ms t u m hrun hstep ih =>
      intro e he
      rw [historyOf, List.filterMap_append, List.mem_append] at he
      rcases he with hold | hnew
      · exact ih e hold
      · cases m with
        | act r event =>
            simp only [List.filterMap_cons, List.filterMap_nil, Move.eventOf?] at hnew
            split at hnew
            · cases hnew
            · rename_i x heq
              simp only [Option.ite_none_right_eq_some, Option.some.injEq] at heq
              obtain ⟨⟨rfl, hloud⟩, rfl⟩ := heq
              rw [List.mem_singleton] at hnew
              subst hnew
              exact h hrun hstep hloud
        | inject _ => cases hnew
        | heal => cases hnew

theorem Run.admitted (hrun : Run z s ms t) (rank : Nat) : (historyOf ms rank).Admitted := by
  refine hrun.forall_mem_historyOf fun _ hstep _ => ?_
  cases hstep with
  | act _ _ hserve => exact Host.serve_admitted hserve
  | rogue _ _ hserve => exact Host.serve_admitted hserve

theorem published_historyOf_act (ms : List Move) (r : Nat) (e : Event) (rank : Nat) :
    (historyOf (ms ++ [.act r e]) rank).published
      = (historyOf ms rank).published ++ if r = rank then e.published?.toList else [] := by
  rw [historyOf_act]
  split
  · exact History.published_add _ e
  · simp

/-- Where one rank alone publishes, **the host has what that rank published**. -/
theorem Run.published (hrun : Run z s ms t) {rank : Nat}
    (hothers : ∀ r ≠ rank, (historyOf ms r).published = []) :
    t.host.published = s.host.published ++ (historyOf ms rank).published := by
  induction hrun with
  | refl => rw [historyOf_nil, History.published_nil, List.append_nil]
  | @step ms t u m hrun hstep ih =>
      rcases hstep.cases_host with ⟨r, e, rfl, hserve⟩ | ⟨hsame, -, -, -, hpublished⟩
      · simp only [published_historyOf_act, List.append_eq_nil_iff] at hothers
        rw [Host.serve_published hserve, ih fun r' hr' => (hothers r' hr').1,
          published_historyOf_act, List.append_assoc]
        congr 2
        -- a rank other than the publishing one adds nothing
        by_cases hr : r = rank
        · rw [if_pos hr]
        · have hnone := (hothers r hr).2
          rw [if_pos rfl] at hnone
          rw [if_neg hr]
          exact hnone
      · simp only [hsame] at hothers
        rw [hpublished, ih hothers, hsame]

/-- **Contracts hold of runs**: where every part that keeps to its process meets a contract, and the
histories a step can lead to are such as the contracts rely on, provided that the contracts held
before it, every part meets its contract after its history. -/
theorem Run.meets {C : Nat → Contract Unit}
    (hstart : ∀ rank p, ¬z.rogue rank → s.parts[rank]? = some p → p.Meets (C rank) [])
    (hrely : ∀ ms t m u, Run z s ms t → Step z t m u →
      (∀ rank < s.parts.length, ¬z.rogue rank → (C rank).holds (historyOf ms rank)) →
      ∀ rank < s.parts.length, ¬z.rogue rank → (C rank).rely (historyOf (ms ++ [m]) rank))
    (hrun : Run z s ms t) :
    ∀ rank p, ¬z.rogue rank → t.parts[rank]? = some p → p.Meets (C rank) (historyOf ms rank) := by
  induction hrun with
  | refl => exact hstart
  | @step ms t u m hrun hstep ih =>
      intro rank p hhonest hpart
      have hlength : rank < s.parts.length := by
        obtain ⟨hlt, -⟩ := List.getElem?_eq_some_iff.mp hpart
        rwa [hstep.length_parts, hrun.length_parts] at hlt
      have hholds : ∀ rank < s.parts.length, ¬z.rogue rank → (C rank).holds (historyOf ms rank) := by
        intro rank hlt hhonest
        rw [← hrun.length_parts] at hlt
        exact (ih rank _ hhonest (List.getElem?_eq_getElem hlt)).holds
      have hnew := hrely ms t m u hrun hstep hholds rank hlength hhonest
      -- only the part whose request is served moves on, and only its history grows
      cases hstep with
      | @act r request next answer host _ hnext hserve =>
          rw [historyOf_act] at hnew ⊢
          by_cases hr : r = rank
          · subst hr
            rw [if_pos rfl] at hnew ⊢
            have hlt := (List.getElem?_eq_some_iff.mp hnext).1
            rw [List.getElem?_set_self hlt] at hpart
            cases hpart
            exact (ih r _ hhonest hnext).2.2 answer hnew
          · rw [if_neg hr]
            rw [List.getElem?_set_ne hr] at hpart
            exact ih rank p hhonest hpart
      | @rogue r request answer host hrogue _ _ =>
          have hr : r ≠ rank := fun h => hhonest (h ▸ hrogue)
          rw [historyOf_act, if_neg hr]
          exact ih rank p hhonest hpart
      | inject fault _ =>
          rw [historyOf_inject]
          exact ih rank p hhonest hpart
      | heal _ =>
          rw [historyOf_heal]
          exact ih rank p hhonest hpart

theorem Run.historyOf_eq_nil (hrun : Run z s ms t) {rank : Nat} (hrogue : ¬z.rogue rank)
    (hnone : s.parts.length ≤ rank) : historyOf ms rank = [] := by
  apply List.eq_nil_iff_forall_not_mem.mpr
  refine hrun.forall_mem_historyOf fun hbefore hstep _ => ?_
  cases hstep with
  | act _ hpart _ =>
      have hlt := (List.getElem?_eq_some_iff.mp hpart).1
      rw [hbefore.length_parts] at hlt
      omega
  | rogue hrank _ _ => exact hrogue hrank

theorem History.published_eq_nil {h : History}
    (hnone : ∀ e ∈ h, e.request.isPublication = false) : h.published = [] := by
  apply List.filterMap_eq_nil_iff.mpr
  rintro ⟨r, answer⟩ he
  have hr := hnone _ he
  cases r <;> first | rfl | cases hr

theorem Run.published_rogue (hrun : Run z s ms t) {rank : Nat} (hrogue : z.rogue rank) :
    (historyOf ms rank).published = [] := by
  apply History.published_eq_nil
  refine hrun.forall_mem_historyOf fun _ hstep _ => ?_
  cases hstep with
  | act hhonest _ _ => exact absurd hrogue hhonest
  | rogue _ hpublication _ => exact hpublication

/-- **Rogue ranks can act as honest ones**: a run without hazards is also one in which some ranks that
publish nothing are rogue. -/
theorem Run.rogue (hrun : Run .none s ms t)
    (hquiet : ∀ rank, z.rogue rank → (historyOf ms rank).published = []) :
    ∃ parts, Run z s ms ⟨parts, t.host⟩ ∧
      ∀ rank, ¬z.rogue rank → parts[rank]? = t.parts[rank]? := by
  induction hrun with
  | refl => exact ⟨s.parts, .refl, fun _ _ => rfl⟩
  | @step ms t u m hrun hstep ih =>
      obtain ⟨r, request, next, answer, host, rfl, hpart, hserve, rfl⟩ := hstep.of_none
      simp only [published_historyOf_act, List.append_eq_nil_iff] at hquiet
      obtain ⟨parts, hz, hsame⟩ := ih fun rank hrank => (hquiet rank hrank).1
      by_cases hr : z.rogue r
      · -- a rogue rank leaves its part where it is
        refine ⟨parts, hz.step (.rogue hr ?_ hserve), fun rank hrank => ?_⟩
        · have hnone := (hquiet r hr).2
          rw [if_pos rfl] at hnone
          cases request <;> first | rfl | cases hnone
        · rw [hsame rank hrank, List.getElem?_set_ne fun h => hrank (by rwa [← h])]
      · have hpart' : parts[r]? = some (.ask request next) := by rw [hsame r hr, hpart]
        refine ⟨parts.set r (next answer), hz.step (.act hr hpart' hserve), fun rank hrank => ?_⟩
        rw [List.getElem?_set, List.getElem?_set, hsame rank hrank]
        split
        · rw [if_pos (List.getElem?_eq_some_iff.mp hpart).1,
            if_pos (List.getElem?_eq_some_iff.mp hpart').1]
        · rfl

end RowBlock
