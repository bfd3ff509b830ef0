import RowBlock.Proofs.Paths
import RowBlock.Proofs.WireProtocol
import Mathlib.Logic.Relation

set_option autoImplicit false

/-! # Sends without buffers

Here a send completes only at the moment its destination takes the message: the two ranks move on
together (`Unbuffered.meet`), and no message is ever pending. Such a run is one in which every message is
taken in the step after it is sent (`Unbuffered.exists_run`), so what holds of all runs holds of it.

A crew with room for its products does not rely on buffers (`Crew.no_deadlock`): as long as a rank is not
done, one rank is about to send what another one is about to receive. The argument follows the
coordinator. Where it is about to send to a worker, that worker is not in a reply, since all replies of
the rounds before have been taken (`Crew.matches_of_send`); where it is about to receive, the worker that
is waited for has all work of the round and is in its reply (`Crew.exists_matches_of_receive`). Without
room a worker can be left with a reply that nobody takes (`Crew.deadlock_without_room`).
-/

namespace RowBlock

/-! ## Steps without buffers

Requests other than messages are served as before. For a message two ranks have to be ready at the
same time, and both move on in one step. -/

def Host.pass (h : Host) (m : Message) : Host :=
  { h with network.sent := m :: h.network.sent }

/-- **A rank on its own** asks for something other than a message. -/
inductive Alone : Ensemble → Ensemble → Prop
  | act {s : Ensemble} {rank : Nat} {r : Request} {next : r.Answer → Process Unit} {answer : r.Answer}
      {host : Host} (hpart : s.parts[rank]? = some (.ask r next)) (hlocal : r.isMessage = false)
      (hserve : s.host.serve rank r = (.answered answer, host)) :
      Alone s ⟨s.parts.set rank (next answer), host⟩

/-- **One step without buffers**: a rank does something on its own, or two ranks meet, one that sends to
the other and one that receives from it. -/
inductive Unbuffered : Ensemble → Ensemble → Prop
  | alone {s t : Ensemble} (h : Alone s t) : Unbuffered s t
  | meet {s : Ensemble} {sender receiver : Nat} {source : Source} {channel : Channel}
      {payload : Payload} {next : Except Refusal Unit → Process Unit}
      {resume : Except Refusal (Nat × Payload) → Process Unit}
      (hsender : s.parts[sender]? = some (.ask (.send receiver channel payload) next))
      (hreceiver : s.parts[receiver]? = some (.ask (.receive source channel) resume))
      (hadmits : source.admits sender = true) :
      Unbuffered s ⟨(s.parts.set sender (next (.ok ()))).set receiver (resume (.ok (sender, payload))),
        s.host.pass ⟨sender, receiver, channel, payload⟩⟩

namespace Ensemble

/-- **A matching pair**: one rank is about to send to another one, which is about to receive from it. -/
def Matches (s : Ensemble) (sender receiver : Nat) : Prop :=
  ∃ channel payload next source resume,
    s.parts[sender]? = some (.ask (.send receiver channel payload) next) ∧
      s.parts[receiver]? = some (.ask (.receive source channel) resume) ∧
      source.admits sender = true

def IsSettled (s : Ensemble) : Prop :=
  ∀ (rank : Nat) (r : Request) (next : r.Answer → Process Unit),
    s.parts[rank]? = some (.ask r next) → r.isMessage = true

/-- No message is pending, no fault is injected, and each part is that of a rank of the job. -/
structure IsPlain (s : Ensemble) : Prop where
  pending_eq : s.host.network.pending = []
  faults_eq : s.host.network.faults = []
  size_eq : s.host.network.size = s.parts.length

/-- A matching pair can take a step. -/
theorem Matches.exists_step {s : Ensemble} {sender receiver : Nat} (h : s.Matches sender receiver) :
    ∃ t, Unbuffered s t := by
  obtain ⟨channel, payload, next, source, resume, hsender, hreceiver, hadmits⟩ := h
  exact ⟨_, .meet hsender hreceiver hadmits⟩

end Ensemble

/-! ## Runs without buffers are runs

A meeting is a send and the receive right after it. The state between the two has one pending
message, which is the one taken, so a run without buffers passes through states of ordinary runs
with nothing pending. -/

def Host.holding (h : Host) (pending : List Message) : Host :=
  { h with network.pending := pending }

theorem Host.holding_nil {h : Host} (hpending : h.network.pending = []) : h.holding [] = h := by
  rw [holding, ← hpending]

theorem Host.serve_send_plain {h : Host} (hfaults : h.network.faults = []) (rank : Nat) {dest : Nat}
    (hdest : dest < h.network.size) (channel : Channel) (payload : Payload) :
    h.serve rank (.send dest channel payload) = (.answered (.ok ()),
      (h.pass ⟨rank, dest, channel, payload⟩).holding
        (h.network.pending ++ [⟨rank, dest, channel, payload⟩])) := by
  obtain ⟨⟨size, pending, sent, faults⟩, clock, files, consoles, published⟩ := h
  simp only at hfaults hdest
  subst hfaults
  simp [serve, Network.send, Network.strike, Network.hasRank, hdest, pass, holding]

theorem Host.serve_receive_plain {h : Host} (hfaults : h.network.faults = []) {rank : Nat} {m : Message}
    {source : Source} (hsource : h.network.hasSource source = true) {channel : Channel}
    (hfits : Network.fits rank source channel m = true) :
    (h.holding [m]).serve rank (.receive source channel)
      = (.answered (.ok (m.source, m.payload)), h.holding []) := by
  obtain ⟨⟨size, pending, sent, faults⟩, clock, files, consoles, published⟩ := h
  simp only at hfaults
  subst hfaults
  have hadmitted : Network.hasSource ⟨size, [m], sent, []⟩ source = true := hsource
  simp [serve, Network.receive, Network.strike, holding, hadmitted, Network.takeFirst, hfits]

/-- **A step without buffers** is one or two steps after which no message is pending. -/
theorem Unbuffered.exists_run {s t : Ensemble} (h : Unbuffered s t) (hplain : s.IsPlain) :
    (∃ ms, Run .none s ms t) ∧ t.IsPlain := by
  obtain ⟨hpending, hfaults, hsize⟩ := hplain
  cases h with
  | alone h =>
      obtain ⟨hpart, hlocal, hserve⟩ := h
      refine ⟨⟨_, Run.step .refl (.act id hpart hserve)⟩, ?_⟩
      have hnetwork := Host.serve_other hlocal hserve
      exact ⟨by rw [hnetwork, hpending], by rw [hnetwork, hfaults],
        by rw [hnetwork, hsize, List.length_set]⟩
  | @meet sender receiver source channel payload next resume hsender hreceiver hadmits =>
      have hsenderlt := (List.getElem?_eq_some_iff.mp hsender).1
      have hreceiverlt := (List.getElem?_eq_some_iff.mp hreceiver).1
      have hne : sender ≠ receiver := by
        rintro rfl
        rw [hsender] at hreceiver
        cases hreceiver
      have hsource : s.host.network.hasSource source = true := by
        cases source with
        | any => rfl
        | rank n =>
            have hn : n = sender := by simpa [Source.admits] using hadmits
            simp only [Network.hasSource, Network.hasRank, Bool.and_eq_true, decide_eq_true_eq]
            omega
      -- the message is sent, and then it is the only one there is
      have hsend := Host.serve_send_plain hfaults sender (by rwa [hsize]) channel payload
      rw [hpending, List.nil_append] at hsend
      have hreceive := Host.serve_receive_plain
        (h := s.host.pass ⟨sender, receiver, channel, payload⟩)
        (m := ⟨sender, receiver, channel, payload⟩) hfaults hsource
        (Network.fits_iff.mpr ⟨rfl, rfl, hadmits⟩)
      rw [Host.holding_nil (h := s.host.pass _) hpending] at hreceive
      have hpart : (s.parts.set sender (next (.ok ())))[receiver]?
          = some (.ask (.receive source channel) resume) := by
        rw [List.getElem?_set_ne hne, hreceiver]
      have hfirst := Step.act (z := .none) id hsender hsend
      have hsecond := Step.act (z := .none) (s := ⟨_, _⟩) id hpart hreceive
      refine ⟨⟨_, (Run.step .refl hfirst).step hsecond⟩, ?_⟩
      exact ⟨hpending, hfaults, by simp [Host.pass, hsize]⟩

/-- **A run without buffers** is a run at whose end no message is pending. -/
theorem exists_run_of_unbuffered {s t : Ensemble} (h : Relation.ReflTransGen Unbuffered s t)
    (hplain : s.IsPlain) : (∃ ms, Run .none s ms t) ∧ t.IsPlain := by
  induction h with
  | refl => exact ⟨⟨[], .refl⟩, hplain⟩
  | tail _ hstep ih =>
      obtain ⟨⟨ms, hrun⟩, hmiddle⟩ := ih
      obtain ⟨⟨ns, hmore⟩, hend⟩ := hstep.exists_run hmiddle
      exact ⟨⟨ms ++ ns, hrun.append hmore⟩, hend⟩

/-! ## Runs without buffers end

The measure is that of ordinary runs, and a meeting makes two parts smaller at once. -/

/-- **No run without buffers is infinite**: each step leaves less of one or two parts. -/
theorem wellFounded_unbuffered : WellFounded fun t s : Ensemble => Unbuffered s t := by
  have : Std.Irrefl (Process.Left (α := Unit)) := ⟨Process.wellFounded_left.irrefl.irrefl⟩
  have hcut : WellFounded (InvImage (Relation.TransGen (Relation.CutExpand Process.Left))
      fun s : Ensemble => (s.parts : Multiset (Process Unit))) :=
    InvImage.wf _ Process.wellFounded_left.cutExpand.transGen
  -- a part that is answered is exchanged for what is left of it
  have hone {parts : List (Process Unit)} {rank : Nat} {r : Request} {next : r.Answer → Process Unit}
      (answer : r.Answer) (hpart : parts[rank]? = some (.ask r next)) :
      Relation.CutExpand Process.Left (parts.set rank (next answer) : Multiset (Process Unit)) parts :=
    ⟨{next answer}, .ask r next, by simpa using Process.Left.answered r next answer,
      coe_set_add (next answer) hpart⟩
  refine Subrelation.wf ?_ hcut
  intro t s hstep
  cases hstep with
  | alone h =>
      obtain ⟨hpart, -, -⟩ := h
      exact .single (hone _ hpart)
  | @meet sender receiver source channel payload next resume hsender hreceiver _ =>
      have hne : sender ≠ receiver := by
        rintro rfl
        rw [hsender] at hreceiver
        cases hreceiver
      have hpart : (s.parts.set sender (next (.ok ())))[receiver]?
          = some (.ask (.receive source channel) resume) := by
        rw [List.getElem?_set_ne hne, hreceiver]
      exact .tail (.single (hone _ hpart)) (hone _ hsender)

theorem exists_unbuffered_final (s : Ensemble) :
    ∃ t, Relation.ReflTransGen Unbuffered s t ∧ ∀ u, ¬Unbuffered t u := by
  induction s using wellFounded_unbuffered.induction with
  | _ s ih =>
      by_cases h : ∃ t, Unbuffered s t
      · obtain ⟨t, hstep⟩ := h
        obtain ⟨u, hreach, hfinal⟩ := ih t hstep
        exact ⟨u, .head hstep hreach, hfinal⟩
      · exact ⟨s, .refl, not_exists.mp h⟩

/-! ## A crew without buffers

In a state with nothing pending, what a rank has sent is what the other one has taken, so the
histories of two ranks tell how far each has come in its plan. A settled worker stands at a message
of its plan; if the coordinator stands at a message for it, the two are the same place in both
plans. -/

namespace Crew

variable {crew : Crew} {readings : List Float} {files : Files} {t : Ensemble} {ms : List Move} {i : Nat}

section

variable [Memory]

theorem sentTo_eq_takenFrom (hrun : Run .none (crew.start readings files) ms t)
    (hpending : t.host.network.pending = []) (source dest : Nat) (channel : Channel) :
    sentTo (historyOf ms source).deeds dest channel
      = takenFrom (historyOf ms dest).deeds source channel := by
  rw [hrun.sentTo_eq rfl source dest channel, Network.between, hpending, List.filterMap_nil,
    List.append_nil]

/-- **A worker before its next message** is done, has work to take or has a result to send. -/
theorem settled_worker (hrun : Run .none (crew.start readings files) ms t) (hsettled : t.IsSettled)
    (hroom : ∀ f ∈ crew.factors, f.HasRoom) {p : Process Unit} (hpart : t.parts[i + 1]? = some p) :
    p = .done () ∨
      (∃ payload rest next, p = .ask (.receive (.rank 0) .work) next ∧
        crew.workerPlan i = (historyOf ms (i + 1)).deeds ++ .taken 0 .work payload :: rest) ∨
      ∃ payload rest next, p = .ask (.send 0 .result payload) next ∧
        crew.workerPlan i = (historyOf ms (i + 1)).deeds ++ .sent 0 .result payload :: rest := by
  cases p with
  | done a => exact .inl rfl
  | failed e =>
      obtain ⟨⟨f, hf, hnone⟩, -⟩ := failed_part hrun hpart
      exact absurd (hroom f hf) hnone
  | ask r next =>
      have hquiet : r.isQuiet = false := by
        have hmessage := hsettled _ r next hpart
        cases r <;> first | rfl | cases hmessage
      obtain ⟨d, rest, hplan, rfl⟩ := asks_of_part hrun hpart hquiet
      have hmem : d ∈ crew.workerPlan i := by
        rw [hplan]
        simp
      obtain ⟨payload, rfl | rfl⟩ := mem_workerPlan hmem
      · exact .inr (.inl ⟨payload, rest, next, rfl, hplan⟩)
      · exact .inr (.inr ⟨payload, rest, next, rfl, hplan⟩)

omit [Memory] in
theorem length_sentTo_lt {payload : Payload} {rest : List Deed}
    (hplan : crew.workerPlan i = (historyOf ms (i + 1)).deeds ++ .sent 0 .result payload :: rest) :
    (sentTo (historyOf ms (i + 1)).deeds 0 .result).length < 3 * crew.factors.length := by
  have hlength := congrArg (fun ds => (sentTo ds 0 .result).length) hplan
  simp only [sentTo_workerPlan, length_replies, sentTo_append, List.length_append] at hlength
  rw [hlength]
  simp [sentTo, Deed.sentTo?]

section

variable (hrun : Run .none (crew.start readings files) ms t) (hplain : t.IsPlain)
  (hsettled : t.IsSettled) (hroom : ∀ f ∈ crew.factors, f.HasRoom)
include hrun hplain hsettled hroom

/-- **Where the coordinator is about to send**, the worker is about to take what it sends. -/
theorem matches_of_send (hi : i < crew.workers) {payload : Payload} {rest : List Deed}
    {next : Except Refusal Unit → Process Unit}
    (hpart : t.parts[0]? = some (.ask (.send (i + 1 : Nat) .work payload) next))
    (hplan : crew.coordinatorPlan
      = (historyOf ms 0).deeds.filter Deed.isSent ++ .sent (i + 1 : Nat) .work payload :: rest) :
    t.Matches 0 (i + 1) := by
  have hwork := sentTo_eq_takenFrom hrun hplain.pending_eq 0 (i + 1) .work
  obtain ⟨q, hworker⟩ := exists_part hrun (Nat.succ_lt_succ hi)
  rcases settled_worker hrun hsettled hroom hworker with
    rfl | ⟨_, _, resume, rfl, -⟩ | ⟨reply, _, resume, rfl, hworkerPlan⟩
  · -- a worker that is done has taken this message as well
    have hall := sentTo_coordinatorPlan hi .work
    rw [← done_worker hrun hworker, ← hwork, hplan, sentTo_append, sentTo_filter] at hall
    have hlength := congrArg List.length hall
    simp [sentTo, Deed.sentTo?] at hlength
  · exact ⟨.work, payload, next, .rank 0, resume, hpart, hworker, by simp [Source.admits]⟩
  · exfalso
    -- a worker in a reply has the work of that round, so the coordinator has taken the reply
    have hreplies := sentTo_eq_takenFrom hrun hplain.pending_eq (i + 1) 0 .result
    have hfew := length_sentTo_lt hworkerPlan
    generalize hn : (sentTo (historyOf ms (i + 1)).deeds 0 .result).length / 3 = n
    have hround : ((crew.factors.take (n + 1)).flatMap
          fun f => f.workFields crew.workers crew.skipEmpty i).length
        ≤ (sentTo (historyOf ms 0).deeds (i + 1) .work).length := by
      have hnext : (historyOf ms (i + 1)).deeds ++ [.sent 0 .result reply]
          <+: crew.factors.flatMap fun f => f.workerPlan crew.workers crew.skipEmpty i :=
        ⟨_, by rw [List.append_assoc]; exact hworkerPlan.symm⟩
      have htaken := (Factors.workFields_isPrefix_takenFrom (n := n) hnext
        (by simp [sentTo, Deed.sentTo?] at hn ⊢; omega)).length_le
      rwa [takenFrom_append, show takenFrom [Deed.sent 0 .result reply] 0 .work = [] from rfl,
        List.append_nil, ← hwork] at htaken
    have hsize : i + 1 < t.host.network.size := by
      rw [hplain.size_eq, hrun.length_parts, length_start]
      exact Nat.succ_lt_succ hi
    have hstep := Step.act (z := .none) id hpart
      (Host.serve_send_plain hplain.faults_eq 0 hsize .work payload)
    have hdone := (round_received (fun _ h => h) hrun hi hstep rfl hround hi).2.length_le
    rw [length_replies, List.length_take, ← hreplies] at hdone
    omega

/-- **Where the coordinator is about to receive**, one of the workers is about to send it a result. -/
theorem exists_matches_of_receive {source : Source} {channel : Channel}
    {next : Except Refusal (Nat × Payload) → Process Unit}
    (hpart : t.parts[0]? = some (.ask (.receive source channel) next)) :
    ∃ i, t.Matches (i + 1) 0 := by
  obtain ⟨n, f, hf, -, hsent, i, hi, hfew, hr⟩ := waiting_coordinator hrun hpart
  have hn : n < crew.factors.length := (List.getElem?_eq_some_iff.mp hf).1
  rw [← sentTo_eq_takenFrom hrun hplain.pending_eq (i + 1) 0 .result] at hfew
  obtain ⟨q, hworker⟩ := exists_part hrun (Nat.succ_lt_succ hi)
  rcases settled_worker hrun hsettled hroom hworker with
    rfl | ⟨_, _, _, rfl, hplan⟩ | ⟨reply, _, resume, rfl, -⟩
  · rw [done_worker hrun hworker, sentTo_workerPlan, length_replies] at hfew
    omega
  · -- a worker that takes work has replied to all rounds whose work it was sent
    have hwork : takenFrom (historyOf ms (i + 1)).deeds 0 .work
        = (crew.factors.take (n + 1)).flatMap
          fun f => f.workFields crew.workers crew.skipEmpty i := by
      rw [← sentTo_eq_takenFrom hrun hplain.pending_eq, ← sentTo_filter, hsent,
        Factors.sentTo_coordinatorPlans hi]
    rw [Factors.sentTo_of_waiting hplan hwork, length_replies, List.length_take] at hfew
    omega
  · refine ⟨i, .result, reply, resume, source, next, hworker, ?_, ?_⟩
    · rcases hr with hr | hr <;> cases hr <;> exact hpart
    · rcases hr with hr | hr <;> cases hr <;> simp [Source.admits]

/-- **When the coordinator is done**, all workers are. -/
theorem isDone_of_coordinator (hdone : t.parts[0]? = some (.done ())) : t.IsDone := by
  obtain ⟨hsent, -, hcounts, -⟩ := returns_coordinator hrun hdone
  intro p hp
  obtain ⟨rank, hlt, rfl⟩ := List.mem_iff_getElem.mp hp
  have hpart := List.getElem?_eq_getElem hlt
  cases rank with
  | zero => exact Option.some.inj (hpart.symm.trans hdone)
  | succ i =>
      have hi : i < crew.workers := Nat.lt_of_succ_lt_succ (rank_lt hrun hpart)
      rcases settled_worker hrun hsettled hroom hpart with
        heq | ⟨payload, rest, _, -, hplan⟩ | ⟨_, _, _, -, hplan⟩
      · exact heq
      · have hwork := sentTo_eq_takenFrom hrun hplain.pending_eq 0 (i + 1) .work
        rw [← sentTo_filter, hsent, sentTo_coordinatorPlan hi, hplan] at hwork
        exact absurd hwork (takenFrom_append_taken_ne _ rest 0 .work payload)
      · have hfew := length_sentTo_lt hplan
        rw [sentTo_eq_takenFrom hrun hplain.pending_eq, hcounts i hi] at hfew
        omega

/-- **In a settled state** all ranks are done, or two of them can meet. -/
theorem isDone_or_exists_matches :
    t.IsDone ∨ ∃ sender receiver, t.Matches sender receiver := by
  obtain ⟨p, hpart⟩ := exists_part hrun (Nat.succ_pos crew.workers)
  cases p with
  | done a => exact .inl (isDone_of_coordinator hrun hplain hsettled hroom hpart)
  | failed e =>
      obtain ⟨⟨f, hf, hnone⟩, -⟩ := failed_part hrun hpart
      exact absurd (hroom f hf) hnone
  | ask r next =>
      have hmessage := hsettled _ r next hpart
      have hquiet : r.isQuiet = false := by cases r <;> first | rfl | cases hmessage
      rcases asks_of_part hrun hpart hquiet with
        ⟨result, rfl⟩ | ⟨d, rest, hplan, rfl⟩ | ⟨_, _, -, -, -, _, -, -, rfl | rfl⟩
      · cases hmessage
      · have hmem : d ∈ crew.coordinatorPlan := by
          rw [coordinatorPlan, hplan]
          simp
        obtain ⟨i, hi, payload, rfl⟩ := mem_coordinatorPlan hmem
        exact .inr ⟨0, i + 1, matches_of_send hrun hplain hsettled hroom hi hpart hplan⟩
      · obtain ⟨i, hmatches⟩ := exists_matches_of_receive hrun hplain hsettled hroom hpart
        exact .inr ⟨i + 1, 0, hmatches⟩
      · obtain ⟨i, hmatches⟩ := exists_matches_of_receive hrun hplain hsettled hroom hpart
        exact .inr ⟨i + 1, 0, hmatches⟩

end

/-! ## No deadlock

Ranks can always go on to their next message, for requests other than messages are granted. From a
settled state on, the lemmas of the section before find a pair that can meet. -/

theorem isPlain_start : (crew.start readings files).IsPlain := ⟨rfl, rfl, length_start.symm⟩

theorem exists_alone (hrun : Run .none (crew.start readings files) ms t) {rank : Nat} {r : Request}
    {next : r.Answer → Process Unit} (hpart : t.parts[rank]? = some (.ask r next))
    (hlocal : r.isMessage = false) : ∃ u, Alone t u := by
  by_contra hnone
  rcases Host.unanswered fun answer host hserve => hnone ⟨_, .act hpart hlocal hserve⟩ with
    hend | ⟨source, channel, rfl, -⟩
  · have hquiet : r.isQuiet = false := by cases r <;> first | rfl | cases hend
    have hasks := asks_of_part hrun hpart hquiet
    rw [(asks_cases hrun.size (rank_lt hrun hpart) hasks).2] at hend
    cases hend
  · cases hlocal

theorem isSettled_of_final (hrun : Run .none (crew.start readings files) ms t)
    (hfinal : ∀ u, ¬Unbuffered t u) : t.IsSettled := by
  intro rank r next hpart
  by_contra hlocal
  obtain ⟨u, hstep⟩ := exists_alone hrun hpart (by simpa using hlocal)
  exact hfinal u (.alone hstep)

/-- **Each rank goes on to its next message** on its own. -/
theorem exists_settled (hrun : Run .none (crew.start readings files) ms t) (hplain : t.IsPlain) :
    ∃ u, Relation.ReflTransGen Alone t u ∧ u.IsSettled := by
  -- induction on what is left of the ranks
  induction t using wellFounded_unbuffered.induction generalizing ms with
  | _ t ih =>
      by_cases hsettled : t.IsSettled
      · exact ⟨t, .refl, hsettled⟩
      · simp only [Ensemble.IsSettled, not_forall] at hsettled
        obtain ⟨rank, r, next, hpart, hlocal⟩ := hsettled
        obtain ⟨v, hstep⟩ := exists_alone hrun hpart (by simpa using hlocal)
        obtain ⟨⟨ns, hmore⟩, hlater⟩ := (Unbuffered.alone hstep).exists_run hplain
        obtain ⟨u, hreach, hu⟩ := ih v (.alone hstep) (hrun.append hmore) hlater
        exact ⟨u, .head hstep hreach, hu⟩

/-- **Buffers are not needed**, if there is room for all products. In every state that a crew reaches
without them, as soon as all ranks have come to their next message either all ranks are done or two of
them can meet; so no run ends before all ranks are done, and there is no endless one. -/
theorem no_deadlock (crew : Crew) (readings : List Float) (files : Files)
    (hroom : ∀ f ∈ crew.factors, f.HasRoom) :
    (∀ t, Relation.ReflTransGen Unbuffered (crew.start readings files) t →
      (t.IsSettled → t.IsDone ∨ ∃ sender receiver, t.Matches sender receiver) ∧
      (∃ u, Relation.ReflTransGen Alone t u ∧ u.IsSettled ∧
        (u.IsDone ∨ ∃ sender receiver, u.Matches sender receiver)) ∧
      ((∀ u, ¬Unbuffered t u) → t.IsDone)) ∧
    ¬∃ run : Nat → Ensemble, run 0 = crew.start readings files ∧
      ∀ n, Unbuffered (run n) (run (n + 1)) := by
  refine ⟨fun t hreach => ⟨fun hsettled => ?_, ?_, fun hfinal => ?_⟩, ?_⟩
  · obtain ⟨⟨ms, hrun⟩, hplain⟩ := exists_run_of_unbuffered hreach isPlain_start
    exact isDone_or_exists_matches hrun hplain hsettled hroom
  · obtain ⟨⟨ms, hrun⟩, hplain⟩ := exists_run_of_unbuffered hreach isPlain_start
    obtain ⟨u, hmore, hsettled⟩ := exists_settled hrun hplain
    have hfurther := Relation.ReflTransGen.mono (fun _ _ => Unbuffered.alone) _ _ hmore
    obtain ⟨⟨ns, hlater⟩, hend⟩ := exists_run_of_unbuffered (hreach.trans hfurther) isPlain_start
    exact ⟨u, hmore, hsettled, isDone_or_exists_matches hlater hend hsettled hroom⟩
  · obtain ⟨⟨ms, hrun⟩, hplain⟩ := exists_run_of_unbuffered hreach isPlain_start
    rcases isDone_or_exists_matches hrun hplain (isSettled_of_final hrun hfinal) hroom with
      hdone | ⟨sender, receiver, hmatches⟩
    · exact hdone
    · obtain ⟨u, hstep⟩ := hmatches.exists_step
      exact absurd hstep (hfinal u)
  · rintro ⟨run, hstart, hsteps⟩
    have : IsWellFounded Ensemble fun t s => Unbuffered s t := ⟨wellFounded_unbuffered⟩
    obtain ⟨n, hn⟩ := WellFounded.not_rel_apply_succ (r := fun t s => Unbuffered s t) run
    exact hn (hsteps n)

end

/-- The pair comes to its end without buffers. -/
theorem no_deadlock_pair :
    ∃ t, Relation.ReflTransGen Unbuffered (pair.start [] ⟨[]⟩) t ∧ t.IsDone := by
  obtain ⟨t, hreach, hfinal⟩ := exists_unbuffered_final (pair.start [] ⟨[]⟩)
  exact ⟨t, hreach, (((no_deadlock pair [] ⟨[]⟩ hasRoom_pair).1 t hreach).2.2 hfinal)⟩

/-! ## Without room

When the coordinator fails, a worker without rows is not told. It has its empty reply ready, and
there is nobody to take it. -/

section

variable [Memory]

/-- **Without room for any product** the coordinator takes no result. -/
theorem takenFrom_of_no_room (hrun : Run .none (crew.start readings files) ms t)
    (hnone : ∀ f ∈ crew.factors, ¬f.HasRoom) (source : Nat) (channel : Channel) :
    takenFrom (historyOf ms 0).deeds source channel = [] := by
  have hreceives : ∀ e ∈ historyOf ms 0, ∀ from? c, e.request ≠ .receive from? c := by
    refine hrun.forall_mem_historyOf fun hbefore hstep _ from? c hreceive => ?_
    obtain ⟨_, _, _, _, _, hmove, hpart, -, -⟩ := hstep.of_none
    cases hmove
    subst hreceive
    obtain ⟨n, f, hf, hroom, -⟩ := waiting_coordinator hbefore hpart
    exact hnone f (List.mem_of_getElem? hf) hroom
  apply List.filterMap_eq_nil_iff.mpr
  intro d hd
  obtain ⟨⟨r, answer⟩, he, hdeed⟩ := List.mem_filterMap.mp hd
  cases r with
  | receive from? c => exact absurd rfl (hreceives _ he from? c)
  | send dest c payload => rcases answer with cause | ⟨⟩ <;> cases hdeed; rfl
  | _ => cases hdeed

/-- **A worker without the right factor** in any round does not fail. -/
theorem ne_failed_of_omitted (hrun : Run .none (crew.start readings files) ms t)
    (hi : i < crew.workers)
    (homitted : ∀ f ∈ crew.factors, f.omitted crew.workers crew.skipEmpty i = true) (e : Error) :
    t.parts[i + 1]? ≠ some (.failed e) := by
  intro hfailed
  have hpart : (crew.start readings files).parts[i + 1]? = some (crew.part (i + 1)) := by
    simp [start, size, hi]
  obtain ⟨q, hq, hpath⟩ := hrun.comes id hpart
  obtain rfl : q = .failed e := Option.some.inj (hq.symm.trans hfailed)
  have hfollows : (crew.part (i + 1)).Follows (fun _ => True) (fun _ => False) (crew.workerPlan i) :=
    Worker.follows_rounds (crew.kernel_runs i) rfl hi fun f hf hkept _ _ => by
      rw [homitted f hf] at hkept
      cases hkept
  have htaken : takenFrom (historyOf ms (i + 1)).deeds 0 .work
      <+: crew.factors.flatMap fun f => f.workFields crew.workers crew.skipEmpty i := by
    rw [← Factors.takenFrom_workerPlans]
    exact (deeds_isPrefix (fun _ h => h) hrun hi).filterMap _
  have hmeets := Worker.meets_of_comes hfollows hpath (hrun.admitted (i + 1)) htaken
  rcases hmeets.2 with hnever | ⟨-, hrefused⟩
  · exact hnever
  · exact hrefused (noneRefused hrun (i + 1))

end

/-- Two workers for one row, so that the second one is without the right factor, and a product that no
computer has room for, of factors that have no cells. -/
def lopsided : Crew where
  workers := 2
  workers_pos := Nat.two_pos
  order := .rank
  skipEmpty := true
  kernel _ := .whole
  kernel_runs _ := by simp
  factors := [{
    type := .int8, rows := 1, inner := 0, cols := 2 ^ 62
    a := .zeros (.int .int8) [1, 0]
    b := .zeros (.int .int8) [0, 2 ^ 62]
    left := ⟨rfl, rfl⟩
    right := ⟨rfl, rfl⟩ }]

theorem no_room_lopsided : ∀ f ∈ lopsided.factors, ¬f.HasRoom := by decide

/-- **Room is needed** here, too: when the coordinator has failed for want of it, the second worker is
left with a reply that nobody takes. -/
theorem deadlock_without_room :
    ∃ t, Relation.ReflTransGen Unbuffered (lopsided.start [] ⟨[]⟩) t ∧ t.IsSettled ∧
      (∃ r next, t.parts[2]? = some (.ask r next)) ∧
        ¬∃ sender receiver, t.Matches sender receiver := by
  obtain ⟨t, hreach, hfinal⟩ := exists_unbuffered_final (lopsided.start [] ⟨[]⟩)
  obtain ⟨⟨ms, hrun⟩, hplain⟩ := exists_run_of_unbuffered hreach isPlain_start
  refine ⟨t, hreach, isSettled_of_final hrun hfinal, ?_, ?_⟩
  · obtain ⟨p, hpart⟩ := exists_part hrun (show 2 < lopsided.size by decide)
    cases p with
    | ask r next => exact ⟨r, next, hpart⟩
    | failed e =>
        exact absurd hpart (ne_failed_of_omitted hrun (i := 1) (by decide) (by decide) e)
    | done a =>
        -- its reply would have been taken
        have hreplies := sentTo_eq_takenFrom hrun hplain.pending_eq 2 0 .result
        rw [done_worker hrun hpart, sentTo_workerPlan,
          takenFrom_of_no_room hrun no_room_lopsided] at hreplies
        cases hreplies
  · rintro ⟨sender, receiver, hmatches⟩
    obtain ⟨u, hstep⟩ := hmatches.exists_step
    exact hfinal u hstep

end Crew

end RowBlock
