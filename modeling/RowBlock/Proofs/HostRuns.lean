import RowBlock.Proofs.Paths
import RowBlock.Proofs.Termination

set_option autoImplicit false

/-! # Runs on a host

A process that runs alone on a host is served one request after another (`Host.Serves`), up to its end or
to a request that is left unanswered. The history of its run is a path of the process
(`Host.run_comes`), and the contracts that the process meets hold of it (`Host.run_meets`). The history
also tells what has become of the messages: which were sent (`Host.serve_sent`), and which were taken
(`Host.serve_cases`, `Network.withoutFirst_takeFirst`). Without a fault no send is refused
(`Host.Serves.not_refused`).
-/

namespace RowBlock

theorem History.eq_of_mem_add {e x : Event} (h : x ∈ History.add [] e) : x = e := by
  unfold History.add at h
  split at h
  · cases h
  · simpa using h

/-! ## Messages that are left

What a rank has taken from another is the beginning of what was pending between the two, so the
pending list in the end is the one at the start without some first messages of each sender. -/

namespace Network

/-- **Messages without the first ones** that have a property, so many of them. -/
def withoutFirst (p : Message → Bool) : Nat → List Message → List Message
  | 0, ms => ms
  | _, [] => []
  | k + 1, m :: ms => if p m then withoutFirst p k ms else m :: withoutFirst p (k + 1) ms

@[simp]
theorem withoutFirst_zero (p : Message → Bool) (ms : List Message) : withoutFirst p 0 ms = ms := by
  cases ms <;> rfl

theorem withoutFirst_append {p : Message → Bool} {before : List Message}
    (hbefore : ∀ x ∈ before, p x = false) (k : Nat) (ms : List Message) :
    withoutFirst p k (before ++ ms) = before ++ withoutFirst p k ms := by
  cases k with
  | zero => rw [withoutFirst_zero, withoutFirst_zero]
  | succ k =>
      induction before with
      | nil => rfl
      | cons x before ih =>
          have hx : p x = false := hbefore x List.mem_cons_self
          rw [List.cons_append, withoutFirst, hx, ih fun y hy => hbefore y (List.mem_cons_of_mem x hy)]
          rfl

/-- **A message that is taken** is the first one of its sender that is left. -/
theorem withoutFirst_takeFirst {rank : Nat} {source : Source} {channel : Channel} {m : Message}
    {ms rest : List Message} (htake : takeFirst (fits rank source channel) ms = some (m, rest))
    (k : Nat) :
    withoutFirst (fits rank (.rank m.source) channel) (k + 1) ms
      = withoutFirst (fits rank (.rank m.source) channel) k rest := by
  obtain ⟨hfits, before, after, rfl, rfl, hbefore⟩ := takeFirst_eq_some htake
  obtain ⟨hdest, hchannel, hadmits⟩ := fits_iff.mp hfits
  have hm : fits rank (.rank m.source) channel m = true :=
    fits_iff.mpr ⟨hdest, hchannel, by simp [Source.admits]⟩
  -- another message of the sender before it would have been taken itself
  have hothers : ∀ x ∈ before, fits rank (.rank m.source) channel x = false := by
    intro x hx
    by_contra hsame
    obtain ⟨hto, hon, hfrom⟩ := fits_iff.mp ((Bool.not_eq_false _).mp hsame)
    have hsource : x.source = m.source := by
      simp only [Source.admits, beq_iff_eq, Nat.cast_inj] at hfrom
      exact hfrom.symm
    have hearlier := fits_iff.mpr ⟨hto, hon, hsource ▸ hadmits⟩
    rw [hbefore x hx] at hearlier
    cases hearlier
  rw [withoutFirst_append hothers, withoutFirst_append hothers, withoutFirst, if_pos hm]

/-! ## Faults

Calls are counted against faults as they are made, whether they would succeed or not. No call makes
a fault appear, so a rank that is spared once is spared for the rest of the run. -/

/-- **No fault hits** these calls of the rank. -/
def Spares (net : Network) (rank : Nat) (call : Call) : Prop :=
  ∀ f ∈ net.faults, ¬(f.rank = rank ∧ f.call = call)

variable {net after : Network} {rank who : Nat} {call other : Call} {channel : Channel}

/-- Counting a call changes no more than how many calls still pass. -/
theorem exists_of_mem_strike {faults : List Fault} :
    ∀ f ∈ (strike rank call faults).2, ∃ f' ∈ faults, f'.rank = f.rank ∧ f'.call = f.call := by
  induction faults with
  | nil => exact nofun
  | cons x faults ih =>
      intro f hf
      by_cases hx : x.rank = rank ∧ x.call = call
      · simp only [strike, if_pos hx] at hf
        -- the fault that is struck stays at its place
        have hmem : (f.rank = x.rank ∧ f.call = x.call) ∨ f ∈ faults := by
          cases hpassing : x.passing with
          | zero =>
              simp only [hpassing, List.mem_cons] at hf
              exact hf.imp_left fun heq => by simp [heq]
          | succ n =>
              simp only [hpassing, List.mem_cons] at hf
              exact hf.imp_left fun heq => by simp [heq]
        rcases hmem with ⟨hrank, hcall⟩ | hmem
        · exact ⟨x, List.mem_cons_self, hrank.symm, hcall.symm⟩
        · exact ⟨f, List.mem_cons_of_mem x hmem, rfl, rfl⟩
      · simp only [strike, if_neg hx, List.mem_cons] at hf
        rcases hf with rfl | hf
        · exact ⟨f, List.mem_cons_self, rfl, rfl⟩
        · obtain ⟨f', hf', hsame⟩ := ih f hf
          exact ⟨f', List.mem_cons_of_mem x hf', hsame⟩

theorem Spares.of_strike (hspares : net.Spares who other)
    (hfaults : after.faults = (strike rank call net.faults).2) : after.Spares who other := by
  intro f hf hhits
  rw [hfaults] at hf
  obtain ⟨f', hf', hrank, hcall⟩ := exists_of_mem_strike f hf
  exact hspares f' hf' ⟨hrank.trans hhits.1, hcall.trans hhits.2⟩

theorem Spares.strike_eq (hspares : net.Spares rank call) :
    strike rank call net.faults = (false, net.faults) := by
  unfold Spares at hspares
  generalize net.faults = faults at hspares ⊢
  induction faults with
  | nil => rfl
  | cons x faults ih =>
      rw [strike, if_neg (hspares x List.mem_cons_self),
        ih fun f hf => hspares f (List.mem_cons_of_mem x hf)]

theorem faults_of_send {dest : Int} {payload : Payload} {answer : Except Refusal Unit}
    (h : net.send rank dest channel payload = (answer, after)) :
    after.faults = (strike rank .send net.faults).2 := by
  unfold send at h
  dsimp only at h
  split at h
  · cases h
    rfl
  · split at h <;> cases h <;> rfl

theorem sent_of_receive {source : Source} {delivery : Delivery}
    (h : net.receive rank source channel = (delivery, after)) :
    after.sent = net.sent ∧ after.faults = (strike rank .receive net.faults).2 := by
  unfold receive at h
  dsimp only at h
  split at h
  · cases h
    exact ⟨rfl, rfl⟩
  · split at h
    · split at h <;> cases h <;> exact ⟨rfl, rfl⟩
    · cases h
      exact ⟨rfl, rfl⟩

end Network

/-- The message that a rank sends. -/
def Deed.message? (rank : Nat) : Deed → Option Message
  | sent dest channel payload => some ⟨rank, dest.toNat, channel, payload⟩
  | taken _ _ _ => none

theorem Network.sent_of_send {net after : Network} {rank : Nat} {dest : Int} {channel : Channel}
    {payload : Payload} {answer : Except Refusal Unit}
    (h : net.send rank dest channel payload = (answer, after)) :
    after.sent = ((Event.deed? ⟨.send dest channel payload, answer⟩).toList.filterMap
      (Deed.message? rank)) ++ net.sent := by
  unfold send at h
  dsimp only at h
  split at h
  · cases h
    rfl
  · split at h <;> cases h <;> rfl

namespace Host

variable {h middle host : Host} {rank who : Nat} {r : Request} {answer : r.Answer} {g : History}
  {call : Call}

/-- **What a request adds to the messages sent.** -/
theorem serve_sent (hserve : h.serve rank r = (.answered answer, host)) :
    host.network.sent
      = (Event.deed? ⟨r, answer⟩).toList.filterMap (Deed.message? rank) ++ h.network.sent := by
  cases hmessage : r.isMessage with
  | false =>
      have hdeed : Event.deed? ⟨r, answer⟩ = none := by
        cases r <;> first | rfl | cases hmessage
      rw [serve_other hmessage hserve, hdeed]
      rfl
  | true =>
      cases r with
      | send dest channel payload =>
          obtain ⟨net, hsend, rfl⟩ := serve_send hserve
          exact Network.sent_of_send hsend
      | receive source channel =>
          obtain ⟨net, rfl, ⟨cause, rfl, hreceive⟩ | ⟨sender, payload, rfl, hreceive⟩⟩ :=
            serve_receive hserve <;>
          exact (Network.sent_of_receive hreceive).1
      | _ => cases hmessage

theorem serve_spares (hspares : h.network.Spares who call)
    (hserve : h.serve rank r = (.answered answer, host)) : host.network.Spares who call := by
  cases hmessage : r.isMessage with
  | false => rwa [serve_other hmessage hserve]
  | true =>
      cases r with
      | send dest channel payload =>
          obtain ⟨net, hsend, rfl⟩ := serve_send hserve
          exact hspares.of_strike (Network.faults_of_send hsend)
      | receive source channel =>
          obtain ⟨net, rfl, ⟨cause, rfl, hreceive⟩ | ⟨sender, payload, rfl, hreceive⟩⟩ :=
            serve_receive hserve <;>
          exact hspares.of_strike (Network.sent_of_receive hreceive).2
      | _ => cases hmessage

theorem serve_quiet (h : Host) (rank : Nat) {r : Request} (hquiet : r.isQuiet = true) :
    ∃ answer host, h.serve rank r = (.answered answer, host) ∧ host.network = h.network := by
  cases r <;> first | exact ⟨_, _, rfl, rfl⟩ | cases hquiet

/-- Without a fault a send to a rank of the job is not refused. -/
theorem serve_send_of_spares {dest : Int} {channel : Channel} {payload : Payload}
    {answer : Except Refusal Unit} (hspares : h.network.Spares rank .send)
    (hdest : h.network.hasRank dest = true)
    (hserve : h.serve rank (.send dest channel payload) = (.answered answer, host)) :
    answer = .ok () := by
  obtain ⟨net, hsend, -⟩ := serve_send hserve
  have hrank : Network.hasRank { h.network with faults := h.network.faults } dest = true := hdest
  unfold Network.send at hsend
  simp only [hspares.strike_eq, Bool.false_eq_true, if_false, hrank, if_true] at hsend
  cases hsend
  rfl

/-! ## Serving one request after another

`Serves` forgets the process and keeps only what was asked and answered. Facts about the host alone
are shown of it by induction, whatever the process was. -/

/-- **Serving** what a rank asks for, one request after another. -/
inductive Serves (rank : Nat) : Host → History → Host → Prop
  | refl (h : Host) : Serves rank h [] h
  | answered {h middle host : Host} {r : Request} {answer : r.Answer} {g : History}
      (hserve : h.serve rank r = (.answered answer, middle)) (hmore : Serves rank middle g host) :
      Serves rank h (History.add [] ⟨r, answer⟩ ++ g) host

theorem Serves.admitted (hserves : Serves rank h g host) : g.Admitted := by
  induction hserves with
  | refl => exact fun e he => absurd he List.not_mem_nil
  | answered hserve _ ih =>
      refine History.admitted_append.mpr ⟨fun e he => ?_, ih⟩
      rw [History.eq_of_mem_add he]
      exact serve_admitted hserve

/-- **Without a fault** no send to a rank of the job is refused. -/
theorem Serves.not_refused (hserves : Serves rank h g host) (hspares : h.network.Spares rank .send)
    {dest : Int} (hdest : h.network.hasRank dest = true) (channel : Channel) (payload : Payload)
    (cause : Refusal) : (⟨.send dest channel payload, .error cause⟩ : Event) ∉ g := by
  induction hserves with
  | refl => exact List.not_mem_nil
  | @answered h middle host r answer g hserve _ ih =>
      have hsize : middle.network.hasRank dest = true := by
        rw [← hdest, Network.hasRank, Network.hasRank, serve_size hserve]
      intro he
      rcases List.mem_append.mp he with hfirst | hlater
      · cases History.eq_of_mem_add hfirst
        cases serve_send_of_spares hspares hdest hserve
      · exact ih (serve_spares hspares hserve) hsize hlater

/-! ## Running a process

The run of a process is a function, while contracts speak of all paths. The run takes one of the
paths (`run_comes`), so a contract can be used for it as soon as it relies on no more than a host
grants. -/

theorem run_ask {α : Type}
    (next : r.Answer → Process α) (hserve : h.serve rank r = (.answered answer, host)) :
    h.run rank (.ask r next) = host.run rank (next answer) := by
  rw [run, hserve]

/-- **Running one process after another** goes on where the first one is done. -/
theorem run_bind_eq {α β : Type} (h : Host) (rank : Nat) (p : Process α) (f : α → Process β) :
    h.run rank (p >>= f) = match h.run rank p with
      | (.done a, host) => host.run rank (f a)
      | (.failed e, host) => (.failed e, host)
      | (.waiting source channel rest, host) => (.waiting source channel (rest >>= f), host)
      | (.exited code, host) => (.exited code, host)
      | (.aborted code, host) => (.aborted code, host) := by
  induction p generalizing h with
  | done a => rfl
  | failed e => rfl
  | ask r next ih =>
      rw [Process.ask_bind, run, run]
      cases hserve : h.serve rank r with
      | mk served after =>
          cases served with
          | answered answer => exact ih answer after
          | _ => rfl

section

variable {α β : Type} {p : Process α} {f : α → Process β} {e : Error}

theorem run_bind {a : α} (hp : h.run rank p = (.done a, host)) (f : α → Process β) :
    h.run rank (p >>= f) = host.run rank (f a) := by
  rw [run_bind_eq, hp]

theorem run_bind_failed (hp : h.run rank p = (.failed e, host)) (f : α → Process β) :
    h.run rank (p >>= f) = (.failed e, host) := by
  rw [run_bind_eq, hp]

end

/-- **The run of a process** has a history: it comes to a result, to a failure, or to a request that is
left unanswered. -/
theorem run_comes {α : Type} (h : Host) (rank : Nat) (p : Process α) :
    ∃ g host, Serves rank h g host ∧
      ((∃ a, p.Comes g (.done a) ∧ h.run rank p = (.done a, host)) ∨
        (∃ e, p.Comes g (.failed e) ∧ h.run rank p = (.failed e, host)) ∨
        ∃ r next, p.Comes g (.ask r next) ∧ h.run rank p = host.run rank (.ask r next) ∧
          ∀ answer after, host.serve rank r ≠ (.answered answer, after)) := by
  induction p generalizing h with
  | done a => exact ⟨[], h, .refl h, .inl ⟨a, .refl _, rfl⟩⟩
  | failed e => exact ⟨[], h, .refl h, .inr (.inl ⟨e, .refl _, rfl⟩)⟩
  | ask r next ih =>
      by_cases hserved : ∃ answer middle, h.serve rank r = (.answered answer, middle)
      · obtain ⟨answer, middle, hserve⟩ := hserved
        obtain ⟨g, host, hmore, hcases⟩ := ih answer middle
        refine ⟨_, host, .answered hserve hmore, ?_⟩
        rw [run_ask next hserve]
        rcases hcases with ⟨a, hpath, hdone⟩ | ⟨e, hpath, hfailed⟩ | ⟨r', next', hpath, hrest⟩
        · exact .inl ⟨a, .answered hpath, hdone⟩
        · exact .inr (.inl ⟨e, .answered hpath, hfailed⟩)
        · exact .inr (.inr ⟨r', next', .answered hpath, hrest⟩)
      · simp only [not_exists] at hserved
        exact ⟨[], h, .refl h, .inr (.inr ⟨r, next, .refl _, rfl, hserved⟩)⟩

/-- A process that is left unanswered at a receive waits there, and no message has changed. -/
theorem run_waiting {α : Type} {source : Source} {channel : Channel}
    (next : (Request.receive source channel).Answer → Process α)
    (hnone : ∀ answer after, h.serve rank (.receive source channel) ≠ (.answered answer, after)) :
    ∃ after, h.run rank (.ask (.receive source channel) next)
        = (.waiting source channel (.ask (.receive source channel) next), after) ∧
      after.network.pending = h.network.pending ∧ after.network.sent = h.network.sent := by
  cases hreceive : h.network.receive rank source channel with
  | mk delivery net =>
      obtain ⟨-, ⟨cause, rfl, -⟩ | ⟨m, rfl, -⟩ | ⟨rfl, hpending⟩⟩ := Network.receive_cases hreceive
      · exact absurd (by simp only [serve, hreceive]) (hnone (.error cause) { h with network := net })
      · exact absurd (by simp only [serve, hreceive])
          (hnone (.ok (m.source, m.payload)) { h with network := net })
      · refine ⟨{ h with network := net }, ?_, hpending, (Network.sent_of_receive hreceive).1⟩
        simp only [run, serve, hreceive]

/-- A process that is left unanswered has neither a result nor a failure. -/
theorem run_unanswered {α : Type} {next : r.Answer → Process α}
    (hnone : ∀ answer after, h.serve rank r ≠ (.answered answer, after)) :
    (∀ a after, h.run rank (.ask r next) ≠ (.done a, after)) ∧
      ∀ e after, h.run rank (.ask r next) ≠ (.failed e, after) := by
  rw [run]
  cases hserve : h.serve rank r with
  | mk served host =>
      cases served with
      | answered answer => exact absurd hserve (hnone answer host)
      | _ =>
          constructor <;>
          · intro _ _ hrun
            cases hrun

section

variable {α : Type} {C : Contract α} {p : Process α}

/-- **A run that comes to a result** has a path to it. -/
theorem comes_of_done {a : α} (hrun : h.run rank p = (.done a, host)) :
    ∃ g, Serves rank h g host ∧ p.Comes g (.done a) := by
  obtain ⟨g, host', hserves, ⟨a', hpath, hdone⟩ | ⟨e, -, hfailed⟩ | ⟨r, next, -, hrest, hnone⟩⟩ :=
    run_comes h rank p
  · cases hrun.symm.trans hdone
    exact ⟨g, hserves, hpath⟩
  · cases hrun.symm.trans hfailed
  · exact absurd (hrest.symm.trans hrun) ((run_unanswered hnone).1 a host)

theorem comes_of_failed {e : Error} (hrun : h.run rank p = (.failed e, host)) :
    ∃ g, Serves rank h g host ∧ p.Comes g (.failed e) := by
  obtain ⟨g, host', hserves, ⟨a, -, hdone⟩ | ⟨e', hpath, hfailed⟩ | ⟨r, next, -, hrest, hnone⟩⟩ :=
    run_comes h rank p
  · cases hrun.symm.trans hdone
  · cases hrun.symm.trans hfailed
    exact ⟨g, hserves, hpath⟩
  · exact absurd (hrest.symm.trans hrun) ((run_unanswered hnone).2 e host)

/-- A contract holds on the path of a run, if it relies on no more than that messages come from the ranks
that are asked for. -/
theorem Serves.meets {q : Process α} (hserves : Serves rank h g host) (hp : p.Meets C [])
    (hrely : ∀ k, k.Admitted → C.rely k) (hpath : p.Comes g q) : q.Meets C g := by
  refine hp.comes hpath fun k hk => hrely _ ?_
  obtain ⟨rest, rfl⟩ := hk
  exact (History.admitted_append.mp hserves.admitted).1

theorem returns_of_run {a : α} (hp : p.Meets C []) (hrely : ∀ k, k.Admitted → C.rely k)
    (hrun : h.run rank p = (.done a, host)) : ∃ g, Serves rank h g host ∧ C.returns g a := by
  obtain ⟨g, hserves, hpath⟩ := comes_of_done hrun
  exact ⟨g, hserves, (hserves.meets hp hrely hpath).2⟩

theorem fails_of_run {e : Error} (hp : p.Meets C []) (hrely : ∀ k, k.Admitted → C.rely k)
    (hrun : h.run rank p = (.failed e, host)) : ∃ g, Serves rank h g host ∧ C.fails g e := by
  obtain ⟨g, hserves, hpath⟩ := comes_of_failed hrun
  exact ⟨g, hserves, (hserves.meets hp hrely hpath).2⟩

/-- **Contracts hold of runs** on a host, wherever these come to. -/
theorem run_meets (hp : p.Meets C []) (hrely : ∀ k, k.Admitted → C.rely k) (h : Host) (rank : Nat) :
    ∃ g host, Serves rank h g host ∧
      ((∃ a, C.returns g a ∧ h.run rank p = (.done a, host)) ∨
        (∃ e, C.fails g e ∧ h.run rank p = (.failed e, host)) ∨
        ∃ r next, C.asks g r ∧ h.run rank p = host.run rank (.ask r next) ∧
          ∀ answer after, host.serve rank r ≠ (.answered answer, after)) := by
  obtain ⟨g, host, hserves, hcases⟩ := run_comes h rank p
  refine ⟨g, host, hserves, ?_⟩
  rcases hcases with ⟨a, hpath, hrun⟩ | ⟨e, hpath, hrun⟩ | ⟨r, next, hpath, hrun, hnone⟩
  · exact .inl ⟨a, (hserves.meets hp hrely hpath).2, hrun⟩
  · exact .inr (.inl ⟨e, (hserves.meets hp hrely hpath).2, hrun⟩)
  · refine .inr (.inr ⟨r, next, (hserves.meets hp hrely hpath).2.1 ?_, hrun, hnone⟩)
    -- a quiet request is never left unanswered
    by_contra hquiet
    obtain ⟨answer, after, hserve, -⟩ := host.serve_quiet rank (by simpa using hquiet)
    exact hnone answer after hserve

end

end Host

end RowBlock
