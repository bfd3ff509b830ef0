import RowBlock.Proofs.Completion
import RowBlock.Proofs.Launch

set_option autoImplicit false

/-! # The end of a job

In a job in which nothing goes wrong no request is refused (`Program.noneRefused`). Once no step is left
rank zero has come to an end: if it still waited for a reply, the worker that owes it would have all work
of that round, and no worker stops with work to do (`not_waiting_zero`). So rank zero has failed for want
of room for the product, or it has the product of its operands as the result of each round, and has come
to the end of what it does with them (`zero_of_final`). The times of the rounds are those between the
readings of the clock, which nobody else reads (`elapsed_of_launch`).
-/

namespace RowBlock

/-! ## Ready settings -/

def Process.Ended {α : Type} (p : Process α) : Prop := ∀ r next, p ≠ .ask r next

/-- **Settings that are ready**: they name a kernel that runs here, an order to collect replies in, and a
log level. -/
structure Settings.IsReady (s : Settings Int) : Prop where
  kernel : ∃ kernel, s.kernel = .value kernel ∧ kernel ≠ .device
  order : s.order ≠ .blank
  logLevel : s.logLevel ≠ .blank

theorem Settings.IsReady.kernel_ne {s : Settings Int} (h : s.IsReady) : s.kernel ≠ .value .device := by
  obtain ⟨kernel, hkernel, hne⟩ := h.kernel
  rw [hkernel]
  intro heq
  exact hne (Setting.value.inj heq)

theorem Settings.IsReady.exists_logLevel {s : Settings Int} (h : s.IsReady) :
    ∃ threshold, s.logLevel = .value threshold := by
  cases hlevel : s.logLevel with
  | blank => exact absurd hlevel h.logLevel
  | value threshold => exact ⟨threshold, rfl⟩

namespace Request

variable {r : Request}

theorem isMessage_of_isRead (h : r.isRead = true) : r.isMessage = false := by
  cases r <;> first | rfl | cases h

theorem isMessage_of_announces (h : Program.Announces r) : r.isMessage = false := by
  rcases h with ⟨entry, rfl, -⟩ | ⟨text, rfl⟩ | hwrite
  · rfl
  · rfl
  · cases r <;> first | rfl | cases hwrite

theorem isQuiet_of_isMessage (h : r.isMessage = true) : r.isQuiet = false := by
  cases r <;> first | rfl | cases h

end Request

namespace Program

open Coordinator

variable {args : List String} {s : Settings Int} {size rank : Nat} {readings : List Float}
  {files : Files} {entropy : Nat} {z : Hazards} {ms : List Move} {t : Ensemble} {f : Factors}

/-! ## Where the part of a rank is

The program of a rank is more than its part: it sets up the log before it and gives up after it. In
a final state both are over or have not begun, and here the part is found again behind the program. -/

section

variable [Memory]

/-- **A rank that asks for a message** does so in its part. -/
theorem asks_of_part (hargs : Options.parse args = .ok s)
    (hrun : Run z (launch args size readings files entropy) ms t) (hhonest : ¬z.rogue rank)
    {r : Request} {next : r.Answer → Process Unit} (hpart : t.parts[rank]? = some (.ask r next))
    (hmessage : r.isMessage = true) :
    ∃ next', (run s ⟨rank, size⟩).Comes (historyOf ms rank) (.ask r next') := by
  have hrank : rank < size := by
    have hlt := (List.getElem?_eq_some_iff.mp hpart).1
    rwa [hrun.length_parts, length_launch] at hlt
  obtain ⟨q, hq, hgoes⟩ := part_of_launch hrun hhonest hrank
  obtain rfl : q = .ask r next := Option.some.inj (hq.symm.trans hpart)
  cases hlevel : s.logLevel with
  | blank =>
      obtain ⟨-, hfailed⟩ := goes_main_blank hargs hlevel hgoes
      cases hfailed
  | value threshold =>
      rcases goes_main hargs hlevel hgoes with ⟨-, hmain⟩ | ⟨g, k, p, htrace, hg, hk, hend⟩
      · rw [main_asks hargs hlevel] at hmain
        cases hmain
        cases hmessage
      cases p with
      | done a => cases (Process.goes_done_iff.mp hk).2
      | failed x =>
          rcases goes_failed hk with ⟨-, -, hfailed⟩ | ⟨-, -, ⟨_, _, hrecord⟩ | ⟨⟨_, habort⟩, -⟩⟩
          · cases hfailed
          · cases hrecord
            cases hmessage
          · cases habort
            cases hmessage
      | ask r' next' =>
          obtain rfl : k = [] := hend.resolve_right fun ⟨x, hx⟩ => by cases hx
          cases hk
          refine ⟨next', ?_⟩
          rw [← loud_traceOf, htrace, loud_cons, List.append_nil]
          exact hg.comes

/-- **In a final state** the part of a rank is done, has failed, or waits for a message that is not
there. After its part the rank has made records at most. -/
theorem run_of_final (hargs : Options.parse args = .ok s) {threshold : Level}
    (hlevel : s.logLevel = .value threshold)
    (hrun : Run .none (launch args size readings files entropy) ms t) (hfinal : t.IsFinal)
    (hrank : rank < size) :
    ∃ g k p, traceOf ms rank = ⟨.setUpLog ⟨rank, threshold⟩, ()⟩ :: (g ++ k) ∧
      (run s ⟨rank, size⟩).Goes g p ∧ (∀ e ∈ k, ∃ entry, e.request = .record entry) ∧
      ((∃ a, p = .done a ∧ t.parts[rank]? = some (.done ())) ∨ (∃ x, p = .failed x) ∨
        ∃ source channel next, p = .ask (.receive source channel) next ∧
          ∀ m ∈ t.host.network.pending, Network.fits rank source channel m = false) := by
  obtain ⟨q, hq, hgoes⟩ := part_of_launch hrun id hrank
  rcases goes_main hargs hlevel hgoes with ⟨-, rfl⟩ | ⟨g, k, p, htrace, hg, hk, hend⟩
  · -- a rank that has not begun can take a step
    rw [main_asks hargs hlevel] at hq
    exact absurd (Step.act id hq rfl) (hfinal _ _)
  refine ⟨g, k, p, htrace, hg, ?_⟩
  cases p with
  | done a =>
      obtain ⟨rfl, rfl⟩ := Process.goes_done_iff.mp hk
      exact ⟨by simp, .inl ⟨a, rfl, hq⟩⟩
  | failed x =>
      refine ⟨?_, .inr (.inl ⟨x, rfl⟩)⟩
      rcases goes_failed hk with ⟨-, rfl, -⟩ | ⟨-, hrecords, -⟩
      · simp
      · exact hrecords
  | ask r next =>
      obtain rfl : k = [] := hend.resolve_right fun ⟨x, hx⟩ => by cases hx
      cases hk
      refine ⟨by simp, .inr (.inr ?_)⟩
      rcases hfinal.cases hq with hdone | ⟨e, hfailed⟩ | ⟨r', next', hask, hr⟩
      · cases hdone
      · cases hfailed
      · cases hask
        rcases hr with hr | ⟨source, channel, rfl, hnone⟩
        · -- no part ends the program by itself
          have hnot : r.isEnd = false := ((only_run_orderly s size rank).goes hg).2.1.1
          rw [hnot] at hr
          cases hr
        · exact ⟨source, channel, next, rfl, hnone⟩

/-! ## What is asked for

The contracts say which messages a part asks for in each state of its history. Rank zero sends its
plan and then waits for replies of the round it is in, and a worker goes through its own plan. -/

section

variable (hargs : Options.parse args = .ok s) (hkernel : s.kernel ≠ .value .device)
  (hhonest : ∀ rank, ¬z.rogue rank) (hrun : Run z (launch args size readings files entropy) ms t)
  (hsuits : Suits f s files entropy)

include hargs hkernel hhonest hrun hsuits

/-- **The messages that rank zero asks for**: it sends the work of its rounds, or it waits for a reply of
a round whose work is sent. -/
theorem asks_zero {r : Request} {next : r.Answer → Process (Option RoundResult)}
    (hpath : (run s ⟨0, size⟩).Comes (historyOf ms 0) (.ask r next)) (hmessage : r.isMessage = true) :
    (∃ d rest, sendPlan f s.rounds.toNat (size - 1) s.skipEmpty
        = (historyOf ms 0).deeds.filter Deed.isSent ++ d :: rest ∧ r = d.request) ∨
      ∃ k < s.rounds.toNat, f.HasRoom ∧ (historyOf ms 0).deeds.filter Deed.isSent
        = sendPlan f (k + 1) (size - 1) s.skipEmpty ∧
        Awaits (size - 1) (k + 1) (historyOf ms 0) r := by
  obtain ⟨g, k, q, hsplit, hcomplete, -, hend⟩ := run_zero_cases hpath
  rcases hend with ⟨x, -, -, hfailed⟩ | ⟨r', next', next'', rfl, rfl, hask⟩ | ⟨x, rfl, hfinish⟩
  · cases hfailed
  · cases hask
    rcases complete_cases hcomplete with ⟨-, -, hfew⟩ | ⟨x, -, hx⟩ | ⟨r', n, n', hr, hread, hask⟩ |
      ⟨f', reads, l, htwo, rfl, hreads, hgiven, -, hrounds⟩
    · cases hfew
    · cases hx
    · cases hask
      rw [Request.isMessage_of_isRead hread] at hmessage
      cases hmessage
    rcases hrounds with ⟨-, -, hunknown⟩ | ⟨c, q', hendpoint, hskip, hq', hq⟩
    · cases hunknown
    obtain ⟨ha, hb⟩ := factors_eq hargs hhonest hrun hsuits
      (hsplit.trans (List.append_assoc _ _ _)) hreads hgiven
    rw [ha, hb] at hq'
    have hmeets := meets_rounds_zero hargs hhonest hrun hsuits hkernel htwo hsplit hreads hendpoint
      hskip hq'
    cases q' with
    | done results => cases hq
    | failed x => cases hq
    | ask r' next' =>
        cases hq
        have hasks := hmeets.2.1 (Request.isQuiet_of_isMessage hmessage)
        -- the files that were read before are no messages
        have hdeeds : (historyOf ms 0).deeds = l.deeds := by
          rw [hsplit, List.append_nil, History.deeds_append, deeds_of_isRead hreads, List.nil_append]
        simp only [resultsContract, Awaits] at hasks
        simp only [Awaits, hdeeds]
        exact hasks
  · rw [Request.isMessage_of_announces ((only_finish x).comes hfinish).2.1] at hmessage
    cases hmessage

/-- **The messages that a worker asks for** are those of its plan. -/
theorem asks_worker {i : Nat} (hi : i < size - 1) {r : Request}
    {next : r.Answer → Process (Option RoundResult)}
    (hpath : (run s ⟨i + 1, size⟩).Comes (historyOf ms (i + 1)) (.ask r next))
    (hmessage : r.isMessage = true) :
    ∃ d rest, workPlan f s.rounds.toNat (size - 1) s.skipEmpty i
      = (historyOf ms (i + 1)).deeds ++ d :: rest ∧ r = d.request :=
  (meets_worker hargs hhonest hrun hsuits hkernel hi hpath).2.1 (Request.isQuiet_of_isMessage hmessage)

end

end

theorem mem_sendPlan {n workers : Nat} {skipEmpty : Bool} {d : Deed}
    (h : d ∈ sendPlan f n workers skipEmpty) :
    ∃ i < workers, ∃ payload, d = .sent (i + 1 : Nat) .work payload := by
  simp only [sendPlan, Factors.coordinatorPlan, List.mem_flatMap, List.mem_map,
    List.mem_range] at h
  obtain ⟨g, -, i, hi, payload, -, rfl⟩ := h
  exact ⟨i, hi, payload, rfl⟩

theorem length_replies (n workers i : Nat) (skipEmpty : Bool) :
    ((List.replicate n f).flatMap fun f => f.replyFields workers skipEmpty i).length = 3 * n := by
  simp [Factors.replyFields, Nat.mul_comm]

theorem mem_workPlan {n workers i : Nat} {skipEmpty : Bool} {d : Deed}
    (h : d ∈ workPlan f n workers skipEmpty i) :
    ∃ payload, d = .taken 0 .work payload ∨ d = .sent 0 .result payload := by
  simp only [workPlan, Factors.workerPlan, List.mem_flatMap, List.mem_append, List.mem_map] at h
  obtain ⟨g, -, ⟨payload, -, rfl⟩ | ⟨payload, -, rfl⟩⟩ := h
  · exact ⟨payload, .inl rfl⟩
  · exact ⟨payload, .inr rfl⟩

/-! ## Nothing goes wrong

Without faults and rogue ranks the requests are granted or have to wait. The argument is that of
crews, with rank zero getting its operands first and with the products collected instead of
published. -/

section

variable [Memory]

section

variable (hargs : Options.parse args = .ok s) (hkernel : s.kernel ≠ .value .device)
  (hrun : Run .none (launch args size readings files entropy) ms t)

include hargs hkernel

/-- What a rank asks for names ranks of the job. -/
theorem reaches_of_part (hrun : Run .none (launch args size readings files entropy) ms t) {r : Request}
    {next : r.Answer → Process Unit} (hpart : t.parts[rank]? = some (.ask r next)) :
    r.reaches t.host.network = true := by
  have hsize : t.host.network.size = size := hrun.size
  have hrank : rank < size := by
    have hlt := (List.getElem?_eq_some_iff.mp hpart).1
    rwa [hrun.length_parts, length_launch] at hlt
  have hhas : ∀ n : Nat, n < size → t.host.network.hasRank (n : Int) = true := by
    intro n hn
    simp only [Network.hasRank, Bool.and_eq_true, decide_eq_true_eq, hsize]
    omega
  obtain ⟨f, hsuits⟩ := exists_suits s files entropy
  cases hmessage : r.isMessage with
  | false => cases r <;> first | rfl | cases hmessage
  | true =>
      obtain ⟨next', hpath⟩ := asks_of_part hargs hrun id hpart hmessage
      cases rank with
      | zero =>
          rcases asks_zero hargs hkernel (fun _ => id) hrun hsuits hpath hmessage with
            ⟨d, rest, hplan, rfl⟩ | ⟨k, -, -, -, i, hi, -, rfl | rfl⟩
          · obtain ⟨i, hi, payload, rfl⟩ := mem_sendPlan (d := d) (by rw [hplan]; simp)
            exact hhas (i + 1) (by omega)
          · exact hhas (i + 1) (by omega)
          · rfl
      | succ i =>
          obtain ⟨d, rest, hplan, rfl⟩ :=
            asks_worker hargs hkernel (fun _ => id) hrun hsuits (by omega) hpath hmessage
          obtain ⟨payload, rfl | rfl⟩ := mem_workPlan (d := d) (by rw [hplan]; simp)
          · exact hhas 0 (by omega)
          · exact hhas 0 (by omega)

include hrun

/-- **Nothing is refused** where nothing is injected. -/
theorem noneRefused (rank : Nat) : (historyOf ms rank).NoneRefused := by
  refine hrun.forall_mem_historyOf fun hbefore hstep _ => ?_
  obtain ⟨_, _, _, _, _, hmove, hpart, hserve, -⟩ := hstep.of_none
  cases hmove
  exact Host.serve_granted (Run.faults rfl hbefore) (reaches_of_part hargs hkernel hbefore hpart)
    hserve

/-- **A worker in a final state**, where there is room for the product, has gone through its plan, or it
waits for work and has taken all that was sent to it. -/
theorem worker_of_final (hfinal : t.IsFinal) (hready : s.IsReady) (hsuits : Suits f s files entropy)
    (hroom : f.HasRoom) {i : Nat} (hi : i < size - 1) :
    (historyOf ms (i + 1)).deeds = workPlan f s.rounds.toNat (size - 1) s.skipEmpty i ∨
      ∃ payload rest, workPlan f s.rounds.toNat (size - 1) s.skipEmpty i
          = (historyOf ms (i + 1)).deeds ++ .taken 0 .work payload :: rest ∧
        takenFrom (historyOf ms (i + 1)).deeds 0 .work
          = sentTo (historyOf ms 0).deeds (i + 1) .work := by
  obtain ⟨threshold, hlevel⟩ := hready.exists_logLevel
  obtain ⟨g, k, p, htrace, hg, hk, hend⟩ :=
    run_of_final hargs hlevel hrun hfinal (show i + 1 < size by omega)
  have hpath : (run s ⟨i + 1, size⟩).Comes (historyOf ms (i + 1)) p := by
    rw [← loud_traceOf, htrace, loud_cons, loud_append, loud_of_records hk, List.append_nil]
    exact hg.comes
  have hmeets := meets_worker hargs (fun _ => id) hrun hsuits hkernel hi hpath
  rcases hend with ⟨a, rfl, -⟩ | ⟨x, rfl⟩ | ⟨source, channel, next, rfl, hnone⟩
  · exact .inl hmeets.2.1
  · exfalso
    obtain ⟨-, (⟨hfull, -⟩ | ⟨hblank, -⟩) | ⟨-, hrefused⟩⟩ := hmeets
    · exact hfull hroom
    · obtain ⟨kernel, hvalue, -⟩ := hready.kernel
      rw [hvalue] at hblank
      cases hblank
    · exact hrefused (noneRefused hargs hkernel hrun (i + 1))
  · obtain ⟨d, rest, hplan, hd⟩ := hmeets.2.1 rfl
    obtain ⟨payload, rfl | rfl⟩ := mem_workPlan (d := d) (by rw [hplan]; simp)
    · cases hd
      refine .inr ⟨payload, rest, hplan, ?_⟩
      rw [hrun.sentTo_eq rfl 0 (i + 1) .work,
        Network.between_eq_nil hnone (by simp [Source.admits]), List.append_nil]
    · cases hd

/-- **Rank zero does not wait in a final state**: the worker that owes it a reply has all work of the
round, so it would not wait for more. -/
theorem not_waiting_zero (hfinal : t.IsFinal) (hready : s.IsReady) (hsuits : Suits f s files entropy)
    {source : Source} {channel : Channel}
    {next : Except Refusal (Nat × Payload) → Process (Option RoundResult)}
    (hnone : ∀ m ∈ t.host.network.pending, Network.fits 0 source channel m = false) :
    ¬(run s ⟨0, size⟩).Comes (historyOf ms 0) (.ask (.receive source channel) next) := by
  intro hpath
  rcases asks_zero hargs hkernel (fun _ => id) hrun hsuits hpath rfl with
    ⟨d, rest, hplan, hd⟩ | ⟨k, hk, hroom, hsent, i, hi, hfew, hr⟩
  · obtain ⟨_, -, _, rfl⟩ := mem_sendPlan (d := d) (by rw [hplan]; simp)
    cases hd
  have hbetween : t.host.network.between (i + 1) 0 .result = [] := by
    rcases hr with hr | hr <;> cases hr
    · exact Network.between_eq_nil hnone (by simp [Source.admits])
    · exact Network.between_eq_nil hnone rfl
  have hreplies := hrun.sentTo_eq rfl (i + 1) 0 .result
  rw [hbetween, List.append_nil] at hreplies
  rw [← hreplies] at hfew
  rcases worker_of_final hargs hkernel hrun hfinal hready hsuits hroom hi with
    hdone | ⟨payload, rest, hplan, hwork⟩
  · rw [hdone, workPlan, Factors.sentTo_workerPlans, length_replies] at hfew
    omega
  · have hall : sentTo (historyOf ms 0).deeds (i + 1) .work
        = ((List.replicate s.rounds.toNat f).take (k + 1)).flatMap
          fun f => f.workFields (size - 1) s.skipEmpty i := by
      rw [← sentTo_filter, hsent, sendPlan, Factors.sentTo_coordinatorPlans hi, List.take_replicate,
        Nat.min_eq_left hk]
    rw [Factors.sentTo_of_waiting hplan (hwork.trans hall), List.take_replicate, Nat.min_eq_left hk,
      length_replies] at hfew
    omega

end

/-! ## The times of the rounds

The clock is one for all ranks, but only rank zero reads it, twice in each round. So what it reads
are the first readings of the clock, and the times of the rounds do not depend on the order of the
steps. -/

end

def spans : List Float → List Float
  | start :: stop :: rest => (stop - start) :: spans rest
  | _ => []

section

variable {l : List Event}

theorem ticks_of_kind {P : Request → Prop} (hl : ∀ e ∈ l, P e.request) (hnot : ¬P .clock) :
    ticks l = [] :=
  ticks_eq_nil fun e he hclock => hnot (hclock ▸ hl e he)

theorem not_receives_clock : ¬Receives .clock := by
  rintro (⟨entry, hr, -⟩ | ⟨source, channel, hr⟩) <;> cases hr

theorem not_communicates_clock {channel : Channel} : ¬Communicates channel .clock := by
  rintro (hr | ⟨dest, payload, hr⟩)
  · exact not_receives_clock hr
  · cases hr

theorem not_announces_clock : ¬Announces .clock := by
  rintro (⟨entry, hr, -⟩ | ⟨text, hr⟩ | hr) <;> cases hr

theorem ticks_of_records (hl : ∀ e ∈ l, ∃ entry, e.request = .record entry) : ticks l = [] :=
  ticks_of_kind (P := fun r => ∃ entry, r = .record entry) hl nofun

variable [Memory]

/-- **A round reads the clock twice**, and its time is the one between. -/
theorem goes_round_done {c : Coordinator} {a b : Tensor} {result : RoundResult}
    (hp : (c.round a b).Goes l (.done result)) :
    ∃ start stop, ticks l = [start, stop] ∧ result.elapsed = stop - start := by
  unfold Coordinator.round at hp
  split at hp
  · cases (Process.goes_failed_iff.mp hp).2
  obtain ⟨start, m, l, rfl, hstart, hstarted⟩ := Process.goes_bind_done hp
  obtain rfl := Process.goes_request_done hstart
  obtain ⟨assignments, m, l, rfl, hbalanced, hassigned⟩ := Process.goes_bind_done hstarted
  obtain ⟨rfl, -⟩ := Process.goes_ofExcept_done hbalanced
  obtain ⟨_, m, l, rfl, hcheck, hchecked⟩ := Process.goes_bind_done hassigned
  obtain ⟨rfl, -⟩ := Process.goes_ofExcept_done hcheck
  obtain ⟨_, scattered, l, rfl, hscatter, hsent⟩ := Process.goes_bind_done hchecked
  split at hsent
  · cases (Process.goes_failed_iff.mp hsent).2
  obtain ⟨product, gathered, l, rfl, hgather, hplaced⟩ := Process.goes_bind_done hsent
  obtain ⟨stop, m, l, rfl, hstop, hstopped⟩ := Process.goes_bind_done hplaced
  obtain rfl := Process.goes_request_done hstop
  obtain ⟨_, m, l, rfl, hnote, hnoted⟩ := Process.goes_bind_done hstopped
  obtain rfl := Process.goes_request_done hnote
  obtain ⟨rfl, hdone⟩ := Process.goes_done_iff.mp hnoted
  cases hdone
  refine ⟨start, stop, ?_, rfl⟩
  have hwork : ticks scattered = [] :=
    ticks_of_kind ((only_scatter c a b assignments).goes hscatter).1 not_communicates_clock
  have hreplies : ticks gathered = [] :=
    ticks_of_kind ((only_gather c assignments b.cols a.type).goes hgather).1 not_receives_clock
  simp only [ticks_append, hwork, hreplies, List.nil_append]
  rfl

/-- **Rounds read the clock** twice each, and their times are those between. -/
theorem goes_roundsFrom_done {c : Coordinator} {a b : Tensor} {number n : Nat}
    {results : List RoundResult} (hp : (roundsFrom c a b number n).Goes l (.done results)) :
    (ticks l).length = 2 * n ∧ results.map RoundResult.elapsed = spans (ticks l) := by
  induction n generalizing number l results with
  | zero =>
      obtain ⟨rfl, hdone⟩ := Process.goes_done_iff.mp hp
      cases hdone
      exact ⟨rfl, rfl⟩
  | succ n ih =>
      obtain ⟨result, first, l, rfl, hround, hnoted⟩ := Process.goes_bind_done hp
      obtain ⟨_, m, l, rfl, hnote, hlater⟩ := Process.goes_bind_done hnoted
      obtain rfl := Process.goes_request_done hnote
      obtain ⟨later, rest, l, rfl, hrest, hend⟩ := Process.goes_bind_done hlater
      obtain ⟨rfl, hdone⟩ := Process.goes_done_iff.mp hend
      cases hdone
      obtain ⟨start, stop, hfirst, helapsed⟩ := goes_round_done hround
      obtain ⟨hlength, htimes⟩ := ih hrest
      have hall (entry : LogRecord) (u : Unit) :
          ticks (first ++ ([⟨.record entry, u⟩] ++ (rest ++ []))) = start :: stop :: ticks rest := by
        rw [ticks_append, hfirst, List.append_nil, ticks_append]
        rfl
      rw [hall]
      refine ⟨by simp only [List.length_cons]; omega, ?_⟩
      rw [List.map_cons, helapsed, htimes, spans]

/-- **Completing the rounds** reads the clock in the rounds only. -/
theorem goes_complete_done {e : Endpoint} {a b : Tensor} {results : List RoundResult}
    (hp : (complete s e).Goes l (.done (a, b, results))) :
    (ticks l).length = 2 * s.rounds.toNat ∧ results.map RoundResult.elapsed = spans (ticks l) := by
  unfold complete at hp
  obtain ⟨_, m, l, rfl, hrequired, hgiven⟩ := Process.goes_bind_done hp
  obtain ⟨rfl, -⟩ := Process.goes_ofExcept_done hrequired
  obtain ⟨⟨a', b'⟩, reads, l, rfl, hoperands, hcreated⟩ := Process.goes_bind_done hgiven
  obtain ⟨c, m, l, rfl, hcreate, hready⟩ := Process.goes_bind_done hcreated
  obtain ⟨rfl, -⟩ := Process.goes_ofExcept_done hcreate
  obtain ⟨results', rounds, l, rfl, hrounds, hend⟩ := Process.goes_bind_done hready
  obtain ⟨rfl, hdone⟩ := Process.goes_done_iff.mp hend
  cases hdone
  have hreads : ticks reads = [] :=
    ticks_of_kind (P := (·.isRead = true)) ((only_operands s).goes hoperands).1 nofun
  simp only [ticks_append, hreads, List.nil_append, List.append_nil]
  exact goes_roundsFrom_done hrounds

end

/-! ## Where rank zero ends

If it does not wait, rank zero has failed or has the results of its rounds. Of the ways it can fail
only the room is left when nothing goes wrong. -/

variable [Memory]

theorem ticks_of_launch (hargs : Options.parse args = .ok s)
    (hrun : Run z (launch args size readings files entropy) ms t) (hhonest : ¬z.rogue rank)
    (hne : rank ≠ 0) : ticks (traceOf ms rank) = [] := by
  by_cases hrank : rank < size
  · obtain ⟨q, -, hgoes⟩ := part_of_launch hrun hhonest hrank
    cases hlevel : s.logLevel with
    | blank =>
        rw [(goes_main_blank hargs hlevel hgoes).1]
        rfl
    | value threshold =>
        rcases goes_main hargs hlevel hgoes with ⟨hnone, -⟩ | ⟨g, k, p, htrace, hg, hk, hend⟩
        · rw [hnone]
          rfl
        have hpart : ticks g = [] :=
          ticks_of_kind ((only_run hne).goes hg).1 not_communicates_clock
        have hrest : ticks k = [] := by
          rcases hend with rfl | ⟨x, rfl⟩
          · rfl
          · rcases goes_failed hk with ⟨-, rfl, -⟩ | ⟨-, hrecords, -⟩
            · rfl
            · exact ticks_of_records hrecords
        rw [htrace, ← List.singleton_append, ticks_append, ticks_append, hpart, hrest]
        rfl
  · rw [hrun.traceOf_eq_nil hhonest (by rw [length_launch]; omega)]
    rfl

/-- **The times of the rounds** are those between the readings of the clock. -/
theorem elapsed_of_launch (hargs : Options.parse args = .ok s)
    (hrun : Run z (launch args size readings files entropy) ms t) (hhonest : ∀ rank, ¬z.rogue rank)
    {threshold : Level} {g k : List Event} {x : Tensor × Tensor × List RoundResult}
    (htrace : traceOf ms 0 = ⟨.setUpLog ⟨0, threshold⟩, ()⟩ :: (g ++ k)) (hk : ticks k = [])
    (hpath : (complete s ⟨0, size⟩).Goes g (.done x)) :
    x.2.2.map RoundResult.elapsed
      = spans ((Clock.ofReadings readings).times (2 * s.rounds.toNat)) := by
  have hothers : ∀ r ≠ 0, ticks (traceOf ms r) = [] := fun r =>
    ticks_of_launch hargs hrun (hhonest r)
  obtain ⟨hlength, htimes⟩ := goes_complete_done hpath
  have hticks : ticks (traceOf ms 0) = ticks g := by
    rw [htrace, ← List.singleton_append, ticks_append, ticks_append, hk, List.append_nil]
    rfl
  have hall := (hrun.ticks hothers).1
  rw [hticks, hlength] at hall
  rw [htimes, hall]
  rfl

theorem not_comes_operands_failed {a b : Tensor} {h : History} {x : Error}
    (hoperands : operandsOf s files entropy = .done (a, b)) (hreads : ∀ e ∈ h, e.IsReadOf files entropy) :
    ¬(operands s).Comes h (.failed x) := by
  intro hpath
  have hrun : (Host.initial 1 [] files entropy).run coordinatorRank (operands s)
      = (.failed x, .initial 1 [] files entropy) :=
    Process.run_of_comes coordinatorRank (only_operands s) hpath hreads
  rw [operandsOf, hrun] at hoperands
  cases hoperands

theorem suits_of_operands (hoperands : operandsOf s files entropy = .done (f.a, f.b)) :
    Suits f s files entropy := by
  intro a b hab
  rw [hoperands] at hab
  cases hab
  exact ⟨rfl, rfl⟩

section

variable (hargs : Options.parse args = .ok s) (hready : s.IsReady) (hsize : 2 ≤ size)
  (hoperands : operandsOf s files entropy = .done (f.a, f.b))
  (hrun : Run .none (launch args size readings files entropy) ms t)

include hargs hready hsize hoperands hrun

/-- **The end of the rounds** of rank zero, where nothing goes wrong: they fail for want of room, or they
have the product as the result of each round. -/
theorem complete_of_final {g k : History} {q : Process (Tensor × Tensor × List RoundResult)}
    (hsplit : historyOf ms 0 = g ++ k) (hpath : (complete s ⟨0, size⟩).Comes g q)
    (hend : q.Ended) :
    (∃ x, Tensor.room (.int f.type) [f.rows, f.cols] = .error x ∧ q = .failed (.room x)) ∨
      (f.HasRoom ∧ ∃ results, q = .done (f.a, f.b, results) ∧
        results.length = s.rounds.toNat ∧ ∀ result ∈ results, result.product = f.product) := by
  have hhonest : ∀ rank, ¬Hazards.none.rogue rank := fun _ => id
  have hsuits := suits_of_operands hoperands
  have hkernel := hready.kernel_ne
  rcases complete_cases hpath with ⟨hfew, -, -⟩ | ⟨x, hfailed, -⟩ | ⟨r, next, next', -, -, hask⟩ |
    ⟨f', reads, l, htwo, rfl, hreads, hgiven, -, hrounds⟩
  · omega
  · have honly := ((only_operands s).comes hfailed).1
    exact absurd hfailed (not_comes_operands_failed hoperands
      (readsOf_launch hargs hhonest hrun hsplit honly))
  · exact absurd hask (hend _ _)
  rcases hrounds with ⟨hblank, -, -⟩ | ⟨c, q', hendpoint, hskip, hq', rfl⟩
  · exact absurd hblank hready.order
  obtain ⟨ha, hb⟩ := factors_eq hargs hhonest hrun hsuits (hsplit.trans (List.append_assoc _ _ _))
    hreads hgiven
  rw [ha, hb] at hq' ⊢
  have hmeets := meets_rounds_zero hargs hhonest hrun hsuits hkernel htwo hsplit hreads hendpoint
    hskip hq'
  cases q' with
  | ask r next => exact absurd rfl (hend r _)
  | failed x =>
      have hgranted := noneRefused hargs hkernel hrun 0
      rw [hsplit, History.noneRefused_append, History.noneRefused_append] at hgranted
      obtain ⟨-, ⟨-, hrefused | ⟨i, -, hdishonest⟩⟩ | ⟨-, x, hfull, rfl⟩⟩ := hmeets
      · exact absurd hgranted.1.2 hrefused
      · exact absurd trivial hdishonest
      · exact .inl ⟨x, hfull, rfl⟩
  | done results =>
      obtain ⟨-, -, -, hlength, hresults⟩ := hmeets
      obtain ⟨-, -, hrounds⟩ := Options.bounds_of_parse hargs
      have hroom : f.HasRoom := by
        obtain ⟨result, hresult⟩ := List.exists_mem_of_length_pos (l := results) (by omega)
        exact (hresults result hresult).1
      refine .inr ⟨hroom, results, rfl, hlength, fun result hresult => ?_⟩
      exact (hresults result hresult).2.product_eq (by omega) fun _ _ => trivial

/-- **Where rank zero ends**, when nothing goes wrong. There is no room for the product, and it has failed
for it. Or it has the product as the result of each round, with the times between the readings of the
clock, and what it does with them has come to an end. -/
theorem zero_of_final (hfinal : t.IsFinal) :
    (∃ x, Tensor.room (.int f.type) [f.rows, f.cols] = .error x ∧
        (complete s ⟨0, size⟩).Comes (historyOf ms 0) (.failed (.room x))) ∨
      (f.HasRoom ∧ ∃ g k results p, historyOf ms 0 = g ++ k ∧
        (complete s ⟨0, size⟩).Comes g (.done (f.a, f.b, results)) ∧
        results.length = s.rounds.toNat ∧ (∀ result ∈ results, result.product = f.product) ∧
        results.map RoundResult.elapsed
          = spans ((Clock.ofReadings readings).times (2 * s.rounds.toNat)) ∧
        (finish s ⟨0, size⟩ (f.a, f.b, results)).Comes k p ∧ p.Ended) := by
  obtain ⟨threshold, hlevel⟩ := hready.exists_logLevel
  obtain ⟨l, records, p, htrace, hgoes, hrecords, hend⟩ :=
    run_of_final hargs hlevel hrun hfinal (show 0 < size by omega)
  have hhistory : historyOf ms 0 = loud l := by
    rw [← loud_traceOf, htrace, loud_cons, loud_append, loud_of_records hrecords, List.append_nil]
    rfl
  have hnotAsks : p.Ended := by
    rintro r next rfl
    rcases hend with ⟨a, hdone, -⟩ | ⟨x, hfailed⟩ | ⟨source, channel, next', hask, hnone⟩
    · cases hdone
    · cases hfailed
    · cases hask
      have hpath : (run s ⟨0, size⟩).Comes (historyOf ms 0) (.ask (.receive source channel) next') := by
        rw [hhistory]
        exact hgoes.comes
      exact not_waiting_zero hargs hready.kernel_ne hrun hfinal hready (suits_of_operands hoperands)
        hnone hpath
  rw [run_zero] at hgoes
  rcases hgoes.bind_cases with ⟨x, hfailed, -⟩ | ⟨r, next, -, hask⟩ | ⟨x, m, k, rfl, hm, hk⟩
  · rcases complete_of_final hargs hready hsize hoperands hrun
      (hhistory.trans (List.append_nil _).symm) hfailed.comes nofun with
      ⟨y, hfull, hy⟩ | ⟨-, results, hdone, -⟩
    · cases hy
      exact .inl ⟨y, hfull, by rw [hhistory]; exact hfailed.comes⟩
    · cases hdone
  · exact absurd hask (hnotAsks _ _)
  · rw [loud_append] at hhistory
    rcases complete_of_final hargs hready hsize hoperands hrun hhistory hm.comes nofun with
      ⟨y, -, hy⟩ | ⟨hroom, results, hdone, hlength, hproducts⟩
    · cases hy
    · cases hdone
      have hquiet : ticks (k ++ records) = [] := by
        rw [ticks_append, ticks_of_kind ((only_finish _).goes hk).1 not_announces_clock,
          ticks_of_records hrecords]
        rfl
      have hwhole : traceOf ms 0
          = ⟨.setUpLog ⟨0, threshold⟩, ()⟩ :: (m ++ (k ++ records)) := by
        rw [htrace, List.append_assoc]
        rfl
      have htimes := elapsed_of_launch hargs hrun (fun _ => id) hwhole hquiet hm
      exact .inr ⟨hroom, loud m, loud k, results, p, hhistory, hm.comes, hlength, hproducts, htimes,
        hk.comes, hnotAsks⟩

end

end Program

end RowBlock
