import RowBlock.Machine
import RowBlock.Proofs.Crew
import RowBlock.Proofs.Termination

set_option autoImplicit false

/-! # Completion

Where nothing goes wrong and there is room for every product, a crew never gets stuck: a final
state is one in which every rank is done (`Crew.isDone_of_isFinal`). The argument follows the
coordinator. If it waited in some round, a worker would owe it a reply of that round; the worker has
all work of the round, so it would not wait either. Once the coordinator is done, all work is sent,
and every worker finds what it waits for. The numbers of messages are those of the plans
(`Crew.length_coordinatorPlan`, `Crew.countP_workerPlan`). Without room for its products the
coordinator fails (`Crew.coordinator_fails`).
-/

namespace RowBlock

namespace Factors

variable (f : Factors) (workers : Nat) (skipEmpty : Bool)

def idle : Nat :=
  if skipEmpty then (List.range workers).countP fun i => f.size workers i = 0 else 0

/-- **The messages of a round**: four of work and three of reply for each worker, less the right
factor for the idle ones. -/
def messages : Nat := 7 * workers - f.idle workers skipEmpty

end Factors

def Ensemble.IsDone (s : Ensemble) : Prop := ∀ p ∈ s.parts, p = .done ()

namespace Crew

variable {crew : Crew} {readings : List Float} {files : Files} {t : Ensemble} {ms : List Move}
  {rank : Nat}

theorem noneRogue (rank : Nat) : Hazards.none.rogue rank → 0 < rank ∧ rank ≤ crew.workers :=
  fun h => h.elim

/-! ## Nothing is refused

Without faults a request can only be refused for a rank that does not exist. The contracts bound the
ranks that are named. -/

section

variable [Memory]

/-- What a rank asks for by its contract names ranks of the job, and does not end the program. -/
theorem asks_cases {honest : Nat → Prop} {h : History} {r : Request} {net : Network}
    (hsize : net.size = crew.size) (hrank : rank < crew.size)
    (hasks : (crew.contract honest rank).asks h r) :
    r.reaches net = true ∧ r.isEnd = false := by
  have hhas : ∀ n : Nat, n < crew.size → net.hasRank (n : Int) = true := by
    intro n hn
    simp only [Network.hasRank, Bool.and_eq_true, decide_eq_true_eq, hsize]
    omega
  cases rank with
  | zero =>
      rcases hasks with ⟨result, rfl⟩ | ⟨d, rest, hplan, rfl⟩ | ⟨n, f, -, -, -, i, hi, -, rfl | rfl⟩
      · exact ⟨rfl, rfl⟩
      · have hmem : d ∈ crew.coordinatorPlan := by
          rw [coordinatorPlan, hplan]
          simp
        obtain ⟨i, hi, payload, rfl⟩ := mem_coordinatorPlan hmem
        exact ⟨hhas (i + 1) (by simp only [size]; omega), rfl⟩
      · exact ⟨hhas (i + 1) (by simp only [size]; omega), rfl⟩
      · exact ⟨rfl, rfl⟩
  | succ i =>
      obtain ⟨d, rest, hplan, rfl⟩ := hasks
      have hmem : d ∈ crew.workerPlan i := by
        rw [hplan]
        simp
      obtain ⟨payload, rfl | rfl⟩ := mem_workerPlan hmem
      · exact ⟨hhas 0 (Nat.succ_pos _), rfl⟩
      · exact ⟨hhas 0 (Nat.succ_pos _), rfl⟩

theorem asks_of_part (hrun : Run .none (crew.start readings files) ms t) {r : Request}
    {next : r.Answer → Process Unit} (hpart : t.parts[rank]? = some (.ask r next))
    (hquiet : r.isQuiet = false) :
    (crew.contract (Honest .none) rank).asks (historyOf ms rank) r :=
  (meets noneRogue hrun id hpart).2.1 hquiet

theorem rank_lt (hrun : Run .none (crew.start readings files) ms t) {p : Process Unit}
    (hpart : t.parts[rank]? = some p) : rank < crew.size := by
  have hlt := (List.getElem?_eq_some_iff.mp hpart).1
  rwa [hrun.length_parts, length_start] at hlt

/-- **Nothing is refused** where nothing is injected. -/
theorem noneRefused (hrun : Run .none (crew.start readings files) ms t) (rank : Nat) :
    (historyOf ms rank).NoneRefused := by
  refine hrun.forall_mem_historyOf fun hbefore hstep hloud => ?_
  obtain ⟨_, _, _, _, _, hmove, hpart, hserve, -⟩ := hstep.of_none
  cases hmove
  have hasks := asks_of_part hbefore hpart hloud
  obtain ⟨hreaches, -⟩ := asks_cases hbefore.size (rank_lt hbefore hpart) hasks
  exact Host.serve_granted (Run.faults rfl hbefore) hreaches hserve

/-! ## Final states

In a final state no rank can make a step, so whoever is not at its end waits for a message that is
not pending. First the coordinator is shown to be done, by looking at the worker it waits for; then
the workers, who wait for nobody else. What each rank has done is its whole plan then, and matching
the plans against each other shows that every message was taken. -/

theorem failed_part (hrun : Run .none (crew.start readings files) ms t) {e : Error}
    (hpart : t.parts[rank]? = some (.failed e)) :
    (∃ f ∈ crew.factors, ¬f.HasRoom) ∧ (rank = 0 → ∃ x, e = .room x) := by
  have hfails := (meets noneRogue hrun id hpart).2
  cases rank with
  | zero =>
      rcases hfails with ⟨-, hrefused | ⟨i, -, hdishonest⟩⟩ | ⟨f, x, hf, hfull, rfl⟩
      · exact absurd (noneRefused hrun 0) hrefused
      · exact absurd id hdishonest
      · refine ⟨⟨f, List.mem_of_getElem? hf, fun hroom => ?_⟩, fun _ => ⟨x, rfl⟩⟩
        exact absurd (hfull.symm.trans hroom) (by simp)
  | succ i =>
      rcases hfails with ⟨-, hnone⟩ | ⟨-, hrefused⟩
      · exact ⟨hnone, fun hzero => absurd hzero (Nat.succ_ne_zero i)⟩
      · exact absurd (noneRefused hrun (i + 1)) hrefused

/-- **A rank in a final state** is done, has failed, or waits for a message that is not there. -/
theorem final_cases (hrun : Run .none (crew.start readings files) ms t) (hfinal : t.IsFinal)
    {p : Process Unit} (hpart : t.parts[rank]? = some p) :
    p = .done () ∨ (∃ e, p = .failed e) ∨
      ∃ source channel next, p = .ask (.receive source channel) next ∧
        ∀ m ∈ t.host.network.pending, Network.fits rank source channel m = false := by
  rcases hfinal.cases hpart with hdone | hfailed | ⟨r, next, rfl, hr⟩
  · exact .inl hdone
  · exact .inr (.inl hfailed)
  · rcases hr with hend | ⟨source, channel, rfl, hnone⟩
    · have hquiet : r.isQuiet = false := by cases r <;> first | rfl | cases hend
      have hasks := asks_of_part hrun hpart hquiet
      rw [(asks_cases hrun.size (rank_lt hrun hpart) hasks).2] at hend
      cases hend
    · exact .inr (.inr ⟨source, channel, next, rfl, hnone⟩)

/-- With room for all products a rank in a final state has not failed. -/
theorem final_part (hrun : Run .none (crew.start readings files) ms t) (hfinal : t.IsFinal)
    (hroom : ∀ f ∈ crew.factors, f.HasRoom) {p : Process Unit} (hpart : t.parts[rank]? = some p) :
    p = .done () ∨ ∃ source channel next, p = .ask (.receive source channel) next ∧
      ∀ m ∈ t.host.network.pending, Network.fits rank source channel m = false := by
  rcases final_cases hrun hfinal hpart with hdone | ⟨e, rfl⟩ | hwaits
  · exact .inl hdone
  · obtain ⟨⟨f, hf, hnone⟩, -⟩ := failed_part hrun hpart
    exact absurd (hroom f hf) hnone
  · exact .inr hwaits

theorem waiting_worker {i : Nat} (hrun : Run .none (crew.start readings files) ms t)
    {source : Source} {channel : Channel} {next : Except Refusal (Nat × Payload) → Process Unit}
    (hpart : t.parts[i + 1]? = some (.ask (.receive source channel) next))
    (hnone : ∀ m ∈ t.host.network.pending, Network.fits (i + 1) source channel m = false) :
    ∃ payload rest, crew.workerPlan i
        = (historyOf ms (i + 1)).deeds ++ .taken 0 .work payload :: rest ∧
      takenFrom (historyOf ms (i + 1)).deeds 0 .work
        = sentTo (historyOf ms 0).deeds (i + 1) .work := by
  obtain ⟨d, rest, hplan, hd⟩ := asks_of_part hrun hpart rfl
  cases d with
  | sent dest c payload => cases hd
  | taken s c payload =>
      cases hd
      have hmem : .taken s channel payload ∈ crew.workerPlan i := by
        rw [hplan]
        simp
      obtain ⟨rfl, rfl⟩ := taken_workerPlan hmem
      refine ⟨payload, rest, hplan, ?_⟩
      rw [hrun.sentTo_eq rfl 0 (i + 1) .work,
        Network.between_eq_nil hnone (by simp [Source.admits]), List.append_nil]

theorem done_worker {i : Nat} (hrun : Run .none (crew.start readings files) ms t)
    (hpart : t.parts[i + 1]? = some (.done ())) :
    (historyOf ms (i + 1)).deeds = crew.workerPlan i :=
  (meets noneRogue hrun id hpart).2.1

theorem exists_part (hrun : Run .none (crew.start readings files) ms t) (hrank : rank < crew.size) :
    ∃ p, t.parts[rank]? = some p := by
  have hlt : rank < t.parts.length := by rwa [hrun.length_parts, length_start]
  exact ⟨_, List.getElem?_eq_getElem hlt⟩

omit [Memory] in
theorem length_replies (fs : List Factors) (i : Nat) :
    (fs.flatMap fun f => f.replyFields crew.workers crew.skipEmpty i).length = 3 * fs.length := by
  induction fs with
  | nil => rfl
  | cons f fs ih =>
      rw [List.flatMap_cons, List.length_append, ih, List.length_cons]
      simp only [Factors.replyFields, List.length_cons, List.length_nil]
      omega

omit [Memory] in
theorem sentTo_workerPlan (i : Nat) : sentTo (crew.workerPlan i) 0 .result
    = crew.factors.flatMap fun f => f.replyFields crew.workers crew.skipEmpty i :=
  Factors.sentTo_workerPlans _

/-- A coordinator that waits has room for the product of its round and has sent all work of it. -/
theorem waiting_coordinator (hrun : Run .none (crew.start readings files) ms t) {source : Source}
    {channel : Channel} {next : Except Refusal (Nat × Payload) → Process Unit}
    (hpart : t.parts[0]? = some (.ask (.receive source channel) next)) :
    ∃ (n : Nat) (f : Factors), crew.factors[n]? = some f ∧ f.HasRoom ∧
      (historyOf ms 0).deeds.filter Deed.isSent = (crew.factors.take (n + 1)).flatMap
        (·.coordinatorPlan crew.workers crew.skipEmpty) ∧
      Coordinator.Awaits crew.workers (n + 1) (historyOf ms 0) (.receive source channel) := by
  rcases asks_of_part hrun hpart rfl with ⟨result, hr⟩ | ⟨d, rest, hplan, hr⟩ | hround
  · cases hr
  · have hmem : d ∈ crew.coordinatorPlan := by
      rw [coordinatorPlan, hplan]
      simp
    obtain ⟨_, -, _, rfl⟩ := mem_coordinatorPlan hmem
    cases hr
  · exact hround

/-- **The coordinator is done** in a final state. -/
theorem coordinator_done (hrun : Run .none (crew.start readings files) ms t) (hfinal : t.IsFinal)
    (hroom : ∀ f ∈ crew.factors, f.HasRoom) : t.parts[0]? = some (.done ()) := by
  obtain ⟨p, hpart⟩ := exists_part hrun (Nat.succ_pos crew.workers)
  rcases final_part hrun hfinal hroom hpart with rfl | ⟨source, channel, next, rfl, hnone⟩
  · exact hpart
  exfalso
  obtain ⟨n, f, hf, -, hsent, i, hi, hfew, hr⟩ := waiting_coordinator hrun hpart
  have hbetween : t.host.network.between (i + 1) 0 .result = [] := by
    rcases hr with hr | hr <;> cases hr
    · exact Network.between_eq_nil hnone (by simp [Source.admits])
    · exact Network.between_eq_nil hnone rfl
  have hreplies := hrun.sentTo_eq rfl (i + 1) 0 .result
  rw [hbetween, List.append_nil] at hreplies
  rw [← hreplies] at hfew
  have hn : n < crew.factors.length := (List.getElem?_eq_some_iff.mp hf).1
  -- the worker that is waited for has replied to all rounds whose work it was sent
  obtain ⟨q, hworker⟩ : ∃ q, t.parts[i + 1]? = some q :=
    exists_part hrun (by simp only [size]; omega)
  rcases final_part hrun hfinal hroom hworker with rfl | ⟨source, channel, next, rfl, hempty⟩
  · rw [done_worker hrun hworker, sentTo_workerPlan, length_replies] at hfew
    omega
  · obtain ⟨payload, rest, hplan, hwork⟩ := waiting_worker hrun hworker hempty
    have hall : sentTo (historyOf ms 0).deeds (i + 1) .work
        = (crew.factors.take (n + 1)).flatMap
          fun f => f.workFields crew.workers crew.skipEmpty i := by
      rw [← sentTo_filter, hsent, Factors.sentTo_coordinatorPlans hi]
    rw [Factors.sentTo_of_waiting hplan (hwork.trans hall), length_replies, List.length_take] at hfew
    omega

theorem returns_coordinator (hrun : Run .none (crew.start readings files) ms t)
    (hdone : t.parts[0]? = some (.done ())) :
    (historyOf ms 0).deeds.filter Deed.isSent = crew.coordinatorPlan ∧
      (∀ f ∈ crew.factors, f.HasRoom) ∧
      (∀ i < crew.workers, (takenFrom (historyOf ms 0).deeds (i + 1) .result).length
        = 3 * crew.factors.length) ∧
      (historyOf ms 0).published.length = crew.factors.length :=
  (meets noneRogue hrun id hdone).2

/-- **Every rank is done** in a final state. -/
theorem isDone_of_isFinal (hrun : Run .none (crew.start readings files) ms t) (hfinal : t.IsFinal)
    (hroom : ∀ f ∈ crew.factors, f.HasRoom) : t.IsDone := by
  have hdone := coordinator_done hrun hfinal hroom
  obtain ⟨hsent, -⟩ := returns_coordinator hrun hdone
  intro p hp
  obtain ⟨rank, hlt, rfl⟩ := List.mem_iff_getElem.mp hp
  have hpart := List.getElem?_eq_getElem hlt
  cases rank with
  | zero => exact Option.some.inj (hpart.symm.trans hdone)
  | succ i =>
      rcases final_part hrun hfinal hroom hpart with heq | ⟨source, channel, next, heq, hempty⟩
      · exact heq
      · -- a worker that waits would lack work that the coordinator has sent it
        rw [heq] at hpart
        have hi : i < crew.workers := Nat.lt_of_succ_lt_succ (rank_lt hrun hpart)
        obtain ⟨payload, rest, hplan, hwork⟩ := waiting_worker hrun hpart hempty
        rw [← sentTo_filter, hsent, sentTo_coordinatorPlan hi, hplan] at hwork
        exact absurd hwork.symm (takenFrom_append_taken_ne _ rest 0 .work payload)

/-- **Between two ranks nothing is left** when all ranks are done. -/
theorem between_of_isDone (hrun : Run .none (crew.start readings files) ms t)
    (hdone : ∀ rank < crew.size, t.parts[rank]? = some (.done ())) (source dest : Nat)
    (channel : Channel) : t.host.network.between source dest channel = [] := by
  obtain ⟨hsent, -, hcounts, -⟩ := returns_coordinator hrun (hdone 0 (Nat.succ_pos _))
  have hkept := hrun.sentTo_eq rfl source dest channel
  -- a message left over would be one more in a plan than was taken of it
  by_contra hsome
  have hpos := List.length_pos_iff.mpr hsome
  obtain ⟨payload, hmem⟩ : ∃ payload, .sent dest channel payload ∈ (historyOf ms source).deeds :=
    exists_sent (by rw [hkept]; simp [hsome])
  have hlength := congrArg List.length hkept
  rw [List.length_append] at hlength
  cases source with
  | zero =>
      have hplan : .sent dest channel payload ∈ crew.coordinatorPlan := by
        rw [← hsent]
        exact List.mem_filter.mpr ⟨hmem, rfl⟩
      obtain ⟨i, hi, _, heq⟩ := mem_coordinatorPlan hplan
      simp only [Deed.sent.injEq, Nat.cast_inj] at heq
      obtain ⟨rfl, rfl, -⟩ := heq
      rw [← sentTo_filter, hsent, sentTo_coordinatorPlan hi,
        done_worker hrun (hdone (i + 1) (Nat.succ_lt_succ hi))] at hlength
      omega
  | succ i =>
      have hi : i < crew.workers := by
        by_contra hout
        rw [hrun.historyOf_eq_nil id (by rw [length_start, size]; omega)] at hmem
        cases hmem
      have hplan := done_worker hrun (hdone (i + 1) (Nat.succ_lt_succ hi))
      rw [hplan] at hmem hlength
      obtain ⟨_, heq | heq⟩ := mem_workerPlan hmem
      · cases heq
      · simp only [Deed.sent.injEq, Nat.cast_eq_zero] at heq
        obtain ⟨rfl, rfl, -⟩ := heq
        rw [sentTo_workerPlan, length_replies, hcounts i hi] at hlength
        omega

/-- **Nothing is left behind** when all ranks are done. -/
theorem pending_eq_nil (hrun : Run .none (crew.start readings files) ms t)
    (hdone : ∀ rank < crew.size, t.parts[rank]? = some (.done ())) :
    t.host.network.pending = [] := by
  apply List.eq_nil_iff_forall_not_mem.mpr
  intro m hm
  have hnone := between_of_isDone hrun hdone m.source m.dest m.channel
  have hone := List.filterMap_eq_nil_iff.mp hnone m hm
  simp [Network.between?] at hone

/-! ## The number of messages

The count of a round is that of the two plans. Both are lists, and the idle workers are those whose
part of the list is shorter by one. -/

end

theorem length_workFields (crew : Crew) (f : Factors) (i : Nat) :
    (f.workFields crew.workers crew.skipEmpty i).length
      + (if f.omitted crew.workers crew.skipEmpty i = true then 1 else 0) = 4 := by
  cases homitted : f.omitted crew.workers crew.skipEmpty i <;> simp [Factors.workFields, homitted]

theorem length_work (crew : Crew) (f : Factors) (l : List Nat) :
    (l.flatMap fun i => (f.workFields crew.workers crew.skipEmpty i).map
        (Deed.sent (i + 1 : Nat) .work)).length
      + l.countP (f.omitted crew.workers crew.skipEmpty ·) = 4 * l.length := by
  induction l with
  | nil => rfl
  | cons i l ih =>
      have hone := crew.length_workFields f i
      rw [List.flatMap_cons, List.length_append, List.countP_cons, List.length_cons,
        List.length_map]
      omega

/-- The idle workers are those left without the right factor. -/
theorem idle_eq (f : Factors) : f.idle crew.workers crew.skipEmpty
    = (List.range crew.workers).countP (f.omitted crew.workers crew.skipEmpty ·) := by
  unfold Factors.idle
  cases hskip : crew.skipEmpty with
  | true =>
      rw [if_pos rfl]
      apply List.countP_congr
      intro i _
      simp [Factors.omitted, Coordinator.omits]
  | false => simp [Factors.omitted, Coordinator.omits]

/-- **The messages of a round** are those of the coordinator's plan and three replies a worker. -/
theorem messages_eq (f : Factors) : f.messages crew.workers crew.skipEmpty
    = (f.coordinatorPlan crew.workers crew.skipEmpty).length + 3 * crew.workers := by
  have hwork := crew.length_work f (List.range crew.workers)
  rw [List.length_range, ← idle_eq] at hwork
  unfold Factors.messages Factors.coordinatorPlan
  omega

theorem length_coordinatorPlan : crew.coordinatorPlan.length
      + 3 * crew.workers * crew.factors.length
    = (crew.factors.map (·.messages crew.workers crew.skipEmpty)).sum := by
  unfold coordinatorPlan
  induction crew.factors with
  | nil => simp
  | cons f fs ih =>
      rw [List.flatMap_cons, List.length_append, List.length_cons, List.map_cons, List.sum_cons,
        ← ih, messages_eq, Nat.mul_succ]
      omega

theorem countP_workerPlan (i : Nat) :
    (crew.workerPlan i).countP Deed.isSent = 3 * crew.factors.length := by
  have hone : ∀ f : Factors, (f.workerPlan crew.workers crew.skipEmpty i).countP Deed.isSent = 3 := by
    intro f
    have hwork : ((f.workFields crew.workers crew.skipEmpty i).map
        (Deed.taken 0 .work)).countP Deed.isSent = 0 := by
      simp [List.countP_eq_zero, Deed.isSent]
    rw [Factors.workerPlan, List.countP_append, hwork]
    rfl
  unfold workerPlan
  induction crew.factors with
  | nil => rfl
  | cons f fs ih =>
      rw [List.flatMap_cons, List.countP_append, ih, hone, List.length_cons]
      omega

section

variable [Memory]

/-- **The number of messages sent** when all ranks are done. -/
theorem countP_sent (hrun : Run .none (crew.start readings files) ms t)
    (hdone : ∀ rank < crew.size, t.parts[rank]? = some (.done ())) :
    (ms.filterMap Move.deed?).countP Deed.isSent
      = (crew.factors.map (·.messages crew.workers crew.skipEmpty)).sum := by
  obtain ⟨hsent, -⟩ := returns_coordinator hrun (hdone 0 (Nat.succ_pos _))
  have hworkers : ∀ i ∈ Finset.range crew.workers,
      (historyOf ms (i + 1)).deeds.countP Deed.isSent = 3 * crew.factors.length := by
    intro i hi
    rw [done_worker hrun (hdone (i + 1) (Nat.succ_lt_succ (Finset.mem_range.mp hi))),
      countP_workerPlan]
  rw [hrun.countP_deeds, length_start, size, Finset.sum_range_succ', Finset.sum_congr rfl hworkers,
    List.countP_eq_length_filter, hsent, ← length_coordinatorPlan, Finset.sum_const,
    Finset.card_range, smul_eq_mul]
  ring

/-! ## Never stuck

The theorem puts together that runs are finite, that a run which cannot go on has all ranks done,
and that silent steps end by themselves. -/

theorem parts_of_isDone (hrun : Run .none (crew.start readings files) ms t) (hdone : t.IsDone) :
    ∀ rank < crew.size, t.parts[rank]? = some (.done ()) := by
  intro rank hrank
  obtain ⟨p, hp⟩ := exists_part hrun hrank
  rw [hp, hdone p (List.mem_of_getElem? hp)]

/-- **A crew never gets stuck and leaves nothing behind**, if there is room for its products. From
every state that it can reach, without any further message, either all ranks are done, or one can send
or take its next message. When no step is left all ranks are done, no message is pending, and the
messages sent and those taken are as many as the rounds have, whatever the order was. There is no
endless run. -/
theorem never_stuck (crew : Crew) (readings : List Float) (files : Files)
    (hroom : ∀ f ∈ crew.factors, f.HasRoom) :
    (∀ ms t, Run .none (crew.start readings files) ms t →
      (∃ ns u, Run .none t ns u ∧ (∀ m ∈ ns, m.deed? = none) ∧
        (u.IsDone ∨ ∃ m v, Step .none u m v ∧ m.deed?.isSome)) ∧
      (t.IsFinal → t.IsDone ∧ t.host.network.pending = [] ∧
        (ms.filterMap Move.deed?).countP Deed.isSent
          = (crew.factors.map (·.messages crew.workers crew.skipEmpty)).sum ∧
        (ms.filterMap Move.deed?).countP (fun d => !d.isSent)
          = (crew.factors.map (·.messages crew.workers crew.skipEmpty)).sum)) ∧
    ¬∃ run : Nat → Ensemble, run 0 = crew.start readings files ∧
      ∀ n, ∃ m, Step .none (run n) m (run (n + 1)) := by
  refine ⟨fun ms t hrun => ⟨?_, fun hfinal => ?_⟩, ?_⟩
  · obtain ⟨ns, u, hmore, hquiet, hlast⟩ := exists_last (fun m => m.deed? = none) t
    refine ⟨ns, u, hmore, hquiet, ?_⟩
    by_cases hfinal : u.IsFinal
    · exact .inl (isDone_of_isFinal (hrun.append hmore) hfinal hroom)
    · simp only [Ensemble.IsFinal, not_forall, not_not] at hfinal
      obtain ⟨m, v, hstep⟩ := hfinal
      refine .inr ⟨m, v, hstep, Option.isSome_iff_ne_none.mpr fun hnone => hlast m v hnone hstep⟩
  · have hdone := isDone_of_isFinal hrun hfinal hroom
    have hparts := parts_of_isDone hrun hdone
    have hpending := pending_eq_nil hrun hparts
    have hsent := countP_sent hrun hparts
    have hbalance := hrun.balance
    rw [hpending, hsent] at hbalance
    refine ⟨hdone, hpending, hsent, ?_⟩
    simpa [start, Host.initial, Network.empty] using hbalance.symm
  · rintro ⟨run, hstart, hsteps⟩
    have : IsWellFounded Ensemble fun t s => ∃ m, Step .none s m t := ⟨wellFounded_step⟩
    obtain ⟨n, hn⟩ := WellFounded.not_rel_apply_succ (r := fun t s => ∃ m, Step .none s m t) run
    exact hn (hsteps n)

end

/-- A pair of workers with two rounds, of one row and of three: in the first one the second worker is
idle. -/
def pair : Crew where
  workers := 2
  workers_pos := by decide
  order := .arrival
  skipEmpty := true
  kernel i := if i = 0 then .rows else .whole
  kernel_runs i := by split <;> simp
  factors := [
    { type := .int8, rows := 1, inner := 2, cols := 1
      a := .matrix (.int .int8) 1 2 fun _ j => if j = 0 then 100 else 50
      b := .matrix (.int .int8) 2 1 fun _ _ => 3
      left := ⟨rfl, rfl⟩
      right := ⟨rfl, rfl⟩ },
    { type := .uint16, rows := 3, inner := 1, cols := 1
      a := .matrix (.int .uint16) 3 1 fun i _ => i + 1
      b := .matrix (.int .uint16) 1 1 fun _ _ => 5
      left := ⟨rfl, rfl⟩
      right := ⟨rfl, rfl⟩ }]

theorem hasRoom_pair : ∀ f ∈ pair.factors, f.HasRoom := by decide

/-- The pair sends thirteen messages in the first round and fourteen in the second. -/
theorem never_stuck_pair :
    ∃ ms t, Run .none (pair.start [] ⟨[]⟩) ms t ∧ t.IsFinal ∧ t.IsDone ∧
      t.host.network.pending = [] ∧ (ms.filterMap Move.deed?).countP Deed.isSent = 27 := by
  obtain ⟨ms, t, hrun, hfinal⟩ := exists_final (pair.start [] ⟨[]⟩)
  obtain ⟨hdone, hpending, hsent, -⟩ :=
    ((never_stuck pair [] ⟨[]⟩ hasRoom_pair).1 ms t hrun).2 hfinal
  exact ⟨ms, t, hrun, hfinal, hdone, hpending, hsent.trans (by decide)⟩

/-! ## Without room

The room for the product is the only thing a crew can lack. Where it lacks it in the first round the
coordinator fails, with the error of the room, before it has received anything. -/

section

variable [Memory]

/-- **Without room for its products** the coordinator fails in the first round. -/
theorem coordinator_fails (hrun : Run .none (crew.start readings files) ms t) (hfinal : t.IsFinal)
    (hsome : crew.factors ≠ []) (hnone : ∀ f ∈ crew.factors, ¬f.HasRoom) :
    ∃ x, t.parts[0]? = some (.failed (.room x)) := by
  obtain ⟨p, hpart⟩ := exists_part hrun (Nat.succ_pos crew.workers)
  rcases final_cases hrun hfinal hpart with rfl | ⟨e, rfl⟩ | ⟨source, channel, next, rfl, -⟩
  · obtain ⟨f, hf⟩ := List.exists_mem_of_ne_nil _ hsome
    exact absurd ((returns_coordinator hrun hpart).2.1 f hf) (hnone f hf)
  · obtain ⟨-, hzero⟩ := failed_part hrun hpart
    obtain ⟨x, rfl⟩ := hzero rfl
    exact ⟨x, hpart⟩
  · -- it waits for replies only where it had room for the product
    obtain ⟨n, f, hf, hroom, -⟩ := waiting_coordinator hrun hpart
    exact absurd hroom (hnone f (List.mem_of_getElem? hf))

end

/-- One worker for a product that has too many cells, of factors that have none. -/
def wide : Crew where
  workers := 1
  workers_pos := by decide
  order := .rank
  skipEmpty := false
  kernel _ := .rows
  kernel_runs _ := by simp
  factors := [{
    type := .int8, rows := 2 ^ 32, inner := 0, cols := 2 ^ 32
    a := .zeros (.int .int8) [2 ^ 32, 0]
    b := .zeros (.int .int8) [0, 2 ^ 32]
    left := ⟨rfl, rfl⟩
    right := ⟨rfl, rfl⟩ }]

theorem no_room_wide : ∀ f ∈ wide.factors, ¬f.HasRoom := by decide

/-- **Room is needed**: in the end the crew is not done, and no step is left. -/
theorem stuck_without_room :
    ∃ ms t, Run .none (wide.start [] ⟨[]⟩) ms t ∧ t.IsFinal ∧ ¬t.IsDone := by
  obtain ⟨ms, t, hrun, hfinal⟩ := exists_final (wide.start [] ⟨[]⟩)
  obtain ⟨x, hfailed⟩ := coordinator_fails hrun hfinal (by simp [wide]) no_room_wide
  refine ⟨ms, t, hrun, hfinal, ?_⟩
  intro hdone
  cases hdone _ (List.mem_of_getElem? hfailed)

end Crew

end RowBlock
