import RowBlock.Proofs.CoordinatorRounds
import RowBlock.Proofs.Interleaving
import RowBlock.Proofs.WorkerRounds

set_option autoImplicit false

/-! # Crews

A *crew* is a coordinator and its workers, with the factors of a number of rounds (`Crew`). At the
start every rank has its rounds before it, and the network is empty (`Crew.start`). The contracts of
the coordinator and of the workers guarantee what they rely on, so they hold in every run
(`Crew.meets`), whatever faults are injected and whatever rogue workers do.

So the results on the host are those of the coordinator's rounds, with the rows of every honest
worker right (`Crew.isResult`).
-/

namespace RowBlock

/-- **A crew** with work for a number of rounds: as many workers as one likes, each with a kernel that
runs here. -/
structure Crew where
  workers : Nat
  workers_pos : 0 < workers
  order : Order
  skipEmpty : Bool
  /-- The kernel of each worker, counted from zero. -/
  kernel : Nat → Kernel
  kernel_runs : ∀ i, kernel i ≠ .device
  /-- The factors of each round. -/
  factors : List Factors

namespace Crew

variable (crew : Crew)

/-! ## The ranks and the start

Rank zero is the coordinator and rank `i + 1` is worker `i`. The kernels of the workers may differ,
and so may their numbers of rows; the order of collection is that of the crew. -/

def size : Nat := crew.workers + 1

def coordinator : Coordinator := ⟨⟨0, crew.size⟩, crew.order, crew.skipEmpty⟩

def worker (i : Nat) : Worker := ⟨⟨i + 1, crew.size⟩, crew.kernel i, crew.skipEmpty⟩

/-- What a rank has to do. -/
def part [Memory] : Nat → Process Unit
  | 0 => crew.coordinator.rounds (crew.factors.map fun f => (f.a, f.b))
  | i + 1 => (crew.worker i).rounds crew.factors.length

/-- **The start**: nobody has done anything, and no message is in flight. -/
def start [Memory] (readings : List Float) (files : Files) : Ensemble :=
  ⟨(List.range crew.size).map crew.part, .initial crew.size readings files 0⟩

def workerPlan (i : Nat) : List Deed :=
  crew.factors.flatMap fun f => f.workerPlan crew.workers crew.skipEmpty i

def coordinatorPlan : List Deed :=
  crew.factors.flatMap fun f => f.coordinatorPlan crew.workers crew.skipEmpty

/-- The only error of a worker's own: there is no room for a product. -/
def WorkerError [Memory] (e : Error) : Prop :=
  (∃ x, e = .kernel (.room x)) ∧ ∃ f ∈ crew.factors, ¬f.HasRoom

/-- **The contract of each rank**, where some workers are honest. -/
def contract [Memory] (honest : Nat → Prop) : Nat → Contract Unit
  | 0 => Coordinator.roundsContract crew.factors crew.workers crew.skipEmpty honest
  | i + 1 => planContract (crew.workerPlan i) (fun _ => True) crew.WorkerError

variable {crew} {readings : List Float} {files : Files} {honest : Nat → Prop}

section

variable [Memory]

theorem part_of_start {rank : Nat} {p : Process Unit}
    (h : (crew.start readings files).parts[rank]? = some p) :
    rank < crew.size ∧ p = crew.part rank := by
  simp only [start, List.getElem?_map, Option.map_eq_some_iff] at h
  obtain ⟨r, hr, rfl⟩ := h
  obtain ⟨hlt, heq⟩ := List.getElem?_eq_some_iff.mp hr
  simp only [List.length_range] at hlt
  simp only [List.getElem_range] at heq
  rw [← heq]
  exact ⟨hlt, rfl⟩

theorem length_start : (crew.start readings files).parts.length = crew.size := by simp [start]

/-- **Every part meets its contract** from the start. -/
theorem meets_part {rank : Nat} (hrank : rank < crew.size) :
    (crew.part rank).Meets (crew.contract honest rank) [] := by
  cases rank with
  | zero =>
      refine Coordinator.meets_rounds rfl ?_ crew.workers_pos
      simp [coordinator, Endpoint.workers, size]
  | succ i =>
      refine (Worker.follows_rounds (crew.kernel_runs i) rfl (Nat.lt_of_succ_lt_succ hrank)
        fun f hf _ hroom x => ⟨⟨x, rfl⟩, f, hf, hroom⟩).meets rfl rfl

/-! ## What the plans send and take

The plans of the coordinator and of a worker are two views of the same fields: what one sends on a
channel is what the other takes from it, in this order. -/

end

/-- What the coordinator sends a worker is what the worker takes. -/
theorem sentTo_coordinatorPlan {i : Nat} (hi : i < crew.workers) (channel : Channel) :
    sentTo crew.coordinatorPlan (i + 1) channel = takenFrom (crew.workerPlan i) 0 channel := by
  rw [coordinatorPlan, workerPlan, sentTo_flatMap, takenFrom_flatMap]
  apply List.flatMap_congr
  intro f _
  rw [Factors.takenFrom_workerPlan]
  cases channel with
  | work => rw [Factors.sentTo_coordinatorPlan hi, if_pos ⟨rfl, rfl⟩]
  | result => rw [Factors.sentTo_coordinatorPlan_result, if_neg (by simp)]

theorem sentTo_coordinatorPlan_result (dest : Nat) :
    sentTo crew.coordinatorPlan dest .result = [] := by
  rw [coordinatorPlan, sentTo_flatMap]
  exact List.flatMap_eq_nil_iff.mpr fun f _ => Factors.sentTo_coordinatorPlan_result dest

/-- The coordinator sends to workers, and work only. -/
theorem mem_coordinatorPlan {d : Deed} (h : d ∈ crew.coordinatorPlan) :
    ∃ i < crew.workers, ∃ payload, d = .sent (i + 1 : Nat) .work payload := by
  simp only [coordinatorPlan, Factors.coordinatorPlan, List.mem_flatMap, List.mem_map,
    List.mem_range] at h
  obtain ⟨f, -, i, hi, payload, -, rfl⟩ := h
  exact ⟨i, hi, payload, rfl⟩

theorem mem_workerPlan {i : Nat} {d : Deed} (h : d ∈ crew.workerPlan i) :
    ∃ payload, d = .taken 0 .work payload ∨ d = .sent 0 .result payload := by
  simp only [workerPlan, Factors.workerPlan, List.mem_flatMap, List.mem_append, List.mem_map] at h
  obtain ⟨f, -, ⟨payload, -, rfl⟩ | ⟨payload, -, rfl⟩⟩ := h
  · exact ⟨payload, .inl rfl⟩
  · exact ⟨payload, .inr rfl⟩

theorem taken_workerPlan {i source : Nat} {channel : Channel} {payload : Payload}
    (h : .taken source channel payload ∈ crew.workerPlan i) : source = 0 ∧ channel = .work :=
  Factors.taken_workerPlans h

/-! ## The contracts hold

What a rank relies on is about messages it receives, and every message was sent by a rank that keeps
its contract or by a rogue one. So all contracts are kept along a run by one induction on its steps:
a step extends one history, and the guarantees of all others are those of the state before it. -/

variable {z : Hazards} {t : Ensemble} {ms : List Move} {rank : Nat}

def Honest (z : Hazards) (i : Nat) : Prop := ¬z.rogue (i + 1)

variable [Memory]

/-- **What a worker relies on** holds when the coordinator keeps to its plan: its next message was
sent before. -/
theorem rely_worker {i : Nat} {m : Move} {u : Ensemble}
    (hrun : Run z (crew.start readings files) ms t) (hstep : Step z t m u) (hi : i < crew.workers)
    (hplan : (historyOf ms 0).deeds.filter Deed.isSent <+: crew.coordinatorPlan) :
    (crew.contract (Honest z) (i + 1)).rely (historyOf (ms ++ [m]) (i + 1)) := by
  refine Factors.workerPlans_rely ((hrun.step hstep).admitted (i + 1)) ?_
  rw [← Factors.takenFrom_workerPlans, ← workerPlan, ← sentTo_coordinatorPlan hi]
  refine (Run.takenFrom_isPrefix rfl hrun hstep 0 (i + 1) .work).trans ?_
  rw [← sentTo_filter]
  exact sentTo_isPrefix hplan (i + 1) .work

/-- **What the coordinator relies on** holds when it and the honest workers keep to their plans. -/
theorem rely_coordinator {m : Move} {u : Ensemble}
    (hrogue : ∀ rank, z.rogue rank → 0 < rank ∧ rank ≤ crew.workers)
    (hrun : Run z (crew.start readings files) ms t) (hstep : Step z t m u)
    (hplan : (historyOf ms 0).deeds.filter Deed.isSent <+: crew.coordinatorPlan)
    (hworkers : ∀ i < crew.workers, Honest z i →
      (historyOf ms (i + 1)).deeds <+: crew.workerPlan i) :
    (crew.contract (Honest z) 0).rely (historyOf (ms ++ [m]) 0) := by
  have htaken := fun source =>
    Run.takenFrom_isPrefix (s := crew.start readings files) rfl hrun hstep source 0 .result
  refine ⟨(hrun.step hstep).admitted 0, fun source hsome => ?_, fun i hi hhonest => ?_⟩
  · cases source with
    | zero =>
        -- the coordinator sends no results, to itself neither
        have hnone := htaken 0
        rw [← sentTo_filter] at hnone
        have hempty := hnone.trans (sentTo_isPrefix hplan 0 .result)
        rw [sentTo_coordinatorPlan_result] at hempty
        exact absurd (List.prefix_nil.mp hempty) hsome
    | succ i =>
        refine ⟨i, ?_, rfl⟩
        by_contra hout
        -- nor does a rank past the last worker
        have hnone : historyOf ms (i + 1) = [] := hrun.historyOf_eq_nil
          (fun h => hout (Nat.lt_of_succ_le (hrogue _ h).2))
          (by rw [length_start, size]; omega)
        have hless := htaken (i + 1)
        rw [hnone] at hless
        exact hsome (List.prefix_nil.mp hless)
  · refine ⟨_, hworkers i hi hhonest, ?_, htaken (i + 1)⟩
    refine List.IsPrefix.trans ?_ (sentTo_isPrefix (deeds_historyOf_isPrefix ms [m] 0) _ _)
    rw [hrun.sentTo_eq rfl 0 (i + 1) .work]
    exact List.prefix_append _ _

/-- **The contracts hold in every run**: what each rank does guarantees what the others rely on. -/
theorem meets (hrogue : ∀ rank, z.rogue rank → 0 < rank ∧ rank ≤ crew.workers)
    (hrun : Run z (crew.start readings files) ms t) {p : Process Unit}
    (hhonest : ¬z.rogue rank) (hpart : t.parts[rank]? = some p) :
    p.Meets (crew.contract (Honest z) rank) (historyOf ms rank) := by
  refine hrun.meets (fun rank p _ hpart => ?_) ?_ rank p hhonest hpart
  · obtain ⟨hrank, rfl⟩ := part_of_start hpart
    exact meets_part hrank
  · intro ms t m u hrun hstep hholds rank hrank hhonest
    rw [length_start] at hholds hrank
    have hzero : ¬z.rogue 0 := fun h => absurd (hrogue 0 h).1 (Nat.lt_irrefl 0)
    have hplan := (hholds 0 (Nat.succ_pos _) hzero).1
    cases rank with
    | zero =>
        refine rely_coordinator hrogue hrun hstep hplan fun i hi hhonest => ?_
        exact (hholds (i + 1) (Nat.succ_lt_succ hi) hhonest).1
    | succ i => exact rely_worker hrun hstep (Nat.lt_of_succ_lt_succ hrank) hplan

theorem holds (hrogue : ∀ rank, z.rogue rank → 0 < rank ∧ rank ≤ crew.workers)
    (hrun : Run z (crew.start readings files) ms t) (hrank : rank < crew.size)
    (hhonest : ¬z.rogue rank) : (crew.contract (Honest z) rank).holds (historyOf ms rank) := by
  have hlt : rank < t.parts.length := by rwa [hrun.length_parts, length_start]
  exact (meets hrogue hrun hhonest (List.getElem?_eq_getElem hlt)).holds

/-- Only the coordinator publishes. -/
theorem published_worker (hrogue : ∀ rank, z.rogue rank → 0 < rank ∧ rank ≤ crew.workers)
    (hrun : Run z (crew.start readings files) ms t) (hne : rank ≠ 0) :
    (historyOf ms rank).published = [] := by
  by_cases hrank : z.rogue rank
  · exact hrun.published_rogue hrank
  · by_cases hlt : rank < crew.size
    · obtain ⟨i, rfl⟩ := Nat.exists_eq_succ_of_ne_zero hne
      exact (holds hrogue hrun hlt hrank).2
    · rw [hrun.historyOf_eq_nil hrank (by rw [length_start]; omega)]
      rfl

/-- **The results on the host** are those of the coordinator. -/
theorem published_eq (hrogue : ∀ rank, z.rogue rank → 0 < rank ∧ rank ≤ crew.workers)
    (hrun : Run z (crew.start readings files) ms t) :
    t.host.published = (historyOf ms 0).published := by
  simpa [start, Host.initial] using hrun.published fun r hr => published_worker hrogue hrun hr

/-- The results are those of the rounds, with the rows of honest workers right. -/
theorem isResult (hrogue : ∀ rank, z.rogue rank → 0 < rank ∧ rank ≤ crew.workers)
    (hrun : Run z (crew.start readings files) ms t) {r : Nat} {result : RoundResult}
    (hr : t.host.published[r]? = some result) :
    ∃ f, crew.factors[r]? = some f ∧ Coordinator.IsResult f crew.workers (Honest z) result := by
  have hzero : ¬z.rogue 0 := fun h => absurd (hrogue 0 h).1 (Nat.lt_irrefl 0)
  rw [published_eq hrogue hrun] at hr
  exact (holds hrogue hrun (Nat.succ_pos _) hzero).2.1 r result hr

end Crew

end RowBlock
