import RowBlock.Machine
import RowBlock.Proofs.Schedules
import RowBlock.Proofs.Settlement
import RowBlock.Proofs.WorkerRounds

set_option autoImplicit false

/-! # Reporting

A job starts with the part of every rank before it (`Program.start`). The ranks beside zero only send
and receive, so what is printed, written and published is what rank zero puts out; and rank zero puts
nothing out before the job is settled (`Program.rankZero_cases`). So as soon as there is any output,
all rounds were accepted, the check has passed, and the output begins with the whole text of the last
round (`Program.comes_conclude`).
-/

namespace RowBlock

/-! ## The text of a round

Only payloads without rows can cut a report short, and times that are whole numbers. A job reports
matrices and floats. -/

theorem Report.exists_round {a b product : Tensor} (ha : a.rank = 2) (hb : b.rank = 2)
    (hproduct : product.rank = 2) (elapsed : Float) (showMatrices : Bool) :
    ∃ text, round a b product (.real elapsed) showMatrices = (text, none) := by
  have hgrid {t : Tensor} (ht : t.rank = 2) : grid (.tensor t) = .ok (matrix t) := by
    simp [grid, Payload.matrix?, ht]
  have htime : timeLine (.real elapsed)
      = .ok ("Total time elapsed :: " ++ Decimal.fixed 6 elapsed ++ "\n") := rfl
  cases showMatrices with
  | true =>
      simp only [round, roundParts, if_true, hgrid ha, hgrid hb, hgrid hproduct, htime]
      exact ⟨_, rfl⟩
  | false =>
      simp only [round, roundParts, htime]
      exact ⟨_, rfl⟩

/-! ## What workers ask for

A worker receives, sends results and notes what it does. It has no request for files or output in
its code, so this is seen without looking at any run. -/

namespace Worker

open Coordinator

theorem only_receive (w : Worker) : w.receive.Only Receives (· ≠ .wrongProduct) := by
  have hfield {α : Type} (check : Payload → Except TransportError α) :
      (Endpoint.receive coordinator .work >>= fun payload =>
        Process.ofExcept .transport (check payload)).Only Receives (· ≠ .wrongProduct) :=
    only_field coordinator .work check
  unfold receive
  refine (hfield _).bind fun _ => (hfield _).bind fun _ => (hfield _).bind fun _ => ?_
  split
  · trivial
  · exact (hfield _).bind fun _ =>
      (only_note _ _ (by decide) fun _ => .inl).bind fun _ => trivial

theorem only_rounds [Memory] (w : Worker) (n : Nat) :
    (w.rounds n).Only (Communicates .result) (· ≠ .wrongProduct) := by
  have hround : w.round.Only (Communicates .result) (· ≠ .wrongProduct) := by
    refine ((only_receive w).imp (fun _ => .inl) fun _ => id).bind fun work =>
      (Process.only_ofExcept _ fun _ _ => nofun).bind fun block => ?_
    exact (only_send _ _ _).bind fun _ => (only_send _ _ _).bind fun _ => only_send _ _ _
  unfold rounds
  induction n with
  | zero => trivial
  | succ n ih => exact hround.bind fun _ => ih

end Worker

namespace Program

variable {s : Settings Int} {size rank : Nat}

theorem workerOn_succ {kernel : Kernel} (hkernel : s.kernel = .value kernel) (size i : Nat) :
    workerOn s ⟨i + 1, size⟩ = .ok ⟨⟨i + 1, size⟩, kernel, s.skipEmpty⟩ := by
  rw [workerOn, hkernel]
  cases kernel <;> rfl

/-! ## The start

The start of a job differs from its launch in that the log is set up already and failures are not
handled; whatever is printed or written is the same in both. -/

section

variable [Memory]

def start (s : Settings Int) (size : Nat) (readings : List Float) (files : Files)
    (entropy : Nat) : Ensemble :=
  ⟨(List.range size).map (part s size), .initial size readings files entropy⟩

variable {readings : List Float} {files : Files} {entropy : Nat}

theorem length_start : (start s size readings files entropy).parts.length = size := by simp [start]

theorem start_of_lt (hrank : rank < size) :
    (start s size readings files entropy).parts[rank]? = some (part s size rank) := by
  simp [start, hrank]

theorem only_run_bind (hrank : rank ≠ 0) {α : Type} {f : Option RoundResult → Process α} {a : α}
    (hf : f none = .done a) :
    (run s ⟨rank, size⟩ >>= f).Only (Coordinator.Communicates .result) fun _ => True := by
  have hworker : (⟨rank, size⟩ : Endpoint).isCoordinator = false := by
    simpa [Endpoint.isCoordinator, coordinatorRank] using hrank
  simp only [run, work, hworker, Bool.false_eq_true, if_false, Process.bind_assoc]
  refine (Process.only_ofExcept _ fun _ _ => trivial).bind fun _ => ?_
  refine (Process.only_ofExcept _ fun _ _ => trivial).bind fun w => ?_
  refine ((Worker.only_rounds w _).imp (fun _ => id) fun _ _ => trivial).bind fun _ => ?_
  show (f none).Only _ _
  rw [hf]
  trivial

/-- **A rank beside zero** only sends results and receives. -/
theorem only_run (hrank : rank ≠ 0) :
    (run s ⟨rank, size⟩).Only (Coordinator.Communicates .result) fun _ => True := by
  rw [← Process.bind_done (run s ⟨rank, size⟩)]
  exact only_run_bind hrank rfl

theorem only_part (hrank : rank ≠ 0) :
    (part s size rank).Only (Coordinator.Communicates .result) fun _ => True := by
  unfold part
  exact only_run_bind hrank rfl

/-! ## Rank zero

Outputs come from rank zero, and rank zero puts something out only behind the check. So either the
history of rank zero shows no output, and then there is none at all, or it can be cut at the point
where the job is settled. -/

variable {z : Hazards} {t : Ensemble} {ms : List Move}

theorem isOutput_of_rank (hrun : Run z (start s size readings files entropy) ms t) (hrank : rank ≠ 0)
    (hhonest : ¬z.rogue rank) : ∀ e ∈ historyOf ms rank, e.request.isOutput = false := by
  by_cases hlt : rank < size
  · obtain ⟨q, -, hpath⟩ := hrun.comes hhonest (start_of_lt hlt)
    exact fun e he => isOutput_of_communicates (((only_part hrank).comes hpath).1 e he)
  · rw [hrun.historyOf_eq_nil hhonest (by rw [length_start]; omega)]
    exact fun e he => absurd he List.not_mem_nil

theorem isWrite_of_rank (hrun : Run z (start s size readings files entropy) ms t)
    (hwrites : ∀ rank, z.rogue rank → ∀ e ∈ historyOf ms rank, e.request.isWrite = false)
    (hrank : rank ≠ 0) : ∀ e ∈ historyOf ms rank, e.request.isWrite = false := by
  by_cases hrogue : z.rogue rank
  · exact hwrites rank hrogue
  · exact fun e he => Request.isWrite_of_isOutput (isOutput_of_rank hrun hrank hrogue e he)

theorem output_eq (hrun : Run z (start s size readings files entropy) ms t) (hsize : 0 < size) :
    (t.host.console 0).output = (historyOf ms 0).printed := by
  have hconsole : (start s size readings files entropy).host.console 0 = .empty := by
    simp [start, Host.initial, Host.console, hsize]
  have hlength : 0 < (start s size readings files entropy).host.consoles.length := by
    simpa [start, Host.initial] using hsize
  rw [(hrun.output hlength).2, hconsole, Console.empty, String.empty_append]

/-- **As long as rank zero puts nothing out**, there is no output, and the files are those at the
start. -/
theorem silent (hrun : Run z (start s size readings files entropy) ms t) (hsize : 0 < size)
    (hwrites : ∀ rank, z.rogue rank → ∀ e ∈ historyOf ms rank, e.request.isWrite = false)
    (hnone : ∀ e ∈ historyOf ms 0, e.request.isOutput = false) :
    (t.host.console 0).output = "" ∧ t.host.files = files := by
  constructor
  · rw [output_eq hrun hsize]
    exact History.printed_of_isOutput hnone
  · refine (hrun.files fun rank => ?_).1
    by_cases hrank : rank = 0
    · subst hrank
      exact fun e he => Request.isWrite_of_isOutput (hnone e he)
    · exact isWrite_of_rank hrun hwrites hrank

/-- **Rounds that rank zero has completed** in a run are complete, with the operands of the files at
the start. -/
theorem completed_of_comes (hrun : Run z (start s size readings files entropy) ms t)
    (hwrites : ∀ rank, z.rogue rank → ∀ e ∈ historyOf ms rank, e.request.isWrite = false)
    {g k : History} {a b : Tensor} {results : List RoundResult} (hsplit : historyOf ms 0 = g ++ k)
    (hcomplete : (complete s ⟨0, size⟩).Comes g (.done (a, b, results))) :
    ∃ f : Factors, a = f.a ∧ b = f.b ∧ Completed s size files entropy g f results := by
  have hadmitted := hrun.admitted 0
  rw [hsplit, History.admitted_append] at hadmitted
  refine comes_complete_done hcomplete hadmitted.1 fun reads rest hg hread => ?_
  refine hrun.readsOf (fun r hr => isWrite_of_rank hrun hwrites hr)
    (by rw [hsplit, hg, List.append_assoc]) ?_
  exact fun e he => Request.isWrite_of_isOutput (Request.isOutput_of_isRead (hread e he))

/-- **What rank zero has done**: nothing that can be seen, or it has settled the job and concludes
it. -/
theorem rankZero_cases (hrun : Run z (start s size readings files entropy) ms t) (hsize : 0 < size)
    (hzero : ¬z.rogue 0)
    (hwrites : ∀ rank, z.rogue rank → ∀ e ∈ historyOf ms rank, e.request.isWrite = false) :
    (∀ e ∈ historyOf ms 0, e.request.isOutput = false) ∨
      ∃ g k f results last q, historyOf ms 0 = g ++ k ∧
        (∀ e ∈ g, e.request.isOutput = false) ∧ Completed s size files entropy g f results ∧
        results.getLast? = some last ∧
        (s.verify = true → ∃ expected, Kernel.matmul f.a f.b = .ok expected ∧
          last.product.agrees expected = true) ∧
        (conclude s ⟨0, size⟩ (some ⟨f.a, f.b, results, last⟩)).Comes k q := by
  obtain ⟨q, -, hpath⟩ := hrun.comes hzero (start_of_lt hsize)
  rw [part_zero] at hpath
  rcases hpath.of_bind with ⟨p, hsettle, -⟩ | ⟨x, g, k, hsplit, hsettle, hconclude⟩
  · exact .inl ((only_settle s _).comes hsettle).1
  · have hquiet := ((only_settle s _).comes hsettle).1
    cases x with
    | none =>
        obtain ⟨rfl, -⟩ := Process.comes_done_iff.mp hconclude
        rw [hsplit, List.append_nil]
        exact .inl hquiet
    | some x =>
        obtain ⟨hcomplete, hlast, hverified⟩ := comes_settle_done hsettle
        obtain ⟨f, ha, hb, hcompleted⟩ := completed_of_comes hrun hwrites hsplit hcomplete
        rcases x with ⟨a, b, results, last⟩
        dsimp only at ha hb
        subst ha hb
        exact .inr ⟨g, k, f, results, last, q, hsplit, hquiet, hcompleted, hlast, hverified,
          hconclude⟩

/-- **A job on a schedule** is a run of it, and so it is if ranks beside zero are rogue that act as
honest ones. None of them puts anything out. -/
theorem exists_run (s : Settings Int) (size : Nat) (readings : List Float) (files : Files)
    (entropy : Nat)
    (order : List Nat) (receives : Nat) (rogue : Nat → Prop) (hzero : ¬rogue 0) :
    ∃ ms t, Run ⟨True, rogue⟩ (start s size readings files entropy) ms t ∧
      t.host = (Schedule.run ((List.range size).map (part s size)) order receives
        (.initial size readings files entropy)).2 ∧
      ∀ rank, rogue rank → ∀ e ∈ historyOf ms rank, e.request.isOutput = false := by
  obtain ⟨ms, u, hrun, hhost, -⟩ := Schedule.exists_run (z := .none) (fun _ h => h)
    ((List.range size).map (part s size)) order receives
    (show (Host.initial size readings files entropy).network.faults = [] from rfl)
  have hsilent (rank : Nat) (hrogue : rogue rank) :
      ∀ e ∈ historyOf ms rank, e.request.isOutput = false := by
    refine isOutput_of_rank hrun (fun hrank => hzero ?_) fun h => h
    rwa [← hrank]
  obtain ⟨parts, hrogues, -⟩ := hrun.rogue (z := ⟨True, rogue⟩) fun rank hrogue =>
    History.published_of_isOutput (hsilent rank hrogue)
  exact ⟨ms, _, hrogues, hhost, hsilent⟩

/-! ## The report

Of the outputs the text of the round comes first and is printed in one piece, which is why its whole
text is there as soon as anything is. -/

omit [Memory] in
/-- **The report of matrices** is one text. -/
theorem reportRound_eq {a b : Tensor} {result : RoundResult} (ha : a.rank = 2) (hb : b.rank = 2)
    (hproduct : result.product.rank = 2) :
    ∃ text, Report.round a b result.product (.real result.elapsed) (!s.quiet) = (text, none) ∧
      reportRound s a b result = say text := by
  obtain ⟨text, htext⟩ := Report.exists_round ha hb hproduct result.elapsed (!s.quiet)
  refine ⟨text, htext, ?_⟩
  simp only [reportRound, htext]
  exact Process.bind_done _

omit [Memory] in
/-- **A path that concludes a job** puts out the whole text of the last round before anything else. -/
theorem comes_conclude {e : Endpoint} {x : Settlement} {k : History} {q : Process Unit}
    (ha : x.a.rank = 2) (hb : x.b.rank = 2) (hproduct : x.last.product.rank = 2)
    (hpath : (conclude s e (some x)).Comes k q) :
    ∃ text, Report.round x.a x.b x.last.product (.real x.last.elapsed) (!s.quiet) = (text, none) ∧
      (k = [] ∨ ∃ rest, k = ⟨.print .output text, ()⟩ :: rest) := by
  obtain ⟨text, htext, hround⟩ := reportRound_eq (s := s) ha hb hproduct
  refine ⟨text, htext, ?_⟩
  obtain ⟨next, hfirst⟩ : ∃ next, conclude s e (some x) = .ask (.print .output text) next := by
    simp only [conclude, report, hround]
    exact ⟨_, rfl⟩
  rw [hfirst] at hpath
  cases hpath with
  | refl => exact .inl rfl
  | answered _ => exact .inr ⟨_, rfl⟩

/-- **Nothing is reported before a job is settled**, whatever the other ranks send, and whatever faults
come and go: when rank zero has printed anything, or any file has changed, all rounds were accepted,
the product has passed the check, and the output begins with the whole text of the last round. A job
that fails before that leaves no output, and the files as they were. Rogue ranks only have to keep off
the files. -/
theorem settled_before_output (hrun : Run z (start s size readings files entropy) ms t) (hsize : 0 < size)
    (hzero : ¬z.rogue 0)
    (hwrites : ∀ rank, z.rogue rank → ∀ e ∈ historyOf ms rank, e.request.isWrite = false) :
    ((t.host.console 0).output ≠ "" ∨ t.host.files ≠ files →
      ∃ g k f results last text rest, historyOf ms 0 = g ++ k ∧
        Completed s size files entropy g f results ∧ results.getLast? = some last ∧
        (s.verify = true → ∃ expected, Kernel.matmul f.a f.b = .ok expected ∧
          last.product.agrees expected = true) ∧
        Report.round f.a f.b last.product (.real last.elapsed) (!s.quiet) = (text, none) ∧
        (t.host.console 0).output = text ++ rest) ∧
    ∀ e, (settle s ⟨0, size⟩).Comes (historyOf ms 0) (.failed e) →
      (t.host.console 0).output = "" ∧ t.host.files = files := by
  constructor
  · intro hseen
    have hloud : ¬∀ e ∈ historyOf ms 0, e.request.isOutput = false := by
      intro hnone
      obtain ⟨houtput, hfiles⟩ := silent hrun hsize hwrites hnone
      exact hseen.elim (· houtput) (· hfiles)
    rcases rankZero_cases hrun hsize hzero hwrites with hnone |
      ⟨g, k, f, results, last, q, hsplit, hquiet, hcompleted, hlast, hverified, hconclude⟩
    · exact absurd hnone hloud
    · obtain ⟨-, hs, -, -, hall⟩ := hcompleted.rounds
      obtain ⟨h, -, haccepted⟩ := exists_last_accepted hall hlast
      obtain ⟨text, htext, rfl | ⟨rest, rfl⟩⟩ :=
        comes_conclude f.left.rank_eq f.right.rank_eq haccepted.matrix.rank_eq hconclude
      · rw [hsplit, List.append_nil] at hloud
        exact absurd hquiet hloud
      · refine ⟨g, _, f, results, last, text, History.printed rest, hsplit, hcompleted, hlast,
          hverified, htext, ?_⟩
        rw [output_eq hrun hsize, hsplit, History.printed_append,
          History.printed_of_isOutput hquiet, String.empty_append]
        rfl
  · exact fun e hfailed => silent hrun hsize hwrites ((only_settle s _).comes hfailed).1

end

/-- A job with a check whose product has the cells `46341 * 46341`, which overflow, and is written to a
file. -/
def overflowing : Settings Int :=
  { Settings.initial with
    rows := 2, inner := 1, rounds := 1
    type := .value .int32, fill := .value .random, low := .value 46341, high := .value 46341
    verify := true, output := some (.value "c.csv") }

/-- The overflowing job may write its file while its last rank is rogue, and the output begins with a
report then. With an operand in a file that is missing the job fails without any output. -/
theorem settled_before_output_overflowing :
    (∃ (ms : List Move) (t : Ensemble) (f : Factors) (result : RoundResult) (text rest : String),
      Run ⟨True, (· = 2)⟩ (start overflowing 3 [0.0, 1.0] ⟨[]⟩ 0) ms t ∧ t.host.files ≠ ⟨[]⟩ ∧
        operandsOf overflowing ⟨[]⟩ 0 = .done (f.a, f.b) ∧
        Report.round f.a f.b result.product (.real result.elapsed) true = (text, none) ∧
        (t.host.console 0).output = text ++ rest) ∧
    ∃ ms t, Run .none (start { overflowing with matrixA := some (.value "a.csv") } 2 [] ⟨[]⟩ 0) ms t ∧
      t.parts[0]? = some (.failed (.file (.missing "a.csv"))) ∧
      (t.host.console 0).output = "" ∧ t.host.files = ⟨[]⟩ := by
  constructor
  · obtain ⟨ms, t, hrun, hhost, hsilent⟩ :=
      exists_run overflowing 3 [0.0, 1.0] ⟨[]⟩ 0 [0, 1, 2] 20 (· = 2) (by decide)
    have hfiles : t.host.files ≠ ⟨[]⟩ := by
      have hlength : t.host.files.entries.length = 1 := by
        rw [hhost]
        decide +kernel
      intro hnone
      rw [hnone] at hlength
      cases hlength
    obtain ⟨_, _, f, _, last, text, rest, -, hcompleted, -, -, htext, houtput⟩ :=
      (settled_before_output hrun (by decide) (by decide) fun rank hrogue e he =>
        Request.isWrite_of_isOutput (hsilent rank hrogue e he)).1 (.inr hfiles)
    exact ⟨ms, t, f, last, text, rest, hrun, hfiles, hcompleted.operands, htext, houtput⟩
  · have hstep : Step .none (start { overflowing with matrixA := some (.value "a.csv") } 2 [] ⟨[]⟩ 0)
        (.act 0 ⟨.read "a.csv", .error (.missing "a.csv")⟩) _ := .act (fun h => h) rfl rfl
    have hrun := Run.refl.step hstep
    exact ⟨_, _, hrun, rfl, (settled_before_output hrun (by decide) (fun h => h)
      fun _ hrogue => hrogue.elim).2 (.file (.missing "a.csv")) (.answered (.refl _))⟩

end Program

end RowBlock
