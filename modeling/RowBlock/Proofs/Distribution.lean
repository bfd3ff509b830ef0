import RowBlock.Proofs.JobEnds
import RowBlock.Proofs.WrittenFiles

set_option autoImplicit false

/-! # The distribution of the work is not seen

A job shows what its operands, its settings and its clock determine, however its work is dealt out. With
the product as its result rank zero has nothing to do but its report (`Program.finish_eq`), and without
statistics and a chart that is some lines, and the file of the product (`report_plain`). The lines are
those of the product and the times (`reportLines_congr`), and a process that only prints has one path to
its end (`Process.Only.eq_of_ended`). So two jobs with the same operands show the same (`shown_eq`), with any
number of workers, any kernels, any orders, and in any order of the steps (`distribution_unseen`).
-/

namespace RowBlock

/-- **Plain settings** name no file for the statistics, and none for the chart. -/
structure Settings.IsPlain (s : Settings Int) : Prop where
  stats : Setting.file? s.stats = none
  plot : Setting.file? s.plot = none

namespace Process

variable {α : Type}

/-- A request that prints to the output or notes something. -/
def Says (r : Request) : Prop := Coordinator.IsNote r ∨ ∃ text, r = .print .output text

/-- **A process that only prints** has one path to its end. -/
theorem Only.eq_of_ended {E : Error → Prop} {p q q' : Process α} {h h' : History}
    (hp : p.Only Says E) (hpath : p.Comes h q) (hpath' : p.Comes h' q') (hend : q.Ended)
    (hend' : q'.Ended) : h = h' ∧ q = q' := by
  induction hpath generalizing h' with
  | refl p =>
      cases hpath' with
      | refl => exact ⟨rfl, rfl⟩
      | answered _ => exact absurd rfl (hend _ _)
  | @answered r next answer h q hnext ih =>
      obtain ⟨hr, hlater⟩ := hp
      cases hpath' with
      | refl => exact absurd rfl (hend' _ _)
      | @answered _ _ answer' h' _ hnext' =>
          -- there is but one answer to a print or a note
          have hanswer : answer = answer' := by
            rcases hr with ⟨entry, rfl, -⟩ | ⟨text, rfl⟩ <;> rfl
          subst hanswer
          obtain ⟨rfl, rfl⟩ := ih (hlater _) hnext' hend
          exact ⟨rfl, rfl⟩

end Process

namespace Program

open Coordinator

variable {args args' : List String} {s s' : Settings Int} {size size' : Nat} {readings : List Float}
  {files files' : Files} {entropy entropy' : Nat} {ms ms' : List Move} {t t' : Ensemble}
  {f : Factors} {e : Endpoint} {results results' : List RoundResult} {last last' : RoundResult}

/-! ## The report

The report of a plain job is lines that are printed, then one file. The lines depend on the factors,
the product and the times; neither the assignments nor the settings of the distribution occur in
them. -/

/-- **With the product as its last result** rank zero has its report to do. -/
theorem finish_eq [Memory] (hroom : f.HasRoom) (hlast : results.getLast? = some last)
    (hproduct : last.product = f.product) : finish s e (f.a, f.b, results)
      = report s e f.a f.b results last >>= fun _ => .done (some last) := by
  have hroom' : Tensor.room (.int f.type) [(f.rows : Int), (f.cols : Int)] = .ok [f.rows, f.cols] :=
    hroom
  have hmatmul : ∃ expected, Kernel.matmul f.a f.b = .ok expected := by
    rw [Kernel.matmul_eq (Kernel.promote_self f.type) f.left f.right, hroom']
    exact ⟨_, rfl⟩
  obtain ⟨expected, hexpected⟩ := hmatmul
  have hverify : verify f.a f.b last.product = .done () := by
    rw [verify, hexpected, Process.ofExcept, Process.done_bind, hproduct,
      Factors.eq_product_of_matmul hexpected, Tensor.agrees_self]
    rfl
  simp only [finish, hlast]
  cases s.verify with
  | false => rfl
  | true =>
      rw [if_pos rfl, hverify]
      rfl

def reportLines (s : Settings Int) (a b : Tensor) (times : List Float) (last : RoundResult) :
    Process Unit :=
  reportRound s a b last >>= fun _ =>
    (if s.verify then say verifiedLine else Process.done ()) >>= fun _ =>
      if 1 < s.rounds then reportTimes (times.map .real) else Process.done ()

def saveProduct (s : Settings Int) (product : Tensor) : Process Unit :=
  withFile s.output fun path => do
    saveText path (← Process.ofExcept .table (Csv.write product))

/-- **A plain report** is its lines and the file of the product. -/
theorem report_plain (hplain : s.IsPlain) (a b : Tensor) : report s e a b results last
    = reportLines s a b (results.map RoundResult.elapsed) last >>= fun _ =>
        saveProduct s last.product := by
  have hstats (act : String → Process Unit) : withFile s.stats act = .done () := by
    rw [withFile, hplain.stats]
    rfl
  have hplot (act : String → Process Unit) : withFile s.plot act = .done () := by
    rw [withFile, hplain.plot]
    rfl
  have hsave : saveAll s e a (results.map fun r => .real r.elapsed) last
      = saveProduct s last.product := by
    rw [saveAll, hstats, hplot]
    exact Process.bind_done _
  have htimes : (results.map RoundResult.elapsed).map Decimal.Number.real
      = results.map fun r => .real r.elapsed := List.map_map
  rw [report_eq, hsave, reportLines, htimes, Process.bind_assoc]
  simp only [Process.bind_assoc]

/-- **The lines of a report** are those of the product and the times. -/
theorem reportLines_congr (hrounds : s.rounds = s'.rounds) (hquiet : s.quiet = s'.quiet)
    (hverify : s.verify = s'.verify) (hproduct : last.product = last'.product)
    (helapsed : last.elapsed = last'.elapsed) (a b : Tensor) (times : List Float) :
    reportLines s a b times last = reportLines s' a b times last' := by
  simp only [reportLines, reportRound, hrounds, hquiet, hverify, hproduct, helapsed]

theorem says_text {E : Error → Prop} (text : String) : (say text).Only Process.Says E :=
  Process.only_request (.inr ⟨text, rfl⟩)

/-- **The lines of a report** are printed, and fail as the report of the round and the statistics do. -/
theorem only_reportLines {E : Error → Prop} {a b : Tensor} {times : List Float}
    (hround : (reportRound s a b last).Only Process.Says E)
    (htimes : 1 < s.rounds → (reportTimes (times.map .real)).Only Process.Says E) :
    (reportLines s a b times last).Only Process.Says E := by
  unfold reportLines
  refine hround.bind fun _ => Process.Only.bind ?_ fun _ => ?_
  · split
    · exact says_text _
    · trivial
  · split
    · exact htimes ‹_›
    · trivial

theorem says_reportLines (a b : Tensor) (times : List Float) :
    (reportLines s a b times last).Only Process.Says fun _ => True := by
  refine only_reportLines ?_ fun _ => ?_
  · unfold reportRound
    refine (says_text _).bind fun _ => ?_
    split <;> trivial
  · unfold reportTimes
    refine (Process.only_ofExcept _ fun _ _ => trivial).bind fun _ => ?_
    exact (Process.only_ofExcept _ fun _ _ => trivial).bind fun _ => says_text _

theorem written_of_says {k : History} (hk : ∀ e ∈ k, Process.Says e.request) : k.written = [] := by
  refine History.written_eq_nil fun e he => ?_
  rcases hk e he with ⟨entry, hr, -⟩ | ⟨text, hr⟩ <;>
  · rw [hr]
    rfl

def writtenOf (s : Settings Int) (product : Tensor) : List (String × Content) :=
  match Setting.file? s.output, Csv.write product with
  | some path, .ok text => [(path, .bytes (Text.Utf8.encode text))]
  | _, _ => []

/-- **Saving the product** writes it, and prints nothing. -/
theorem comes_saveProduct {product : Tensor} {k : History} {q : Process Unit}
    (hpath : (saveProduct s product).Comes k q) (hend : q.Ended) :
    k.written = writtenOf s product ∧ k.printed = "" := by
  unfold saveProduct withFile at hpath
  unfold writtenOf
  cases hfile : Setting.file? s.output with
  | none =>
      rw [hfile] at hpath
      obtain ⟨rfl, -⟩ := Process.comes_done_iff.mp hpath
      exact ⟨rfl, rfl⟩
  | some path =>
      rw [hfile] at hpath
      cases htext : Csv.write product with
      | error x =>
          rw [htext] at hpath
          obtain ⟨rfl, -⟩ := Process.comes_failed_iff.mp hpath
          exact ⟨rfl, rfl⟩
      | ok text =>
          rw [htext] at hpath
          cases hpath with
          | refl => exact absurd rfl (hend _ _)
          | @answered _ _ answer h _ hnext =>
              have hrest : h = [] := by
                cases answer with
                | ok u => exact (Process.comes_done_iff.mp hnext).1
                | error x => exact (Process.comes_failed_iff.mp hnext).1
              subst hrest
              exact ⟨rfl, rfl⟩

theorem comes_saved {product : Tensor} {k : History} {p : Process (Option RoundResult)}
    (hpath : (saveProduct s product >>= fun _ => .done (some last)).Comes k p) (hend : p.Ended) :
    k.written = writtenOf s product ∧ k.printed = "" := by
  rcases hpath.bind_cases with ⟨x, hfailed, -⟩ | ⟨r, next, -, hask⟩ | ⟨u, m, n, rfl, hdone, hn⟩
  · exact comes_saveProduct hfailed nofun
  · exact absurd hask (hend _ _)
  · obtain ⟨rfl, -⟩ := Process.comes_done_iff.mp hn
    rw [List.append_nil]
    exact comes_saveProduct hdone nofun

/-! ## What a job shows

Both jobs complete their rounds with the same product, since the product is a function of the
factors, and with the same times, since the clock of rank zero is read twice in each round and by
nobody else. What follows is one process in both, and its answers do not depend on the host. -/

section

variable [Memory]

/-- The output of rank zero is what it has printed. -/
theorem output_of_launch {z : Hazards} (hrun : Run z (launch args size readings files entropy) ms t)
    (hsize : 0 < size) : (t.host.console 0).output = (historyOf ms 0).printed := by
  have hconsole : (launch args size readings files entropy).host.console 0 = .empty := by
    simp [launch, Host.initial, Host.console, hsize]
  have hlength : 0 < (launch args size readings files entropy).host.consoles.length := by
    simpa [launch, Host.initial] using hsize
  rw [(hrun.output hlength).2, hconsole, Console.empty, String.empty_append]

/-- The files at the end are those at the launch with what rank zero has written. -/
theorem files_of_launch {z : Hazards} (hargs : Options.parse args = .ok s)
    (hrun : Run z (launch args size readings files entropy) ms t) (hhonest : ∀ rank, ¬z.rogue rank) :
    t.host.files = files.after (historyOf ms 0) :=
  hrun.files_written fun rank => isWrite_of_launch hargs hrun (hhonest rank)

theorem silent_of_complete {g : History} {q : Process (Tensor × Tensor × List RoundResult)}
    (hpath : (complete s e).Comes g q) : g.printed = "" ∧ g.written = [] := by
  have hnone : ∀ e ∈ g, e.request.isOutput = false := by
    intro e he
    rcases ((only_complete s _).comes hpath).1 e he with hread | hkeeps
    · exact Request.isOutput_of_isRead hread
    · exact isOutput_of_keeps hkeeps
  exact ⟨History.printed_of_isOutput hnone,
    History.written_eq_nil fun e he => Request.isWrite_of_isOutput (hnone e he)⟩

/-- **What a job shows** when nothing goes wrong: nothing, if there is no room for the product, or the
lines of the product and the times, as far as they come, and then the file of the product. -/
theorem shown_of_final (hargs : Options.parse args = .ok s) (hready : s.IsReady) (hplain : s.IsPlain)
    (hsize : 2 ≤ size) (hoperands : operandsOf s files entropy = .done (f.a, f.b))
    (hrun : Run .none (launch args size readings files entropy) ms t) (hfinal : t.IsFinal) :
    (¬f.HasRoom ∧ (historyOf ms 0).printed = "" ∧ (historyOf ms 0).written = []) ∨
      (f.HasRoom ∧ ∃ (last : RoundResult) (k : History) (p : Process Unit),
        last.product = f.product ∧ (spans ((Clock.ofReadings readings).times
          (2 * s.rounds.toNat))).getLast? = some last.elapsed ∧
        (reportLines s f.a f.b (spans ((Clock.ofReadings readings).times (2 * s.rounds.toNat)))
          last).Comes k p ∧ p.Ended ∧ (historyOf ms 0).printed = k.printed ∧
        (p = .done () → (historyOf ms 0).written = writtenOf s f.product) ∧
        ((∃ x, p = .failed x) → (historyOf ms 0).written = [])) := by
  rcases zero_of_final hargs hready hsize hoperands hrun hfinal with
    ⟨x, hfull, hfailed⟩ | ⟨hroom, g, k, results, p, hsplit, hcomplete, hlength, hproducts, htimes,
      hfinish, hend⟩
  · refine .inl ⟨fun hroom => ?_, silent_of_complete hfailed⟩
    exact absurd (hfull.symm.trans hroom) (by simp)
  · obtain ⟨-, -, hrounds⟩ := Options.bounds_of_parse hargs
    obtain ⟨last, hlast⟩ : ∃ last, results.getLast? = some last := by
      cases hresults : results.getLast? with
      | some last => exact ⟨last, rfl⟩
      | none =>
          rw [List.getLast?_eq_none_iff.mp hresults, List.length_nil] at hlength
          omega
    have hproduct := hproducts last (List.mem_of_getLast? hlast)
    obtain ⟨hprinted, hwritten⟩ := silent_of_complete hcomplete
    rw [finish_eq hroom hlast hproduct, report_plain hplain, htimes, hproduct,
      Process.bind_assoc] at hfinish
    rw [hsplit, History.printed_append, History.written_append, hprinted, hwritten,
      String.empty_append, List.nil_append]
    have helapsed : (spans ((Clock.ofReadings readings).times (2 * s.rounds.toNat))).getLast?
        = some last.elapsed := by
      rw [← htimes, List.getLast?_map, hlast]
      rfl
    rcases hfinish.bind_cases with ⟨x, hlines, -⟩ | ⟨r, next, -, hask⟩ | ⟨_, l, k', rfl, hlines, hsaved⟩
    · -- the lines have failed, so nothing is written
      refine .inr ⟨hroom, last, k, .failed x, hproduct, helapsed, hlines, nofun, rfl, nofun, fun _ => ?_⟩
      exact written_of_says ((says_reportLines _ _ _).comes hlines).1
    · exact absurd hask (hend _ _)
    · have hsilent := written_of_says ((says_reportLines _ _ _).comes hlines).1
      obtain ⟨hfile, hnothing⟩ := comes_saved hsaved hend
      refine .inr ⟨hroom, last, l, .done (), hproduct, helapsed, hlines, nofun, ?_, fun _ => ?_,
        fun ⟨x, hx⟩ => nomatch hx⟩
      · rw [History.printed_append, hnothing, String.append_empty]
      · rw [History.written_append, hsilent, List.nil_append, hfile]

/-- Rank zero does not wait for a message in the end. -/
theorem not_waits_of_final (hargs : Options.parse args = .ok s) (hready : s.IsReady)
    (hoperands : operandsOf s files entropy = .done (f.a, f.b))
    (hrun : Run .none (launch args size readings files entropy) ms t) (hfinal : t.IsFinal)
    (source : Source) (channel : Channel) (next : Except Refusal (Nat × Payload) → Process Unit) :
    t.parts[0]? ≠ some (.ask (.receive source channel) next) := by
  intro hpart
  obtain ⟨next', hpath⟩ := asks_of_part hargs hrun id hpart rfl
  rcases hfinal.cases hpart with hdone | ⟨x, hfailed⟩ | ⟨r, n, hask, hr⟩
  · cases hdone
  · cases hfailed
  · cases hask
    rcases hr with hr | ⟨_, _, hask, hnone⟩
    · cases hr
    · cases hask
      exact not_waiting_zero hargs hready.kernel_ne hrun hfinal hready (suits_of_operands hoperands)
        hnone hpath

/-- Two jobs with the same factors, rounds, clock and wishes print and write the same. -/
theorem shown_eq (hargs : Options.parse args = .ok s) (hargs' : Options.parse args' = .ok s')
    (hready : s.IsReady) (hready' : s'.IsReady) (hplain : s.IsPlain) (hplain' : s'.IsPlain)
    (hsize : 2 ≤ size) (hsize' : 2 ≤ size') (hoperands : operandsOf s files entropy = .done (f.a, f.b))
    (hoperands' : operandsOf s' files' entropy' = .done (f.a, f.b)) (hrounds : s.rounds = s'.rounds)
    (hquiet : s.quiet = s'.quiet) (hverify : s.verify = s'.verify) (houtput : s.output = s'.output)
    (hrun : Run .none (launch args size readings files entropy) ms t) (hfinal : t.IsFinal)
    (hrun' : Run .none (launch args' size' readings files' entropy') ms' t') (hfinal' : t'.IsFinal) :
    (historyOf ms 0).printed = (historyOf ms' 0).printed ∧
      (historyOf ms 0).written = (historyOf ms' 0).written := by
  rcases shown_of_final hargs hready hplain hsize hoperands hrun hfinal with
    ⟨hfull, hprinted, hwritten⟩ | ⟨hroom, last, k, p, hproduct, helapsed, hlines, hend, hprinted,
      hdone, hfailed⟩
  · rcases shown_of_final hargs' hready' hplain' hsize' hoperands' hrun' hfinal' with
      ⟨-, hprinted', hwritten'⟩ | ⟨hroom, -⟩
    · rw [hprinted, hprinted', hwritten, hwritten']
      exact ⟨rfl, rfl⟩
    · exact absurd hroom hfull
  · rcases shown_of_final hargs' hready' hplain' hsize' hoperands' hrun' hfinal' with
      ⟨hfull, -⟩ | ⟨-, last', k', p', hproduct', helapsed', hlines', hend', hprinted', hdone',
        hfailed'⟩
    · exact absurd hroom hfull
    -- both have taken the one path to the end of the same lines
    rw [← hrounds] at helapsed' hlines'
    have htime : last.elapsed = last'.elapsed := Option.some.inj (helapsed.symm.trans helapsed')
    rw [← reportLines_congr hrounds hquiet hverify (hproduct.trans hproduct'.symm) htime] at hlines'
    obtain ⟨rfl, rfl⟩ := (says_reportLines _ _ _).eq_of_ended hlines hlines' hend hend'
    refine ⟨hprinted.trans hprinted'.symm, ?_⟩
    cases p with
    | done u =>
        have hsame : writtenOf s f.product = writtenOf s' f.product := by
          rw [writtenOf, writtenOf, houtput]
        rw [hdone rfl, hdone' rfl, hsame]
    | failed x => rw [hfailed ⟨x, rfl⟩, hfailed' ⟨x, rfl⟩]
    | ask r next => exact absurd rfl (hend r next)

/-- **What is shown does not depend on how the work is distributed.** Two jobs in which nothing goes
wrong have the same operands, the same number of rounds, the same clock, and the same wishes for the
matrices, the check and the file of the product. Then, whatever their numbers of ranks, their kernels,
their orders, what they leave out and the orders of their steps are, once no step is left rank zero has
come to its end in both, it has printed the same text, and it has written the same contents to the same
paths, which is all that has become of the files. -/
theorem distribution_unseen {a b : Tensor} (hargs : Options.parse args = .ok s)
    (hargs' : Options.parse args' = .ok s') (hready : s.IsReady) (hready' : s'.IsReady)
    (hplain : s.IsPlain) (hplain' : s'.IsPlain) (hsize : 2 ≤ size) (hsize' : 2 ≤ size')
    (hoperands : operandsOf s files entropy = .done (a, b))
    (hoperands' : operandsOf s' files' entropy' = .done (a, b))
    (hrounds : s.rounds = s'.rounds) (hquiet : s.quiet = s'.quiet) (hverify : s.verify = s'.verify)
    (houtput : s.output = s'.output)
    (hrun : Run .none (launch args size readings files entropy) ms t) (hfinal : t.IsFinal)
    (hrun' : Run .none (launch args' size' readings files' entropy') ms' t') (hfinal' : t'.IsFinal) :
    (∀ source channel next, t.parts[0]? ≠ some (.ask (.receive source channel) next) ∧
        t'.parts[0]? ≠ some (.ask (.receive source channel) next)) ∧
      (t.host.console 0).output = (t'.host.console 0).output ∧
      (historyOf ms 0).written = (historyOf ms' 0).written ∧
      t.host.files = files.after (historyOf ms 0) ∧
      t'.host.files = files'.after (historyOf ms' 0) := by
  obtain ⟨f, hsuits⟩ := exists_suits s files entropy
  obtain ⟨rfl, rfl⟩ := hsuits a b hoperands
  obtain ⟨hprinted, hwritten⟩ := shown_eq hargs hargs' hready hready' hplain hplain' hsize hsize'
    hoperands hoperands' hrounds hquiet hverify houtput hrun hfinal hrun' hfinal'
  refine ⟨fun source channel next => ⟨?_, ?_⟩, ?_, hwritten, ?_, ?_⟩
  · exact not_waits_of_final hargs hready hoperands hrun hfinal source channel next
  · exact not_waits_of_final hargs' hready' hoperands' hrun' hfinal' source channel next
  · rw [output_of_launch hrun (by omega), output_of_launch hrun' (by omega), hprinted]
  · exact files_of_launch hargs hrun fun _ => id
  · exact files_of_launch hargs' hrun' fun _ => id

end

def narrow : Settings Int :=
  { Settings.initial with
    rows := 1, inner := 2, rounds := 2
    fill := .value .random, low := .value 3, high := .value 3, output := some (.value "c.csv") }

def narrowArgs : List String :=
  ["-n1", "-m2", "--fill=random", "--low=3", "--high=3", "--rounds=2", "--output=c.csv"]

def narrowElsewhere : Settings Int :=
  { narrow with kernel := .value .whole, order := .value .arrival, skipEmpty := true }

def narrowElsewhereArgs : List String :=
  narrowArgs ++ ["--kernel=numpy", "--gather-order=arrival", "--skip-empty"]

/-- The narrow job shows the same with one worker and with three, two of them idle, and leaves the same
files. -/
theorem distribution_unseen_narrow :
    ∃ ms t ms' t', Run .none (launch narrowArgs 2 [0.0, 1.0] ⟨[]⟩ 0) ms t ∧ t.IsFinal ∧
      Run .none (launch narrowElsewhereArgs 4 [0.0, 1.0] ⟨[]⟩ 0) ms' t' ∧ t'.IsFinal ∧
      (t.host.console 0).output = (t'.host.console 0).output ∧ t.host.files = t'.host.files := by
  obtain ⟨ms, t, hrun, hfinal⟩ := exists_final (launch narrowArgs 2 [0.0, 1.0] ⟨[]⟩ 0)
  obtain ⟨ms', t', hrun', hfinal'⟩ :=
    exists_final (launch narrowElsewhereArgs 4 [0.0, 1.0] ⟨[]⟩ 0)
  have hargs : Options.parse narrowArgs = .ok narrow := by decide +kernel
  have hargs' : Options.parse narrowElsewhereArgs = .ok narrowElsewhere := by decide +kernel
  have hoperands : operandsOf narrow ⟨[]⟩ 0 = .done
      (.matrix (.int .int64) 1 2 fun _ _ => 3, .matrix (.int .int64) 2 1 fun _ _ => 3) := rfl
  have hoperands' : operandsOf narrowElsewhere ⟨[]⟩ 0 = .done
      (.matrix (.int .int64) 1 2 fun _ _ => 3, .matrix (.int .int64) 2 1 fun _ _ => 3) := rfl
  have hready : narrow.IsReady := ⟨⟨.rows, rfl, by decide⟩, by decide, by decide⟩
  have hready' : narrowElsewhere.IsReady := ⟨⟨.whole, rfl, by decide⟩, by decide, by decide⟩
  obtain ⟨-, houtput, hwritten, hfiles, hfiles'⟩ := distribution_unseen hargs hargs' hready hready'
    ⟨rfl, rfl⟩ ⟨rfl, rfl⟩ (by decide) (by decide) hoperands hoperands' rfl rfl rfl rfl hrun hfinal hrun'
    hfinal'
  have hsame : t.host.files = t'.host.files := by
    rw [hfiles, hfiles', Files.after, Files.after, hwritten]
  exact ⟨ms, t, ms', t', hrun, hfinal, hrun', hfinal', houtput, hsame⟩

end Program

end RowBlock
