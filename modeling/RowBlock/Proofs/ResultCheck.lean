import RowBlock.Proofs.Reporting
import RowBlock.Proofs.Results

set_option autoImplicit false

/-! # The check of the result

The check compares the product of the last round with the product of the whole operands. It is sound:
whatever the workers have sent, a product that passes it is the product of the operands modulo
`2 ^ width` (`Factors.eq_product_of_agrees`), and only such a one is returned
(`Program.product_of_published`). And it is complete: the replies that an honest worker sends are the
right ones, in the order of the rounds (`Program.replies_isPrefix`), and a round takes three of them
from each worker, so the product of the last round is the product of the operands
(`Program.Completed.product_eq`) and agrees with it (`Program.not_wrongProduct`).
-/

namespace RowBlock

/-! ## Products that agree

Tensors that agree have the same shape and the same cells, whatever their types are. The product
that is checked has the type of the factors, and so has the one it is compared with. -/

theorem Tensor.agrees_self (t : Tensor) : t.agrees t = true := by simp [agrees]

theorem Tensor.eq_of_agrees {t u : Tensor} (htype : t.type = u.type) (h : t.agrees u = true) :
    t = u := by
  obtain ⟨hshape, hwords⟩ : t.shape = u.shape ∧ t.words = u.words := by simpa [agrees] using h
  cases t
  cases u
  simp only at htype hshape hwords
  subst htype hshape hwords
  rfl

namespace Factors

variable {f : Factors} {t : Tensor}

variable [Memory]

/-- The product of the whole factors, where there is room for it. -/
theorem eq_product_of_matmul (h : Kernel.matmul f.a f.b = .ok t) : t = f.product := by
  rw [Kernel.matmul_eq (Kernel.promote_self f.type) f.left f.right] at h
  rcases Tensor.room_matrix_cases (.int f.type) f.rows f.cols with hroom | ⟨e, hroom⟩
  · rw [hroom] at h
    cases h
    rw [product, Tensor.product, f.left.rows_eq, f.right.cols_eq]
  · rw [hroom] at h
    cases h

/-- **A product that passes the check** is the product of the factors. -/
theorem eq_product_of_agrees {product : Tensor} (hproduct : product.IsMatrix f.type f.rows f.cols)
    (hmatmul : Kernel.matmul f.a f.b = .ok t) (hagrees : product.agrees t = true) :
    product = f.product := by
  obtain rfl := eq_product_of_matmul hmatmul
  exact Tensor.eq_of_agrees hproduct.type_eq hagrees

end Factors

/-! ## Right replies

The cells of an accepted product are rows of replies. If the replies are the right ones, each row is
that of the product, and there is a worker for each row. -/

namespace Coordinator

variable {f : Factors} {workers : Nat} {skipEmpty : Bool} {h : History} {result : RoundResult}

/-- A worker takes part in an accepted round with three messages. -/
theorem Accepted.length_replies (ha : Accepted f workers skipEmpty h result) {i : Nat}
    (hi : i < workers) : (takenFrom h.deeds (i + 1) .result).length = 3 := by
  obtain ⟨t, ⟨p, q, hfields, -⟩, -⟩ := ha.replies i hi
  rw [hfields]
  rfl

/-- **With the right replies** the product of an accepted round is that of its factors. -/
theorem Accepted.product_eq (ha : Accepted f workers skipEmpty h result) (hworkers : 0 < workers)
    (hreplies : ∀ i < workers,
      takenFrom h.deeds (i + 1) .result = f.replyFields workers skipEmpty i) :
    result.product = f.product := by
  have hresult : IsResult f workers (fun _ => True) result := by
    refine ⟨ha.assignments, ha.matrix, fun i hi _ r hr k hk => ?_⟩
    obtain ⟨t, ⟨p, q, hfields, -⟩, hholds⟩ := ha.replies i hi
    rw [hreplies i hi, Factors.replyFields] at hfields
    simp only [List.cons.injEq, Payload.tensor.injEq] at hfields
    obtain ⟨-, -, rfl, -⟩ := hfields
    have hle := Factors.start_add_size_le (f := f) hi
    have hcell := hholds r hr k hk
    rw [Factors.entry_replyBlock hi hr hk, Factors.wrap_entry_product (by omega) hk] at hcell
    exact hcell
  exact hresult.product_eq hworkers fun _ _ => trivial

end Coordinator

namespace Program

variable {s : Settings Int} {size : Nat} {readings : List Float} {files : Files} {entropy : Nat}
  {z : Hazards} {t : Ensemble} {ms : List Move} {f : Factors} {results : List RoundResult} {last : RoundResult}
  {kernel : Kernel}

/-! ## Honest workers

Nothing is assumed about what an honest worker is sent, but in accepted rounds it is the work of the
factors. Then it has followed its plan as far as it came, and what it has sent is a beginning of the
right replies of all rounds. As three of its messages were taken in each round, they are the right
replies of that round. -/

theorem part_succ [Memory] (hsize : 2 ≤ size) (hkernel : s.kernel = .value kernel) (i : Nat) :
    part s size (i + 1)
      = (Worker.mk ⟨i + 1, size⟩ kernel s.skipEmpty).rounds s.rounds.toNat := by
  have hrequired : Endpoint.requireWorkers ⟨i + 1, size⟩ = .ok () := if_neg (Nat.not_lt.mpr hsize)
  have hworker : (⟨i + 1, size⟩ : Endpoint).isCoordinator = false := rfl
  simp only [part, run, work, hrequired, hworker, workerOn_succ hkernel, Bool.false_eq_true, if_false,
    Process.ofExcept, Process.done_bind, Process.bind_assoc]
  exact Process.bind_done _

theorem deeds_of_isRead {h : History} (hreads : ∀ e ∈ h, e.request.isRead = true) :
    h.deeds = [] := by
  apply List.filterMap_eq_nil_iff.mpr
  rintro ⟨r, answer⟩ he
  have hread := hreads _ he
  cases r <;> first | rfl | cases hread

/-- In accepted rounds rank zero has sent a worker the work of all of them. -/
theorem sentTo_flatten {workers i : Nat} {skipEmpty : Bool} {hs : List History} (hi : i < workers)
    (hall : List.Forall₂ (Coordinator.Accepted f workers skipEmpty) hs results) :
    sentTo (History.deeds hs.flatten) (i + 1) .work
      = (List.replicate results.length f).flatMap fun f => f.workFields workers skipEmpty i := by
  induction hall with
  | nil => rfl
  | @cons h result hs results haccepted _ ih =>
      rw [List.flatten_cons, History.deeds_append, sentTo_append, ih, ← sentTo_filter,
        haccepted.sends, Factors.sentTo_coordinatorPlan hi, List.length_cons, List.replicate_succ,
        List.flatMap_cons]

theorem takenFrom_flatten (hs : List History) (source : Nat) (channel : Channel) :
    takenFrom (History.deeds hs.flatten) source channel
      = hs.flatMap fun h => takenFrom h.deeds source channel := by
  induction hs with
  | nil => rfl
  | cons h hs ih =>
      rw [List.flatten_cons, History.deeds_append, takenFrom_append, ih, List.flatMap_cons]

/-- **A worker that has got its work** has sent the replies to it at most. -/
theorem replies_isPrefix [Memory] (hrun : Run z (start s size readings files entropy) ms t)
    (hsize : 2 ≤ size) {i n : Nat} (hi : i < size - 1) (hhonest : ¬z.rogue (i + 1)) (hkernel : s.kernel = .value kernel)
    (hruns : kernel ≠ .device) (hcount : s.rounds.toNat = n)
    (hwork : sentTo (historyOf ms 0).deeds (i + 1) .work
      = (List.replicate n f).flatMap fun f => f.workFields (size - 1) s.skipEmpty i) :
    sentTo (historyOf ms (i + 1)).deeds 0 .result
      <+: (List.replicate n f).flatMap fun f => f.replyFields (size - 1) s.skipEmpty i := by
  obtain ⟨q, -, hpath⟩ := hrun.comes hhonest (start_of_lt (by omega))
  have hfollows : ((Worker.mk ⟨i + 1, size⟩ kernel s.skipEmpty).rounds
      (List.replicate n f).length).Follows (fun _ => True) (fun _ => True)
      ((List.replicate n f).flatMap fun f => f.workerPlan (size - 1) s.skipEmpty i) :=
    Worker.follows_rounds hruns rfl hi fun _ _ _ _ _ => trivial
  rw [List.length_replicate, ← hcount, ← part_succ hsize hkernel, hcount] at hfollows
  -- at every point of its path the worker has taken no more than was sent to it
  have htaken : takenFrom (historyOf ms (i + 1)).deeds 0 .work
      <+: (List.replicate n f).flatMap fun f => f.workFields (size - 1) s.skipEmpty i := by
    rw [← hwork, hrun.sentTo_eq rfl 0 (i + 1) .work]
    exact List.prefix_append _ _
  have hmeets := Worker.meets_of_comes hfollows hpath (hrun.admitted (i + 1)) htaken
  rw [← Factors.sentTo_workerPlans]
  exact sentTo_isPrefix hmeets.holds.1 0 .result

/-- Lists of one length that begin a repetition of a list of this length are this list. -/
theorem eq_of_flatMap_isPrefix {α β : Type} {l : List α} {g : α → List β} {m : List β} {n : Nat}
    (hm : m ≠ []) (hlength : ∀ x ∈ l, (g x).length = m.length)
    (h : l.flatMap g <+: (List.replicate n m).flatten) : ∀ x ∈ l, g x = m := by
  induction l generalizing n with
  | nil => exact fun x hx => absurd hx List.not_mem_nil
  | cons x l ih =>
      have hx := hlength x (by simp)
      rw [List.flatMap_cons] at h
      obtain ⟨rest, hrest⟩ := h
      cases n with
      | zero =>
          have hnone : m.length = 0 := by
            rw [List.replicate_zero, List.flatten_nil, List.append_assoc,
              List.append_eq_nil_iff] at hrest
            rw [← hx, hrest.1, List.length_nil]
          exact absurd (List.length_eq_zero_iff.mp hnone) hm
      | succ n =>
          rw [List.replicate_succ, List.flatten_cons, List.append_assoc] at hrest
          obtain ⟨hfirst, hlater⟩ := List.append_inj hrest hx
          intro y hy
          rcases List.mem_cons.mp hy with rfl | hy
          · exact hfirst
          · exact ih (fun y hy => hlength y (by simp [hy])) ⟨rest, hlater⟩ y hy

/-- **With honest workers** the product of the last round is the product of the operands. -/
theorem Completed.product_eq [Memory] (hc : Completed s size files entropy (historyOf ms 0) f results)
    (hrun : Run z (start s size readings files entropy) ms t) (hhonest : ∀ rank, ¬z.rogue rank)
    (hkernel : s.kernel = .value kernel) (hruns : kernel ≠ .device)
    (hlast : results.getLast? = some last) : last.product = f.product := by
  obtain ⟨reads, hs, hsplit, hreads, hall⟩ := hc.rounds
  obtain ⟨h, hmem, haccepted⟩ := exists_last_accepted hall hlast
  have hworkers := hc.workers
  have hdeeds : (historyOf ms 0).deeds = History.deeds hs.flatten := by
    rw [hsplit, History.deeds_append, deeds_of_isRead hreads, List.nil_append]
  refine haccepted.product_eq (by omega) fun i hi => ?_
  have hwork := sentTo_flatten hi hall
  rw [← hdeeds] at hwork
  have hsent := replies_isPrefix hrun hworkers hi (hhonest _) hkernel hruns hc.count.symm hwork
  rw [List.flatMap_replicate] at hsent
  -- what rank zero has taken from the worker are the first replies of it
  have htaken : hs.flatMap (fun h => takenFrom (History.deeds h) (i + 1) .result)
      <+: sentTo (historyOf ms (i + 1)).deeds 0 .result := by
    rw [← takenFrom_flatten, ← hdeeds, hrun.sentTo_eq rfl (i + 1) 0 .result]
    exact List.prefix_append _ _
  refine eq_of_flatMap_isPrefix (List.cons_ne_nil _ _) (fun k hk => ?_) (htaken.trans hsent) h hmem
  obtain ⟨j, hj, rfl⟩ := List.mem_iff_getElem.mp hk
  obtain ⟨hlength, hrounds⟩ := List.forall₂_iff_get.mp hall
  exact (hrounds j hj (by omega)).length_replies hi

/-! ## The report of a job with a check

The report stands between the check and the result. It is gone through once for what it may ask, so
that a returned result is known to come after the whole of it, and a wrong product to come from
nothing but the check. -/

/-- The files of a report: the product, the statistics, and the chart. -/
def saveAll (s : Settings Int) (e : Endpoint) (a : Tensor) (times : List Decimal.Number)
    (last : RoundResult) : Process Unit := do
  withFile s.output fun path => do
    saveText path (← Process.ofExcept .table (Csv.write last.product))
  withFile s.stats fun path => do
    saveText path (← Process.ofExcept .statistics
      (Statistics.table a.rows a.cols e.workers times))
  withFile s.plot fun path => do
    save path (.chart (← drawn last.assignments times))

theorem report_eq (s : Settings Int) (e : Endpoint) (a b : Tensor) (results : List RoundResult)
    (last : RoundResult) : report s e a b results last =
      reportRound s a b last >>= fun _ =>
        (if s.verify then say verifiedLine else Process.done ()) >>= fun _ =>
          (if 1 < s.rounds then reportTimes (results.map fun r => .real r.elapsed)
            else Process.done ()) >>= fun _ =>
            saveAll s e a (results.map fun r => .real r.elapsed) last := by
  unfold report saveAll
  cases s.verify <;> by_cases hrounds : 1 < s.rounds <;> simp only [hrounds] <;> rfl

/-- What is done with the file of a setting is all that is asked for. -/
theorem only_withFile {P : Request → Prop} {E : Error → Prop} {act : String → Process Unit}
    (setting : Option (Setting String)) (hact : ∀ path, (act path).Only P E) :
    (withFile setting act).Only P E := by
  unfold withFile
  split
  · exact hact _
  · trivial

/-- A request of a report: it prints to the output, writes a file, or notes something in the log. -/
def Announces (r : Request) : Prop :=
  Coordinator.IsNote r ∨ (∃ text, r = .print .output text) ∨ r.isWrite = true

theorem isPublication_of_announces {r : Request} (h : Announces r) : r.isPublication = false := by
  rcases h with ⟨entry, rfl, -⟩ | ⟨text, rfl⟩ | hwrite
  · rfl
  · rfl
  · cases r <;> first | rfl | cases hwrite

theorem only_say (text : String) : (say text).Only Announces (· ≠ .wrongProduct) :=
  Process.only_request (.inr (.inl ⟨text, rfl⟩))

theorem only_saveAll (s : Settings Int) (e : Endpoint) (a : Tensor) (times : List Decimal.Number)
    (last : RoundResult) :
    (saveAll s e a times last).Only Announces (· ≠ .wrongProduct) := by
  have hsave (path : String) (content : Content) :
      (save path content).Only Announces (· ≠ .wrongProduct) := by
    unfold save
    exact (Process.only_request (.inr (.inr rfl))).bind fun _ =>
      Process.only_ofExcept _ fun _ _ => nofun
  unfold saveAll
  refine (only_withFile _ fun path => ?_).bind fun _ =>
    (only_withFile _ fun path => ?_).bind fun _ => only_withFile _ fun path => ?_
  · exact (Process.only_ofExcept _ fun _ _ => nofun).bind fun _ => hsave path _
  · exact (Process.only_ofExcept _ fun _ _ => nofun).bind fun _ => hsave path _
  · refine Process.Only.bind ?_ fun _ => hsave path _
    have hnote : (Process.note Chart.logger .info Chart.labelNote).Only Announces
        (· ≠ .wrongProduct) := Coordinator.only_note _ _ (by decide) fun _ => .inl
    exact hnote.bind fun _ => hnote.bind fun _ => Process.only_ofExcept _ fun _ _ => nofun

/-- **A report** only announces, and it does not find a product wrong. -/
theorem only_report (s : Settings Int) (e : Endpoint) (a b : Tensor) (results : List RoundResult)
    (last : RoundResult) :
    (report s e a b results last).Only Announces (· ≠ .wrongProduct) := by
  rw [report_eq]
  refine Process.Only.bind ?_ fun _ => Process.Only.bind ?_ fun _ => Process.Only.bind ?_ fun _ =>
    only_saveAll s e a _ last
  · refine (only_say _).bind fun _ => ?_
    split
    · exact nofun
    · trivial
  · split
    · exact only_say _
    · trivial
  · split
    · refine (Process.only_ofExcept _ fun _ _ => nofun).bind fun _ => ?_
      exact (Process.only_ofExcept _ fun _ _ => nofun).bind fun _ => only_say _
    · trivial

/-- **A report with a check** that is complete begins with the text of the last round and the line
that the check has passed. -/
theorem comes_report_done {e : Endpoint} {a b : Tensor} {k : History} {u : Unit} {text : String}
    (hverify : s.verify = true) (hround : reportRound s a b last = say text)
    (hpath : (report s e a b results last).Comes k (.done u)) :
    ∃ rest, k = ⟨.print .output text, ()⟩ :: ⟨.print .output verifiedLine, ()⟩ :: rest := by
  rw [report_eq, hround, if_pos hverify] at hpath
  obtain ⟨_, g, h, rfl, hsaid, hchecked⟩ := Process.comes_bind_done hpath
  obtain ⟨_, g, rest, rfl, hpassed, -⟩ := Process.comes_bind_done hchecked
  obtain rfl := Process.comes_request_done hsaid
  obtain rfl := Process.comes_request_done hpassed
  exact ⟨rest, rfl⟩

/-- **A result that rank zero publishes** is the last one, after the report is complete. -/
theorem comes_conclude_published {e : Endpoint} {x : Settlement} {k : History} {q : Process Unit}
    {result : RoundResult} (hpath : (conclude s e (some x)).Comes k q)
    (hresult : result ∈ k.published) :
    result = x.last ∧ ∃ h rest u, k = h ++ rest ∧
      (report s e x.a x.b x.results x.last).Comes h (.done u) := by
  have hsilent {h : History} {p : Process Unit}
      (hreport : (report s e x.a x.b x.results x.last).Comes h p) : h.published = [] :=
    History.published_eq_nil fun e he =>
      isPublication_of_announces (((only_report s _ _ _ _ _).comes hreport).1 e he)
  rcases hpath.of_bind with ⟨p, hreport, -⟩ | ⟨u, h, rest, rfl, hreport, hpublish⟩
  · rw [hsilent hreport] at hresult
    exact absurd hresult List.not_mem_nil
  · rw [History.published_append, hsilent hreport, List.nil_append] at hresult
    refine ⟨?_, h, rest, u, rfl, hreport⟩
    cases hpublish with
    | refl => exact absurd hresult List.not_mem_nil
    | answered hend =>
        obtain ⟨rfl, -⟩ := Process.comes_done_iff.mp hend
        exact List.mem_singleton.mp hresult

/-! ## The check

Soundness says nothing about who has sent what and needs no run. Completeness goes through the run,
for it speaks of the workers. -/

section

variable [Memory]

theorem published_eq (hrun : Run z (start s size readings files entropy) ms t) :
    t.host.published = (historyOf ms 0).published := by
  have hothers : ∀ rank ≠ 0, (historyOf ms rank).published = [] := by
    intro rank hrank
    by_cases hrogue : z.rogue rank
    · exact hrun.published_rogue hrogue
    · exact History.published_of_isOutput (isOutput_of_rank hrun hrank hrogue)
  simpa [start, Host.initial] using hrun.published hothers

/-- **The check is sound**: a job with a check that returns a result has reported the product of its
operands modulo `2 ^ width`, and that the check has passed. -/
theorem product_of_published (hrun : Run z (start s size readings files entropy) ms t) (hsize : 0 < size)
    (hzero : ¬z.rogue 0)
    (hwrites : ∀ rank, z.rogue rank → ∀ e ∈ historyOf ms rank, e.request.isWrite = false)
    (hverify : s.verify = true) {result : RoundResult} (hresult : result ∈ t.host.published) :
    ∃ (f : Factors) (text rest : String),
      operandsOf s files entropy = .done (f.a, f.b) ∧ f.cols = f.rows ∧
      Report.round f.a f.b result.product (.real result.elapsed) (!s.quiet) = (text, none) ∧
      (t.host.console 0).output = text ++ (verifiedLine ++ rest) ∧ result.product = f.product := by
  rw [published_eq hrun] at hresult
  rcases rankZero_cases hrun hsize hzero hwrites with hnone |
    ⟨g, k, f, results, last, q, hsplit, hquiet, hcompleted, hlast, hverified, hconclude⟩
  · rw [History.published_of_isOutput hnone] at hresult
    exact absurd hresult List.not_mem_nil
  · obtain ⟨-, hs, -, -, hall⟩ := hcompleted.rounds
    obtain ⟨h, -, haccepted⟩ := exists_last_accepted hall hlast
    rw [hsplit, History.published_append, History.published_of_isOutput hquiet,
      List.nil_append] at hresult
    obtain ⟨rfl, h, later, u, rfl, hreport⟩ := comes_conclude_published hconclude hresult
    obtain ⟨text, htext, hround⟩ :=
      reportRound_eq (s := s) f.left.rank_eq f.right.rank_eq haccepted.matrix.rank_eq
    obtain ⟨rest, rfl⟩ := comes_report_done hverify hround hreport
    obtain ⟨expected, hexpected, hagrees⟩ := hverified hverify
    refine ⟨f, text, History.printed rest ++ History.printed later, hcompleted.operands,
      hcompleted.square, htext, ?_, Factors.eq_product_of_agrees haccepted.matrix hexpected hagrees⟩
    rw [output_eq hrun hsize, hsplit, History.printed_append, History.printed_of_isOutput hquiet,
      String.empty_append, History.printed_append]
    simp only [History.printed, Event.printed, String.append_assoc]

/-- **The check is complete**: without rogue ranks the product is not found wrong. -/
theorem not_wrongProduct (hrun : Run z (start s size readings files entropy) ms t) (hsize : 0 < size)
    (hhonest : ∀ rank, ¬z.rogue rank) (hkernel : s.kernel = .value kernel)
    (hruns : kernel ≠ .device) : t.parts[0]? ≠ some (.failed .wrongProduct) := by
  intro hpart
  obtain ⟨q, hq, hpath⟩ := hrun.comes (hhonest 0) (start_of_lt hsize)
  obtain rfl : q = .failed .wrongProduct := Option.some.inj (hq.symm.trans hpart)
  rw [part_zero] at hpath
  rcases Process.comes_bind_failed hpath with hsettle | ⟨x, g, k, -, -, hconclude⟩
  · obtain ⟨a, b, results, last, expected, hcomplete, hlast, hexpected, hagrees⟩ :=
      comes_settle_wrongProduct hsettle
    obtain ⟨f, rfl, rfl, hcompleted⟩ :=
      completed_of_comes hrun (fun rank hrogue => absurd hrogue (hhonest rank))
        (List.append_nil _).symm hcomplete
    have hproduct := hcompleted.product_eq hrun hhonest hkernel hruns hlast
    rw [hproduct, ← Factors.eq_product_of_matmul hexpected, Tensor.agrees_self] at hagrees
    cases hagrees
  · -- the report does not fail because of the product
    cases x with
    | none =>
        exact absurd hconclude Process.not_comes_done_failed
    | some x =>
        have honly : (conclude s ⟨0, size⟩ (some x)).Only (fun _ => True) (· ≠ .wrongProduct) :=
          ((only_report _ _ _ _ _ _).imp (fun _ _ => trivial) fun _ => id).bind fun _ =>
            Process.only_request trivial
        exact absurd rfl (honly.failed hconclude)

/-- **The check of the result** is sound, whatever the workers send, and complete, for honest workers,
whatever overflows. A job with a check that returns a result has reported that the check has passed,
and the product that it has reported is the product of the operands modulo `2 ^ width`. A job without
rogue ranks does not find its product wrong. Rogue ranks only have to keep off the files. -/
theorem check_sound_and_complete (hrun : Run z (start s size readings files entropy) ms t)
    (hsize : 0 < size) (hzero : ¬z.rogue 0)
    (hwrites : ∀ rank, z.rogue rank → ∀ e ∈ historyOf ms rank, e.request.isWrite = false) :
    (s.verify = true → ∀ result ∈ t.host.published, ∃ (f : Factors) (text rest : String),
      operandsOf s files entropy = .done (f.a, f.b) ∧ f.cols = f.rows ∧
      Report.round f.a f.b result.product (.real result.elapsed) (!s.quiet) = (text, none) ∧
      (t.host.console 0).output = text ++ (verifiedLine ++ rest) ∧
      result.product = .matrix (.int f.type) f.rows f.rows fun i k =>
        f.type.wrap (∑ j ∈ Finset.range f.inner, f.a.entry i j * f.b.entry j k)) ∧
    ∀ kernel, (∀ rank, ¬z.rogue rank) → s.kernel = .value kernel → kernel ≠ .device →
      t.parts[0]? ≠ some (.failed .wrongProduct) := by
  constructor
  · intro hverify result hresult
    obtain ⟨f, text, rest, hoperands, hsquare, htext, houtput, hproduct⟩ :=
      product_of_published hrun hsize hzero hwrites hverify hresult
    refine ⟨f, text, rest, hoperands, hsquare, htext, houtput, ?_⟩
    rw [hproduct, Factors.product_eq, hsquare]
  · intro kernel hhonest hkernel hruns
    exact not_wrongProduct hrun hsize hhonest hkernel hruns

end

/-- The overflowing job may return its product, which has the cells `46341 * 46341 - 2 ^ 32`, and the
check does not fail. -/
theorem check_sound_and_complete_overflowing :
    ∃ ms t result, Run ⟨True, fun _ => False⟩ (start overflowing 3 [0.0, 1.0] ⟨[]⟩ 0) ms t ∧
      t.host.published = [result] ∧
      result.product = .matrix (.int .int32) 2 2 (fun _ _ => -2147479015) ∧
      t.parts[0]? ≠ some (.failed .wrongProduct) := by
  obtain ⟨ms, t, hrun, hhost, -⟩ :=
    exists_run overflowing 3 [0.0, 1.0] ⟨[]⟩ 0 [0, 1, 2] 20 (fun _ => False) (by decide)
  have hlength : t.host.published.length = 1 := by
    rw [hhost]
    decide +kernel
  obtain ⟨result, hresult⟩ := List.length_eq_one_iff.mp hlength
  obtain ⟨hsound, hcomplete⟩ :=
    check_sound_and_complete hrun (by decide) (fun h => h) fun _ h => h.elim
  obtain ⟨f, -, -, hoperands, -, -, -, hproduct⟩ := hsound rfl result (by rw [hresult]; simp)
  -- the operands are two cells above each other and two beside each other
  have hpair : operandsOf overflowing ⟨[]⟩ 0 = .done
      (.matrix (.int .int32) 2 1 fun _ _ => 46341, .matrix (.int .int32) 1 2 fun _ _ => 46341) := rfl
  rw [hpair] at hoperands
  injection hoperands with hoperands
  obtain ⟨ha, hb⟩ := Prod.mk.inj hoperands
  have htype : CellType.int f.type = .int .int32 := by rw [← f.left.type_eq, ← ha]; rfl
  have hrows : f.rows = 2 := by rw [← f.left.rows_eq, ← ha]; rfl
  have hinner : f.inner = 1 := by rw [← f.left.cols_eq, ← ha]; rfl
  rw [← ha, ← hb, CellType.int.inj htype, hrows, hinner] at hproduct
  exact ⟨ms, t, result, hrun, hresult, hproduct.trans (by decide),
    hcomplete .rows (fun _ h => h) rfl (by decide)⟩

end Program

end RowBlock
