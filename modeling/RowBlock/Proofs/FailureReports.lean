import RowBlock.Proofs.Failures

set_option autoImplicit false

/-! # Failures are reported

The program comes to an end on a rank in one of three ways. It is done, and then the rank has finished
its job (`Program.HasFinished`) and has recorded no error. It aborts the job with code one, and then
its part has failed with an error whose line is the record before. Or an error leaves the program, for
want of memory, because of times that are out of range, or because an option is blank
(`no_silent_failure`). Each end of the program is an end of the part of the rank (`program_cases`), a part
that is done has finished (`finished`), and what a part fails with is accounted for (`accounted`).
-/

namespace RowBlock

namespace Program

open Coordinator

variable {args : List String} {s : Settings Int} {size rank : Nat} {readings : List Float}
  {files : Files} {entropy : Nat} {z : Hazards} {ms : List Move} {t : Ensemble} {f : Factors}

/-! ## What a part fails with

Failures come from the operands, from the rounds or from what is done with the results. Those of the
rounds are bounded by the contract of the coordinator: the transport, or the room for the product. A
worker may fail besides in its kernel, but with operands of one type no cell can fail to be stored. -/

section

variable [Memory]

section

variable (hargs : Options.parse args = .ok s) (hkernel : s.kernel ≠ .value .device)
  (hhonest : ∀ rank, ¬z.rogue rank) (hrun : Run z (launch args size readings files entropy) ms t)

include hargs hkernel hhonest hrun

/-- **Where rank zero is when it completes its rounds**: it has failed in a way that is accounted for, it
asks for something, or it has the results of its rounds, with the product of its operands in them. -/
theorem complete_zero_cases (hrows : s.rows.natAbs < 2 ^ 31) (hinner : s.inner.natAbs < 2 ^ 31)
    {g k : History} {q : Process (Tensor × Tensor × List RoundResult)}
    (hsplit : historyOf ms 0 = g ++ k) (hpath : (complete s ⟨0, size⟩).Comes g q) :
    (∃ x, q = .failed x ∧ Accounted s x) ∨ (∃ r next, q = .ask r next) ∨
      ∃ (f : Factors) (results : List RoundResult), q = .done (f.a, f.b, results) ∧ 0 < size - 1 ∧
        ∀ result ∈ results, f.HasRoom ∧ IsResult f (size - 1) (fun _ => True) result := by
  obtain ⟨f, hsuits⟩ := exists_suits s files entropy
  rcases complete_cases hpath with ⟨-, -, rfl⟩ | ⟨x, hoperands, rfl⟩ |
    ⟨r, next, next', -, -, rfl⟩ | ⟨f', reads, l, htwo, rfl, hreads, hgiven, -, hrounds⟩
  · exact .inl ⟨_, rfl, .reported rfl⟩
  · have haccounts := accounts_operands (fun _ => Options.type_of_parse hargs) hrows hinner
    exact .inl ⟨x, rfl, haccounts.failed hoperands⟩
  · exact .inr (.inl ⟨r, _, rfl⟩)
  rcases hrounds with ⟨-, -, rfl⟩ | ⟨c, q', hendpoint, hskip, hq', rfl⟩
  · exact .inl ⟨_, rfl, .value rfl⟩
  -- its factors are those that suit the files, so its rounds meet their contract
  obtain ⟨ha, hb⟩ := factors_eq hargs hhonest hrun hsuits (hsplit.trans (List.append_assoc _ _ _))
    hreads hgiven
  rw [ha, hb] at hq' ⊢
  have hmeets := meets_rounds_zero hargs hhonest hrun hsuits hkernel htwo hsplit hreads hendpoint
    hskip hq'
  cases q' with
  | ask r next => exact .inr (.inl ⟨r, _, rfl⟩)
  | done results =>
      obtain ⟨-, -, -, -, hresults⟩ := hmeets
      exact .inr (.inr ⟨f, results, rfl, by omega, hresults⟩)
  | failed x =>
      obtain ⟨-, ⟨⟨e, rfl⟩, -⟩ | ⟨-, e, -, rfl⟩⟩ := hmeets
      · exact .inl ⟨_, rfl, .reported rfl⟩
      · exact .inl ⟨_, rfl, .room e rfl⟩

/-- **What rank zero fails with** is accounted for. -/
theorem accounted_zero (hrows : s.rows.natAbs < 2 ^ 31) (hinner : s.inner.natAbs < 2 ^ 31)
    {x : Error} (hpath : (run s ⟨0, size⟩).Comes (historyOf ms 0) (.failed x)) :
    Accounted s x := by
  obtain ⟨g, k, q, hsplit, hcomplete, -, hend⟩ := run_zero_cases hpath
  rcases complete_zero_cases hargs hkernel hhonest hrun hrows hinner hsplit hcomplete with
    ⟨y, rfl, haccounted⟩ | ⟨r, next, rfl⟩ | ⟨f, results, rfl, hworkers, hresults⟩
  · rcases hend with ⟨y', -, hy, hx⟩ | ⟨r, next, next', -, hask, -⟩ | ⟨y', hdone, -⟩
    · cases hy
      cases hx
      exact haccounted
    · cases hask
    · cases hdone
  · rcases hend with ⟨y', -, hy, -⟩ | ⟨r, next, next', -, -, hx⟩ | ⟨y', hdone, -⟩
    · cases hy
    · cases hx
    · cases hdone
  · rcases hend with ⟨y', -, hy, -⟩ | ⟨r, next, next', -, hask, -⟩ | ⟨y', hdone, hfinish⟩
    · cases hy
    · cases hask
    · cases hdone
      exact (accounts_finish hworkers hresults).failed hfinish

theorem accounted (hrows : s.rows.natAbs < 2 ^ 31) (hinner : s.inner.natAbs < 2 ^ 31)
    (hrank : rank < size) {x : Error}
    (hpath : (run s ⟨rank, size⟩).Comes (historyOf ms rank) (.failed x)) : Accounted s x := by
  cases rank with
  | zero => exact accounted_zero hargs hkernel hhonest hrun hrows hinner hpath
  | succ i =>
      obtain ⟨f, hsuits⟩ := exists_suits s files entropy
      obtain ⟨-, hfails⟩ := meets_worker hargs hhonest hrun hsuits hkernel
        (show i < size - 1 by omega) hpath
      rcases hfails with (⟨-, y, rfl⟩ | ⟨hblank, rfl⟩) | ⟨⟨y, rfl⟩, -⟩
      · exact .room y rfl
      · exact .blank rfl (.inr (.inr (.inr (.inl hblank))))
      · exact .reported rfl

end

/-! ## What a rank has finished

To be done means something different on rank zero and on the workers, and neither is a matter of the
state in the end: the files may have been written over by later outputs. So finishing is said of the
history. -/

/-- **A rank has finished its job.** Rank zero has completed its rounds, its report has come to its end,
and each file that is named for it was written. Any other rank has taken the work of all rounds with the
operands of the job, and replied to it. -/
def HasFinished (s : Settings Int) (size : Nat) (files : Files) (entropy : Nat) (f : Factors) :
    Nat → History → Prop
  | 0, h => ∃ g k results last, h = g ++ k ∧ Completed s size files entropy g f results ∧
      results.getLast? = some last ∧
      (report s ⟨0, size⟩ f.a f.b results last).Comes k (.done ()) ∧
      ∀ path ∈ [s.output, s.stats, s.plot].filterMap Setting.file?,
        ∃ content, ⟨.write path content, .ok ()⟩ ∈ k
  | i + 1, h => operandsOf s files entropy = .done (f.a, f.b) ∧
      h.deeds = workPlan f s.rounds.toNat (size - 1) s.skipEmpty i

omit [Memory] in
theorem written_of_save {path : String} {content : Content} {h : History} {u : Unit}
    (hpath : (save path content).Comes h (.done u)) : ⟨.write path content, .ok ()⟩ ∈ h := by
  obtain ⟨answer, g, k, rfl, hasked, hchecked⟩ := Process.comes_bind_done hpath
  obtain rfl := Process.comes_request_done hasked
  obtain ⟨rfl, rfl⟩ := Process.comes_ofExcept_done hchecked
  exact List.mem_append_left _ (List.mem_singleton.mpr rfl)

omit [Memory] in
/-- What is done with the file of a setting is done if there is one. -/
theorem written_of_withFile {setting : Option (Setting String)} {act : String → Process Unit}
    {path : String} {h : History} {u : Unit}
    (hact : ∀ {h : History} {u : Unit}, (act path).Comes h (.done u) →
      ∃ content, ⟨.write path content, .ok ()⟩ ∈ h)
    (hfile : Setting.file? setting = some path)
    (hpath : (withFile setting act).Comes h (.done u)) :
    ∃ content, ⟨.write path content, .ok ()⟩ ∈ h := by
  unfold withFile at hpath
  rw [hfile] at hpath
  exact hact hpath

omit [Memory] in
/-- **A report that comes to its end** has written each file that is named for it. -/
theorem written_of_report {e : Endpoint} {a b : Tensor} {results : List RoundResult}
    {last : RoundResult} {k : History} {u : Unit}
    (hpath : (report s e a b results last).Comes k (.done u)) :
    ∀ path ∈ [s.output, s.stats, s.plot].filterMap Setting.file?,
      ∃ content, ⟨.write path content, .ok ()⟩ ∈ k := by
  have hsave {α : Type} {p : Process α} {path : String} {content : α → Content} {h : History}
      {u : Unit} (hpath : (p >>= fun a => save path (content a)).Comes h (.done u)) :
      ∃ content, ⟨.write path content, .ok ()⟩ ∈ h := by
    obtain ⟨a, g, k, rfl, -, hsaved⟩ := Process.comes_bind_done hpath
    exact ⟨_, List.mem_append_right _ (written_of_save hsaved)⟩
  rw [report_eq] at hpath
  obtain ⟨_, g, k, rfl, -, hpath⟩ := Process.comes_bind_done hpath
  obtain ⟨_, g, k, rfl, -, hpath⟩ := Process.comes_bind_done hpath
  obtain ⟨_, g, k, rfl, -, hpath⟩ := Process.comes_bind_done hpath
  unfold saveAll at hpath
  obtain ⟨_, output, k, rfl, houtput, hpath⟩ := Process.comes_bind_done hpath
  obtain ⟨_, stats, plot, rfl, hstats, hplot⟩ := Process.comes_bind_done hpath
  intro path hmem
  obtain ⟨setting, hsetting, hfile⟩ := List.mem_filterMap.mp hmem
  have hwritten : ∃ content, ⟨.write path content, .ok ()⟩ ∈ output ++ (stats ++ plot) := by
    simp only [List.mem_cons, List.not_mem_nil, or_false] at hsetting
    rcases hsetting with rfl | rfl | rfl
    · obtain ⟨content, hcontent⟩ := written_of_withFile hsave hfile houtput
      exact ⟨content, List.mem_append_left _ hcontent⟩
    · obtain ⟨content, hcontent⟩ := written_of_withFile hsave hfile hstats
      exact ⟨content, List.mem_append_right _ (List.mem_append_left _ hcontent)⟩
    · obtain ⟨content, hcontent⟩ := written_of_withFile hsave hfile hplot
      exact ⟨content, List.mem_append_right _ (List.mem_append_right _ hcontent)⟩
  obtain ⟨content, hcontent⟩ := hwritten
  exact ⟨content, by simp only [List.mem_append] at hcontent ⊢; tauto⟩

section

variable (hargs : Options.parse args = .ok s) (hkernel : s.kernel ≠ .value .device)
  (hhonest : ∀ rank, ¬z.rogue rank) (hrun : Run z (launch args size readings files entropy) ms t)

theorem finished_zero (hargs : Options.parse args = .ok s) (hhonest : ∀ rank, ¬z.rogue rank)
    (hrun : Run z (launch args size readings files entropy) ms t) {a : Option RoundResult}
    (hpath : (run s ⟨0, size⟩).Comes (historyOf ms 0) (.done a)) :
    ∃ f, HasFinished s size files entropy f 0 (historyOf ms 0) := by
  obtain ⟨g, k, q, hsplit, hcomplete, -, hend⟩ := run_zero_cases hpath
  rcases hend with ⟨y, -, -, hdone⟩ | ⟨r, next, next', -, -, hdone⟩ | ⟨⟨a, b, results⟩, rfl, hfinish⟩
  · cases hdone
  · cases hdone
  have hadmitted := hrun.admitted 0
  rw [hsplit, History.admitted_append] at hadmitted
  obtain ⟨f, rfl, rfl, hcompleted⟩ := comes_complete_done hcomplete hadmitted.1
    fun reads l hg hreads => readsOf_launch hargs hhonest hrun
      (by rw [hsplit, hg, List.append_assoc]) hreads
  obtain ⟨-, -, hrounds⟩ := Options.bounds_of_parse hargs
  simp only [finish] at hfinish
  split at hfinish
  · -- there was a round at least
    rename_i hnone
    have hcount := hcompleted.count
    rw [List.getLast?_eq_none_iff.mp hnone, List.length_nil] at hcount
    omega
  rename_i last hlast
  have hreported {k : History} (hreport : (report s ⟨0, size⟩ f.a f.b results last >>=
      fun _ => Process.done (some last)).Comes k (.done a)) :
      (report s ⟨0, size⟩ f.a f.b results last).Comes k (.done ()) := by
    obtain ⟨_, h, l, rfl, hreport, hlater⟩ := Process.comes_bind_done hreport
    obtain ⟨rfl, -⟩ := Process.comes_done_iff.mp hlater
    rwa [List.append_nil]
  have hreport : (report s ⟨0, size⟩ f.a f.b results last).Comes k (.done ()) := by
    split at hfinish
    · obtain ⟨_, h, l, rfl, hverify, hreport⟩ := Process.comes_bind_done hfinish
      obtain ⟨rfl, -⟩ := comes_verify_done hverify
      exact hreported hreport
    · exact hreported hfinish
  exact ⟨f, g, k, results, last, hsplit, hcompleted, hlast, hreport, written_of_report hreport⟩

include hargs hhonest hrun

/-- Where rank zero has sent anything, it has its operands from the files. -/
theorem operands_of_sent (hsuits : Suits f s files entropy) (hsize : 0 < size) {dest : Nat}
    {channel : Channel} (hsent : sentTo (historyOf ms 0).deeds dest channel ≠ []) :
    operandsOf s files entropy = .done (f.a, f.b) := by
  obtain ⟨p, hpath⟩ := comes_of_launch hargs hrun (hhonest 0) hsize
  obtain ⟨g, k, q, hsplit, hcomplete, hannounces, -⟩ := run_zero_cases hpath
  rw [hsplit, History.deeds_append, deeds_of_announces hannounces, List.append_nil] at hsent
  have hreadsOnly {reads : History} (hreads : ∀ e ∈ reads, e.request.isRead = true) :
      sentTo reads.deeds dest channel = [] := by
    rw [deeds_of_isRead hreads]
    rfl
  rcases complete_cases hcomplete with ⟨-, rfl, -⟩ | ⟨x, hx, -⟩ | ⟨r, next, next', hr, -, -⟩ |
    ⟨f', reads, l, -, rfl, hreads, hgiven, -, -⟩
  · exact absurd rfl hsent
  · exact absurd (hreadsOnly ((only_operands s).comes hx).1) hsent
  · exact absurd (hreadsOnly ((only_operands s).comes hr).1) hsent
  · have hoperands := operandsOf_eq hgiven
      (readsOf_launch hargs hhonest hrun (hsplit.trans (List.append_assoc _ _ _)) hreads)
    obtain ⟨ha, hb⟩ := hsuits _ _ hoperands
    rw [hoperands, ha, hb]

include hkernel

theorem finished_worker {i : Nat} (hi : i < size - 1) {a : Option RoundResult}
    (hpath : (run s ⟨i + 1, size⟩).Comes (historyOf ms (i + 1)) (.done a)) :
    ∃ f, HasFinished s size files entropy f (i + 1) (historyOf ms (i + 1)) := by
  obtain ⟨f, hsuits⟩ := exists_suits s files entropy
  obtain ⟨-, hplan, -⟩ := meets_worker hargs hhonest hrun hsuits hkernel hi hpath
  suffices hsent : sentTo (historyOf ms 0).deeds (i + 1) .work ≠ [] from
    ⟨f, operands_of_sent hargs hhonest hrun hsuits (by omega) hsent, hplan⟩
  intro hnone
  -- the worker has taken the work of its first round from rank zero
  obtain ⟨-, -, hrounds⟩ := Options.bounds_of_parse hargs
  obtain ⟨n, hn⟩ : ∃ n, s.rounds.toNat = n + 1 := ⟨s.rounds.toNat - 1, by omega⟩
  have hkept := hrun.sentTo_eq rfl 0 (i + 1) .work
  rw [hnone, hplan, workPlan, Factors.takenFrom_workerPlans, hn, List.replicate_succ,
    List.flatMap_cons] at hkept
  have hwork := (List.append_eq_nil_iff.mp (List.append_eq_nil_iff.mp hkept.symm).1).1
  cases hwork

/-- **A rank has finished** when its part is done. -/
theorem finished (hrank : rank < size) {a : Option RoundResult}
    (hpath : (run s ⟨rank, size⟩).Comes (historyOf ms rank) (.done a)) :
    ∃ f, HasFinished s size files entropy f rank (historyOf ms rank) := by
  cases rank with
  | zero => exact finished_zero hargs hhonest hrun hpath
  | succ i => exact finished_worker hargs hkernel hhonest hrun (by omega) hpath

end

/-! ## How the program ends

The program wraps its part in the error policy, and nothing follows the part. Its last state is the
state of the part or one of the few steps of giving up, and each of these is known from the trace. -/

omit [Memory] in
theorem Accounted.cases {x : Error} (h : Accounted s x) (hunreported : x.kind.isReported = false) :
    x.kind = .memory ∨ (∃ y, x = .statistics (.number y)) ∨ (x.kind = .type ∧ s.LeavesBlank) := by
  cases h with
  | reported h =>
      rw [h] at hunreported
      cases hunreported
  | memory h => exact .inl h
  | times y => exact .inr (.inl ⟨y, rfl⟩)
  | blank h hs => exact .inr (.inr ⟨h, hs⟩)

/-- **Where the program is on a rank.** It has failed for want of a log level, or asks for something that
does not end it, or its part is done and no error is recorded, or its part has failed: then this error has
left the program, if it is not reported, or else the program aborts the job and has recorded it. -/
theorem program_cases (hargs : Options.parse args = .ok s) (hhonest : ¬z.rogue rank)
    (hrun : Run z (launch args size readings files entropy) ms t) (hrank : rank < size) {q : Process Unit}
    (hpart : t.parts[rank]? = some q) :
    (s.logLevel = .blank ∧ q = .failed (.log .levelNotText)) ∨
      (∃ r next, q = .ask r next ∧ r.isEnd = false) ∨
      (∃ a, q = .done () ∧ (run s ⟨rank, size⟩).Comes (historyOf ms rank) (.done a) ∧
        complaints (traceOf ms rank) = []) ∨
      ∃ x, (run s ⟨rank, size⟩).Comes (historyOf ms rank) (.failed x) ∧
        ((x.kind.isReported = false ∧ q = .failed x) ∨
          (x.kind.isReported = true ∧ (∃ next, q = .ask (.abort 1) next) ∧
            complaints (traceOf ms rank) = failureRecords x)) := by
  obtain ⟨q', hq', hgoes⟩ := part_of_launch hrun hhonest hrank
  obtain rfl : q' = q := Option.some.inj (hq'.symm.trans hpart)
  cases hlevel : s.logLevel with
  | blank => exact .inl ⟨rfl, (goes_main_blank hargs hlevel hgoes).2⟩
  | value threshold =>
      rcases goes_main hargs hlevel hgoes with ⟨-, rfl⟩ | ⟨g, k, p, htrace, hg, hk, hend⟩
      · -- the rank has not begun
        rw [main_asks hargs hlevel]
        exact .inr (.inl ⟨_, _, rfl, rfl⟩)
      -- what the part did is in order, and what follows it is quiet
      have hsilent : complaints g = [] :=
        complaints_eq_nil ((only_run_orderly s size rank).goes hg).1
      have hcomplaints : complaints (traceOf ms rank) = complaints k := by
        rw [htrace, ← List.singleton_append, complaints_append, complaints_append, hsilent]
        rfl
      have hpath (hquiet : loud k = []) : (run s ⟨rank, size⟩).Comes (historyOf ms rank) p := by
        rw [← loud_traceOf, htrace, loud_cons, loud_append, hquiet, List.append_nil]
        exact hg.comes
      cases p with
      | done a =>
          obtain rfl : k = [] := hend.resolve_right fun ⟨x, hx⟩ => by cases hx
          obtain ⟨-, rfl⟩ := Process.goes_done_iff.mp hk
          exact .inr (.inr (.inl ⟨a, rfl, hpath rfl, hcomplaints⟩))
      | ask r next =>
          obtain rfl : k = [] := hend.resolve_right fun ⟨x, hx⟩ => by cases hx
          have horderly := ((only_run_orderly s size rank).goes hg).2.1.1
          cases hk
          exact .inr (.inl ⟨r, _, rfl, horderly⟩)
      | failed x =>
          rcases goes_failed hk with
            ⟨hunreported, rfl, rfl⟩ | ⟨hreported, hquiet, ⟨entry, next, rfl⟩ | ⟨haborts, hlines⟩⟩
          · exact .inr (.inr (.inr ⟨x, hpath rfl, .inl ⟨hunreported, rfl⟩⟩))
          · exact .inr (.inl ⟨_, _, rfl, rfl⟩)
          · exact .inr (.inr (.inr ⟨x, hpath (loud_of_records hquiet),
              .inr ⟨hreported, haborts, hcomplaints.trans hlines⟩⟩))

/-- **No failure is silent.** In a job without rogue ranks, whatever is in the files and whatever faults
come and go, the program on a rank that has come to an end is done, and the rank has finished its job and
has recorded no error; or it aborts the job with code one, and the errors it has recorded are the line of
the failure and that the job is aborted; or an error has left it for want of memory, because of times
that are out of range, or because an option is blank. -/
theorem no_silent_failure (hargs : Options.parse args = .ok s) (hkernel : s.kernel ≠ .value .device)
    (hrows : s.rows < 2 ^ 31) (hinner : s.inner < 2 ^ 31) (hhonest : ∀ rank, ¬z.rogue rank)
    (hrun : Run z (launch args size readings files entropy) ms t) {q : Process Unit}
    (hpart : t.parts[rank]? = some q) :
    (q = .done () → (∃ f, HasFinished s size files entropy f rank (historyOf ms rank)) ∧
      complaints (traceOf ms rank) = []) ∧
    (∀ r next, q = .ask r next → r.isEnd = true → r = .abort 1 ∧
      ∃ x, (run s ⟨rank, size⟩).Comes (historyOf ms rank) (.failed x) ∧
        x.kind.isReported = true ∧ complaints (traceOf ms rank) = failureRecords x) ∧
    ∀ x, q = .failed x → x.kind = .memory ∨ (∃ y, x = .statistics (.number y)) ∨
      (x.kind = .type ∧ s.LeavesBlank) := by
  obtain ⟨hrowsNat, hinnerNat, -⟩ := Options.bounds_of_parse hargs
  have hrank : rank < size := by
    have hlt := (List.getElem?_eq_some_iff.mp hpart).1
    rwa [hrun.length_parts, length_launch] at hlt
  rcases program_cases hargs (hhonest rank) hrun hrank hpart with
    ⟨hlevel, rfl⟩ | ⟨r, next, rfl, hr⟩ | ⟨a, rfl, hpath, hnone⟩ |
    ⟨x, hpath, ⟨hunreported, rfl⟩ | ⟨hreported, ⟨next, rfl⟩, hlines⟩⟩
  · refine ⟨nofun, nofun, fun x hx => ?_⟩
    cases hx
    exact .inr (.inr ⟨rfl, .inr (.inr (.inr (.inr hlevel)))⟩)
  · refine ⟨nofun, fun r' next' hask hend => ?_, nofun⟩
    cases hask
    rw [hr] at hend
    cases hend
  · exact ⟨fun _ => ⟨finished hargs hkernel hhonest hrun hrank hpath, hnone⟩, nofun, nofun⟩
  · refine ⟨nofun, nofun, fun y hy => ?_⟩
    cases hy
    have haccounted := accounted hargs hkernel hhonest hrun (by omega) (by omega) hrank hpath
    exact haccounted.cases hunreported
  · refine ⟨nofun, fun r next' hask _ => ?_, nofun⟩
    cases hask
    exact ⟨rfl, x, hpath, hreported, hlines⟩

/-- A rank of a launched job can set up its log first. -/
theorem run_begin {threshold : Level} (hargs : Options.parse args = .ok s)
    (hlevel : s.logLevel = .value threshold) (hhonest : ¬z.rogue rank) (hrank : rank < size) :
    Run z (launch args size readings files entropy) [.act rank ⟨.setUpLog ⟨rank, threshold⟩, ()⟩]
      ⟨(launch args size readings files entropy).parts.set rank (guarded (run s ⟨rank, size⟩)),
        (Host.initial size readings files entropy).onConsole rank (·.setUpLog ⟨rank, threshold⟩)⟩ := by
  have hpart : (launch args size readings files entropy).parts[rank]? = some (.ask
      (.setUpLog ⟨rank, threshold⟩) fun _ => guarded (run s ⟨rank, size⟩)) := by
    rw [launch_of_lt hrank, main_asks hargs hlevel]
  exact Run.refl.step (.act hhonest hpart rfl)

end

def absent : Settings Int :=
  { Settings.initial with
    rows := 20, inner := 32, rounds := 1
    matrixA := some (.value "a.csv"), matrixB := some (.value "b.csv") }

/-- Where the files are not there, rank zero records that the first one is missing, and aborts. -/
theorem no_silent_failure_absent :
    ∃ ms t next, Run .none (launch ["--matrix-a=a.csv", "--matrix-b=b.csv"] 2 [] ⟨[]⟩ 0) ms t ∧
      t.parts[0]? = some (.ask (.abort 1) next) ∧
      ∃ x, (run absent ⟨0, 2⟩).Comes (historyOf ms 0) (.failed x) ∧ x.kind.isReported = true ∧
        complaints (traceOf ms 0) = failureRecords x := by
  have hargs : Options.parse ["--matrix-a=a.csv", "--matrix-b=b.csv"] = .ok absent := by
    decide +kernel
  have hbegin : Run .none (launch ["--matrix-a=a.csv", "--matrix-b=b.csv"] 2 [] ⟨[]⟩ 0)
      [.act 0 ⟨.setUpLog ⟨0, .warning⟩, ()⟩] _ := run_begin hargs rfl id (by decide)
  have hread := hbegin.step (m := .act 0 ⟨.read "a.csv", .error (.missing "a.csv")⟩)
    (.act id rfl rfl)
  have hline := hread.step
    (m := .act 0 ⟨.record ⟨logger, .error, Error.line (.file (.missing "a.csv"))⟩, ()⟩)
    (.act id rfl rfl)
  have hlast := hline.step
    (m := .act 0 ⟨.record ⟨Endpoint.logger, .error, "aborting job with code 1"⟩, ()⟩)
    (.act id rfl rfl)
  obtain ⟨ms, t, next, hrun, hpart⟩ : ∃ ms t next,
      Run .none (launch ["--matrix-a=a.csv", "--matrix-b=b.csv"] 2 [] ⟨[]⟩ 0) ms t ∧
        t.parts[0]? = some (.ask (.abort 1) next) := ⟨_, _, _, hlast, rfl⟩
  obtain ⟨-, hreports, -⟩ := no_silent_failure hargs (by decide) (by decide) (by decide)
    (fun _ => id) hrun hpart
  exact ⟨ms, t, next, hrun, hpart, (hreports (.abort 1) next rfl rfl).2⟩

def vast : Settings Int :=
  { Settings.initial with
    rows := 536870912, inner := 1073741824, rounds := 1, fill := .value .random }

/-- **For want of memory** an error leaves the program and is not recorded. -/
theorem memory_failure_silent :
    ∃ ms t x, Options.parse ["--fill", "random", "--rows=536870912", "--inner=1073741824"]
        = .ok vast ∧ vast.kernel = .value .rows ∧ vast.rows < 2 ^ 31 ∧ vast.inner < 2 ^ 31 ∧
      Run .none (launch ["--fill", "random", "--rows=536870912", "--inner=1073741824"] 2 [] ⟨[]⟩ 0)
        ms t ∧
      t.parts[0]? = some (.failed x) ∧ x.kind = .memory ∧ complaints (traceOf ms 0) = [] := by
  have hargs : Options.parse ["--fill", "random", "--rows=536870912", "--inner=1073741824"]
      = .ok vast := by
    decide +kernel
  have hbegin : Run .none
      (launch ["--fill", "random", "--rows=536870912", "--inner=1073741824"] 2 [] ⟨[]⟩ 0)
      [.act 0 ⟨.setUpLog ⟨0, .warning⟩, ()⟩] _ := run_begin hargs rfl id (by decide)
  have hseed := hbegin.step (m := .act 0 ⟨.entropy, (0 : Nat)⟩) (.act id rfl rfl)
  exact ⟨_, _, _, hargs, rfl, by decide, by decide, hseed, rfl, rfl, rfl⟩

end Program

end RowBlock
