import RowBlock.Proofs.GivenOptions
import RowBlock.Proofs.HostRuns
import RowBlock.Proofs.JobRounds
import RowBlock.Proofs.ResultCheck
import RowBlock.Proofs.Traces

set_option autoImplicit false

/-! # Launched jobs

A job is launched with the program on every rank (`Program.launch`). The program sets up its log, runs
its part and gives up where that fails (`goes_main`), so the history of a rank is a path of its part
(`comes_run`). What a part asks for is orderly: it records no error and ends nothing by itself
(`only_run_orderly`). Rank zero gets its operands, runs its rounds and finishes (`complete_cases`). Without
rogue ranks it sends the work of its rounds (`sends_zero`), each worker follows its plan
(`meets_worker`), and so the workers keep up at every moment (`workersKeepUp`), whatever faults come
and go.
-/

namespace RowBlock

/-! ## Orderly requests

Records of errors and the ends of the program are left to the error policy. Everything a part asks
for by itself is orderly, which is how a record of an error can be traced back to a failure. -/

def Request.Orderly (r : Request) : Prop :=
  r.isEnd = false ∧ ∀ entry, r = .record entry → entry.level ≠ .error

namespace Request

variable {r : Request}

theorem orderly_of_isRead (h : r.isRead = true) : r.Orderly := by
  cases r with
  | read path => exact ⟨rfl, nofun⟩
  | entropy => exact ⟨rfl, nofun⟩
  | _ => cases h

theorem orderly_of_isNote (h : Coordinator.IsNote r) : r.Orderly := by
  obtain ⟨entry, rfl, hlevel⟩ := h
  refine ⟨rfl, fun other hother => ?_⟩
  cases hother
  exact hlevel

theorem orderly_of_communicates {channel : Channel} (h : Coordinator.Communicates channel r) :
    r.Orderly := by
  rcases h with (hnote | ⟨source, c, rfl⟩) | ⟨dest, payload, rfl⟩
  · exact orderly_of_isNote hnote
  · exact ⟨rfl, nofun⟩
  · exact ⟨rfl, nofun⟩

theorem orderly_of_keeps (h : Coordinator.Keeps r) : r.Orderly := by
  rcases h with rfl | h
  · exact ⟨rfl, nofun⟩
  · exact orderly_of_communicates h

theorem orderly_of_announces (h : Program.Announces r) : r.Orderly := by
  rcases h with hnote | ⟨text, rfl⟩ | hwrite
  · exact orderly_of_isNote hnote
  · exact ⟨rfl, nofun⟩
  · cases r with
    | write path content => exact ⟨rfl, nofun⟩
    | _ => cases hwrite

end Request

theorem complaints_eq_nil {l : List Event} (horderly : ∀ e ∈ l, e.request.Orderly) :
    complaints l = [] := by
  apply List.filterMap_eq_nil_iff.mpr
  rintro ⟨r, answer⟩ he
  have hr := (horderly _ he).2
  cases r with
  | record entry => exact if_neg (hr entry rfl)
  | _ => rfl

namespace Program

open Coordinator

variable {args : List String} {s : Settings Int} {size rank : Nat} {readings : List Float}
  {files : Files} {entropy : Nat} {e : Endpoint}

variable [Memory]

/-- **The launch of a job**: every rank is about to run the program, and no message is in flight. -/
def launch (args : List String) (size : Nat) (readings : List Float) (files : Files)
    (entropy : Nat) : Ensemble :=
  ⟨(List.range size).map fun rank => main args ⟨rank, size⟩, .initial size readings files entropy⟩

theorem length_launch : (launch args size readings files entropy).parts.length = size := by simp [launch]

theorem launch_of_lt (hrank : rank < size) :
    (launch args size readings files entropy).parts[rank]? = some (main args ⟨rank, size⟩) := by
  simp [launch, hrank]

/-! ## The program

A trace lists everything a rank does, quiet requests included, since the log is what the theory of
failures is about. The trace of the program is the trace of its part, with one request before it
and, if the part fails, a few after it. -/

def guarded (p : Process (Option RoundResult)) : Process Unit :=
  p.recover giveUp >>= fun _ => Process.done ()

theorem main_eq (hargs : Options.parse args = .ok s) (e : Endpoint) :
    main args e = setUpLog e.rank s.logLevel >>= fun _ => guarded (run s e) := by
  have hsettings : settings args = Process.done s := by
    rw [settings, hargs]
    rfl
  rw [main, hsettings, Process.done_bind]
  rfl

omit [Memory] in
/-- **A trace of a guarded part** is one of the part, unless it fails. -/
theorem goes_guarded {p₀ : Process (Option RoundResult)} {l : List Event} {q : Process Unit}
    (hp : (guarded p₀).Goes l q) :
    ∃ g k p, l = g ++ k ∧ p₀.Goes g p ∧ (guarded p).Goes k q ∧ (k = [] ∨ ∃ x, p = .failed x) := by
  induction p₀ generalizing l with
  | done a =>
      obtain ⟨rfl, rfl⟩ := Process.goes_done_iff.mp hp
      exact ⟨[], [], _, rfl, .refl _, .refl _, .inl rfl⟩
  | failed x => exact ⟨[], l, _, rfl, .refl _, hp, .inr ⟨x, rfl⟩⟩
  | ask r next ih =>
      have hask : guarded (.ask r next) = .ask r fun answer => guarded (next answer) := rfl
      rw [hask] at hp
      cases hp with
      | refl => exact ⟨[], [], _, rfl, .refl _, .refl _, .inl rfl⟩
      | answered hnext =>
          obtain ⟨g, k, p, rfl, hg, hk, hend⟩ := ih _ hnext
          exact ⟨_ :: g, k, p, rfl, .answered hg, hk, hend⟩

omit [Memory] in
/-- A level that can be chosen is found under its name. -/
theorem setUpLog_eq {threshold : Level} (hlevel : threshold ∈ [Level.debug, .info, .warning, .error])
    (rank : Nat) :
    setUpLog rank (.value threshold) = Process.request (.setUpLog ⟨rank, threshold⟩) := by
  simp only [List.mem_cons, List.not_mem_nil, or_false] at hlevel
  rcases hlevel with rfl | rfl | rfl | rfl <;> rfl

theorem main_asks {threshold : Level} (hargs : Options.parse args = .ok s)
    (hlevel : s.logLevel = .value threshold) (e : Endpoint) :
    main args e = .ask (.setUpLog ⟨e.rank, threshold⟩) fun _ => guarded (run s e) := by
  rw [main_eq hargs, hlevel, setUpLog_eq (Options.logLevel_of_parse hargs hlevel)]
  rfl

/-- **A trace of the program**: the log is set up, and the part is run. -/
theorem goes_main {threshold : Level} {l : List Event} {q : Process Unit}
    (hargs : Options.parse args = .ok s) (hlevel : s.logLevel = .value threshold)
    (hp : (main args e).Goes l q) :
    (l = [] ∧ q = main args e) ∨ ∃ g k p,
      l = ⟨.setUpLog ⟨e.rank, threshold⟩, ()⟩ :: (g ++ k) ∧ (run s e).Goes g p ∧
        (guarded p).Goes k q ∧ (k = [] ∨ ∃ x, p = .failed x) := by
  rw [main_asks hargs hlevel] at hp ⊢
  cases hp with
  | refl => exact .inl ⟨rfl, rfl⟩
  | answered hnext =>
      obtain ⟨g, k, p, rfl, hg, hk, hend⟩ := goes_guarded hnext
      exact .inr ⟨g, k, p, rfl, hg, hk, hend⟩

/-- With a blank log level the program does not get to its part. -/
theorem goes_main_blank {l : List Event} {q : Process Unit} (hargs : Options.parse args = .ok s)
    (hlevel : s.logLevel = .blank) (hp : (main args e).Goes l q) :
    l = [] ∧ q = .failed (.log .levelNotText) := by
  rw [main_eq hargs, hlevel] at hp
  exact Process.goes_failed_iff.mp hp

def failureRecords (x : Error) : List LogRecord :=
  [⟨logger, .error, x.line⟩, ⟨Endpoint.logger, .error, "aborting job with code 1"⟩]

omit [Memory] in
/-- **A trace of a failed part**: the failure leaves the program, or it is recorded and the job is
aborted. -/
theorem goes_failed {x : Error} {k : List Event} {q : Process Unit}
    (hp : (guarded (.failed x)).Goes k q) :
    (x.kind.isReported = false ∧ k = [] ∧ q = .failed x) ∨ (x.kind.isReported = true ∧
      (∀ e ∈ k, ∃ entry, e.request = .record entry) ∧
        ((∃ entry next, q = .ask (.record entry) next) ∨
          (∃ next, q = .ask (.abort 1) next) ∧ complaints k = failureRecords x)) := by
  cases hreported : x.kind.isReported with
  | false =>
      have hfailed : guarded (.failed x) = .failed x := by
        show (giveUp x : Process (Option RoundResult)) >>= _ = _
        rw [giveUp, hreported]
        rfl
      rw [hfailed] at hp
      obtain ⟨rfl, rfl⟩ := Process.goes_failed_iff.mp hp
      exact .inl ⟨rfl, rfl, rfl⟩
  | true =>
      obtain ⟨next, hasks⟩ : ∃ next, guarded (.failed x)
          = .ask (.record ⟨logger, .error, x.line⟩) fun _ =>
              .ask (.record ⟨Endpoint.logger, .error, "aborting job with code 1"⟩) fun _ =>
                .ask (.abort 1) next := by
        refine ⟨nofun, ?_⟩
        show (giveUp x : Process (Option RoundResult)) >>= _ = _
        rw [giveUp, hreported, if_pos rfl]
        show Process.ask _ _ = _
        congr 1
        funext _
        show Process.ask _ _ = _
        congr 1
        funext _
        show Process.ask _ _ = _
        congr 1
        funext never
        exact never.elim
      rw [hasks] at hp
      refine .inr ⟨rfl, ?_⟩
      cases hp with
      | refl => exact ⟨by simp, .inl ⟨_, _, rfl⟩⟩
      | answered hp =>
          cases hp with
          | refl => exact ⟨by simp, .inl ⟨_, _, rfl⟩⟩
          | answered hp =>
              cases hp with
              | refl => exact ⟨by simp, .inr ⟨⟨_, rfl⟩, rfl⟩⟩
              | @answered _ _ never _ _ _ => exact never.elim

omit [Memory] in
theorem loud_of_records {k : List Event} (hk : ∀ e ∈ k, ∃ entry, e.request = .record entry) :
    loud k = [] := by
  refine loud_eq_nil fun e he => ?_
  obtain ⟨entry, hentry⟩ := hk e he
  rw [hentry]
  rfl

/-- **The history of a rank** is a path of its part. -/
theorem comes_run {l : List Event} {q : Process Unit} (hargs : Options.parse args = .ok s)
    (hp : (main args e).Goes l q) : ∃ p, (run s e).Comes (loud l) p := by
  cases hlevel : s.logLevel with
  | blank =>
      obtain ⟨rfl, -⟩ := goes_main_blank hargs hlevel hp
      exact ⟨_, .refl _⟩
  | value threshold =>
      rcases goes_main hargs hlevel hp with ⟨rfl, -⟩ | ⟨g, k, p, rfl, hg, hk, hend⟩
      · exact ⟨_, .refl _⟩
      · have hquiet : loud k = [] := by
          rcases hend with rfl | ⟨x, rfl⟩
          · rfl
          · rcases goes_failed hk with ⟨-, rfl, -⟩ | ⟨-, hquiet, -⟩
            · rfl
            · exact loud_of_records hquiet
        refine ⟨p, ?_⟩
        rw [loud_cons, loud_append, hquiet, List.append_nil]
        exact hg.comes

/-! ## Rank zero

Rank zero goes through four stages, and its history is cut where one ends and the next begins. The
cuts are by the process and not by the kind of requests, so each stage can be looked at with its own
contract. -/

section

variable {h : History} {f : Factors}

omit [Memory] in
theorem create_zero {x : RoleError} {order : Setting Order} {skipEmpty : Bool} (hsize : 2 ≤ size)
    (h : Coordinator.create ⟨0, size⟩ (orderName order) skipEmpty = .error x) :
    order = .blank ∧ x = .unknownOrder "[]" := by
  have hrequired : Endpoint.requireWorkers ⟨0, size⟩ = .ok () := if_neg (Nat.not_lt.mpr hsize)
  have hcoordinator : (⟨0, size⟩ : Endpoint).isCoordinator = true := rfl
  unfold Coordinator.create at h
  rw [hcoordinator, hrequired] at h
  cases order with
  | blank =>
      cases h
      exact ⟨rfl, rfl⟩
  | value order => cases order <;> cases h

/-- **Where rank zero is while it completes its rounds**: it has too few workers, it gets its operands,
it has no order to collect replies in, or it runs its rounds with the operands as factors. -/
theorem complete_cases {q : Process (Tensor × Tensor × List RoundResult)}
    (hpath : (complete s ⟨0, size⟩).Comes h q) :
    (size < 2 ∧ h = [] ∧ q = .failed (.role (.tooFewRanks size))) ∨
      (∃ x, (operands s).Comes h (.failed x) ∧ q = .failed x) ∨
      (∃ r next next', (operands s).Comes h (.ask r next) ∧ r.isRead = true ∧ q = .ask r next') ∨
      ∃ (f : Factors) (reads k : History), 2 ≤ size ∧ h = reads ++ k ∧
        (∀ e ∈ reads, e.request.isRead = true) ∧ (operands s).Comes reads (.done (f.a, f.b)) ∧
        f.cols = f.rows ∧
        ((s.order = .blank ∧ k = [] ∧ q = .failed (.role (.unknownOrder "[]"))) ∨
          ∃ (c : Coordinator) (q' : Process (List RoundResult)), c.endpoint = ⟨0, size⟩ ∧
            c.skipEmpty = s.skipEmpty ∧
            (roundsFrom c f.a f.b 1 s.rounds.toNat).Comes k q' ∧
            q = q' >>= fun results => .done (f.a, f.b, results)) := by
  by_cases hsize : size < 2
  · have hrequired : Endpoint.requireWorkers ⟨0, size⟩ = .error (.tooFewRanks size) := if_pos hsize
    rw [complete, hrequired] at hpath
    obtain ⟨rfl, rfl⟩ := Process.comes_failed_iff.mp hpath
    exact .inl ⟨hsize, rfl, rfl⟩
  · have hrequired : Endpoint.requireWorkers ⟨0, size⟩ = .ok () := if_neg hsize
    rw [complete, hrequired, Process.ofExcept, Process.done_bind] at hpath
    rcases Process.Comes.bind_cases hpath with ⟨x, hx, rfl⟩ | ⟨r, next, hr, rfl⟩ |
      ⟨⟨a, b⟩, reads, k, rfl, hgiven, hrest⟩
    · exact .inr (.inl ⟨x, hx, rfl⟩)
    · exact .inr (.inr (.inl ⟨r, next, _, hr, ((only_operands s).comes hr).2.1, rfl⟩))
    · obtain ⟨f, rfl, rfl, hsquare⟩ := comes_operands_done hgiven
      refine .inr (.inr (.inr ⟨f, reads, k, Nat.le_of_not_lt hsize, rfl,
        ((only_operands s).comes hgiven).1, hgiven, hsquare, ?_⟩))
      dsimp only at hrest
      cases hcreate : Coordinator.create ⟨0, size⟩ (orderName s.order) s.skipEmpty with
      | error x =>
          rw [hcreate] at hrest
          obtain ⟨rfl, rfl⟩ := Process.comes_failed_iff.mp hrest
          obtain ⟨hblank, rfl⟩ := create_zero (Nat.le_of_not_lt hsize) hcreate
          exact .inl ⟨hblank, rfl, rfl⟩
      | ok c =>
          rw [hcreate, Process.ofExcept, Process.done_bind] at hrest
          obtain ⟨hendpoint, hskip⟩ := eq_of_create hcreate
          rcases Process.Comes.of_bind hrest with ⟨q', hq', rfl⟩ | ⟨results, g, l, rfl, hg, hl⟩
          · exact .inr ⟨c, q', hendpoint, hskip, hq', rfl⟩
          · obtain ⟨rfl, rfl⟩ := Process.comes_done_iff.mp hl
            rw [List.append_nil]
            exact .inr ⟨c, .done results, hendpoint, hskip, hg, rfl⟩

theorem only_finish (x : Tensor × Tensor × List RoundResult) :
    (finish s e x).Only Announces fun _ => True := by
  rcases x with ⟨a, b, results⟩
  simp only [finish]
  split
  · trivial
  · have hreport (last : RoundResult) : (report s e a b results last).Only Announces fun _ => True :=
      (only_report s e a b results last).imp (fun _ h => h) fun _ _ => trivial
    split
    · exact (only_verify _ _ _ _).bind fun _ => (hreport _).bind fun _ => trivial
    · exact (hreport _).bind fun _ => trivial

/-- **Where rank zero is**: it completes its rounds, or it has completed them and finishes. -/
theorem run_zero_cases {p : Process (Option RoundResult)} (hpath : (run s ⟨0, size⟩).Comes h p) :
    ∃ (g k : History) (q : Process (Tensor × Tensor × List RoundResult)), h = g ++ k ∧
      (complete s ⟨0, size⟩).Comes g q ∧ (∀ e ∈ k, Announces e.request) ∧
      ((∃ x, k = [] ∧ q = .failed x ∧ p = .failed x) ∨
        (∃ r next next', k = [] ∧ q = .ask r next ∧ p = .ask r next') ∨
        ∃ x, q = .done x ∧ (finish s ⟨0, size⟩ x).Comes k p) := by
  rw [run_zero] at hpath
  rcases hpath.bind_cases with ⟨x, hx, rfl⟩ | ⟨r, next, hr, rfl⟩ | ⟨x, g, k, rfl, hg, hk⟩
  · exact ⟨h, [], _, (List.append_nil h).symm, hx, by simp, .inl ⟨x, rfl, rfl, rfl⟩⟩
  · exact ⟨h, [], _, (List.append_nil h).symm, hr, by simp, .inr (.inl ⟨r, _, _, rfl, rfl, rfl⟩)⟩
  · exact ⟨g, k, _, rfl, hg, ((only_finish x).comes hk).1, .inr (.inr ⟨x, rfl, hk⟩)⟩

omit [Memory] in
theorem deeds_of_announces {k : History} (hk : ∀ e ∈ k, Announces e.request) : k.deeds = [] := by
  apply List.filterMap_eq_nil_iff.mpr
  rintro ⟨r, answer⟩ he
  rcases hk _ he with ⟨entry, hr, -⟩ | ⟨text, hr⟩ | hwrite
  · cases hr
    rfl
  · cases hr
    rfl
  · cases r <;> first | rfl | cases hwrite

end

/-- **A rank is orderly** as long as its part has not failed. -/
theorem only_run_orderly (s : Settings Int) (size rank : Nat) :
    (run s ⟨rank, size⟩).Only Request.Orderly fun _ => True := by
  by_cases hrank : rank = 0
  · subst hrank
    rw [run_zero]
    refine Process.Only.bind ?_ fun x => (only_finish x).imp
      (fun _ => Request.orderly_of_announces) fun _ => id
    exact (only_complete s _).imp
      (fun _ h => h.elim Request.orderly_of_isRead Request.orderly_of_keeps) fun _ _ => trivial
  · exact (only_run hrank).imp (fun _ => Request.orderly_of_communicates) fun _ => id

/-! ## Runs without rogue ranks

Rank zero reads its operands before it sends anything, and nothing is written meanwhile, so the
factors of the job are determined by the files at the launch. Without operands there are no rounds,
and any factors suit. The contracts of rank zero and of the workers then hold by an induction over
the run, as for a crew. -/

/-- **Factors that suit the files**: the operands that the settings name in them, if there are any. -/
def Suits (f : Factors) (s : Settings Int) (files : Files) (entropy : Nat) : Prop :=
  ∀ a b, operandsOf s files entropy = .done (a, b) → a = f.a ∧ b = f.b

theorem exists_suits (s : Settings Int) (files : Files) (entropy : Nat) :
    ∃ f : Factors, Suits f s files entropy := by
  rcases hoperands : operandsOf s files entropy with ⟨a, b⟩ | _ | _ | _ | _
  · have hrun : (Host.initial 1 [] files entropy).run coordinatorRank (operands s)
        = (.done (a, b), ((Host.initial 1 [] files entropy).run coordinatorRank (operands s)).2) :=
      Prod.ext hoperands rfl
    obtain ⟨h, -, hpath⟩ := Host.comes_of_done hrun
    obtain ⟨f, rfl, rfl, -⟩ := comes_operands_done hpath
    refine ⟨f, fun a b hab => ?_⟩
    rw [hoperands] at hab
    cases hab
    exact ⟨rfl, rfl⟩
  -- without operands any factors will do
  all_goals
    refine ⟨⟨.int64, 0, 0, 0, .zeros (.int .int64) [0, 0], .zeros (.int .int64) [0, 0], ⟨rfl, rfl⟩,
      ⟨rfl, rfl⟩⟩, fun a b hab => ?_⟩
    rw [hoperands] at hab
    cases hab

section

variable {z : Hazards} {ms : List Move} {t : Ensemble} {f : Factors}

theorem part_of_launch (hrun : Run z (launch args size readings files entropy) ms t)
    (hhonest : ¬z.rogue rank) (hrank : rank < size) :
    ∃ q, t.parts[rank]? = some q ∧ (main args ⟨rank, size⟩).Goes (traceOf ms rank) q :=
  hrun.goes hhonest (launch_of_lt hrank)

theorem comes_of_launch (hargs : Options.parse args = .ok s)
    (hrun : Run z (launch args size readings files entropy) ms t) (hhonest : ¬z.rogue rank)
    (hrank : rank < size) : ∃ p, (run s ⟨rank, size⟩).Comes (historyOf ms rank) p := by
  obtain ⟨q, -, hgoes⟩ := part_of_launch hrun hhonest hrank
  rw [← loud_traceOf]
  exact comes_run hargs hgoes

/-- A rank beside zero communicates only. -/
theorem communicates_of_launch (hargs : Options.parse args = .ok s)
    (hrun : Run z (launch args size readings files entropy) ms t) (hhonest : ¬z.rogue rank)
    (hne : rank ≠ 0) : ∀ e ∈ historyOf ms rank, Communicates .result e.request := by
  by_cases hrank : rank < size
  · obtain ⟨p, hpath⟩ := comes_of_launch hargs hrun hhonest hrank
    exact ((only_run hne).comes hpath).1
  · rw [hrun.historyOf_eq_nil hhonest (by rw [length_launch]; omega)]
    exact fun e he => absurd he List.not_mem_nil

theorem isWrite_of_launch (hargs : Options.parse args = .ok s)
    (hrun : Run z (launch args size readings files entropy) ms t) (hhonest : ¬z.rogue rank)
    (hne : rank ≠ 0) : ∀ e ∈ historyOf ms rank, e.request.isWrite = false := fun e he =>
  Request.isWrite_of_isOutput
    (isOutput_of_communicates (communicates_of_launch hargs hrun hhonest hne e he))

variable (hargs : Options.parse args = .ok s) (hhonest : ∀ rank, ¬z.rogue rank)
  (hrun : Run z (launch args size readings files entropy) ms t)

include hargs hhonest hrun

/-- **What rank zero reads before it writes** is what the files hold at the launch. -/
theorem readsOf_launch {g k : History} (hsplit : historyOf ms 0 = g ++ k)
    (hreads : ∀ e ∈ g, e.request.isRead = true) : ∀ e ∈ g, e.IsReadOf files entropy := by
  refine hrun.readsOf (fun rank => isWrite_of_launch hargs hrun (hhonest rank)) hsplit fun e he => ?_
  exact Request.isWrite_of_isOutput (Request.isOutput_of_isRead (hreads e he))

/-- **The factors of the rounds of rank zero** are those that suit the files. -/
theorem factors_eq (hsuits : Suits f s files entropy) {g : Factors} {reads k : History}
    (hsplit : historyOf ms 0 = reads ++ k) (hreads : ∀ e ∈ reads, e.request.isRead = true)
    (hpath : (operands s).Comes reads (.done (g.a, g.b))) : g.a = f.a ∧ g.b = f.b :=
  hsuits _ _ (operandsOf_eq hpath (readsOf_launch hargs hhonest hrun hsplit hreads))

theorem source_of_result {source : Nat}
    (htaken : takenFrom (historyOf ms 0).deeds source .result ≠ []) :
    ∃ i < size - 1, source = i + 1 := by
  have hsent : sentTo (historyOf ms source).deeds 0 .result ≠ [] := by
    intro hnone
    have hkept := hrun.sentTo_eq rfl source 0 .result
    rw [hnone] at hkept
    exact htaken (List.append_eq_nil_iff.mp hkept.symm).1
  have hlt : source < size := by
    by_contra hout
    rw [hrun.historyOf_eq_nil (hhonest source) (by rw [length_launch]; omega)] at hsent
    exact hsent rfl
  cases source with
  | succ i => exact ⟨i, by omega, rfl⟩
  | zero =>
      -- rank zero sends work only
      obtain ⟨p, hpath⟩ := comes_of_launch hargs hrun (hhonest 0) hlt
      obtain ⟨g, k, q, hsplit, hcomplete, hannounces, -⟩ := run_zero_cases hpath
      obtain ⟨payload, hmem⟩ := exists_sent hsent
      rw [hsplit, History.deeds_append, deeds_of_announces hannounces, List.append_nil] at hmem
      obtain ⟨⟨r, answer⟩, he, hdeed⟩ := List.mem_filterMap.mp hmem
      rcases ((only_complete s _).comes hcomplete).1 _ he with
        hread | hclock | (hnote | ⟨source, channel, hr⟩) | ⟨dest, payload', hr⟩
      · cases r <;> first | cases hdeed | cases hread
      · cases hclock
        cases hdeed
      · rw [Event.deed?_of_quiet hnote.isQuiet] at hdeed
        cases hdeed
      · cases hr
        rcases answer with cause | x <;> cases hdeed
      · cases hr
        rcases answer with cause | ⟨⟩ <;> cases hdeed

/-- **Rank zero sends the work of its rounds**, whatever it receives. -/
theorem sends_zero (hsuits : Suits f s files entropy) : (historyOf ms 0).deeds.filter Deed.isSent
    <+: sendPlan f s.rounds.toNat (size - 1) s.skipEmpty := by
  by_cases hsize : 0 < size
  swap
  · rw [hrun.historyOf_eq_nil (hhonest 0) (by rw [length_launch]; omega)]
    exact List.nil_prefix
  have hadmitted := hrun.admitted 0
  have hsources (source : Nat)
      (htaken : takenFrom (historyOf ms 0).deeds source .result ≠ []) :
      ∃ i < size - 1, source = i + 1 := source_of_result hargs hhonest hrun htaken
  obtain ⟨p, hpath⟩ := comes_of_launch hargs hrun (hhonest 0) hsize
  obtain ⟨g, k, q, hsplit, hcomplete, hannounces, -⟩ := run_zero_cases hpath
  rw [hsplit] at hadmitted hsources ⊢
  rw [History.deeds_append, deeds_of_announces hannounces, List.append_nil] at hsources ⊢
  rcases complete_cases hcomplete with ⟨-, rfl, -⟩ | ⟨x, hx, -⟩ | ⟨r, next, -, hr, -⟩ |
    ⟨f', reads, l, htwo, rfl, hreads, hgiven, -, hrounds⟩
  · exact List.nil_prefix
  · rw [deeds_of_isRead ((only_operands s).comes hx).1]
    exact List.nil_prefix
  · rw [deeds_of_isRead ((only_operands s).comes hr).1]
    exact List.nil_prefix
  · rw [History.deeds_append, deeds_of_isRead hreads, List.nil_append] at hsources ⊢
    rcases hrounds with ⟨-, rfl, -⟩ | ⟨c, q', hendpoint, hskip, hq', -⟩
    · exact List.nil_prefix
    · obtain ⟨ha, hb⟩ := factors_eq hargs hhonest hrun hsuits
        (hsplit.trans (List.append_assoc _ _ _)) hreads hgiven
      rw [ha, hb] at hq'
      have hworkers : c.endpoint.workers = (size - 1 : Nat) := by
        rw [hendpoint]
        simp only [Endpoint.workers]
        omega
      -- the rounds send their plans even if no worker is known to be honest
      have hmeets : (roundsFrom c f.a f.b 1 s.rounds.toNat).Meets (resultsContract f
          s.rounds.toNat (size - 1) s.skipEmpty fun _ => False) [] :=
        meets_roundsFrom hskip hworkers (by omega)
      refine (hmeets.comes hq' fun m hm => ⟨fun e he => ?_, fun source hsome => ?_, ?_⟩).holds
      · exact hadmitted e (List.mem_append_left _ (List.mem_append_right _ (hm.subset he)))
      · obtain ⟨rest, rfl⟩ := hm
        refine hsources source ?_
        rw [History.deeds_append, takenFrom_append]
        exact fun hnone => hsome (List.append_eq_nil_iff.mp hnone).1
      · exact fun i hi hnever => hnever.elim

/-- **A worker follows its plan**: where its part is, it meets the contract of its plan. -/
theorem meets_worker (hsuits : Suits f s files entropy) (hkernel : s.kernel ≠ .value .device) {i : Nat}
    (hi : i < size - 1) {p : Process (Option RoundResult)}
    (hpath : (run s ⟨i + 1, size⟩).Comes (historyOf ms (i + 1)) p) :
    p.Meets (planContract (workPlan f s.rounds.toNat (size - 1) s.skipEmpty i) (fun _ => True)
      (WorkerFailure s f)) (historyOf ms (i + 1)) := by
  have hstart : (run s ⟨i + 1, size⟩).Meets (planContract (workPlan f s.rounds.toNat (size - 1)
      s.skipEmpty i) (fun _ => True) (WorkerFailure s f)) [] :=
    (follows_run hi hkernel f).meets rfl rfl
  have htaken : takenFrom (historyOf ms (i + 1)).deeds 0 .work
      <+: (List.replicate s.rounds.toNat f).flatMap fun f =>
        f.workFields (size - 1) s.skipEmpty i := by
    have hsent := sentTo_isPrefix (sends_zero hargs hhonest hrun hsuits) (i + 1) .work
    rw [sentTo_filter, sendPlan, Factors.sentTo_coordinatorPlans hi] at hsent
    refine List.IsPrefix.trans ?_ hsent
    rw [hrun.sentTo_eq rfl 0 (i + 1) .work]
    exact List.prefix_append _ _
  refine hstart.comes hpath fun k hk => ?_
  -- at every point of its path the worker has taken no more than was sent to it
  obtain ⟨rest, hrest⟩ : k <+: historyOf ms (i + 1) := hk
  rw [← hrest, History.deeds_append, takenFrom_append] at htaken
  refine Factors.workerPlans_rely (fun e he => hrun.admitted (i + 1) e ?_)
    ((List.prefix_append _ _).trans htaken)
  rw [← hrest]
  exact List.mem_append_left _ he

omit hrun in
/-- **The workers keep up** with rank zero at every moment of its history. -/
theorem workersKeepUp (hrun : Run z (launch args size readings files entropy) ms t)
    (hsuits : Suits f s files entropy) (hkernel : s.kernel ≠ .value .device) {k : History}
    (hk : k <+: historyOf ms 0) :
    WorkersKeepUp (List.replicate s.rounds.toNat f) (size - 1) s.skipEmpty (fun _ => True) k := by
  -- the first part of the history is the history of a first part of the run
  obtain ⟨rest, hrest⟩ := hk
  obtain ⟨before, after, rfl, rfl, rfl⟩ := List.filterMap_eq_append_iff.mp hrest.symm
  obtain ⟨u, hbefore⟩ := hrun.first
  refine ⟨hbefore.admitted 0, fun source => source_of_result hargs hhonest hbefore,
    fun i hi _ => ⟨(historyOf before (i + 1)).deeds, ?_, ?_, ?_⟩⟩
  · obtain ⟨p, hpath⟩ := comes_of_launch hargs hbefore (hhonest (i + 1)) (show i + 1 < size by omega)
    exact (meets_worker hargs hhonest hbefore hsuits hkernel hi hpath).holds.1
  · have hwork := hbefore.sentTo_eq rfl 0 (i + 1) .work
    exact ⟨_, hwork.symm⟩
  · have hreplies := hbefore.sentTo_eq rfl (i + 1) 0 .result
    exact ⟨_, hreplies.symm⟩

include hrun in
/-- **Where the rounds of rank zero are** they meet their contract, with all workers honest. -/
theorem meets_rounds_zero (hsuits : Suits f s files entropy)
    (hkernel : s.kernel ≠ .value .device) {c : Coordinator}
    {q : Process (List RoundResult)} {reads k l : History} (hsize : 2 ≤ size)
    (hsplit : historyOf ms 0 = reads ++ k ++ l) (hreads : ∀ e ∈ reads, e.request.isRead = true)
    (hendpoint : c.endpoint = ⟨0, size⟩) (hskip : c.skipEmpty = s.skipEmpty)
    (hpath : (roundsFrom c f.a f.b 1 s.rounds.toNat).Comes k q) :
    q.Meets (resultsContract f s.rounds.toNat (size - 1) s.skipEmpty fun _ => True) k := by
  have hworkers : c.endpoint.workers = (size - 1 : Nat) := by
    rw [hendpoint]
    simp only [Endpoint.workers]
    omega
  have hstart : (roundsFrom c f.a f.b 1 s.rounds.toNat).Meets
      (resultsContract f s.rounds.toNat (size - 1) s.skipEmpty fun _ => True) [] :=
    meets_roundsFrom hskip hworkers (by omega)
  refine hstart.comes hpath fun m hm => ?_
  -- the files that were read before are no messages
  have hkept : WorkersKeepUp (List.replicate s.rounds.toNat f) (size - 1) s.skipEmpty
      (fun _ => True) (reads ++ m) := by
    refine workersKeepUp hargs hhonest hrun hsuits hkernel ?_
    rw [hsplit, List.append_assoc]
    exact (List.prefix_append_right_inj _).mpr (hm.trans (List.prefix_append _ _))
  unfold WorkersKeepUp at hkept
  rw [History.deeds_append, deeds_of_isRead hreads, List.nil_append] at hkept
  exact ⟨(History.admitted_append.mp hkept.1).2, hkept.2⟩

end

end Program

end RowBlock
