import RowBlock.Proofs.Reporting

set_option autoImplicit false

/-! # The rounds of a job

A job runs all its rounds with the same factors. Rank zero returns their results
(`Program.resultsContract`), with the product of the factors in the rows of every honest worker, and
each worker follows the plans of its rounds (`Program.follows_run`). What the coordinator relies on is
that honest workers keep up, as in the rounds of a crew.
-/

namespace RowBlock.Program

open Coordinator

variable {f : Factors} {n workers size number : Nat} {skipEmpty : Bool} {honest : Nat → Prop}
  {c : Coordinator} {s : Settings Int}

/-! ## Rank zero

The contract is the one of a crew with a list of equal factors, but the results are returned
together and not published one by one. So what is shown of them at the end is a statement about the
list that is returned. -/

section

variable (f : Factors) (n workers : Nat) (skipEmpty : Bool) (honest : Nat → Prop)

def sendPlan : List Deed :=
  (List.replicate n f).flatMap (·.coordinatorPlan workers skipEmpty)

def workPlan (i : Nat) : List Deed :=
  (List.replicate n f).flatMap (·.workerPlan workers skipEmpty i)

/-- **The contract of the rounds of a job**, which return the results of all of them. Unless a worker
is not honest they fail only when a request is refused, or for want of room for the product. -/
def resultsContract [Memory] : Contract (List RoundResult) where
  rely := WorkersKeepUp (List.replicate n f) workers skipEmpty honest
  holds h := h.deeds.filter Deed.isSent <+: sendPlan f n workers skipEmpty
  asks h r := (∃ d rest, sendPlan f n workers skipEmpty
      = h.deeds.filter Deed.isSent ++ d :: rest ∧ r = d.request) ∨
    ∃ k < n, f.HasRoom ∧ h.deeds.filter Deed.isSent = sendPlan f (k + 1) workers skipEmpty ∧
      Awaits workers (k + 1) h r
  returns h results := h.deeds.filter Deed.isSent = sendPlan f n workers skipEmpty ∧
    (∀ i < workers, (takenFrom h.deeds (i + 1) .result).length = 3 * n) ∧ results.length = n ∧
    ∀ result ∈ results, f.HasRoom ∧ IsResult f workers honest result
  fails h e := ((∃ x, e = .transport x) ∧ (¬h.NoneRefused ∨ ∃ i < workers, ¬honest i)) ∨
    (0 < n ∧ ∃ x, Tensor.room (.int f.type) [f.rows, f.cols] = .error x ∧ e = .room x)

end

theorem sendPlan_succ : sendPlan f (n + 1) workers skipEmpty
    = f.coordinatorPlan workers skipEmpty ++ sendPlan f n workers skipEmpty := by
  rw [sendPlan, sendPlan, List.replicate_succ, List.flatMap_cons]

theorem sendPlan_one : sendPlan f 1 workers skipEmpty = f.coordinatorPlan workers skipEmpty := by
  rw [sendPlan_succ, sendPlan, List.replicate_zero, List.flatMap_nil, List.append_nil]

variable [Memory]

/-- **After a whole round**, rounds that are left and meet their contract meet that of all rounds, with
the result of the first one before theirs. -/
theorem meets_later {p : Process (List RoundResult)} {g : History} {result : RoundResult}
    (hp : p.Meets (resultsContract f n workers skipEmpty honest) [])
    (hsent : g.deeds.filter Deed.isSent = f.coordinatorPlan workers skipEmpty) (hroom : f.HasRoom)
    (hthree : ∀ i < workers, (takenFrom g.deeds (i + 1) .result).length = 3)
    (hresult : IsResult f workers honest result) :
    (p >>= fun results => Process.done (result :: results)).Meets
      (resultsContract f (n + 1) workers skipEmpty honest) g := by
  have hsends := sends_later hsent
  have hcount (h : History) (i : Nat) (hi : i < workers) :
      (takenFrom (g ++ h : History).deeds (i + 1) .result).length
        = 3 + (takenFrom h.deeds (i + 1) .result).length := by
    rw [History.deeds_append, takenFrom_append, List.length_append, hthree i hi]
  have hholds (h : History) (hless : (resultsContract f n workers skipEmpty honest).holds h) :
      (resultsContract f (n + 1) workers skipEmpty honest).holds (g ++ h) := by
    show (g ++ h : History).deeds.filter Deed.isSent <+: _
    rw [hsends, sendPlan_succ]
    exact (List.prefix_append_right_inj _).mpr hless
  have hlater := hp.imp (D := ((resultsContract f (n + 1) workers skipEmpty honest).before
    fun results h => (Process.done (result :: results)).Meets
      (resultsContract f (n + 1) workers skipEmpty honest) h).after g) ?_ hholds ?_ ?_ ?_
  · rw [Process.meets_after, List.append_nil] at hlater
    exact Process.Meets.bind hlater
  · intro h hrely
    exact WorkersKeepUp.later hsent hthree hrely
  · rintro h r - (⟨d, rest, hrest, hr⟩ | ⟨k, hk, -, hdone, i, hi, hfew, hr⟩)
    · refine .inl ⟨d, rest, ?_, hr⟩
      rw [hsends, sendPlan_succ, hrest, List.append_assoc]
    · refine .inr ⟨k + 1, by omega, hroom, ?_, i, hi, ?_, hr⟩
      · rw [hsends, sendPlan_succ, hdone]
      · have := hcount h i hi
        omega
  · rintro h results hless ⟨hdone, hcounts, hlength, hresults⟩
    refine Process.meets_done (hholds h hless) ⟨?_, fun i hi => ?_, ?_, ?_⟩
    · rw [hsends, sendPlan_succ, hdone]
    · rw [hcount h i hi, hcounts i hi]
      omega
    · rw [List.length_cons, hlength]
    · intro other hother
      rcases List.mem_cons.mp hother with rfl | hmem
      · exact ⟨hroom, hresult⟩
      · exact hresults other hmem
  · rintro h e - (⟨htransport, hcause⟩ | ⟨-, x, hfull, rfl⟩)
    · refine .inl ⟨htransport, hcause.imp_left fun hrefused hall => hrefused ?_⟩
      exact (History.noneRefused_append.mp hall).2
    · exact .inr ⟨Nat.succ_pos n, x, hfull, rfl⟩

/-- **The rounds of a job** meet their contract. -/
theorem meets_roundsFrom (hskip : c.skipEmpty = skipEmpty) (hendpoint : c.endpoint.workers = workers)
    (hworkers : 0 < workers) :
    (roundsFrom c f.a f.b number n).Meets (resultsContract f n workers skipEmpty honest) [] := by
  induction n generalizing number with
  | zero =>
      refine Process.meets_done List.nil_prefix ⟨rfl, ?_, rfl, ?_⟩
      · intro i hi
        rfl
      · intro result hresult
        cases hresult
  | succ n ih =>
      have hround : (c.round f.a f.b).Meets
          (roundContract (List.replicate n f) f workers skipEmpty honest) [] :=
        meets_round hskip hendpoint hworkers
      have hholds (h : History)
          (hfirst : (roundContract (List.replicate n f) f workers skipEmpty honest).holds h) :
          (resultsContract f (n + 1) workers skipEmpty honest).holds h := by
        show h.deeds.filter Deed.isSent <+: _
        rw [sendPlan_succ]
        exact hfirst.1.trans (List.prefix_append _ _)
      refine Process.Meets.bind (hround.imp (fun _ hrely => hrely) hholds ?_ ?_ ?_)
      · rintro h r - (⟨d, rest, hrest, hr⟩ | ⟨hsent, hroom, hawaits⟩)
        · refine .inl ⟨d, rest ++ sendPlan f n workers skipEmpty, ?_, hr⟩
          rw [sendPlan_succ, hrest, List.append_assoc, List.cons_append]
        · refine .inr ⟨0, Nat.succ_pos n, hroom, ?_, hawaits⟩
          rw [hsent, sendPlan_one]
      · rintro h result hfirst ⟨hsent, hroom, hthree, hresult⟩
        -- the round is noted, and the later ones go on from there
        refine Process.Meets.bind (Process.meets_note (hholds h hfirst) ?_)
        exact meets_later ih hsent hroom hthree hresult
      · rintro h e ⟨-, hpublished⟩ (hfails | ⟨k, x, hk, hfull, rfl⟩)
        · exact .inl hfails
        · rw [hpublished, List.length_nil] at hk
          cases hk
          exact .inr ⟨Nat.succ_pos n, x, hfull, rfl⟩

/-! ## Workers

A worker of a job is a worker of a crew, made from the settings. It follows the same plan, and it
fails by itself in two ways: for want of room and for a kernel that is blank. -/

/-- What a worker fails with by itself: there is no room for a product, or its kernel has no name. -/
def WorkerFailure (s : Settings Int) (f : Factors) (e : Error) : Prop :=
  (¬f.HasRoom ∧ ∃ x, e = .kernel (.room x)) ∨ (s.kernel = .blank ∧ e = .setting .blankName)

/-- **A worker of a job** follows the plans of its rounds. -/
theorem follows_run {i : Nat} (hi : i < size - 1) (hkernel : s.kernel ≠ .value .device)
    (f : Factors) :
    (run s ⟨i + 1, size⟩).Follows (fun _ => True) (WorkerFailure s f)
      (workPlan f s.rounds.toNat (size - 1) s.skipEmpty i) := by
  have hrequired : Endpoint.requireWorkers ⟨i + 1, size⟩ = .ok () :=
    if_neg (show ¬size < 2 by omega)
  have hworker : (⟨i + 1, size⟩ : Endpoint).isCoordinator = false := rfl
  simp only [run, work, hrequired, hworker, Bool.false_eq_true, if_false, Process.ofExcept,
    Process.done_bind]
  cases hk : s.kernel with
  | blank =>
      have hfailed : workerOn s ⟨i + 1, size⟩ = .error (.setting .blankName) := by
        rw [workerOn, hk]
        rfl
      rw [hfailed]
      exact .failed (.inr ⟨hk, rfl⟩)
  | value kernel =>
      have hruns : kernel ≠ .device := fun h => hkernel (by rw [hk, h])
      have hrounds : ((Worker.mk ⟨i + 1, size⟩ kernel s.skipEmpty).rounds
          (List.replicate s.rounds.toNat f).length).Follows (fun _ => True) (WorkerFailure s f)
          (workPlan f s.rounds.toNat (size - 1) s.skipEmpty i) := by
        refine Worker.follows_rounds hruns rfl hi fun g hg _ hnone x => ?_
        obtain rfl := List.eq_of_mem_replicate hg
        exact .inl ⟨hnone, x, rfl⟩
      rw [List.length_replicate] at hrounds
      rw [workerOn_succ hk]
      exact hrounds.check fun _ _ => .done trivial

end RowBlock.Program
