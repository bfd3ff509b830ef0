import RowBlock.Proofs.Acceptance
import RowBlock.Proofs.OperandFactors

set_option autoImplicit false

/-! # Settling a job

Before rank zero reports anything it *settles* the job (`Program.settle`): it gets the operands, runs
all rounds and checks the product if it has to. Once its rounds are complete, its operands are those
of the files and it has an accepted round for each one asked for (`Completed`). Until it is settled
nothing is printed, written or published (`only_settle`), and only the check can find the product
wrong (`comes_settle_wrongProduct`). What is left is the report (`Program.conclude`).
-/

namespace RowBlock

/-! ## Outputs

Output is whatever can be seen from outside the job: text on the console, files, and results that
are returned. The log is not output. -/

def Request.isOutput : Request → Bool
  | print .output _ | write _ _ | publish _ => true
  | _ => false

namespace Request

variable {r : Request}

theorem isOutput_of_isRead (h : r.isRead = true) : r.isOutput = false := by
  cases r <;> first | rfl | cases h

theorem isWrite_of_isOutput (h : r.isOutput = false) : r.isWrite = false := by
  cases r <;> first | rfl | cases h

theorem isPublication_of_isOutput (h : r.isOutput = false) : r.isPublication = false := by
  cases r <;> first | rfl | cases h

end Request

theorem Event.printed_of_isOutput {e : Event} (h : e.request.isOutput = false) :
    e.printed = "" := by
  rcases e with ⟨r, answer⟩
  cases r with
  | print stream text =>
      cases stream with
      | output => cases h
      | errors => rfl
  | _ => rfl

namespace History

variable {h : History} (hnone : ∀ e ∈ h, e.request.isOutput = false)
include hnone

theorem printed_of_isOutput : h.printed = "" :=
  printed_eq_empty fun e he => Event.printed_of_isOutput (hnone e he)

theorem published_of_isOutput : h.published = [] :=
  published_eq_nil fun e he => Request.isPublication_of_isOutput (hnone e he)

end History

namespace Program

variable {s : Settings Int} {h : History} {a b : Tensor}

/-! ## The rounds

A path through several rounds is one through each of them. The history of the whole is put together
from those of the rounds, and it is the rounds that are accepted or not. -/

variable [Memory]

section

variable {c : Coordinator} {f : Factors} {workers n number : Nat} {skipEmpty : Bool}
  {results : List RoundResult}

/-- **Rounds that return** were accepted, each with its own part of the history. -/
theorem comes_roundsFrom_done (hskip : c.skipEmpty = skipEmpty)
    (hendpoint : c.endpoint.workers = workers) (hworkers : 0 < workers)
    (hpath : (roundsFrom c f.a f.b number n).Comes h (.done results)) (hadmitted : h.Admitted) :
    results.length = n ∧ ∃ hs : List History, h = hs.flatten ∧
      List.Forall₂ (Coordinator.Accepted f workers skipEmpty) hs results := by
  induction n generalizing number h results with
  | zero =>
      obtain ⟨rfl, hdone⟩ := Process.comes_done_iff.mp hpath
      cases hdone
      exact ⟨rfl, [], rfl, .nil⟩
  | succ n ih =>
      obtain ⟨result, g, h, rfl, hround, hnoted⟩ := Process.comes_bind_done hpath
      obtain ⟨_, k, h, rfl, hnote, hlater⟩ := Process.comes_bind_done hnoted
      obtain rfl := Process.comes_note_done hnote
      obtain ⟨later, k, h, rfl, hrest, hend⟩ := Process.comes_bind_done hlater
      obtain ⟨rfl, hdone⟩ := Process.comes_done_iff.mp hend
      cases hdone
      simp only [List.nil_append, List.append_nil, History.admitted_append] at hadmitted ⊢
      obtain ⟨hlength, hs, rfl, hall⟩ := ih hrest hadmitted.2
      have hfirst := Coordinator.comes_round_done hskip hendpoint hworkers hround hadmitted.1
      exact ⟨by rw [List.length_cons, hlength], g :: hs, rfl, .cons hfirst hall⟩

theorem only_roundsFrom (c : Coordinator) (a b : Tensor) (number n : Nat) :
    (roundsFrom c a b number n).Only Coordinator.Keeps (· ≠ .wrongProduct) := by
  induction n generalizing number with
  | zero => trivial
  | succ n ih =>
      refine (Coordinator.only_round c a b).bind fun _ => ?_
      refine (Coordinator.only_note _ _ (by decide) fun _ h => .inr (.inl (.inl h))).bind fun _ => ?_
      exact (ih _).bind fun _ => trivial

end

/-! ## The check

The check computes and compares. It fails for want of room or because of a wrong product, and the
latter fails in no other place. -/

variable {product : Tensor}

theorem only_verify (P : Request → Prop) (a b product : Tensor) :
    (verify a b product).Only P fun _ => True := by
  refine (Process.only_ofExcept _ fun _ _ => trivial).bind fun _ => ?_
  split <;> trivial

theorem comes_verify_done {u : Unit} (hpath : (verify a b product).Comes h (.done u)) :
    h = [] ∧ ∃ expected, Kernel.matmul a b = .ok expected ∧ product.agrees expected = true := by
  obtain ⟨expected, g, h, rfl, hmatmul, hcompared⟩ := Process.comes_bind_done hpath
  obtain ⟨rfl, hexpected⟩ := Process.comes_ofExcept_done hmatmul
  split at hcompared
  · rename_i hagrees
    exact ⟨(Process.comes_done_iff.mp hcompared).1, expected, hexpected, hagrees⟩
  · exact absurd hcompared Process.not_comes_failed_done

theorem comes_verify_wrongProduct (hpath : (verify a b product).Comes h (.failed .wrongProduct)) :
    h = [] ∧ ∃ expected, Kernel.matmul a b = .ok expected ∧ product.agrees expected = false := by
  unfold verify at hpath
  cases hmatmul : Kernel.matmul a b with
  | error e =>
      rw [hmatmul] at hpath
      obtain ⟨-, hfailed⟩ := Process.comes_failed_iff.mp hpath
      cases hfailed
  | ok expected =>
      rw [hmatmul] at hpath
      cases hagrees : product.agrees expected with
      | true =>
          rw [Process.ofExcept, Process.done_bind, if_pos hagrees] at hpath
          exact absurd hpath Process.not_comes_done_failed
      | false =>
          rw [Process.ofExcept, Process.done_bind, if_neg (by simp [hagrees])] at hpath
          exact ⟨(Process.comes_failed_iff.mp hpath).1, expected, rfl, hagrees⟩

/-! ## Settling

The program is cut in two behind the check. The equation that says so makes the two definitions one,
and then everything before the cut is seen to be without output by going through its code. -/

/-- **Completing the rounds** of a job on rank zero: the operands and the results of all rounds. -/
def complete (s : Settings Int) (e : Endpoint) : Process (Tensor × Tensor × List RoundResult) := do
  Process.ofExcept .role e.requireWorkers
  let (a, b) ← operands s
  let c ← Process.ofExcept .role (Coordinator.create e (orderName s.order) s.skipEmpty)
  let results ← roundsFrom c a b 1 s.rounds.toNat
  return (a, b, results)

/-- What rank zero reports on: the operands, the results of all rounds, and the last one of them. -/
structure Settlement where
  a : Tensor
  b : Tensor
  results : List RoundResult
  last : RoundResult

/-- **Settling a job**: what rank zero does before its report. After no rounds there is nothing to
report on. -/
def settle (s : Settings Int) (e : Endpoint) : Process (Option Settlement) := do
  let (a, b, results) ← complete s e
  match results.getLast? with
  | none => return none
  | some last =>
    if s.verify then verify a b last.product
    return some ⟨a, b, results, last⟩

/-- **What rank zero does with the results** of all rounds: the check, if there is one, and the report.
It returns the last result. -/
def finish (s : Settings Int) (e : Endpoint) :
    Tensor × Tensor × List RoundResult → Process (Option RoundResult)
  | (a, b, results) =>
    match results.getLast? with
    | none => return none
    | some last => do
      if s.verify then verify a b last.product
      report s e a b results last
      return some last

/-- **Rank zero** completes its rounds and finishes. -/
theorem run_zero (s : Settings Int) (size : Nat) :
    run s ⟨0, size⟩ = complete s ⟨0, size⟩ >>= finish s ⟨0, size⟩ := by
  have hcoordinator : (⟨0, size⟩ : Endpoint).isCoordinator = true := rfl
  have hreturn (x : Tensor × Tensor × List RoundResult) : pure x = Process.done x := rfl
  simp only [run, complete, coordinate, hcoordinator, if_true, Process.bind_assoc, hreturn,
    Process.done_bind]
  rfl

/-- What is left of a job that is settled: the report, and the result is published. -/
def conclude (s : Settings Int) (e : Endpoint) : Option Settlement → Process Unit
  | none => return ()
  | some x => do
    report s e x.a x.b x.results x.last
    Process.request (.publish x.last)

/-- **The part of a rank** in a job: what it runs. The result that it returns is published. -/
def part (s : Settings Int) (size rank : Nat) : Process Unit := do
  match ← run s ⟨rank, size⟩ with
  | some result => Process.request (.publish result)
  | none => return ()

theorem part_zero (s : Settings Int) (size : Nat) :
    part s size 0 = settle s ⟨0, size⟩ >>= conclude s ⟨0, size⟩ := by
  rw [part, run_zero, settle, Process.bind_assoc, Process.bind_assoc]
  congr 1
  funext ⟨a, b, results⟩
  simp only [finish]
  cases results.getLast? with
  | none => rfl
  | some last =>
      cases hverify : s.verify with
      | true =>
          simp only [if_true, Process.bind_assoc]
          rfl
      | false =>
          simp only [Bool.false_eq_true, if_false, Process.bind_assoc]
          rfl

omit [Memory] in
theorem isOutput_of_communicates {r : Request} {channel : Channel}
    (h : Coordinator.Communicates channel r) : r.isOutput = false := by
  rcases h with (⟨entry, rfl, -⟩ | ⟨source, c, rfl⟩) | ⟨dest, payload, rfl⟩ <;> rfl

omit [Memory] in
theorem isOutput_of_keeps {r : Request} (h : Coordinator.Keeps r) : r.isOutput = false := by
  rcases h with rfl | h
  · rfl
  · exact isOutput_of_communicates h

/-- **Completing the rounds** reads the operands and does what the rounds do. -/
theorem only_complete (s : Settings Int) (e : Endpoint) : (complete s e).Only
    (fun r => r.isRead = true ∨ Coordinator.Keeps r) (· ≠ .wrongProduct) := by
  unfold complete
  refine (Process.only_ofExcept _ fun _ _ => nofun).bind fun _ => ?_
  refine ((only_operands s).imp (fun _ => .inl) fun _ => id).bind fun ⟨a, b⟩ => ?_
  refine (Process.only_ofExcept _ fun _ _ => nofun).bind fun c => ?_
  exact ((only_roundsFrom c a b 1 _).imp (fun _ => .inr) fun _ => id).bind fun _ => trivial

/-- **Until a job is settled** nothing is printed, written or published. -/
theorem only_settle (s : Settings Int) (e : Endpoint) :
    (settle s e).Only (·.isOutput = false) fun _ => True := by
  refine ((only_complete s e).imp (fun r hr => hr.elim Request.isOutput_of_isRead isOutput_of_keeps)
    fun _ _ => trivial).bind fun ⟨a, b, results⟩ => ?_
  dsimp only
  split
  · trivial
  · split
    · exact (only_verify _ _ _ _).bind fun _ => trivial
    · trivial

/-- **The rounds of a job are complete**: the factors are its operands, and it has an accepted round
for each one asked for, one after another in the history. -/
structure Completed (s : Settings Int) (size : Nat) (files : Files) (entropy : Nat) (h : History)
    (f : Factors) (results : List RoundResult) : Prop where
  workers : 2 ≤ size
  square : f.cols = f.rows
  operands : operandsOf s files entropy = .done (f.a, f.b)
  count : results.length = s.rounds.toNat
  rounds : ∃ reads hs, h = reads ++ List.flatten hs ∧ (∀ e ∈ reads, e.request.isRead = true) ∧
    List.Forall₂ (Coordinator.Accepted f (size - 1) s.skipEmpty) hs results

omit [Memory] in
theorem exists_last_accepted {f : Factors} {workers : Nat} {skipEmpty : Bool} {hs : List History}
    {results : List RoundResult} {last : RoundResult}
    (hall : List.Forall₂ (Coordinator.Accepted f workers skipEmpty) hs results)
    (hlast : results.getLast? = some last) :
    ∃ h ∈ hs, Coordinator.Accepted f workers skipEmpty h last := by
  obtain ⟨i, hi, hget⟩ := List.mem_iff_getElem.mp (List.mem_of_getLast? hlast)
  obtain ⟨hlength, hrounds⟩ := List.forall₂_iff_get.mp hall
  have hround := hrounds i (by omega) hi
  simp only [List.get_eq_getElem, hget] at hround
  exact ⟨_, List.getElem_mem _, hround⟩

omit [Memory] in
theorem eq_of_create {e : Endpoint} {order : String} {skipEmpty : Bool} {c : Coordinator}
    (h : Coordinator.create e order skipEmpty = .ok c) : c.endpoint = e ∧ c.skipEmpty = skipEmpty := by
  unfold Coordinator.create at h
  split at h
  · cases h
  · obtain ⟨order, -, h⟩ := exists_ok_of_bind h
    obtain ⟨_, -, h⟩ := exists_ok_of_bind h
    cases h
    exact ⟨rfl, rfl⟩

variable {size : Nat} {files : Files} {entropy : Nat} {results : List RoundResult} {x : Settlement}

/-- **A path that completes the rounds** has completed them, where it reads what the files hold. -/
theorem comes_complete_done (hpath : (complete s ⟨0, size⟩).Comes h (.done (a, b, results)))
    (hadmitted : h.Admitted)
    (hreads : ∀ g k, h = g ++ k → (∀ e ∈ g, e.request.isRead = true) → ∀ e ∈ g, e.IsReadOf files entropy) :
    ∃ f : Factors, a = f.a ∧ b = f.b ∧ Completed s size files entropy h f results := by
  obtain ⟨_, g, h, rfl, hrequired, hgiven⟩ := Process.comes_bind_done hpath
  obtain ⟨rfl, hsize⟩ := Process.comes_ofExcept_done hrequired
  obtain ⟨⟨a', b'⟩, reads, h, rfl, hoperands, hcreated⟩ := Process.comes_bind_done hgiven
  obtain ⟨c, g, h, rfl, hcreate, hready⟩ := Process.comes_bind_done hcreated
  obtain ⟨rfl, hc⟩ := Process.comes_ofExcept_done hcreate
  obtain ⟨results', k, h, rfl, hrounds, hend⟩ := Process.comes_bind_done hready
  obtain ⟨rfl, hdone⟩ := Process.comes_done_iff.mp hend
  cases hdone
  simp only [List.nil_append, List.append_nil, History.admitted_append] at hadmitted hreads ⊢
  -- the job has workers
  have htwo : 2 ≤ size := by
    unfold Endpoint.requireWorkers at hsize
    split at hsize
    · cases hsize
    · rename_i hnot
      exact Nat.le_of_not_lt hnot
  -- the operands are those of the files
  obtain ⟨f, rfl, rfl, hsquare⟩ := comes_operands_done hoperands
  have honly := ((only_operands s).comes hoperands).1
  have hfiles := operandsOf_eq hoperands (hreads reads _ rfl honly)
  -- the rounds are accepted
  obtain ⟨hendpoint, hskip⟩ := eq_of_create hc
  have hworkers : c.endpoint.workers = (size - 1 : Nat) := by
    rw [hendpoint]
    simp only [Endpoint.workers]
    omega
  obtain ⟨hcount, hs, rfl, hall⟩ :=
    comes_roundsFrom_done hskip hworkers (by omega) hrounds hadmitted.2
  exact ⟨f, rfl, rfl, htwo, hsquare, hfiles, hcount, reads, hs, rfl, honly, hall⟩

/-- **A path that settles a job** has completed its rounds, and the product of the last one has passed
the check if there is one. -/
theorem comes_settle_done (hpath : (settle s ⟨0, size⟩).Comes h (.done (some x))) :
    (complete s ⟨0, size⟩).Comes h (.done (x.a, x.b, x.results)) ∧
      x.results.getLast? = some x.last ∧
      (s.verify = true → ∃ expected, Kernel.matmul x.a x.b = .ok expected ∧
        x.last.product.agrees expected = true) := by
  obtain ⟨⟨a, b, results⟩, g, h, rfl, hcomplete, hchecked⟩ := Process.comes_bind_done hpath
  dsimp only at hchecked
  split at hchecked
  · obtain ⟨-, hdone⟩ := Process.comes_done_iff.mp hchecked
    cases hdone
  · rename_i last hlast
    split at hchecked
    · obtain ⟨_, k, h, rfl, hverify, hend⟩ := Process.comes_bind_done hchecked
      obtain ⟨rfl, hexpected⟩ := comes_verify_done hverify
      obtain ⟨rfl, hdone⟩ := Process.comes_done_iff.mp hend
      cases hdone
      rw [List.append_nil, List.append_nil]
      exact ⟨hcomplete, hlast, fun _ => hexpected⟩
    · rename_i hunverified
      obtain ⟨rfl, hdone⟩ := Process.comes_done_iff.mp hchecked
      cases hdone
      rw [List.append_nil]
      exact ⟨hcomplete, hlast, fun hverify => absurd hverify hunverified⟩

/-- **Only the check can find a product wrong**: a job fails so after it has completed its rounds. -/
theorem comes_settle_wrongProduct (hpath : (settle s ⟨0, size⟩).Comes h (.failed .wrongProduct)) :
    ∃ a b results last expected, (complete s ⟨0, size⟩).Comes h (.done (a, b, results)) ∧
      results.getLast? = some last ∧ Kernel.matmul a b = .ok expected ∧
      last.product.agrees expected = false := by
  rcases Process.comes_bind_failed hpath with hfailed | ⟨⟨a, b, results⟩, g, h, rfl, hcomplete, hchecked⟩
  · exact absurd rfl ((only_complete s _).failed hfailed)
  · dsimp only at hchecked
    split at hchecked
    · exact absurd hchecked Process.not_comes_done_failed
    · rename_i last hlast
      split at hchecked
      · rcases Process.comes_bind_failed hchecked with hverify | ⟨_, _, _, -, -, hend⟩
        · obtain ⟨rfl, expected, hexpected, hagrees⟩ := comes_verify_wrongProduct hverify
          rw [List.append_nil]
          exact ⟨a, b, results, last, expected, hcomplete, hlast, hexpected, hagrees⟩
        · exact absurd hend Process.not_comes_done_failed
      · exact absurd hchecked Process.not_comes_done_failed

end Program

end RowBlock
