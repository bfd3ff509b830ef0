import RowBlock.Proofs.Termination
import RowBlock.Schedule

set_option autoImplicit false

/-! # Schedules are runs

A schedule lets the ranks take turns, each as far as it comes. What it computes is one of the runs of
the ranks' processes (`Schedule.exists_run`): a turn is a number of steps of one rank
(`Host.exists_run`), and a pass is a number of turns. So what holds of every run holds of what a
schedule shows, and a schedule that is computed shows what runs there are.
-/

namespace RowBlock

/-! ## States

A schedule and a run keep the same things in different ways. A task that waits has its process, one
that is done or has failed only the end of it. -/

def Task.Leaves : Task → Process Unit → Prop
  | .fresh p, q => q = p
  | .waiting _ _ rest, q => q = rest
  | .ended .done, q => q = .done ()
  | .ended (.failed e), q => q = .failed e
  | .ended _, _ => True

variable {z : Hazards}

/-! ## A turn

A schedule lets a rank run until it waits, and a run goes on one request at a time. A turn is thus
many steps of one rank, and they are found by induction over the process. A receive that finds
nothing is tried again later; it leaves no trace in the run, which does not take it at all. -/

theorem Network.receive_nothing {net after : Network} {rank : Nat} {source : Source}
    {channel : Channel} (hfaults : net.faults = [])
    (h : net.receive rank source channel = (.nothing, after)) : after = net := by
  have hnet : { net with faults := [] } = net := by rw [← hfaults]
  simp only [receive, hfaults, strike, hnet, Bool.false_eq_true, if_false] at h
  split at h
  · split at h
    · cases h
    · cases h
      rfl
  · cases h

/-- Without faults a request that is not answered changes nothing. -/
theorem Host.serve_unanswered {h host : Host} {rank : Nat} {r : Request} {served : Served r.Answer}
    (hfaults : h.network.faults = []) (hserve : h.serve rank r = (served, host))
    (hnone : ∀ answer, served ≠ .answered answer) : host = h := by
  cases r with
  | receive source channel =>
      simp only [serve] at hserve
      split at hserve
      · cases hserve
        exact absurd rfl (hnone _)
      · cases hserve
        exact absurd rfl (hnone _)
      · rename_i net hreceive
        cases hserve
        rw [Network.receive_nothing hfaults hreceive]
  | write path content =>
      simp only [serve] at hserve
      split at hserve <;> cases hserve <;> exact absurd rfl (hnone _)
  | _ =>
      simp only [serve] at hserve
      cases hserve
      first | rfl | exact absurd rfl (hnone _)

/-- **A turn is a run**: a rank without hazards that runs as far as it comes has taken a number of
steps. -/
theorem Host.exists_run {host : Host} {parts : List (Process Unit)} {rank : Nat} {p : Process Unit}
    (hhonest : ¬z.rogue rank) (hfaults : host.network.faults = [])
    (hpart : parts[rank]? = some p) :
    ∃ ms q, Run z ⟨parts, host⟩ ms ⟨parts.set rank q, (host.run rank p).2⟩ ∧
      (Schedule.taskOf (host.run rank p).1).Leaves q ∧ (host.run rank p).2.network.faults = [] := by
  have hstay {parts : List (Process Unit)} {p : Process Unit} (hpart : parts[rank]? = some p) :
      parts.set rank p = parts := by
    obtain ⟨hlt, rfl⟩ := List.getElem?_eq_some_iff.mp hpart
    exact List.set_getElem_self hlt
  induction p generalizing host parts with
  | done a => exact ⟨[], .done a, by rw [hstay hpart]; exact .refl, rfl, hfaults⟩
  | failed e => exact ⟨[], .failed e, by rw [hstay hpart]; exact .refl, rfl, hfaults⟩
  | ask r next ih =>
      rw [Host.run]
      cases hserve : host.serve rank r with
      | mk served after =>
          cases served with
          | answered answer =>
              have hlt := (List.getElem?_eq_some_iff.mp hpart).1
              obtain ⟨ms, q, hrun, hleaves, hnone⟩ := @ih answer after (parts.set rank (next answer))
                (Host.serve_faults hfaults hserve) (List.getElem?_set_self hlt)
              rw [List.set_set] at hrun
              exact ⟨_, q, (Run.refl.step (.act hhonest hpart hserve)).append hrun, hleaves, hnone⟩
          | waiting source channel =>
              obtain rfl := Host.serve_unanswered hfaults hserve nofun
              exact ⟨[], .ask r next, by rw [hstay hpart]; exact .refl, rfl, hfaults⟩
          | exited code =>
              obtain rfl := Host.serve_unanswered hfaults hserve nofun
              exact ⟨[], .ask r next, by rw [hstay hpart]; exact .refl, trivial, hfaults⟩
          | aborted code =>
              obtain rfl := Host.serve_unanswered hfaults hserve nofun
              exact ⟨[], .ask r next, by rw [hstay hpart]; exact .refl, trivial, hfaults⟩

namespace Schedule

variable {s : Schedule} {parts : List (Process Unit)}

/-- **A schedule has come to** a state of the ranks' processes. -/
structure StandsAt (s : Schedule) (e : Ensemble) : Prop where
  host : e.host = s.host
  faults : s.host.network.faults = []
  tasks : ∀ (rank : Nat) (task : Task), s.tasks[rank]? = some task →
    ∃ q, e.parts[rank]? = some q ∧ task.Leaves q

/-- A rank that is ready runs what is left of its process. -/
theorem StandsAt.part_of_ready {e : Ensemble} {rank : Nat} {p : Process Unit} (h : s.StandsAt e)
    (hready : s.ready? rank = some p) : e.parts[rank]? = some p := by
  unfold ready? at hready
  cases htask : s.tasks[rank]? with
  | none =>
      rw [htask] at hready
      cases hready
  | some task =>
      obtain ⟨q, hq, hleaves⟩ := h.tasks rank task htask
      rw [htask] at hready
      cases task with
      | fresh process =>
          cases hready
          rw [hq, show q = p from hleaves]
      | waiting source channel rest =>
          simp only [Option.ite_none_right_eq_some, Option.some.injEq] at hready
          obtain ⟨-, rfl⟩ := hready
          rw [hq, show q = rest from hleaves]
      | ended outcome => cases hready

/-- **A turn** takes a schedule on along a run. -/
theorem StandsAt.turn {e : Ensemble} {rank : Nat} {p : Process Unit} (h : s.StandsAt e)
    (hhonest : ¬z.rogue rank) (hready : s.ready? rank = some p) :
    ∃ ms e', Run z e ms e' ∧ (s.turn rank p).StandsAt e' := by
  obtain ⟨parts, host⟩ := e
  obtain rfl : host = s.host := h.host
  have hpart := h.part_of_ready hready
  obtain ⟨ms, q, hrun, hleaves, hfaults⟩ := Host.exists_run hhonest h.faults hpart
  refine ⟨ms, _, hrun, rfl, hfaults, fun r task htask => ?_⟩
  have hlt := (List.getElem?_eq_some_iff.mp hpart).1
  simp only [Schedule.turn, List.getElem?_set] at htask ⊢
  by_cases hr : rank = r
  · subst hr
    rw [if_pos rfl] at htask ⊢
    simp only [Option.ite_none_right_eq_some, Option.some.injEq] at htask
    obtain ⟨-, rfl⟩ := htask
    exact ⟨q, if_pos hlt, hleaves⟩
  · rw [if_neg hr] at htask ⊢
    exact h.tasks r task htask

/-- **A pass** takes it on along a run. -/
theorem StandsAt.pass {e : Ensemble} (h : s.StandsAt e) (hhonest : ∀ rank, ¬z.rogue rank)
    (order : List Nat) : ∃ ms e', Run z e ms e' ∧ (s.pass order).2.StandsAt e' := by
  induction order generalizing s e with
  | nil => exact ⟨[], e, .refl, h⟩
  | cons rank order ih =>
      rw [Schedule.pass]
      split
      · exact ⟨[], e, .refl, h⟩
      · split
        · exact ih h
        · rename_i p hready
          obtain ⟨ms, e', hturn, h'⟩ := h.turn (hhonest rank) hready
          obtain ⟨ns, e'', hpass, h''⟩ := ih h'
          exact ⟨ms ++ ns, e'', hturn.append hpass, h''⟩

theorem StandsAt.passes {e : Ensemble} (h : s.StandsAt e) (hhonest : ∀ rank, ¬z.rogue rank)
    (order : List Nat) (limit : Nat) :
    ∃ ms e', Run z e ms e' ∧ (passes order limit s).StandsAt e' := by
  induction limit generalizing s e with
  | zero => exact ⟨[], e, .refl, h⟩
  | succ limit ih =>
      obtain ⟨ms, e', hpass, h'⟩ := h.pass hhonest order
      rw [Schedule.passes]
      split
      · rename_i heq
        rw [heq] at h'
        obtain ⟨ns, e'', hpasses, h''⟩ := ih h'
        exact ⟨ms ++ ns, e'', hpass.append hpasses, h''⟩
      · rename_i heq
        rw [heq] at h'
        exact ⟨ms, e', hpass, h'⟩

/-- **What a schedule shows is what a run shows**: the host at its end, and which ranks are done and
which have failed. -/
theorem exists_run (hhonest : ∀ rank, ¬z.rogue rank) (processes : List (Process Unit))
    (order : List Nat) (receives : Nat) {host : Host} (hfaults : host.network.faults = []) :
    ∃ ms t, Run z ⟨processes, host⟩ ms t ∧ t.host = (run processes order receives host).2 ∧
      ∀ (rank : Nat) (result : Outcome), (run processes order receives host).1[rank]? = some result →
        ∃ q, t.parts[rank]? = some q ∧ (result = .done → q = .done ()) ∧
          ∀ e, result = .failed e → q = .failed e := by
  have hstart : Schedule.StandsAt ⟨processes.map .fresh, host, false⟩ ⟨processes, host⟩ := by
    refine ⟨rfl, hfaults, fun rank task htask => ?_⟩
    rw [List.getElem?_map, Option.map_eq_some_iff] at htask
    obtain ⟨p, hp, rfl⟩ := htask
    exact ⟨p, hp, rfl⟩
  obtain ⟨ms, t, hrun, hend⟩ := hstart.passes hhonest order (receives + 2)
  refine ⟨ms, t, hrun, hend.host, fun rank result hresult => ?_⟩
  simp only [run, List.getElem?_map, Option.map_eq_some_iff] at hresult
  obtain ⟨task, htask, rfl⟩ := hresult
  obtain ⟨q, hq, hleaves⟩ := hend.tasks rank task htask
  refine ⟨q, hq, ?_⟩
  cases task with
  | fresh p => exact ⟨nofun, nofun⟩
  | waiting source channel rest =>
      simp only [outcome]
      split <;> exact ⟨nofun, nofun⟩
  | ended o =>
      constructor
      · intro ho
        obtain rfl : o = .done := ho
        exact hleaves
      · intro e ho
        obtain rfl : o = .failed e := ho
        exact hleaves

end Schedule

end RowBlock
