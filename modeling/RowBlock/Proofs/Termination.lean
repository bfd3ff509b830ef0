import RowBlock.Proofs.Interleaving
import Mathlib.Algebra.BigOperators.Group.Finset.Basic
import Mathlib.Logic.Hydra
import Mathlib.Tactic.Abel

set_option autoImplicit false

/-! # Runs without hazards

Where nothing goes wrong, every step answers a request of one rank and leaves less of its process,
so there is no infinite run (`wellFounded_step`) and every state leads to a *final* one, in which
no step can be taken (`exists_final`). Nothing is injected, so the network grants every send and
every receive it has a message for: in a final state each rank is done, has failed, has ended the
program or waits for a message that is not there (`IsFinal.cases`).
-/

namespace RowBlock

/-! ## Every run ends

There is no common bound on the length of runs, since what a process does next depends on the
answers. But answering a request leaves a part of the process, in a well-founded order, and in a
step of a run one process of finitely many becomes smaller, which is the order of multisets. -/

/-- What is left of a process after one answer. -/
inductive Process.Left {α : Type} : Process α → Process α → Prop
  | answered (r : Request) (next : r.Answer → Process α) (answer : r.Answer) :
      Left (next answer) (.ask r next)

theorem Process.wellFounded_left {α : Type} : WellFounded (Left (α := α)) := by
  refine ⟨fun p => ?_⟩
  induction p with
  | done a => exact ⟨_, fun q hq => by cases hq⟩
  | failed e => exact ⟨_, fun q hq => by cases hq⟩
  | ask r next ih =>
      refine ⟨_, fun q hq => ?_⟩
      cases hq with
      | answered _ _ answer => exact ih answer

theorem coe_set_add {α : Type} {l : List α} {i : Nat} {a : α} (b : α) (h : l[i]? = some a) :
    ((l.set i b : List α) : Multiset α) + {a} = (l : Multiset α) + {b} := by
  induction l generalizing i with
  | nil => cases h
  | cons x l ih =>
      cases i with
      | zero =>
          cases h
          simp only [List.set_cons_zero, ← Multiset.cons_coe, ← Multiset.singleton_add]
          abel
      | succ i =>
          have := ih h
          simp only [List.set_cons_succ, ← Multiset.cons_coe, ← Multiset.singleton_add, add_assoc,
            this]

/-- **No run without hazards is infinite.** -/
theorem wellFounded_step : WellFounded fun t s : Ensemble => ∃ m, Step .none s m t := by
  have : Std.Irrefl (Process.Left (α := Unit)) := ⟨Process.wellFounded_left.irrefl.irrefl⟩
  have hcut : WellFounded (InvImage (Relation.CutExpand Process.Left)
      fun s : Ensemble => (s.parts : Multiset (Process Unit))) :=
    InvImage.wf _ Process.wellFounded_left.cutExpand
  refine Subrelation.wf ?_ hcut
  rintro t s ⟨m, hstep⟩
  obtain ⟨rank, r, next, answer, host, -, hpart, -, rfl⟩ := hstep.of_none
  -- the part that is answered is exchanged for what is left of it
  exact ⟨{next answer}, .ask r next, by simpa using Process.Left.answered r next answer,
    coe_set_add (next answer) hpart⟩

/-- Moves of one kind can be taken until none is left. -/
theorem exists_last (P : Move → Prop) (s : Ensemble) :
    ∃ ms t, Run .none s ms t ∧ (∀ m ∈ ms, P m) ∧ ∀ m u, P m → ¬Step .none t m u := by
  -- induction on what is left: take one move of the kind, then go on from there
  induction s using wellFounded_step.induction with
  | _ s ih =>
      by_cases h : ∃ m u, P m ∧ Step .none s m u
      · obtain ⟨m, u, hm, hstep⟩ := h
        obtain ⟨ms, t, hrun, hms, hlast⟩ := ih u ⟨m, hstep⟩
        refine ⟨[m] ++ ms, t, ?_, by simpa [hm] using hms, hlast⟩
        exact (Run.step .refl hstep : Run .none s ([] ++ [m]) u).append hrun
      · exact ⟨[], s, .refl, by simp, fun m u hm hstep => h ⟨m, u, hm, hstep⟩⟩

def Ensemble.IsFinal (s : Ensemble) : Prop := ∀ m t, ¬Step .none s m t

/-- **Every state leads to a final one.** -/
theorem exists_final (s : Ensemble) : ∃ ms t, Run .none s ms t ∧ t.IsFinal := by
  obtain ⟨ms, t, hrun, -, hlast⟩ := exists_last (fun _ => True) s
  exact ⟨ms, t, hrun, fun m u => hlast m u trivial⟩

/-! ## What the network grants

The network refuses a call for two reasons: there is no such rank, or there is a fault. Without
rogue ranks and faults, only the code itself could ask for a wrong rank. -/

/-- Whether the ranks that a request names are ranks of the job. -/
def Request.reaches (net : Network) : Request → Bool
  | .send dest _ _ => net.hasRank dest
  | .receive source _ => net.hasSource source
  | _ => true

variable {h host : Host} {rank : Nat} {r : Request} {answer : r.Answer}

/-- **Without faults** no request is refused that names ranks of the job. -/
theorem Host.serve_granted (hfaults : h.network.faults = []) (hr : r.reaches h.network = true)
    (hserve : h.serve rank r = (.answered answer, host)) : ¬Event.IsRefusal ⟨r, answer⟩ := by
  cases r with
  | send dest channel payload =>
      obtain ⟨net, hsend, -⟩ := serve_send hserve
      have hrank : Network.hasRank { h.network with faults := [] } dest = true := hr
      simp only [Network.send, hfaults, Network.strike, hrank, Bool.false_eq_true, if_false,
        if_true] at hsend
      cases hsend
      exact id
  | receive source channel =>
      obtain ⟨net, -, ⟨cause, rfl, hreceive⟩ | ⟨_, _, rfl, -⟩⟩ := serve_receive hserve
      · have hsource : Network.hasSource { h.network with faults := [] } source = true := by
          cases source <;> exact hr
        simp only [Network.receive, hfaults, Network.strike, hsource, Bool.false_eq_true, if_false,
          if_true] at hreceive
        split at hreceive <;> cases hreceive
      · exact id
  | _ => exact id

theorem Host.serve_faults (hfaults : h.network.faults = [])
    (hserve : h.serve rank r = (.answered answer, host)) : host.network.faults = [] := by
  cases hr : r.isMessage with
  | false => rw [serve_other hr hserve, hfaults]
  | true =>
      cases r with
      | send dest channel payload =>
          obtain ⟨net, hsend, rfl⟩ := serve_send hserve
          simp only [Network.send, hfaults, Network.strike, Bool.false_eq_true, if_false] at hsend
          split at hsend <;> cases hsend <;> rfl
      | receive source channel =>
          obtain ⟨net, rfl, hcases⟩ := serve_receive hserve
          have hnet : ∃ x, h.network.receive rank source channel = (x, net) := by
            rcases hcases with ⟨_, -, hreceive⟩ | ⟨_, _, -, hreceive⟩ <;> exact ⟨_, hreceive⟩
          obtain ⟨x, hreceive⟩ := hnet
          simp only [Network.receive, hfaults, Network.strike, Bool.false_eq_true, if_false]
            at hreceive
          split at hreceive
          · split at hreceive <;> cases hreceive <;> rfl
          · cases hreceive
            rfl
      | _ => cases hr

theorem Run.faults {s t : Ensemble} {ms : List Move} (hfaults : s.host.network.faults = [])
    (hrun : Run .none s ms t) : t.host.network.faults = [] := by
  induction hrun with
  | refl => exact hfaults
  | step _ hstep ih =>
      obtain ⟨_, _, _, _, _, -, -, hserve, rfl⟩ := hstep.of_none
      exact Host.serve_faults ih hserve

/-! ## Final states

In a final state nobody can move. A rank whose process is not over has asked for something that
cannot be answered, and all that cannot be answered is a receive without a message, or an end. -/

/-- Ending the program or the whole job. -/
def Request.isEnd : Request → Bool
  | .exit _ | .abort _ => true
  | _ => false

/-- **A request is left unanswered** only if it ends the program or finds no message. -/
theorem Host.unanswered (hnone : ∀ answer host, h.serve rank r ≠ (.answered answer, host)) :
    r.isEnd = true ∨ ∃ source channel, r = .receive source channel ∧
      ∀ m ∈ h.network.pending, Network.fits rank source channel m = false := by
  cases r with
  | exit code => exact .inl rfl
  | abort code => exact .inl rfl
  | receive source channel =>
      refine .inr ⟨source, channel, rfl, ?_⟩
      rcases hreceive : h.network.receive rank source channel with ⟨cause | ⟨s, p⟩ | _, net⟩
      · exact absurd (by simp only [serve, hreceive]) (hnone (.error cause) { h with network := net })
      · exact absurd (by simp only [serve, hreceive]) (hnone (.ok (s, p)) { h with network := net })
      · unfold Network.receive at hreceive
        simp only at hreceive
        split at hreceive
        · cases hreceive
        · split at hreceive
          · split at hreceive
            · cases hreceive
            · rename_i htake
              exact Network.takeFirst_eq_none.mp htake
          · cases hreceive
  | write path content =>
      cases hwrite : h.files.write path content with
      | ok files => exact absurd (by simp only [serve, hwrite]) (hnone (.ok ()) { h with files })
      | error e => exact absurd (by simp only [serve, hwrite]) (hnone (.error e) h)
  | _ => exact absurd rfl (hnone _ _)

/-- **What becomes of a rank in a final state.** -/
theorem Ensemble.IsFinal.cases {s : Ensemble} (hfinal : s.IsFinal) {rank : Nat} {p : Process Unit}
    (hpart : s.parts[rank]? = some p) :
    p = .done () ∨ (∃ e, p = .failed e) ∨ ∃ r next, p = .ask r next ∧
      (r.isEnd = true ∨ ∃ source channel, r = .receive source channel ∧
        ∀ m ∈ s.host.network.pending, Network.fits rank source channel m = false) := by
  cases p with
  | done a => exact .inl rfl
  | failed e => exact .inr (.inl ⟨e, rfl⟩)
  | ask r next =>
      exact .inr (.inr ⟨r, next, rfl, Host.unanswered fun answer host hserve =>
        hfinal _ _ (.act id hpart hserve)⟩)

/-- A rank that waits for a message finds none pending for it. -/
theorem Network.between_eq_nil {net : Network} {rank source : Nat} {admitted : Source}
    {channel : Channel} (hnone : ∀ m ∈ net.pending, fits rank admitted channel m = false)
    (hadmits : admitted.admits source = true) : net.between source rank channel = [] := by
  apply List.filterMap_eq_nil_iff.mpr
  intro m hm
  by_contra hbetween
  have hsome : (between? source rank channel m).isSome := Option.isSome_iff_ne_none.mpr hbetween
  simp only [between?, Option.isSome_ite] at hsome
  obtain ⟨hsource, hdest, hchannel⟩ := hsome
  have hfits : fits rank admitted channel m = true :=
    fits_iff.mpr ⟨hdest, hchannel, by rw [hsource]; exact hadmits⟩
  rw [hnone m hm] at hfits
  cases hfits

/-! ## Counting messages

Each message that is sent is pending until it is taken, so at every time the messages sent are as
many as those taken together with those pending. This holds without knowing what is sent. -/

def Move.deed? : Move → Option Deed
  | .act _ e => e.deed?
  | _ => none

theorem Move.filterMap_deed? (rank : Nat) (e : Event) :
    [Move.act rank e].filterMap Move.deed? = e.deed?.toList := by
  cases hd : e.deed? <;> simp [Move.deed?, hd]

/-- **The messages of a run** are those of its ranks together. -/
theorem Run.countP_deeds {s t : Ensemble} {ms : List Move} (hrun : Run .none s ms t)
    (p : Deed → Bool) :
    (ms.filterMap Move.deed?).countP p
      = ∑ rank ∈ Finset.range s.parts.length, (historyOf ms rank).deeds.countP p := by
  induction hrun with
  | refl => simp
  | @step ms t u m hrun hstep ih =>
      obtain ⟨rank, r, next, answer, host, rfl, hpart, -, rfl⟩ := hstep.of_none
      have hrank : rank < s.parts.length := by
        rw [← hrun.length_parts]
        exact (List.getElem?_eq_some_iff.mp hpart).1
      -- the event counts in the history of its rank and in no other one
      have hone : ∀ i, (if rank = i then (Event.deed? ⟨r, answer⟩).toList else []).countP p
          = if rank = i then (Event.deed? ⟨r, answer⟩).toList.countP p else 0 := by
        intro i
        split <;> rfl
      simp only [deeds_historyOf_act, List.countP_append, Finset.sum_add_distrib, hone,
        List.filterMap_append, ih, Move.filterMap_deed?]
      rw [Finset.sum_ite_eq, if_pos (Finset.mem_range.mpr hrank)]

theorem Network.length_takeFirst {p : Message → Bool} {m : Message} {l rest : List Message}
    (h : takeFirst p l = some (m, rest)) : l.length = rest.length + 1 := by
  obtain ⟨-, before, after, rfl, rfl, -⟩ := takeFirst_eq_some h
  simp only [List.length_append, List.length_cons]
  omega

/-- **In one request** the number of messages pending grows by the one sent and falls by the one
taken. -/
theorem Host.serve_balance (hserve : h.serve rank r = (.answered answer, host)) :
    h.network.pending.length + (Event.deed? ⟨r, answer⟩).toList.countP Deed.isSent
      = (Event.deed? ⟨r, answer⟩).toList.countP (fun d => !d.isSent)
        + host.network.pending.length := by
  rcases serve_cases hserve with ⟨hdeed, hpending⟩ | ⟨_, _, _, hdeed, hpending⟩ |
    ⟨_, m, -, hdeed, htake⟩
  · simp [hdeed, hpending]
  · simp [hdeed, hpending, Deed.isSent]
  · simp [hdeed, Network.length_takeFirst htake, Deed.isSent, Nat.add_comm]

/-- **What was sent was taken or is pending**, message by message. -/
theorem Run.balance {s t : Ensemble} {ms : List Move} (hrun : Run .none s ms t) :
    s.host.network.pending.length + (ms.filterMap Move.deed?).countP Deed.isSent
      = (ms.filterMap Move.deed?).countP (fun d => !d.isSent) + t.host.network.pending.length := by
  induction hrun with
  | refl => simp
  | @step ms t u m hrun hstep ih =>
      obtain ⟨rank, r, next, answer, host, rfl, hpart, hserve, rfl⟩ := hstep.of_none
      have hone := Host.serve_balance hserve
      rw [List.filterMap_append, Move.filterMap_deed?, List.countP_append, List.countP_append]
      dsimp only
      omega

end RowBlock
