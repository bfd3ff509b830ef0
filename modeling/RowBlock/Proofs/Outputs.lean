import RowBlock.Proofs.Paths
import Mathlib.Data.List.Induction

set_option autoImplicit false

/-! # Outputs

What a run leaves behind besides messages and results. The output of a rank is what it printed, in
order (`Run.output`), and as long as nobody writes a file the files are those at the start
(`Run.files`). So what a rank reads before anything is written is read from these files
(`Run.readsOf`), and a process that only reads comes to the same result in a run as on a host with
these files and this entropy where it is alone (`Process.run_of_comes`).
-/

namespace RowBlock

/-! ## Events

Printing, writing and reading are events of a history like messages. Of a read one asks that its
answer was the right one, for given files. -/

namespace Request

def isWrite : Request → Bool
  | write _ _ => true
  | _ => false

def isRead : Request → Bool
  | read _ | entropy => true
  | _ => false

end Request

namespace Event

def printed : Event → String
  | ⟨.print .output text, _⟩ => text
  | _ => ""

/-- What is read is what the files hold, and the entropy is the one given. -/
def IsReadOf (files : Files) (entropy : Nat) : Event → Prop
  | ⟨.read path, answer⟩ => answer = files.read path
  | ⟨.entropy, answer⟩ => answer = entropy
  | _ => True

theorem printed_of_quiet {e : Event} (hq : e.request.isQuiet = true) : e.printed = "" := by
  rcases e with ⟨r, answer⟩
  cases r <;> first | rfl | cases hq

end Event

namespace History

def printed : History → String
  | [] => ""
  | e :: h => e.printed ++ printed h

@[simp]
theorem printed_nil : printed [] = "" := rfl

@[simp]
theorem printed_append (h g : History) : printed (h ++ g) = printed h ++ printed g := by
  induction h with
  | nil => simp
  | cons e h ih => rw [List.cons_append, printed, printed, ih, String.append_assoc]

theorem printed_add (h : History) (e : Event) : (h.add e).printed = h.printed ++ e.printed := by
  cases hq : e.request.isQuiet with
  | true => rw [add_of_quiet h hq, Event.printed_of_quiet hq, String.append_empty]
  | false => rw [add_of_loud h hq, printed_append, printed, printed_nil, String.append_empty]

theorem printed_eq_empty {h : History} (hnone : ∀ e ∈ h, e.printed = "") : h.printed = "" := by
  induction h with
  | nil => rfl
  | cons e h ih =>
      rw [printed, hnone e (by simp), ih fun e he => hnone e (by simp [he]), String.append_empty]

end History

/-! ## What the host keeps

A request touches the console of its own rank and no other. Files change by writing only, and fresh
entropy never does. -/

namespace Host

variable {h host : Host} {rank : Nat} {r : Request} {answer : r.Answer}

theorem length_consoles_onConsole (f : Console → Console) :
    (h.onConsole rank f).consoles.length = h.consoles.length := List.length_modify _ _ _

theorem console_onConsole {other : Nat} (hlt : other < h.consoles.length) (f : Console → Console) :
    (h.onConsole rank f).console other
      = if rank = other then f (h.console other) else h.console other := by
  simp only [console, onConsole, List.getD_eq_getElem?_getD, List.getElem?_modify,
    List.getElem?_eq_getElem hlt]
  split <;> rfl

theorem serve_consoles (hserve : h.serve rank r = (.answered answer, host)) :
    host.consoles.length = h.consoles.length := by
  cases r with
  | receive s c =>
      obtain ⟨net, rfl, -⟩ := serve_receive hserve
      rfl
  | write path content =>
      simp only [serve] at hserve
      split at hserve <;> cases hserve <;> rfl
  | _ =>
      simp only [serve] at hserve
      cases hserve
      try first | rfl | exact length_consoles_onConsole _

/-- **What a request does to the outputs**: it adds what it prints to the output of its rank. -/
theorem serve_output {other : Nat} (hlt : other < h.consoles.length)
    (hserve : h.serve rank r = (.answered answer, host)) :
    (host.console other).output
      = (h.console other).output ++ if rank = other then Event.printed ⟨r, answer⟩ else "" := by
  cases r with
  | receive s c =>
      obtain ⟨net, rfl, -⟩ := serve_receive hserve
      simp [Event.printed, console]
  | write path content =>
      simp only [serve] at hserve
      split at hserve <;> cases hserve <;> simp [Event.printed, console]
  | print stream text =>
      simp only [serve] at hserve
      cases hserve
      rw [console_onConsole hlt]
      cases stream <;> by_cases hr : rank = other <;> simp [hr, Event.printed, Console.write]
  | setUpLog setup =>
      simp only [serve] at hserve
      cases hserve
      rw [console_onConsole hlt]
      by_cases hr : rank = other <;> simp [hr, Event.printed, Console.setUpLog]
  | record entry =>
      simp only [serve] at hserve
      cases hserve
      rw [console_onConsole hlt]
      by_cases hr : rank = other <;> simp [hr, Event.printed, Console.record, Console.write]
  | _ =>
      simp only [serve] at hserve
      cases hserve
      try simp [Event.printed, console]

theorem serve_files (hr : r.isWrite = false) (hserve : h.serve rank r = (.answered answer, host)) :
    host.files = h.files := by
  cases r with
  | receive s c =>
      obtain ⟨net, rfl, -⟩ := serve_receive hserve
      rfl
  | write path content => cases hr
  | _ =>
      simp only [serve] at hserve
      cases hserve
      try rfl

theorem serve_entropy (hserve : h.serve rank r = (.answered answer, host)) :
    host.entropy = h.entropy := by
  cases r with
  | receive s c =>
      obtain ⟨net, rfl, -⟩ := serve_receive hserve
      rfl
  | write path content =>
      simp only [serve] at hserve
      split at hserve <;> cases hserve <;> rfl
  | _ =>
      simp only [serve] at hserve
      cases hserve
      try rfl

theorem serve_isReadOf (hserve : h.serve rank r = (.answered answer, host)) :
    Event.IsReadOf h.files h.entropy ⟨r, answer⟩ := by
  cases r with
  | read path =>
      simp only [serve] at hserve
      cases hserve
      rfl
  | entropy =>
      simp only [serve] at hserve
      cases hserve
      rfl
  | _ => trivial

end Host

/-! ## Outputs in runs

A run may mix the steps of all ranks, so a statement about one rank needs something about the
others: that they do not write. For the output this is not needed, since a console belongs to one
rank. -/

variable {z : Hazards} {s t : Ensemble} {ms ns : List Move}

/-- **What a step can be for outputs**: a rank's request is served, or they stay as they are. -/
theorem Step.cases_outputs {m : Move} (hstep : Step z s m t) :
    (∃ (rank : Nat) (e : Event), m = .act rank e ∧
        s.host.serve rank e.request = (.answered e.answer, t.host)) ∨
      (∀ (ms : List Move) (rank : Nat), historyOf (ms ++ [m]) rank = historyOf ms rank) ∧
        t.host.consoles = s.host.consoles ∧ t.host.files = s.host.files ∧
        t.host.entropy = s.host.entropy := by
  cases hstep with
  | act _ _ hserve => exact .inl ⟨_, _, rfl, hserve⟩
  | rogue _ _ hserve => exact .inl ⟨_, _, rfl, hserve⟩
  | inject fault _ => exact .inr ⟨fun ms => historyOf_inject ms fault, rfl, rfl, rfl⟩
  | heal _ => exact .inr ⟨historyOf_heal, rfl, rfl, rfl⟩

/-- **The output of a rank** is what it printed. -/
theorem Run.output {rank : Nat} (hrun : Run z s ms t) (hrank : rank < s.host.consoles.length) :
    t.host.consoles.length = s.host.consoles.length ∧
      (t.host.console rank).output
        = (s.host.console rank).output ++ (historyOf ms rank).printed := by
  induction hrun with
  | refl => simp
  | @step ms t u m hrun hstep ih =>
      obtain ⟨hlength, houtput⟩ := ih
      rcases hstep.cases_outputs with ⟨r, e, rfl, hserve⟩ | ⟨hsame, hconsoles, -⟩
      · refine ⟨(Host.serve_consoles hserve).trans hlength, ?_⟩
        rw [Host.serve_output (by omega) hserve, houtput, historyOf_act, String.append_assoc]
        split
        · rw [History.printed_add]
        · rw [String.append_empty]
      · rw [hsame, hconsoles]
        refine ⟨hlength, ?_⟩
        rw [← houtput]
        simp only [Host.console, hconsoles]

theorem mem_historyOf_append (ns : List Move) {rank : Nat} {e : Event} (he : e ∈ historyOf ms rank) :
    e ∈ historyOf (ms ++ ns) rank := by
  rw [historyOf, List.filterMap_append]
  exact List.mem_append_left _ he

/-- A step of a rank whose history shows no writing writes nothing. -/
theorem isWrite_of_historyOf {rank : Nat} {e : Event}
    (hnone : ∀ x ∈ historyOf (ms ++ [.act rank e]) rank, x.request.isWrite = false) :
    e.request.isWrite = false := by
  cases hq : e.request.isQuiet with
  | true =>
      rcases e with ⟨r, answer⟩
      cases r <;> first | rfl | cases hq
  | false =>
      refine hnone e ?_
      rw [historyOf_act, if_pos rfl, History.add_of_loud _ hq]
      simp

theorem Run.entropy (hrun : Run z s ms t) : t.host.entropy = s.host.entropy := by
  induction hrun with
  | refl => rfl
  | @step ms t u m hrun hstep ih =>
      rcases hstep.cases_outputs with ⟨r, e, rfl, hserve⟩ | ⟨-, -, -, hsteady⟩
      · exact (Host.serve_entropy hserve).trans ih
      · exact hsteady.trans ih

/-- **Where nobody writes**, the files stay as they are, and what is read is read from them. -/
theorem Run.files (hrun : Run z s ms t)
    (hnone : ∀ rank, ∀ e ∈ historyOf ms rank, e.request.isWrite = false) :
    t.host.files = s.host.files ∧
      ∀ rank, ∀ e ∈ historyOf ms rank, e.IsReadOf s.host.files s.host.entropy := by
  induction hrun with
  | refl => exact ⟨rfl, fun _ _ he => absurd he List.not_mem_nil⟩
  | @step ms t u m hrun hstep ih =>
      obtain ⟨hfiles, hreads⟩ := ih fun rank e he => hnone rank e (mem_historyOf_append [m] he)
      rcases hstep.cases_outputs with ⟨r, e, rfl, hserve⟩ | ⟨hsame, -, hsteady, -⟩
      · refine ⟨(Host.serve_files (isWrite_of_historyOf (hnone r)) hserve).trans hfiles,
          fun rank x hx => ?_⟩
        rw [historyOf_act] at hx
        split at hx
        · unfold History.add at hx
          split at hx
          · exact hreads rank x hx
          · rcases List.mem_append.mp hx with hold | hnew
            · exact hreads rank x hold
            · rw [List.mem_singleton.mp hnew, ← hfiles, ← hrun.entropy]
              exact Host.serve_isReadOf hserve
        · exact hreads rank x hx
      · refine ⟨hsteady.trans hfiles, fun rank => ?_⟩
        rw [hsame]
        exact hreads rank

theorem Run.first (hrun : Run z s (ms ++ ns) t) : ∃ u, Run z s ms u := by
  -- induction on the moves that are left out, the last one first
  induction ns using List.reverseRecOn generalizing t with
  | nil => exact ⟨t, by rwa [List.append_nil] at hrun⟩
  | append_singleton ns m ih =>
      rw [← List.append_assoc] at hrun
      generalize hmoves : ms ++ ns ++ [m] = l at hrun
      cases hrun with
      | refl => simp at hmoves
      | step hrun hstep =>
          obtain ⟨rfl, -⟩ := List.append_inj' hmoves rfl
          exact ih hrun

/-- **What a rank reads before it writes** is read from the files at the start, where no other rank
writes. -/
theorem Run.readsOf {rank : Nat} {g k : History} (hrun : Run z s ms t)
    (hothers : ∀ r ≠ rank, ∀ e ∈ historyOf ms r, e.request.isWrite = false)
    (hsplit : historyOf ms rank = g ++ k) (hnone : ∀ e ∈ g, e.request.isWrite = false) :
    ∀ e ∈ g, e.IsReadOf s.host.files s.host.entropy := by
  -- the first part of the history is the history of a first part of the run, where nobody writes
  obtain ⟨before, after, rfl, rfl, rfl⟩ := List.filterMap_eq_append_iff.mp hsplit
  obtain ⟨u, hbefore⟩ := hrun.first
  refine (hbefore.files fun r e he => ?_).2 rank
  by_cases hr : r = rank
  · subst hr
    exact hnone e he
  · exact hothers r hr e (mem_historyOf_append after he)

/-! ## Reading alone

The requests of a process that only reads are answered from the files and the entropy, in a run as
on a host of its own, so the two go the same way. -/

/-- **A process that only reads** comes to the same end as what it has come to, on every host with the
files it has read from and the entropy it was given. -/
theorem Process.run_of_comes {α : Type} {E : Error → Prop} {p q : Process α} {h : History}
    {host : Host} (rank : Nat) (hp : p.Only (·.isRead = true) E) (hpath : p.Comes h q)
    (hreads : ∀ e ∈ h, e.IsReadOf host.files host.entropy) : host.run rank p = host.run rank q := by
  induction hpath with
  | refl => rfl
  | @answered r next answer h q _ ih =>
      obtain ⟨hread, hnext⟩ := hp
      cases r with
      | read path =>
          have hanswer : answer = host.files.read path := hreads ⟨.read path, answer⟩ (by
            simp [History.add, Request.isQuiet])
          subst hanswer
          exact ih (hnext _) fun e he => hreads e (List.mem_append_right _ he)
      | entropy =>
          have hanswer : answer = host.entropy := hreads ⟨.entropy, answer⟩ (by
            simp [History.add, Request.isQuiet])
          subst hanswer
          exact ih (hnext _) fun e he => hreads e (List.mem_append_right _ he)
      | _ => cases hread

end RowBlock
