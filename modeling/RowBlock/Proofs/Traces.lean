import RowBlock.Proofs.Outputs

set_option autoImplicit false

/-! # Traces

A history leaves out what a rank notes in its log and when it reads the clock. A *trace* lists these
events too: `p.Goes l q` states that `p` goes to `q` by all the requests and answers of `l`, and its
history is what is left of `l` without the quiet ones (`Goes.comes`). Traces are taken apart along a
process like paths (`goes_bind_done`). In a run every part that keeps to its process has gone to where
it is by the events of its rank (`Run.goes`), and the rank that alone reads the clock is told the times
of its readings one after another (`Run.ticks`).
-/

namespace RowBlock

/-! ## Events

Histories leave quiet requests out. Reading the clock is one of them and writing to the log another,
so for statements about times and records the full list of events is needed. -/

/-- What a trace leaves in a history. -/
def loud (l : List Event) : History := l.filter (!·.request.isQuiet)

@[simp]
theorem loud_append (l m : List Event) : loud (l ++ m) = loud l ++ loud m := List.filter_append _ _

theorem loud_cons (e : Event) (l : List Event) : loud (e :: l) = History.add [] e ++ loud l := by
  cases hq : e.request.isQuiet <;> simp [loud, History.add, hq]

theorem loud_add (l : List Event) (e : Event) : loud (l ++ [e]) = (loud l).add e := by
  cases hq : e.request.isQuiet <;> simp [loud, History.add, hq]

/-- Quiet events leave nothing in a history. -/
theorem loud_eq_nil {l : List Event} (hquiet : ∀ e ∈ l, e.request.isQuiet = true) : loud l = [] :=
  List.filter_eq_nil_iff.mpr fun e he => by simp [hquiet e he]

namespace Event

def tick? : Event → Option Float
  | ⟨.clock, time⟩ => some time
  | _ => none

def complaint? : Event → Option LogRecord
  | ⟨.record entry, _⟩ => if entry.level = .error then some entry else none
  | _ => none

end Event

def ticks (l : List Event) : List Float := l.filterMap Event.tick?

def complaints (l : List Event) : List LogRecord := l.filterMap Event.complaint?

@[simp]
theorem ticks_append (l m : List Event) : ticks (l ++ m) = ticks l ++ ticks m :=
  List.filterMap_append

@[simp]
theorem complaints_append (l m : List Event) : complaints (l ++ m) = complaints l ++ complaints m :=
  List.filterMap_append

/-- Whoever does not read the clock is told no time. -/
theorem ticks_eq_nil {l : List Event} (hnone : ∀ e ∈ l, e.request ≠ .clock) : ticks l = [] := by
  apply List.filterMap_eq_nil_iff.mpr
  rintro ⟨r, answer⟩ he
  have hr := hnone _ he
  cases r <;> first | rfl | exact absurd rfl hr

/-! ## Traces of processes

These are the lemmas of paths once more, for lists that leave nothing out. A trace determines the
history, not the other way round. -/

namespace Process

variable {α β : Type}

/-- **Going to** a later point of a process by all requests and their answers. -/
inductive Goes : Process α → List Event → Process α → Prop
  | refl (p : Process α) : Goes p [] p
  | answered {r : Request} {next : r.Answer → Process α} {answer : r.Answer} {l : List Event}
      {q : Process α} (hnext : Goes (next answer) l q) : Goes (.ask r next) (⟨r, answer⟩ :: l) q

/-- **The history of a trace** is a path of the process. -/
theorem Goes.comes {p q : Process α} {l : List Event} (hp : p.Goes l q) : p.Comes (loud l) q := by
  induction hp with
  | refl => exact .refl _
  | answered _ ih =>
      rw [loud_cons]
      exact .answered ih

theorem Goes.add {p : Process α} {l : List Event} {r : Request} {next : r.Answer → Process α}
    (hp : p.Goes l (.ask r next)) (answer : r.Answer) :
    p.Goes (l ++ [⟨r, answer⟩]) (next answer) := by
  generalize hq : ask r next = q at hp
  induction hp with
  | refl =>
      subst hq
      exact .answered (.refl _)
  | answered _ ih => exact .answered (ih hq)

theorem goes_done_iff {a : α} {l : List Event} {q : Process α} :
    (done a).Goes l q ↔ l = [] ∧ q = done a := by
  constructor
  · intro hp
    cases hp
    exact ⟨rfl, rfl⟩
  · rintro ⟨rfl, rfl⟩
    exact .refl _

theorem goes_failed_iff {e : Error} {l : List Event} {q : Process α} :
    (failed e : Process α).Goes l q ↔ l = [] ∧ q = failed e := by
  constructor
  · intro hp
    cases hp
    exact ⟨rfl, rfl⟩
  · rintro ⟨rfl, rfl⟩
    exact .refl _

/-- **A result of one process after another** is one of both. -/
theorem goes_bind_done {p : Process α} {f : α → Process β} {l : List Event} {b : β}
    (hp : (p >>= f).Goes l (.done b)) :
    ∃ a m k, l = m ++ k ∧ p.Goes m (.done a) ∧ (f a).Goes k (.done b) := by
  -- induction on the first process: each request of it is one more step of its trace
  induction p generalizing l with
  | done a => exact ⟨a, [], l, rfl, .refl _, hp⟩
  | failed e => cases (goes_failed_iff.mp hp).2
  | ask r next ih =>
      rw [ask_bind] at hp
      cases hp with
      | answered hnext =>
          obtain ⟨a, m, k, rfl, hm, hk⟩ := ih _ hnext
          exact ⟨a, _, k, rfl, .answered hm, hk⟩

/-- **Where a trace of one process after another ends**: at a failure or a request of the first one, or
past its result. -/
theorem Goes.bind_cases {p : Process α} {f : α → Process β} {l : List Event} {q : Process β}
    (hp : (p >>= f).Goes l q) :
    (∃ e, p.Goes l (.failed e) ∧ q = .failed e) ∨
      (∃ r next, p.Goes l (.ask r next) ∧ q = .ask r fun answer => next answer >>= f) ∨
      ∃ a m k, l = m ++ k ∧ p.Goes m (.done a) ∧ (f a).Goes k q := by
  induction p generalizing l with
  | done a => exact .inr (.inr ⟨a, [], l, rfl, .refl _, hp⟩)
  | failed e =>
      obtain ⟨rfl, rfl⟩ := goes_failed_iff.mp hp
      exact .inl ⟨e, .refl _, rfl⟩
  | ask r next ih =>
      rw [ask_bind] at hp
      cases hp with
      | refl => exact .inr (.inl ⟨r, next, .refl _, rfl⟩)
      | answered hnext =>
          rcases ih _ hnext with ⟨e, he, rfl⟩ | ⟨r', next', hr, rfl⟩ | ⟨a, m, k, rfl, hm, hk⟩
          · exact .inl ⟨e, .answered he, rfl⟩
          · exact .inr (.inl ⟨r', next', .answered hr, rfl⟩)
          · exact .inr (.inr ⟨a, _, k, rfl, .answered hm, hk⟩)

theorem goes_ofExcept_done {ε : Type} {error : ε → Error} {x : Except ε α} {l : List Event} {a : α}
    (hp : (ofExcept error x).Goes l (.done a)) : l = [] ∧ x = .ok a := by
  cases x with
  | ok b =>
      obtain ⟨rfl, hb⟩ := goes_done_iff.mp hp
      cases hb
      exact ⟨rfl, rfl⟩
  | error e => cases (goes_failed_iff.mp hp).2

/-- What comes of a request is its answer. -/
theorem goes_request_done {r : Request} {l : List Event} {answer : r.Answer}
    (hp : (request r).Goes l (.done answer)) : l = [⟨r, answer⟩] := by
  cases hp with
  | answered hnext =>
      obtain ⟨rfl, hdone⟩ := goes_done_iff.mp hnext
      cases hdone
      rfl

/-- **On every trace** the requests are of the kind that a process makes. -/
theorem Only.goes {P : Request → Prop} {E : Error → Prop} {p q : Process α} {l : List Event}
    (hp : p.Only P E) (hgoes : p.Goes l q) : (∀ e ∈ l, P e.request) ∧ q.Only P E := by
  induction hgoes with
  | refl => exact ⟨by simp, hp⟩
  | answered _ ih =>
      obtain ⟨hrequest, hnext⟩ := hp
      obtain ⟨hlater, hq⟩ := ih (hnext _)
      exact ⟨by simpa using ⟨hrequest, hlater⟩, hq⟩

end Process

/-! ## Traces in runs

The trace of a rank can be read off the moves of a run, like its history. -/

/-- The event of a rank, quiet or not, that a move consists in. -/
def Move.traceOf? (rank : Nat) : Move → Option Event
  | .act r e => if r = rank then some e else none
  | _ => none

/-- **The trace of a rank** in a run with these moves. -/
def traceOf (ms : List Move) (rank : Nat) : List Event := ms.filterMap (Move.traceOf? rank)

theorem traceOf_act (ms : List Move) (r : Nat) (e : Event) (rank : Nat) :
    traceOf (ms ++ [.act r e]) rank
      = traceOf ms rank ++ if r = rank then [e] else [] := by
  by_cases hr : r = rank <;> simp [traceOf, Move.traceOf?, hr]

theorem traceOf_other (ms : List Move) {m : Move} (hm : ∀ rank, m.traceOf? rank = none)
    (rank : Nat) : traceOf (ms ++ [m]) rank = traceOf ms rank := by
  simp [traceOf, hm]

/-- The history of a rank is what its trace leaves. -/
theorem loud_traceOf (ms : List Move) (rank : Nat) : loud (traceOf ms rank) = historyOf ms rank := by
  induction ms using List.reverseRecOn with
  | nil => rfl
  | append_singleton ms m ih =>
      cases m with
      | act r e =>
          rw [traceOf_act, historyOf_act]
          by_cases hr : r = rank
          · rw [if_pos hr, if_pos hr, loud_add, ih]
          · rw [if_neg hr, if_neg hr, List.append_nil, ih]
      | inject fault => rw [traceOf_other ms fun _ => rfl, historyOf_inject, ih]
      | heal => rw [traceOf_other ms fun _ => rfl, historyOf_heal, ih]

variable {z : Hazards} {s t : Ensemble} {ms : List Move} {rank : Nat}

/-- **Where a rank is in a run**: its process has gone there by its trace. -/
theorem Run.goes {p : Process Unit} (hrun : Run z s ms t) (hhonest : ¬z.rogue rank)
    (hpart : s.parts[rank]? = some p) :
    ∃ q, t.parts[rank]? = some q ∧ p.Goes (traceOf ms rank) q := by
  induction hrun with
  | refl => exact ⟨p, hpart, .refl p⟩
  | @step ms t u m hrun hstep ih =>
      obtain ⟨q, hq, htrace⟩ := ih
      cases hstep with
      | @act r request next answer host _ hnext _ =>
          rw [traceOf_act]
          by_cases hr : r = rank
          · subst hr
            obtain rfl : q = .ask request next := Option.some.inj (hq.symm.trans hnext)
            rw [if_pos rfl]
            exact ⟨next answer, List.getElem?_set_self (List.getElem?_eq_some_iff.mp hq).1,
              htrace.add answer⟩
          · rw [if_neg hr, List.append_nil]
            exact ⟨q, by rwa [List.getElem?_set_ne hr], htrace⟩
      | @rogue r request answer host hrogue _ _ =>
          rw [traceOf_act, if_neg fun hr : r = rank => hhonest (hr ▸ hrogue), List.append_nil]
          exact ⟨q, hq, htrace⟩
      | inject fault _ =>
          rw [traceOf_other ms fun _ => rfl]
          exact ⟨q, hq, htrace⟩
      | heal _ =>
          rw [traceOf_other ms fun _ => rfl]
          exact ⟨q, hq, htrace⟩

/-- A rank without a part leaves no trace. -/
theorem Run.traceOf_eq_nil (hrun : Run z s ms t) (hhonest : ¬z.rogue rank)
    (hnone : s.parts.length ≤ rank) : traceOf ms rank = [] := by
  induction hrun with
  | refl => rfl
  | @step ms t u m hrun hstep ih =>
      cases hstep with
      | @act r request next answer host _ hpart _ =>
          have hr : r ≠ rank := by
            rintro rfl
            have hlt := (List.getElem?_eq_some_iff.mp hpart).1
            rw [hrun.length_parts] at hlt
            omega
          rw [traceOf_act, if_neg hr, ih, List.append_nil]
      | @rogue r request answer host hrogue _ _ =>
          rw [traceOf_act, if_neg fun hr : r = rank => hhonest (hr ▸ hrogue), ih, List.append_nil]
      | inject fault _ => rw [traceOf_other ms fun _ => rfl, ih]
      | heal _ => rw [traceOf_other ms fun _ => rfl, ih]

/-! ## The clock

The clock is shared by all ranks. When one rank alone reads it, its readings are consecutive,
whatever the others do in the meantime. -/

/-- The times of a number of calls from one call on. -/
def Clock.times (clock : Clock) (n : Nat) : List Float :=
  (List.range n).map fun i => Clock.timeAt clock.readings (clock.calls + i)

theorem Clock.times_succ (clock : Clock) (n : Nat) :
    clock.times (n + 1) = clock.times n ++ [Clock.timeAt clock.readings (clock.calls + n)] := by
  simp [times, List.range_succ]

/-- **What a request does to the clock**: it tells the time of the call and counts it, or leaves the
clock as it is. -/
theorem Host.serve_clock {h host : Host} {r : Request} {answer : r.Answer}
    (hserve : h.serve rank r = (.answered answer, host)) :
    (Event.tick? ⟨r, answer⟩ = some (Clock.timeAt h.clock.readings h.clock.calls) ∧
        host.clock = { h.clock with calls := h.clock.calls + 1 }) ∨
      (Event.tick? ⟨r, answer⟩ = none ∧ host.clock = h.clock) := by
  cases r with
  | clock =>
      simp only [serve, Clock.read] at hserve
      cases hserve
      exact .inl ⟨rfl, rfl⟩
  | receive source channel =>
      obtain ⟨net, rfl, -⟩ := serve_receive hserve
      exact .inr ⟨rfl, rfl⟩
  | write path content =>
      simp only [serve] at hserve
      split at hserve <;> cases hserve <;> exact .inr ⟨rfl, rfl⟩
  | _ =>
      simp only [serve] at hserve
      cases hserve
      try exact .inr ⟨rfl, rfl⟩

/-- A step that is no event of a rank leaves the clock as it is. -/
theorem Step.cases_clock {m : Move} (hstep : Step z s m t) :
    (∃ (r : Nat) (e : Event), m = .act r e ∧
        s.host.serve r e.request = (.answered e.answer, t.host)) ∨
      (∀ rank, m.traceOf? rank = none) ∧ t.host.clock = s.host.clock := by
  cases hstep with
  | act _ _ hserve => exact .inl ⟨_, _, rfl, hserve⟩
  | rogue _ _ hserve => exact .inl ⟨_, _, rfl, hserve⟩
  | inject fault _ => exact .inr ⟨fun _ => rfl, rfl⟩
  | heal _ => exact .inr ⟨fun _ => rfl, rfl⟩

/-- **A rank that alone reads the clock** is told the times of its readings one after another. -/
theorem Run.ticks (hrun : Run z s ms t) (hothers : ∀ r ≠ rank, ticks (traceOf ms r) = []) :
    ticks (traceOf ms rank) = s.host.clock.times (ticks (traceOf ms rank)).length ∧
      t.host.clock = { s.host.clock with
        calls := s.host.clock.calls + (RowBlock.ticks (traceOf ms rank)).length } := by
  induction hrun with
  | refl => exact ⟨rfl, rfl⟩
  | @step ms t u m hrun hstep ih =>
      rcases hstep.cases_clock with ⟨r, e, rfl, hserve⟩ | ⟨hnone, hclock⟩
      · -- what was told before is told still, and only this event may add to it
        have hgrows (x : Nat) : RowBlock.ticks (traceOf (ms ++ [.act r e]) x)
            = RowBlock.ticks (traceOf ms x) ++ if r = x then e.tick?.toList else [] := by
          rw [traceOf_act, ticks_append]
          congr 1
          by_cases hr : r = x
          · rw [if_pos hr, if_pos hr]
            cases ht : e.tick? <;> simp [RowBlock.ticks, ht]
          · rw [if_neg hr, if_neg hr]
            rfl
        obtain ⟨hold, hcalls⟩ := ih fun x hx => by
          have hboth := hothers x hx
          rw [hgrows, List.append_eq_nil_iff] at hboth
          exact hboth.1
        rw [hgrows]
        rcases Host.serve_clock hserve with ⟨htick, hclock⟩ | ⟨htick, hclock⟩
        · have hr : r = rank := by
            by_contra hne
            have hboth := hothers r hne
            rw [hgrows, if_pos rfl, htick] at hboth
            simp at hboth
          rw [if_pos hr, htick, hclock, hcalls]
          simp only [Option.toList_some, List.length_append, List.length_singleton]
          refine ⟨?_, by rw [Nat.add_assoc]⟩
          rw [Clock.times_succ, ← hold]
        · rw [htick, Option.toList_none, ite_self, List.append_nil, hclock]
          exact ⟨hold, hcalls⟩
      · have hsame (x : Nat) := traceOf_other ms hnone x
        simp only [hsame] at hothers ⊢
        rw [hclock]
        exact ih hothers

end RowBlock
