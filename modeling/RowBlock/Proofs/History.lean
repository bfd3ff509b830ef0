import RowBlock.Endpoint
import Mathlib.Data.List.Basic

set_option autoImplicit false

/-! # Histories and contracts

The *history* of a rank lists what it asked its surroundings for and what it was answered; log
records and readings of the clock are left out. A *contract* says what is true of the history
while a process runs: at every moment, at each request, at a failure and at the result, provided
that the answers keep to what the process may rely on. `Process.Meets` states that a process
started after a history meets a contract, whatever the answers are. Contracts are shown along the
process: `Meets.bind` for one process after another, and a rule for each access to messages.
-/

namespace RowBlock

/-! ## Events

A history is a list of events, and almost everything said of it is a projection: the messages sent
to a rank, those taken from one, the results published. The projections commute with appending,
which is all that proofs along a process need. -/

structure Event where
  request : Request
  answer : request.Answer

/-- What a rank asked for and was answered, the earliest first. -/
abbrev History := List Event

/-- A message that a rank sent or took. -/
inductive Deed where
  | sent (dest : Int) (channel : Channel) (payload : Payload)
  | taken (source : Nat) (channel : Channel) (payload : Payload)

/-- Requests that leave no trace in a history. -/
def Request.isQuiet : Request → Bool
  | .clock | .setUpLog _ | .record _ => true
  | _ => false

namespace Event

def deed? : Event → Option Deed
  | ⟨.send dest channel payload, .ok ()⟩ => some (.sent dest channel payload)
  | ⟨.receive _ channel, .ok (source, payload)⟩ => some (.taken source channel payload)
  | _ => none

def published? : Event → Option RoundResult
  | ⟨.publish result, _⟩ => some result
  | _ => none

/-- A message is received from a rank that the receive admits. -/
def IsAdmitted : Event → Prop
  | ⟨.receive source _, .ok (sender, _)⟩ => source.admits sender = true
  | _ => True

def IsRefusal : Event → Prop
  | ⟨.send _ _ _, .error _⟩ => True
  | ⟨.receive _ _, .error _⟩ => True
  | _ => False

theorem deed?_of_quiet {e : Event} (hq : e.request.isQuiet = true) : e.deed? = none := by
  rcases e with ⟨r, answer⟩
  cases r <;> first | rfl | cases hq

theorem published?_of_quiet {e : Event} (hq : e.request.isQuiet = true) : e.published? = none := by
  rcases e with ⟨r, answer⟩
  cases r <;> first | rfl | cases hq

end Event

namespace Deed

def sentTo? (dest : Nat) (channel : Channel) : Deed → Option Payload
  | sent d c payload => if d = dest ∧ c = channel then some payload else none
  | taken _ _ _ => none

def takenFrom? (source : Nat) (channel : Channel) : Deed → Option Payload
  | sent _ _ _ => none
  | taken s c payload => if s = source ∧ c = channel then some payload else none

def isSent : Deed → Bool
  | sent _ _ _ => true
  | taken _ _ _ => false

end Deed

def sentTo (ds : List Deed) (dest : Nat) (channel : Channel) : List Payload :=
  ds.filterMap (Deed.sentTo? dest channel)

def takenFrom (ds : List Deed) (source : Nat) (channel : Channel) : List Payload :=
  ds.filterMap (Deed.takenFrom? source channel)

@[simp]
theorem sentTo_nil (dest : Nat) (channel : Channel) : sentTo [] dest channel = [] := rfl

@[simp]
theorem takenFrom_nil (source : Nat) (channel : Channel) : takenFrom [] source channel = [] := rfl

@[simp]
theorem sentTo_append (ds es : List Deed) (dest : Nat) (channel : Channel) :
    sentTo (ds ++ es) dest channel = sentTo ds dest channel ++ sentTo es dest channel :=
  List.filterMap_append

@[simp]
theorem takenFrom_append (ds es : List Deed) (source : Nat) (channel : Channel) :
    takenFrom (ds ++ es) source channel = takenFrom ds source channel ++ takenFrom es source channel :=
  List.filterMap_append

theorem sentTo_isPrefix {ds es : List Deed} (h : ds <+: es) (dest : Nat) (channel : Channel) :
    sentTo ds dest channel <+: sentTo es dest channel := by
  obtain ⟨rest, rfl⟩ := h
  exact ⟨sentTo rest dest channel, (sentTo_append ds rest dest channel).symm⟩

theorem sentTo_flatMap {α : Type} (l : List α) (plan : α → List Deed) (dest : Nat)
    (channel : Channel) :
    sentTo (l.flatMap plan) dest channel = l.flatMap fun x => sentTo (plan x) dest channel :=
  List.filterMap_flatMap

theorem takenFrom_flatMap {α : Type} (l : List α) (plan : α → List Deed) (source : Nat)
    (channel : Channel) :
    takenFrom (l.flatMap plan) source channel = l.flatMap fun x => takenFrom (plan x) source channel :=
  List.filterMap_flatMap

/-- One more message taken is one more. -/
theorem takenFrom_append_taken_ne (ds es : List Deed) (source : Nat) (channel : Channel)
    (payload : Payload) :
    takenFrom (ds ++ .taken source channel payload :: es) source channel
      ≠ takenFrom ds source channel := by
  intro h
  have hlength := congrArg List.length h
  rw [takenFrom_append, List.length_append] at hlength
  simp [takenFrom, Deed.takenFrom?] at hlength

theorem exists_sent {ds : List Deed} {dest : Nat} {channel : Channel}
    (h : sentTo ds dest channel ≠ []) : ∃ payload, .sent dest channel payload ∈ ds := by
  obtain ⟨payload, hpayload⟩ := List.exists_mem_of_ne_nil _ h
  obtain ⟨d, hd, hsent⟩ := List.mem_filterMap.mp hpayload
  cases d with
  | sent d c p =>
      simp only [Deed.sentTo?, Option.ite_none_right_eq_some] at hsent
      obtain ⟨⟨rfl, rfl⟩, -⟩ := hsent
      exact ⟨p, hd⟩
  | taken s c p => cases hsent

/-- Only the messages sent matter to what was sent. -/
theorem sentTo_filter (ds : List Deed) (dest : Nat) (channel : Channel) :
    sentTo (ds.filter Deed.isSent) dest channel = sentTo ds dest channel := by
  induction ds with
  | nil => rfl
  | cons d ds ih =>
      unfold sentTo at ih ⊢
      cases d with
      | sent d c payload =>
          rw [List.filter_cons_of_pos rfl, List.filterMap_cons, List.filterMap_cons, ih]
      | taken s c payload =>
          rw [List.filter_cons_of_neg (by simp [Deed.isSent]), ih, List.filterMap_cons_none rfl]

namespace History

def deeds (h : History) : List Deed := h.filterMap Event.deed?

def published (h : History) : List RoundResult := h.filterMap Event.published?

def Admitted (h : History) : Prop := ∀ e ∈ h, e.IsAdmitted

def NoneRefused (h : History) : Prop := ∀ e ∈ h, ¬e.IsRefusal

def add (h : History) (e : Event) : History := if e.request.isQuiet then h else h ++ [e]

@[simp]
theorem deeds_nil : deeds [] = [] := rfl

@[simp]
theorem published_nil : published [] = [] := rfl

@[simp]
theorem deeds_singleton (e : Event) : deeds [e] = e.deed?.toList := by
  cases he : e.deed? <;> simp [deeds, he]

@[simp]
theorem published_singleton (e : Event) : published [e] = e.published?.toList := by
  cases he : e.published? <;> simp [published, he]

@[simp]
theorem deeds_append (h g : History) : deeds (h ++ g) = h.deeds ++ g.deeds := List.filterMap_append

@[simp]
theorem published_append (h g : History) : published (h ++ g) = h.published ++ g.published :=
  List.filterMap_append

theorem not_noneRefused {e : Event} (h : History) (he : e.IsRefusal) : ¬NoneRefused (h ++ [e]) :=
  fun hnone => hnone e (List.mem_append_right _ (List.mem_singleton_self e)) he

theorem Admitted.last {h : History} {e : Event} (hall : Admitted (h ++ [e])) : e.IsAdmitted :=
  hall e (List.mem_append_right _ (List.mem_singleton_self e))

theorem admitted_append {h g : History} : Admitted (h ++ g) ↔ h.Admitted ∧ g.Admitted := by
  simp [Admitted, or_imp, forall_and]

theorem noneRefused_append {h g : History} :
    NoneRefused (h ++ g) ↔ h.NoneRefused ∧ g.NoneRefused := by
  simp [NoneRefused, or_imp, forall_and]

theorem add_of_quiet {e : Event} (h : History) (hq : e.request.isQuiet = true) : h.add e = h :=
  if_pos hq

theorem add_of_loud {e : Event} (h : History) (hq : e.request.isQuiet = false) :
    h.add e = h ++ [e] := if_neg (by simp [hq])

theorem deeds_add (h : History) (e : Event) : (h.add e).deeds = h.deeds ++ e.deed?.toList := by
  cases hq : e.request.isQuiet with
  | true => rw [add_of_quiet h hq, Event.deed?_of_quiet hq, Option.toList_none, List.append_nil]
  | false => rw [add_of_loud h hq, deeds_append, deeds_singleton]

theorem published_add (h : History) (e : Event) :
    (h.add e).published = h.published ++ e.published?.toList := by
  cases hq : e.request.isQuiet with
  | true =>
      rw [add_of_quiet h hq, Event.published?_of_quiet hq, Option.toList_none, List.append_nil]
  | false => rw [add_of_loud h hq, published_append, published_singleton]

end History

/-! ## Contracts

A contract has a clause for each thing that can be seen of a process. What it relies on is a
property of the whole history, so that it can speak of the order of messages; it is a hypothesis
after every answer and is never shown of the process itself. -/

/-- What is promised of the histories of a process with a result of type `α`. -/
structure Contract (α : Type) where
  /-- The histories that the surroundings can bring about. -/
  rely : History → Prop
  /-- What is true at every moment. -/
  holds : History → Prop
  /-- What is true when something is asked for. -/
  asks : History → Request → Prop
  /-- What is true at the result. -/
  returns : History → α → Prop
  /-- What is true at a failure. -/
  fails : History → Error → Prop

variable {α β : Type}

/-- The contract of the first of two processes, the second of which has this contract. -/
def Contract.before (C : Contract β) (P : α → History → Prop) : Contract α :=
  ⟨C.rely, C.holds, C.asks, fun h a => P a h, C.fails⟩

/-- The contract as it reads to a process that does not see an earlier history. -/
def Contract.after (C : Contract α) (g : History) : Contract α :=
  ⟨fun h => C.rely (g ++ h), fun h => C.holds (g ++ h), fun h => C.asks (g ++ h),
    fun h => C.returns (g ++ h), fun h => C.fails (g ++ h)⟩

namespace Process

/-- **Meeting a contract** after a history. Quiet requests are always allowed. -/
def Meets (C : Contract α) : Process α → History → Prop
  | .done a, h => C.holds h ∧ C.returns h a
  | .failed e, h => C.holds h ∧ C.fails h e
  | .ask r next, h => C.holds h ∧ (r.isQuiet = false → C.asks h r) ∧
      ∀ answer, C.rely (h.add ⟨r, answer⟩) → (next answer).Meets C (h.add ⟨r, answer⟩)

theorem Meets.holds {C : Contract α} {p : Process α} {h : History} (hp : p.Meets C h) :
    C.holds h := by
  cases p <;> exact hp.1

/-- **One process after another.** -/
theorem Meets.bind {C : Contract β} {f : α → Process β} {p : Process α} {h : History}
    (hp : p.Meets (C.before fun a => (f a).Meets C) h) : (p >>= f).Meets C h := by
  -- induction on the first process: its requests stay, and at its result the second one starts
  induction p generalizing h with
  | done a => exact hp.2
  | failed e => exact hp
  | ask r next ih =>
      obtain ⟨hholds, hasks, hnext⟩ := hp
      exact ⟨hholds, hasks, fun answer hrely => ih answer (hnext answer hrely)⟩

/-- A contract that asks for less is met as well. -/
theorem Meets.imp {C D : Contract α} {p : Process α} {h : History} (hp : p.Meets C h)
    (hrely : ∀ g, D.rely g → C.rely g) (hholds : ∀ g, C.holds g → D.holds g)
    (hasks : ∀ g r, C.holds g → C.asks g r → D.asks g r)
    (hreturns : ∀ g a, C.holds g → C.returns g a → D.returns g a)
    (hfails : ∀ g e, C.holds g → C.fails g e → D.fails g e) : p.Meets D h := by
  induction p generalizing h with
  | done a => exact ⟨hholds _ hp.1, hreturns _ _ hp.1 hp.2⟩
  | failed e => exact ⟨hholds _ hp.1, hfails _ _ hp.1 hp.2⟩
  | ask r next ih =>
      obtain ⟨h1, h2, h3⟩ := hp
      exact ⟨hholds _ h1, fun hq => hasks _ _ h1 (h2 hq),
        fun answer hr => ih answer (h3 answer (hrely _ hr))⟩

theorem append_add (g h : History) (e : Event) : (g ++ h).add e = g ++ h.add e := by
  unfold History.add
  split
  · rfl
  · rw [List.append_assoc]

/-- A process does not see what came before it. -/
theorem meets_after {C : Contract α} {p : Process α} {g h : History} :
    p.Meets (C.after g) h ↔ p.Meets C (g ++ h) := by
  induction p generalizing h with
  | done a => exact Iff.rfl
  | failed e => exact Iff.rfl
  | ask r next ih =>
      simp only [Meets, append_add]
      refine and_congr Iff.rfl (and_congr Iff.rfl (forall_congr' fun answer => ?_))
      exact imp_congr Iff.rfl (ih answer)

/-! ## Rules for requests

One rule for each shape of a process. Quiet requests leave the history as it is; every other one
extends it by one event. -/

section

variable {C : Contract α} {h : History} {r : Request} {next : r.Answer → Process α}

theorem meets_ask_quiet (hq : r.isQuiet = true) :
    (ask r next).Meets C h ↔ C.holds h ∧ (C.rely h → ∀ answer, (next answer).Meets C h) := by
  have hadd : ∀ answer, h.add ⟨r, answer⟩ = h := fun answer => h.add_of_quiet hq
  simp only [Meets, hadd, hq, Bool.true_eq_false, false_implies, true_and]
  exact and_congr Iff.rfl forall_comm

theorem meets_ask_loud (hq : r.isQuiet = false) :
    (ask r next).Meets C h ↔ C.holds h ∧ C.asks h r ∧
      ∀ answer, C.rely (h ++ [⟨r, answer⟩]) → (next answer).Meets C (h ++ [⟨r, answer⟩]) := by
  have hadd : ∀ answer, h.add ⟨r, answer⟩ = h ++ [⟨r, answer⟩] := fun answer => h.add_of_loud hq
  simp only [Meets, hadd, hq, true_implies]

theorem meets_done {a : α} (hholds : C.holds h) (hreturns : C.returns h a) :
    (done a).Meets C h := ⟨hholds, hreturns⟩

theorem meets_ofExcept {ε : Type} {error : ε → Error} {x : Except ε α} (hholds : C.holds h)
    (hok : ∀ a, x = .ok a → C.returns h a) (herror : ∀ e, x = .error e → C.fails h (error e)) :
    (ofExcept error x).Meets C h := by
  cases x with
  | ok a => exact ⟨hholds, hok a rfl⟩
  | error e => exact ⟨hholds, herror e rfl⟩

end

/-- A record in the log is nothing to a contract. -/
theorem meets_note {C : Contract Unit} {h : History} {logger : String} {level : Level}
    {text : String} (hholds : C.holds h) (hreturns : C.returns h ()) :
    (note logger level text).Meets C h :=
  (meets_ask_quiet rfl).mpr ⟨hholds, fun _ _ => ⟨hholds, hreturns⟩⟩

/-- Nor is a reading of the clock. -/
theorem meets_now {C : Contract Float} {h : History} (hholds : C.holds h)
    (hreturns : ∀ t, C.returns h t) : now.Meets C h :=
  (meets_ask_quiet rfl).mpr ⟨hholds, fun _ t => ⟨hholds, hreturns t⟩⟩

end Process

/-! ## Rules for messages

A receive has two answers, so a contract has to be shown in both. The rule splits them once, and the
checks of a payload come after it. -/

namespace Endpoint

variable {h : History}

/-- A receive that is answered and one that is refused. -/
theorem meets_receiveFrom {C : Contract (Nat × Payload)} {source : Source} {channel : Channel}
    (hholds : C.holds h) (hasks : C.asks h (.receive source channel))
    (hok : ∀ g s payload, g = h ++ [⟨.receive source channel, .ok (s, payload)⟩] → C.rely g →
      C.holds g ∧ C.returns g (s, payload))
    (herror : ∀ g cause, g = h ++ [⟨.receive source channel, .error cause⟩] → C.rely g →
      C.holds g ∧ C.fails g (.transport (.notReceived source channel cause))) :
    (receiveFrom source channel).Meets C h := by
  refine (Process.meets_ask_loud rfl).mpr ⟨hholds, hasks, fun answer hrely => ?_⟩
  rcases answer with cause | ⟨s, payload⟩
  · exact herror _ cause rfl hrely
  · obtain ⟨h1, h2⟩ := hok _ s payload rfl hrely
    show (Process.note logger .debug _ >>= fun _ => Process.done (s, payload)).Meets C _
    refine Process.Meets.bind (Process.meets_note h1 ?_)
    exact Process.meets_done h1 h2

end Endpoint

end RowBlock
