import RowBlock.Proofs.Interleaving

set_option autoImplicit false

/-! # Paths

A *path* of a process leads from its start to a later point of it: to its result, to its failure, or
to a request that has not been answered yet. `p.Comes h q` states that `p` comes to `q` by the
requests and answers of the history `h`. A path of one process after another is a path of the first
one, or one of both (`Comes.of_bind`), so what a result took can be read off along the process.

A process that asks for requests of some kind only (`Process.Only`) does so on every path. A contract
holds on every path whose answers are such as it relies on (`Meets.comes`). In a run every part that
keeps to its process has come to where it is by its history (`Run.comes`).
-/

namespace RowBlock

namespace Process

variable {α β : Type}

/-! ## Paths

Paths are kept by the histories and not step by step, so quiet requests are invisible on them. A
path may end anywhere. -/

/-- **Coming to** a later point of a process by requests and their answers. -/
inductive Comes : Process α → History → Process α → Prop
  | refl (p : Process α) : Comes p [] p
  | answered {r : Request} {next : r.Answer → Process α} {answer : r.Answer} {h : History}
      {q : Process α} (hnext : Comes (next answer) h q) :
      Comes (.ask r next) (History.add [] ⟨r, answer⟩ ++ h) q

theorem Comes.trans {p q s : Process α} {g h : History} (hp : p.Comes g q) (hq : q.Comes h s) :
    p.Comes (g ++ h) s := by
  induction hp with
  | refl => exact hq
  | answered _ ih =>
      rw [List.append_assoc]
      exact .answered (ih hq)

theorem Comes.bind {p q : Process α} {h : History} (hp : p.Comes h q) (f : α → Process β) :
    (p >>= f).Comes h (q >>= f) := by
  induction hp with
  | refl => exact .refl _
  | answered _ ih =>
      rw [ask_bind]
      exact .answered ih

theorem Comes.add {p : Process α} {h : History} {r : Request} {next : r.Answer → Process α}
    (hp : p.Comes h (.ask r next)) (answer : r.Answer) :
    p.Comes (h.add ⟨r, answer⟩) (next answer) := by
  have hone : (ask r next).Comes (History.add [] ⟨r, answer⟩ ++ []) (next answer) :=
    .answered (.refl _)
  rw [List.append_nil] at hone
  have hboth := hp.trans hone
  rwa [← append_add, List.append_nil] at hboth

/-! ## Inversion

Inversion goes by the shape of the process. A process that is done or has failed comes to nothing
but itself; a bind comes to something within its first part or to something in its second one. -/

theorem comes_done_iff {a : α} {h : History} {q : Process α} :
    (done a).Comes h q ↔ h = [] ∧ q = done a := by
  constructor
  · intro hp
    cases hp
    exact ⟨rfl, rfl⟩
  · rintro ⟨rfl, rfl⟩
    exact .refl _

theorem comes_failed_iff {e : Error} {h : History} {q : Process α} :
    (failed e : Process α).Comes h q ↔ h = [] ∧ q = failed e := by
  constructor
  · intro hp
    cases hp
    exact ⟨rfl, rfl⟩
  · rintro ⟨rfl, rfl⟩
    exact .refl _

theorem not_comes_done_failed {a : α} {h : History} {e : Error} : ¬(done a).Comes h (.failed e) := by
  intro hp
  cases (comes_done_iff.mp hp).2

theorem not_comes_failed_done {e : Error} {h : History} {a : α} :
    ¬(failed e : Process α).Comes h (.done a) := by
  intro hp
  cases (comes_failed_iff.mp hp).2

/-- **A path of one process after another** is within the first one, or leads through its result. -/
theorem Comes.of_bind {p : Process α} {f : α → Process β} {h : History} {q : Process β}
    (hpath : (p >>= f).Comes h q) :
    (∃ p', p.Comes h p' ∧ q = p' >>= f) ∨
      ∃ a g k, h = g ++ k ∧ p.Comes g (.done a) ∧ (f a).Comes k q := by
  -- induction on the first process: each request of it is one more step of its path
  induction p generalizing h with
  | done a => exact .inr ⟨a, [], h, rfl, .refl _, hpath⟩
  | failed e =>
      obtain ⟨rfl, rfl⟩ := comes_failed_iff.mp hpath
      exact .inl ⟨.failed e, .refl _, rfl⟩
  | ask r next ih =>
      rw [ask_bind] at hpath
      cases hpath with
      | refl => exact .inl ⟨.ask r next, .refl _, rfl⟩
      | answered hnext =>
          rcases ih _ hnext with ⟨p', hp', rfl⟩ | ⟨a, g, k, rfl, hg, hk⟩
          · exact .inl ⟨p', .answered hp', rfl⟩
          · exact .inr ⟨a, _, k, (List.append_assoc _ _ _).symm, .answered hg, hk⟩

/-- **A result of one process after another** is one of both. -/
theorem comes_bind_done {p : Process α} {f : α → Process β} {h : History} {b : β}
    (hpath : (p >>= f).Comes h (.done b)) :
    ∃ a g k, h = g ++ k ∧ p.Comes g (.done a) ∧ (f a).Comes k (.done b) := by
  rcases hpath.of_bind with ⟨p', hp', hdone⟩ | hboth
  · cases p' with
    | done a => exact ⟨a, h, [], (List.append_nil h).symm, hp', hdone ▸ .refl _⟩
    | failed e => cases hdone
    | ask r next => cases hdone
  · exact hboth

/-- **A failure of one process after another** is one of the first or one of the second. -/
theorem comes_bind_failed {p : Process α} {f : α → Process β} {h : History} {e : Error}
    (hpath : (p >>= f).Comes h (.failed e)) :
    p.Comes h (.failed e) ∨
      ∃ a g k, h = g ++ k ∧ p.Comes g (.done a) ∧ (f a).Comes k (.failed e) := by
  rcases hpath.of_bind with ⟨p', hp', hfailed⟩ | hboth
  · cases p' with
    | done a => exact .inr ⟨a, h, [], (List.append_nil h).symm, hp', hfailed ▸ .refl _⟩
    | failed e' =>
        cases hfailed
        exact .inl hp'
    | ask r next => cases hfailed
  · exact .inr hboth

/-- **Where a path of one process after another ends**: at a failure or a request of the first one, or
past its result. -/
theorem Comes.bind_cases {p : Process α} {f : α → Process β} {h : History} {q : Process β}
    (hpath : (p >>= f).Comes h q) :
    (∃ e, p.Comes h (.failed e) ∧ q = .failed e) ∨
      (∃ r next, p.Comes h (.ask r next) ∧ q = .ask r fun answer => next answer >>= f) ∨
      ∃ a g k, h = g ++ k ∧ p.Comes g (.done a) ∧ (f a).Comes k q := by
  rcases hpath.of_bind with ⟨p', hp', rfl⟩ | hboth
  · cases p' with
    | done a => exact .inr (.inr ⟨a, h, [], (List.append_nil h).symm, hp', .refl _⟩)
    | failed e => exact .inl ⟨e, hp', rfl⟩
    | ask r next => exact .inr (.inl ⟨r, next, hp', rfl⟩)
  · exact .inr (.inr hboth)

theorem comes_ofExcept_done {ε : Type} {error : ε → Error} {x : Except ε α} {h : History} {a : α}
    (hpath : (ofExcept error x).Comes h (.done a)) : h = [] ∧ x = .ok a := by
  cases x with
  | ok b =>
      obtain ⟨rfl, hb⟩ := comes_done_iff.mp hpath
      cases hb
      exact ⟨rfl, rfl⟩
  | error e => exact absurd hpath not_comes_failed_done

theorem comes_request_done {r : Request} {h : History} {answer : r.Answer}
    (hpath : (request r).Comes h (.done answer)) : h = History.add [] ⟨r, answer⟩ := by
  cases hpath with
  | answered hnext =>
      obtain ⟨rfl, hdone⟩ := comes_done_iff.mp hnext
      cases hdone
      exact List.append_nil _

theorem comes_note_done {logger : String} {level : Level} {text : String} {h : History} {u : Unit}
    (hpath : (note logger level text).Comes h (.done u)) : h = [] := comes_request_done hpath

theorem comes_now_done {h : History} {time : Float} (hpath : now.Comes h (.done time)) : h = [] :=
  comes_request_done hpath

/-! ## Requests of one kind

A property of requests can be checked along the code, without any path, and then it holds on each of
them. The failures are carried along, since most of the uses ask for both. -/

/-- **Only requests of a kind** are made, and all failures are with `E`. -/
def Only (P : Request → Prop) (E : Error → Prop) : Process α → Prop
  | .done _ => True
  | .failed e => E e
  | .ask r next => P r ∧ ∀ answer, (next answer).Only P E

variable {P : Request → Prop} {E : Error → Prop}

/-- **On every path** the requests are of the kind. -/
theorem Only.comes {p q : Process α} {h : History} (hp : p.Only P E) (hpath : p.Comes h q) :
    (∀ e ∈ h, P e.request) ∧ q.Only P E := by
  induction hpath with
  | refl => exact ⟨by simp, hp⟩
  | @answered r next answer h q _ ih =>
      obtain ⟨hrequest, hnext⟩ := hp
      obtain ⟨hlater, hq⟩ := ih (hnext answer)
      refine ⟨fun e he => ?_, hq⟩
      rcases List.mem_append.mp he with hfirst | hrest
      · -- a quiet request is not in the history
        unfold History.add at hfirst
        split at hfirst
        · cases hfirst
        · rw [List.nil_append, List.mem_singleton] at hfirst
          rw [hfirst]
          exact hrequest
      · exact hlater e hrest

theorem Only.failed {p : Process α} {h : History} {e : Error} (hp : p.Only P E)
    (hpath : p.Comes h (.failed e)) : E e := (hp.comes hpath).2

theorem Only.imp {P' : Request → Prop} {E' : Error → Prop} {p : Process α} (hp : p.Only P E)
    (hP : ∀ r, P r → P' r) (hE : ∀ e, E e → E' e) : p.Only P' E' := by
  induction p with
  | done a => trivial
  | failed e => exact hE e hp
  | ask r next ih => exact ⟨hP r hp.1, fun answer => ih answer (hp.2 answer)⟩

theorem Only.bind {p : Process α} {f : α → Process β} (hp : p.Only P E)
    (hf : ∀ a, (f a).Only P E) : (p >>= f).Only P E := by
  induction p with
  | done a => exact hf a
  | failed e => exact hp
  | ask r next ih => exact ⟨hp.1, fun answer => ih answer (hp.2 answer)⟩

theorem only_request {r : Request} (hr : P r) : (request r).Only P E := ⟨hr, fun _ => trivial⟩

theorem only_ofExcept {ε : Type} {error : ε → Error} (x : Except ε α)
    (herror : ∀ e, x = .error e → E (error e)) : (ofExcept error x).Only P E := by
  cases x with
  | ok a => trivial
  | error e => exact herror e rfl

theorem only_forEach {f : α → Process Unit} {l : List α} (hf : ∀ a ∈ l, (f a).Only P E) :
    (forEach f l).Only P E := by
  induction l with
  | nil => trivial
  | cons a l ih =>
      exact (hf a (by simp)).bind fun _ => ih fun b hb => hf b (by simp [hb])

/-! ## Contracts on paths

A contract is met by a process for all answers it can rely on. Here the answers of one path are
given, and the contract is followed along it. -/

/-- **A contract holds on every path** whose answers are such as it relies on. -/
theorem Meets.comes {C : Contract α} {p q : Process α} {g h : History} (hp : p.Meets C g)
    (hpath : p.Comes h q) (hrely : ∀ k, k <+: h → C.rely (g ++ k)) : q.Meets C (g ++ h) := by
  induction hpath generalizing g with
  | refl => rwa [List.append_nil]
  | @answered r next answer h q _ ih =>
      have hone : g.add ⟨r, answer⟩ = g ++ History.add [] ⟨r, answer⟩ := by
        rw [← append_add, List.append_nil]
      rw [← List.append_assoc, ← hone]
      refine ih (hp.2.2 answer ?_) fun k hk => ?_
      · rw [hone]
        exact hrely _ (List.prefix_append _ _)
      · rw [hone, List.append_assoc]
        exact hrely _ ((List.prefix_append_right_inj _).mpr hk)

end Process

/-! ## Paths in runs

This is where processes and runs meet: what a rank has done in a run is a path of its process. All
that is shown about paths can be used for runs through it. -/

variable {z : Hazards} {s t : Ensemble} {ms : List Move} {rank : Nat}

/-- **Where a rank is in a run**: its process has come there by its history. -/
theorem Run.comes {p : Process Unit} (hrun : Run z s ms t) (hhonest : ¬z.rogue rank)
    (hpart : s.parts[rank]? = some p) :
    ∃ q, t.parts[rank]? = some q ∧ p.Comes (historyOf ms rank) q := by
  induction hrun with
  | refl => exact ⟨p, hpart, .refl p⟩
  | @step ms t u m hrun hstep ih =>
      obtain ⟨q, hq, hpath⟩ := ih
      cases hstep with
      | @act r request next answer host _ hnext _ =>
          rw [historyOf_act]
          by_cases hr : r = rank
          · subst hr
            obtain rfl : q = .ask request next := Option.some.inj (hq.symm.trans hnext)
            rw [if_pos rfl]
            exact ⟨next answer, List.getElem?_set_self (List.getElem?_eq_some_iff.mp hq).1,
              hpath.add answer⟩
          · rw [if_neg hr]
            exact ⟨q, by rwa [List.getElem?_set_ne hr], hpath⟩
      | @rogue r request answer host hrogue _ _ =>
          rw [historyOf_act, if_neg fun hr : r = rank => hhonest (hr ▸ hrogue)]
          exact ⟨q, hq, hpath⟩
      | inject fault _ =>
          rw [historyOf_inject]
          exact ⟨q, hq, hpath⟩
      | heal _ =>
          rw [historyOf_heal]
          exact ⟨q, hq, hpath⟩

end RowBlock
