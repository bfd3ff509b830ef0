import RowBlock.Proofs.History

set_option autoImplicit false

/-! # Plans

Where the answers are foreseeable, what a process does is a list of messages to send and to take,
its *plan*. `Process.Follows` states that a process keeps to a plan as long as it takes the messages
planned; it may give up with an error at any time. Plans are put one after another with the
processes (`Follows.bind`). A process that follows a plan meets a contract (`Follows.meets`): what it
has done is the first part of the plan, what it asks for comes next in it, and it is done only at
the end.
-/

namespace RowBlock

/-! ## Contracts of plans

The contract of a plan says that the messages so far are its beginning. It may rely on the messages
it takes being those that are planned, which has to be shown wherever the contract is used. -/

def Deed.request : Deed → Request
  | sent dest channel payload => .send dest channel payload
  | taken source channel _ => .receive (.rank source) channel

/-- The contract of a process with a plan, results with `Q` and errors with `E`. It relies on taking
what is planned where the plan has something to take. -/
def planContract {α : Type} (plan : List Deed) (Q : α → Prop) (E : Error → Prop) : Contract α where
  rely h := h.Admitted ∧ ∀ before rest source channel payload received,
    plan = before ++ .taken source channel payload :: rest →
      h.deeds = before ++ [.taken source channel received] → received = payload
  holds h := h.deeds <+: plan ∧ h.published = []
  asks h r := ∃ d rest, plan = h.deeds ++ d :: rest ∧ r = d.request
  returns h a := h.deeds = plan ∧ Q a
  fails h e := E e ∨ (∃ x, e = .transport x) ∧ ¬h.NoneRefused

/-- It is enough that the messages taken are the first ones planned, from the ranks and on the
channels of the plan. -/
theorem planContract_rely {α : Type} {plan : List Deed} {Q : α → Prop} {E : Error → Prop}
    {h : History}
    (hadmitted : h.Admitted)
    (hless : ∀ source channel payload, .taken source channel payload ∈ plan →
      takenFrom h.deeds source channel <+: takenFrom plan source channel) :
    (planContract plan Q E).rely h := by
  refine ⟨hadmitted, fun before rest source channel payload received hplan hdeeds => ?_⟩
  have hnext := hless source channel payload (by rw [hplan]; simp)
  rw [hplan, hdeeds, takenFrom_append, takenFrom_append, List.prefix_append_right_inj] at hnext
  simp only [takenFrom, Deed.takenFrom?, List.filterMap_cons, and_self, if_true,
    List.filterMap_nil, List.cons_prefix_cons] at hnext
  exact hnext.1

namespace Process

variable {α β : Type}

/-! ## Following a plan -/

/-- **Following a plan** to a result with `Q`, unless it ends with an error with `E` or a request is
refused. -/
inductive Follows (Q : α → Prop) (E : Error → Prop) : Process α → List Deed → Prop
  | done {a : α} (h : Q a) : Follows Q E (.done a) []
  | failed {e : Error} {plan : List Deed} (h : E e) : Follows Q E (.failed e) plan
  | quiet {r : Request} {next : r.Answer → Process α} {plan : List Deed} (hq : r.isQuiet = true)
      (h : ∀ answer, Follows Q E (next answer) plan) : Follows Q E (.ask r next) plan
  | sent {dest : Int} {channel : Channel} {payload : Payload}
      {next : Except Refusal Unit → Process α} {plan : List Deed}
      (hrefused : ∀ cause, ∃ x, next (.error cause) = .failed (.transport x))
      (h : Follows Q E (next (.ok ())) plan) :
      Follows Q E (.ask (.send dest channel payload) next) (.sent dest channel payload :: plan)
  | taken {source : Nat} {channel : Channel} {payload : Payload}
      {next : Except Refusal (Nat × Payload) → Process α} {plan : List Deed}
      (hrefused : ∀ cause, ∃ x, next (.error cause) = .failed (.transport x))
      (h : Follows Q E (next (.ok (source, payload))) plan) :
      Follows Q E (.ask (.receive (.rank source) channel) next)
        (.taken source channel payload :: plan)

/-- **One process after another follows one plan after another.** -/
theorem Follows.bind {P : α → Prop} {Q : β → Prop} {E : Error → Prop} {p : Process α}
    {f : α → Process β} {plan later : List Deed} (hp : p.Follows P E plan)
    (hf : ∀ a, P a → (f a).Follows Q E later) : (p >>= f).Follows Q E (plan ++ later) := by
  -- induction on how the first process follows its plan
  induction hp with
  | done h => exact hf _ h
  | failed h => exact .failed h
  | quiet hq _ ih => exact .quiet hq fun answer => ih answer
  | sent hrefused _ ih =>
      refine .sent (fun cause => ?_) ih
      obtain ⟨x, hx⟩ := hrefused cause
      exact ⟨x, by rw [hx]; rfl⟩
  | taken hrefused _ ih =>
      refine .taken (fun cause => ?_) ih
      obtain ⟨x, hx⟩ := hrefused cause
      exact ⟨x, by rw [hx]; rfl⟩

/-- A step without a plan of its own changes no plan. -/
theorem Follows.check {P : α → Prop} {Q : β → Prop} {E : Error → Prop} {p : Process α}
    {f : α → Process β} {plan : List Deed} (hp : p.Follows P E plan)
    (hf : ∀ a, P a → (f a).Follows Q E []) : (p >>= f).Follows Q E plan := by
  rw [← List.append_nil plan]
  exact hp.bind hf

/-- **A process that follows a plan meets its contract**, from any place in the plan on. -/
theorem Follows.meets {Q : α → Prop} {E : Error → Prop} {p : Process α} {plan rest : List Deed}
    {h : History} (hp : p.Follows Q E rest) (hplan : plan = h.deeds ++ rest)
    (hpublished : h.published = []) : p.Meets (planContract plan Q E) h := by
  have hholds : ∀ {g : History} {r : List Deed}, plan = g.deeds ++ r → g.published = [] →
      (planContract plan Q E).holds g := fun {g r} hg hpub => ⟨⟨r, hg.symm⟩, hpub⟩
  -- induction on how the rest is followed, which gives up what is done of the plan to the history
  induction hp generalizing h with
  | done hQ => exact ⟨hholds hplan hpublished, by simpa using hplan.symm, hQ⟩
  | failed hE => exact ⟨hholds hplan hpublished, .inl hE⟩
  | quiet hq _ ih =>
      exact (meets_ask_quiet hq).mpr ⟨hholds hplan hpublished, fun _ answer =>
        ih answer hplan hpublished⟩
  | @sent dest channel payload next rest hrefused _ ih =>
      refine (meets_ask_loud rfl).mpr ⟨hholds hplan hpublished, ⟨_, _, hplan, rfl⟩, ?_⟩
      intro answer _
      rcases answer with cause | ⟨⟩
      · obtain ⟨x, hx⟩ := hrefused cause
        rw [hx]
        refine ⟨hholds (r := .sent dest channel payload :: rest) ?_ ?_,
          .inr ⟨⟨x, rfl⟩, h.not_noneRefused trivial⟩⟩
        · simpa [Event.deed?] using hplan
        · simpa [Event.published?] using hpublished
      · refine ih ?_ ?_
        · simpa [Event.deed?] using hplan
        · simpa [Event.published?] using hpublished
  | @taken source channel payload next rest hrefused _ ih =>
      refine (meets_ask_loud rfl).mpr ⟨hholds hplan hpublished, ⟨_, _, hplan, rfl⟩, ?_⟩
      intro answer hrely
      rcases answer with cause | ⟨sender, received⟩
      · obtain ⟨x, hx⟩ := hrefused cause
        rw [hx]
        refine ⟨hholds (r := .taken source channel payload :: rest) ?_ ?_,
          .inr ⟨⟨x, rfl⟩, h.not_noneRefused trivial⟩⟩
        · simpa [Event.deed?] using hplan
        · simpa [Event.published?] using hpublished
      · -- by what is relied on, the message is from the rank and with the payload planned
        obtain ⟨hadmitted, hplanned⟩ := hrely
        have hsender : sender = source := by
          have hadmits := hadmitted.last
          simp only [Event.IsAdmitted, Source.admits, beq_iff_eq] at hadmits
          omega
        subst hsender
        have hpayload : received = payload := hplanned _ _ _ _ _ _ hplan (by simp [Event.deed?])
        subst hpayload
        refine ih ?_ ?_
        · simpa [Event.deed?] using hplan
        · simpa [Event.published?] using hpublished

/-! ## Rules

Each message of a process takes one deed off its plan, and everything else leaves the plan alone. A
field is received and its check passed in one rule, because the plan says which payload comes. -/

variable {Q : α → Prop} {E : Error → Prop}

theorem follows_note (logger : String) (level : Level) (text : String) :
    (note logger level text).Follows (fun _ => True) E [] :=
  .quiet rfl fun _ => .done trivial

theorem follows_ofExcept {ε : Type} {error : ε → Error} {x : Except ε α}
    (hok : ∀ a, x = .ok a → Q a) (herror : ∀ e, x = .error e → E (error e)) :
    (ofExcept error x).Follows Q E [] := by
  cases x with
  | ok a => exact .done (hok a rfl)
  | error e => exact .failed (herror e rfl)

theorem follows_forEach {γ : Type} {f : α → Process Unit} {item : γ → α} {plan : γ → List Deed}
    {l : List γ} (hf : ∀ x ∈ l, (f (item x)).Follows (fun _ => True) E (plan x)) :
    (forEach f (l.map item)).Follows (fun _ => True) E (l.flatMap plan) := by
  induction l with
  | nil => exact .done trivial
  | cons x l ih =>
      rw [List.map_cons, List.flatMap_cons]
      exact (hf x (by simp)).bind fun _ _ => ih fun y hy => hf y (by simp [hy])

end Process

namespace Endpoint

variable {E : Error → Prop}

/-- **A send** follows the plan to send its payload. -/
theorem follows_send (payload : Payload) (dest : Int) (channel : Channel) :
    (send payload dest channel).Follows (fun _ => True) E
      [.sent dest channel payload.contiguous] :=
  .sent (fun _ => ⟨_, rfl⟩) (Process.follows_note _ _ _)

theorem follows_receive (source : Nat) (channel : Channel) (payload : Payload) :
    (receive (.rank source) channel).Follows (· = payload) E [.taken source channel payload] :=
  .taken (fun _ => ⟨_, rfl⟩) (.quiet rfl fun _ => .done rfl)

/-- **Receiving a number** that is planned. -/
theorem follows_receiveInt {source : Nat} {channel : Channel} {payload : Payload} {n : Int}
    (h : Field.int source payload = .ok n) :
    (receiveInt (.rank source) channel).Follows (· = n) E [.taken source channel payload] := by
  refine (follows_receive source channel payload).check fun a ha => ?_
  subst ha
  exact Process.follows_ofExcept (fun b hb => Except.ok.inj (hb.symm.trans h))
    fun e he => absurd (he.symm.trans h) (by simp)

/-- **Receiving a block** that is planned. -/
theorem follows_receiveBlock {source : Nat} {channel : Channel} {payload : Payload} {rows : Int}
    {cols? : Option Int} {t : Tensor} (h : Field.block source rows cols? payload = .ok t) :
    (receiveBlock (.rank source) channel rows cols?).Follows (· = t) E
      [.taken source channel payload] := by
  refine (follows_receive source channel payload).check fun a ha => ?_
  subst ha
  exact Process.follows_ofExcept (fun b hb => Except.ok.inj (hb.symm.trans h))
    fun e he => absurd (he.symm.trans h) (by simp)

end Endpoint

end RowBlock
