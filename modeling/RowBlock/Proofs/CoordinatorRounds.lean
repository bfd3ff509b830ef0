import RowBlock.Proofs.Gathering
import RowBlock.Proofs.RoundPlans

set_option autoImplicit false

/-! # The rounds of the coordinator

In a round the coordinator first follows its plan, to send every worker its work, and then collects
the replies (`meets_round`). Over several rounds its messages are the plans one after another, with
three fields taken from every worker in each round, and each result it publishes has the right rows
for every honest worker (`meets_rounds`). An honest worker is one that keeps up with the work the
coordinator has sent it.
-/

namespace RowBlock.Coordinator

/-! ## Sending out the work

The plan of a round is a list of sends, worker by worker, and following it is by the structure of
the code: each send is the next one of the plan. -/

section

variable {f : Factors} {workers i : Nat} {skipEmpty : Bool} {c : Coordinator} {E : Error → Prop}

theorem follows_assign (hskip : c.skipEmpty = skipEmpty) (hi : i < workers) :
    (c.assign f.a f.b (Partition.share f.rows workers i)).Follows (fun _ => True) E
      ((f.workFields workers skipEmpty i).map (.sent (i + 1 : Nat) .work)) := by
  have hrows : rowsOf f.a (Partition.share f.rows workers i) = .ok (f.block workers i) :=
    if_neg (by rw [f.left.rank_eq]; omega)
  have hblock := Endpoint.follows_send (E := E) (.tensor (f.block workers i)) (i + 1 : Nat) .work
  have hright := Endpoint.follows_send (E := E) (.tensor f.b) (i + 1 : Nat) .work
  rw [Payload.contiguous, (Factors.isMatrix_block hi).contiguous_eq] at hblock
  rw [Payload.contiguous, f.right.contiguous_eq] at hright
  unfold assign Factors.workFields
  rw [List.map_append, List.map_cons, List.map_cons, List.map_cons, List.map_nil, hrows, hskip]
  refine (Endpoint.follows_send _ _ _).bind fun _ _ => ?_
  refine (Endpoint.follows_send _ _ _).bind fun _ _ => ?_
  refine hblock.bind fun _ _ => ?_
  cases homitted : f.omitted workers skipEmpty i with
  | true =>
      have hgone : omits skipEmpty (Partition.share f.rows workers i).rowCount = true := homitted
      rw [if_pos hgone]
      exact .done trivial
  | false =>
      have hkept : omits skipEmpty (Partition.share f.rows workers i).rowCount = false := homitted
      rw [hkept]
      exact hright

/-- **Sending out the work** follows the coordinator's plan. -/
theorem follows_scatter (hskip : c.skipEmpty = skipEmpty) :
    (c.scatter f.a f.b (Partition.assignments f.rows workers)).Follows (fun _ => True) E
      (f.coordinatorPlan workers skipEmpty) := by
  have hall := Process.follows_forEach (E := E) (f := c.assign f.a f.b) (l := List.range workers)
    fun i hi => follows_assign (f := f) hskip (List.mem_range.mp hi)
  rw [← List.append_nil (f.coordinatorPlan workers skipEmpty)]
  exact hall.bind fun _ _ => Process.follows_note _ _ _

end

/-! ## Contracts

A contract relates a process to its history: what it asks for, what it relies on of the answers, and
what holds when it returns or fails. The coordinator relies on nothing but that the fields an honest
worker has sent are those of its replies, as far as it has been sent work to reply to. What rogue
workers send is not mentioned. -/

section

variable (fs : List Factors) (f : Factors) (workers : Nat) (skipEmpty : Bool) (honest : Nat → Prop)

/-- **What the coordinator relies on**: results come from workers, and the honest ones keep up. -/
def WorkersKeepUp (h : History) : Prop :=
  h.Admitted ∧ (∀ source, takenFrom h.deeds source .result ≠ [] → ∃ i < workers, source = i + 1) ∧
    ∀ i < workers, honest i → Factors.KeepsUp fs workers skipEmpty i
      (sentTo h.deeds (i + 1) .work) (takenFrom h.deeds (i + 1) .result)

/-- **A result** of a round: the balanced partition, and a matrix in which the rows of the honest
workers are right. -/
def IsResult (result : RoundResult) : Prop :=
  .ok result.assignments = Partition.balanced f.rows workers ∧
    result.product.IsMatrix f.type f.rows f.cols ∧
    ∀ i < workers, honest i → RightRows f workers result.product i

/-- **How the coordinator fails**: in the transport, which takes a refusal or a dishonest worker, or
for want of room in the round after those it has published. -/
def IsFailure [Memory] (h : History) (e : Error) : Prop :=
  ((∃ x, e = .transport x) ∧ (¬h.NoneRefused ∨ ∃ i < workers, ¬honest i)) ∨
    ∃ f x, fs[h.published.length]? = some f ∧
      Tensor.room (.int f.type) [f.rows, f.cols] = .error x ∧ e = .room x

def roundContract [Memory] : Contract RoundResult where
  rely := WorkersKeepUp (f :: fs) workers skipEmpty honest
  holds h := h.deeds.filter Deed.isSent <+: f.coordinatorPlan workers skipEmpty ∧ h.published = []
  asks h r := (∃ d rest, f.coordinatorPlan workers skipEmpty
      = h.deeds.filter Deed.isSent ++ d :: rest ∧ r = d.request) ∨
    h.deeds.filter Deed.isSent = f.coordinatorPlan workers skipEmpty ∧ f.HasRoom ∧
      Awaits workers 1 h r
  returns h result := h.deeds.filter Deed.isSent = f.coordinatorPlan workers skipEmpty ∧ f.HasRoom ∧
    (∀ i < workers, (takenFrom h.deeds (i + 1) .result).length = 3) ∧
    IsResult f workers honest result
  fails := IsFailure [f] workers honest

/-- **Rounds in turn**: where more is sent than the work of a number of rounds, all replies of those
rounds are taken. -/
def RoundsInTurn (h : History) : Prop :=
  ∀ n, ((fs.take n).flatMap (·.coordinatorPlan workers skipEmpty)).length
      < (h.deeds.filter Deed.isSent).length →
    ∀ i < workers, 3 * n ≤ (takenFrom h.deeds (i + 1) .result).length

def roundsContract [Memory] : Contract Unit where
  rely := WorkersKeepUp fs workers skipEmpty honest
  holds h := h.deeds.filter Deed.isSent <+: (fs.flatMap (·.coordinatorPlan workers skipEmpty)) ∧
    (∀ (n : Nat) result, h.published[n]? = some result →
      ∃ f, fs[n]? = some f ∧ IsResult f workers honest result) ∧
    RoundsInTurn fs workers skipEmpty h
  asks h r := (∃ result, r = .publish result) ∨
    (∃ d rest, fs.flatMap (·.coordinatorPlan workers skipEmpty)
      = h.deeds.filter Deed.isSent ++ d :: rest ∧ r = d.request) ∨
    ∃ n f, fs[n]? = some f ∧ f.HasRoom ∧ h.deeds.filter Deed.isSent
      = (fs.take (n + 1)).flatMap (·.coordinatorPlan workers skipEmpty) ∧ Awaits workers (n + 1) h r
  returns h _ := h.deeds.filter Deed.isSent = fs.flatMap (·.coordinatorPlan workers skipEmpty) ∧
    (∀ f ∈ fs, f.HasRoom) ∧
    (∀ i < workers, (takenFrom h.deeds (i + 1) .result).length = 3 * fs.length) ∧
    h.published.length = fs.length
  fails := IsFailure fs workers honest

end

/-! ## A round

A round starts from an empty history. When it is over, its history is a whole one: all work sent and
three fields taken from every worker. The rounds after it are treated as if they started from
nothing, and `meets_later` shifts their contract behind the history of the first. -/

section

variable {fs : List Factors} {f : Factors} {workers : Nat} {skipEmpty : Bool} {honest : Nat → Prop}
  {c : Coordinator}

theorem rowsCovered_assignments (rows : Nat) (hworkers : 0 < workers) :
    rowsCovered (Partition.assignments rows workers) = rows := by
  obtain ⟨n, rfl⟩ : ∃ n, workers = n + 1 := ⟨workers - 1, by omega⟩
  have hstop : (Partition.share rows (n + 1) n).stop = rows := by
    have hlast := Partition.start_workers rows hworkers
    rw [Partition.start_succ] at hlast
    simp only [Assignment.stop, Partition.share]
    exact_mod_cast hlast
  simp [rowsCovered, Partition.assignments, List.range_succ, hstop]

theorem sends_of_plan {g h : History} (hdeeds : g.deeds = f.coordinatorPlan workers skipEmpty)
    (hnone : h.deeds.filter Deed.isSent = []) :
    (g ++ h : History).deeds.filter Deed.isSent = f.coordinatorPlan workers skipEmpty := by
  rw [History.deeds_append, List.filter_append, hnone, hdeeds, Factors.filter_coordinatorPlan,
    List.append_nil]

theorem takenFrom_of_plan {g : History} (hdeeds : g.deeds = f.coordinatorPlan workers skipEmpty)
    (h : History) (source : Nat) (channel : Channel) :
    takenFrom (g ++ h : History).deeds source channel = takenFrom h.deeds source channel := by
  rw [History.deeds_append, takenFrom_append, hdeeds, Factors.takenFrom_coordinatorPlan,
    List.nil_append]

/-- **Workers that keep up** with the work of a round alone reply to it. -/
theorem WorkersKeepUp.repliesFit {g h : History}
    (hdeeds : g.deeds = f.coordinatorPlan workers skipEmpty)
    (hrely : WorkersKeepUp (f :: fs) workers skipEmpty honest (g ++ h)) :
    RepliesFit f workers skipEmpty honest h := by
  obtain ⟨hadmitted, hsources, hkeep⟩ := hrely
  refine ⟨(History.admitted_append.mp hadmitted).2, fun source hsome => hsources source ?_,
    fun hnone i hi hhonest => ?_⟩
  · rwa [takenFrom_of_plan hdeeds]
  · have hfirst := (hkeep i hi hhonest).first
    rw [takenFrom_of_plan hdeeds] at hfirst
    apply hfirst
    rw [← sentTo_filter, sends_of_plan hdeeds hnone, Factors.sentTo_coordinatorPlan hi]

section

variable [Memory]

/-- **Collecting the replies** when all work is sent and nothing else has happened. -/
theorem meets_gather {g : History} {P : Tensor → History → Prop} (hskip : c.skipEmpty = skipEmpty)
    (hworkers : 0 < workers) (hdeeds : g.deeds = f.coordinatorPlan workers skipEmpty)
    (hpublished : g.published = [])
    (hnext : ∀ h u, h.deeds.filter Deed.isSent = f.coordinatorPlan workers skipEmpty →
      h.published = [] → f.HasRoom →
      (∀ i < workers, (takenFrom h.deeds (i + 1) .result).length = 3) →
      u.IsMatrix f.type f.rows f.cols → (∀ i < workers, honest i → RightRows f workers u i) →
        P u h) :
    (c.gather (Partition.assignments f.rows workers) f.cols (.int f.type)).Meets
      ((roundContract fs f workers skipEmpty honest).before P) g := by
  have hholds : ∀ {h : History}, h.deeds.filter Deed.isSent = [] → h.published = [] →
      (roundContract fs f workers skipEmpty honest).holds (g ++ h) := by
    intro h hnone hquiet
    constructor
    · rw [sends_of_plan hdeeds hnone]
    · rw [History.published_append, hpublished, hquiet, List.append_nil]
  have hstart := hholds (h := []) rfl rfl
  rw [List.append_nil] at hstart
  unfold gather
  rw [rowsCovered_assignments f.rows hworkers]
  rcases Tensor.room_matrix_cases (.int f.type) f.rows f.cols with hroom | ⟨e, hfull⟩
  swap
  · -- without room for the product the coordinator fails here
    rw [hfull]
    exact ⟨hstart, .inr ⟨f, e, by simp [hpublished], hfull, rfl⟩⟩
  rw [hroom]
  refine Process.Meets.bind ⟨hstart, ?_⟩
  have hcollect : (c.collect (Partition.assignments f.rows workers) f.cols
      (.zeros (.int f.type) [f.rows, f.cols])
      ((Partition.assignments f.rows workers).map Assignment.worker)
      (Partition.assignments f.rows workers)).Meets
        (collectContract f workers skipEmpty honest) [] := meets_collectAll hskip
  -- collecting does not see the work that was sent before
  have hround := hcollect.imp (D := ((roundContract fs f workers skipEmpty honest).before fun u h =>
    (do
      Process.note logger .info "gather complete"
      return u : Process Tensor).Meets ((roundContract fs f workers skipEmpty honest).before P) h).after g)
    ?_ ?_ ?_ ?_ ?_
  · rw [Process.meets_after, List.append_nil] at hround
    exact Process.Meets.bind hround
  · exact fun h hrely => hrely.repliesFit hdeeds
  · exact fun h hcollecting => hholds hcollecting.1 hcollecting.2
  · rintro h r hcollecting ⟨i, hi, hfew, hr⟩
    refine .inr ⟨sends_of_plan hdeeds hcollecting.1, hroom, i, hi, ?_, hr⟩
    rwa [takenFrom_of_plan hdeeds]
  · intro h u hcollecting hreturns
    have hh := hholds hcollecting.1 hcollecting.2
    refine Process.Meets.bind (Process.meets_note hh (Process.meets_done hh ?_))
    refine hnext _ u (sends_of_plan hdeeds hcollecting.1) hh.2 hroom (fun i hi => ?_) hreturns.1
      fun i hi => (hreturns.2 i hi).2
    rw [takenFrom_of_plan hdeeds]
    exact (hreturns.2 i hi).1
  · rintro h e hcollecting ⟨htransport, hcause⟩
    refine .inl ⟨htransport, hcause.imp_left fun hrefused hnone => hrefused ?_⟩
    exact (History.noneRefused_append.mp hnone).2

/-- **Sending out the work** at the start of a round. -/
theorem meets_scatter {P : Unit → History → Prop} (hskip : c.skipEmpty = skipEmpty)
    (hnext : ∀ h, h.deeds = f.coordinatorPlan workers skipEmpty → h.published = [] → P () h) :
    (c.scatter f.a f.b (Partition.assignments f.rows workers)).Meets
      ((roundContract fs f workers skipEmpty honest).before P) [] := by
  have hall : ∀ {ds : List Deed}, ds <+: f.coordinatorPlan workers skipEmpty →
      ds.filter Deed.isSent = ds := by
    intro ds hds
    exact List.filter_eq_self.mpr fun d hd => Factors.isSent_coordinatorPlan (hds.subset hd)
  have hplan : (c.scatter f.a f.b (Partition.assignments f.rows workers)).Meets
      (planContract (f.coordinatorPlan workers skipEmpty) (fun _ => True) fun _ => False) [] :=
    (follows_scatter hskip).meets rfl rfl
  refine hplan.imp ?_ ?_ ?_ ?_ ?_
  -- nothing is taken in this plan, so there is nothing to rely on
  · rintro h ⟨hadmitted, -⟩
    refine ⟨hadmitted, fun before rest source channel payload received heq => ?_⟩
    have hmem : Deed.taken source channel payload ∈ f.coordinatorPlan workers skipEmpty := by
      rw [heq]
      simp
    cases Factors.isSent_coordinatorPlan hmem
  · rintro h ⟨hless, hpublished⟩
    exact ⟨by rwa [hall hless], hpublished⟩
  · rintro h r ⟨hless, -⟩ ⟨d, rest, hrest, hr⟩
    exact .inl ⟨d, rest, by rwa [hall hless], hr⟩
  · rintro h _ ⟨-, hpublished⟩ ⟨hdeeds, -⟩
    exact hnext h hdeeds hpublished
  · rintro h e - (hnever | ⟨htransport, hrefused⟩)
    · exact hnever.elim
    · exact .inl ⟨htransport, .inl hrefused⟩

/-- **A round of the coordinator** meets its contract. -/
theorem meets_round (hskip : c.skipEmpty = skipEmpty) (hendpoint : c.endpoint.workers = workers)
    (hworkers : 0 < workers) :
    (c.round f.a f.b).Meets (roundContract fs f workers skipEmpty honest) [] := by
  have hstart : (roundContract fs f workers skipEmpty honest).holds [] :=
    ⟨List.nil_prefix, rfl⟩
  have hbalanced := Partition.balanced_eq f.rows hworkers
  unfold round
  rw [if_neg (by rw [f.left.rank_eq]; omega), f.left.rows_eq, f.right.cols_eq, f.left.type_eq,
    hendpoint, hbalanced]
  refine Process.Meets.bind (Process.meets_now hstart fun start => ?_)
  refine Process.Meets.bind (Process.meets_done hstart ?_)
  dsimp only [Contract.before]
  rw [Partition.check_assignments f.rows hworkers]
  refine Process.Meets.bind (Process.meets_done hstart ?_)
  refine Process.Meets.bind (meets_scatter hskip fun g hdeeds hpublished => ?_)
  rw [if_neg (by rw [f.right.rank_eq]; omega)]
  refine Process.Meets.bind (meets_gather hskip hworkers hdeeds hpublished
    fun h u hsent hquiet hroom hthree hmatrix hrows => ?_)
  have hend : (roundContract fs f workers skipEmpty honest).holds h :=
    ⟨by rw [hsent], hquiet⟩
  refine Process.Meets.bind (Process.meets_now hend fun stop => ?_)
  refine Process.Meets.bind (Process.meets_note hend (Process.meets_done hend ?_))
  exact ⟨hsent, hroom, hthree, hbalanced.symm, hmatrix, hrows⟩

end

theorem sends_later {g : History}
    (hsent : g.deeds.filter Deed.isSent = f.coordinatorPlan workers skipEmpty) (h : History) :
    (g ++ h : History).deeds.filter Deed.isSent
      = f.coordinatorPlan workers skipEmpty ++ h.deeds.filter Deed.isSent := by
  rw [History.deeds_append, List.filter_append, hsent]

/-- **Workers that keep up** with all rounds keep up with the later ones after a whole round. -/
theorem WorkersKeepUp.later {g h : History}
    (hsent : g.deeds.filter Deed.isSent = f.coordinatorPlan workers skipEmpty)
    (hthree : ∀ i < workers, (takenFrom g.deeds (i + 1) .result).length = 3)
    (hrely : WorkersKeepUp (f :: fs) workers skipEmpty honest (g ++ h)) :
    WorkersKeepUp fs workers skipEmpty honest h := by
  obtain ⟨hadmitted, hsources, hkeep⟩ := hrely
  refine ⟨(History.admitted_append.mp hadmitted).2, fun source hsome => hsources source ?_,
    fun i hi hhonest => ?_⟩
  · rw [History.deeds_append, takenFrom_append]
    exact fun hnone => hsome (List.append_eq_nil_iff.mp hnone).2
  · have hboth := hkeep i hi hhonest
    rw [← sentTo_filter, sends_later hsent, sentTo_append, Factors.sentTo_coordinatorPlan hi,
      sentTo_filter, History.deeds_append, takenFrom_append] at hboth
    exact hboth.rest (hthree i hi)

theorem RoundsInTurn.first {h : History}
    (hless : h.deeds.filter Deed.isSent <+: f.coordinatorPlan workers skipEmpty) :
    RoundsInTurn (f :: fs) workers skipEmpty h := by
  intro n hmore i hi
  cases n with
  | zero => omega
  | succ n =>
      have hlength := hless.length_le
      rw [List.take_succ_cons, List.flatMap_cons, List.length_append] at hmore
      omega

/-- After a whole round, later rounds in turn are all rounds in turn. -/
theorem RoundsInTurn.later {g h : History}
    (hsent : g.deeds.filter Deed.isSent = f.coordinatorPlan workers skipEmpty)
    (hthree : ∀ i < workers, (takenFrom g.deeds (i + 1) .result).length = 3)
    (hturn : RoundsInTurn fs workers skipEmpty h) :
    RoundsInTurn (f :: fs) workers skipEmpty (g ++ h) := by
  intro n hmore i hi
  cases n with
  | zero => omega
  | succ n =>
      rw [sends_later hsent, List.take_succ_cons, List.flatMap_cons, List.length_append,
        List.length_append] at hmore
      have hold := hthree i hi
      have hnew := hturn n (by omega) i hi
      rw [History.deeds_append, takenFrom_append, List.length_append]
      omega

/-- **After a whole round**, meeting the contract of the rounds that are left is meeting the contract
of all of them. -/
theorem meets_later [Memory] {p : Process Unit} {g : History} {result : RoundResult}
    (hp : p.Meets (roundsContract fs workers skipEmpty honest) [])
    (hsent : g.deeds.filter Deed.isSent = f.coordinatorPlan workers skipEmpty) (hroom : f.HasRoom)
    (hthree : ∀ i < workers, (takenFrom g.deeds (i + 1) .result).length = 3)
    (hpublished : g.published = [result]) (hresult : IsResult f workers honest result) :
    p.Meets (roundsContract (f :: fs) workers skipEmpty honest) g := by
  have hsends := sends_later hsent
  have hlater := hp.imp (D := (roundsContract (f :: fs) workers skipEmpty honest).after g)
    ?_ ?_ ?_ ?_ ?_
  · rwa [Process.meets_after, List.append_nil] at hlater
  · exact fun h hrely => hrely.later hsent hthree
  · rintro h ⟨hless, hresults, hturn⟩
    refine ⟨?_, fun n res hn => ?_, hturn.later hsent hthree⟩
    · rw [hsends, List.flatMap_cons]
      exact (List.prefix_append_right_inj _).mpr hless
    · rw [History.published_append, hpublished] at hn
      cases n with
      | zero =>
          cases hn
          exact ⟨f, rfl, hresult⟩
      | succ n => exact hresults n res (by simpa using hn)
  · rintro h r - (hpublish | ⟨d, rest, hrest, hr⟩ | ⟨n, k, hk, hkroom, hdone, i, hi, hfew, hr⟩)
    · exact .inl hpublish
    · refine .inr (.inl ⟨d, rest, ?_, hr⟩)
      rw [hsends, List.flatMap_cons, hrest, List.append_assoc]
    · refine .inr (.inr ⟨n + 1, k, hk, hkroom, ?_, i, hi, ?_, hr⟩)
      · rw [hsends, List.take_succ_cons, List.flatMap_cons, hdone]
      · rw [History.deeds_append, takenFrom_append, List.length_append, hthree i hi]
        omega
  · rintro h _ - ⟨hdone, hrooms, hcounts, hlength⟩
    refine ⟨?_, ?_, fun i hi => ?_, ?_⟩
    · rw [hsends, List.flatMap_cons, hdone]
    · simpa using ⟨hroom, hrooms⟩
    · rw [History.deeds_append, takenFrom_append, List.length_append, hthree i hi, hcounts i hi,
        List.length_cons]
      omega
    · rw [History.published_append, hpublished, List.length_append, hlength, List.length_cons]
      simp [Nat.add_comm]
  · rintro h e - (⟨htransport, hcause⟩ | ⟨k, x, hk, hfull, rfl⟩)
    · refine .inl ⟨htransport, hcause.imp_left fun hrefused hall => hrefused ?_⟩
      exact (History.noneRefused_append.mp hall).2
    · refine .inr ⟨k, x, ?_, hfull, rfl⟩
      rw [History.published_append, hpublished, List.singleton_append, List.length_cons,
        List.getElem?_cons_succ, hk]

/-- **The rounds of the coordinator** meet their contract. -/
theorem meets_rounds [Memory] (hskip : c.skipEmpty = skipEmpty) (hendpoint : c.endpoint.workers = workers)
    (hworkers : 0 < workers) :
    (c.rounds (fs.map fun f => (f.a, f.b))).Meets (roundsContract fs workers skipEmpty honest) [] := by
  unfold rounds
  induction fs with
  | nil => exact ⟨⟨List.nil_prefix, by simp, by simp [RoundsInTurn]⟩, rfl, by simp, by simp, rfl⟩
  | cons f fs ih =>
      have hround : (c.round f.a f.b).Meets (roundContract fs f workers skipEmpty honest) [] :=
        meets_round hskip hendpoint hworkers
      have hholds : ∀ h, (roundContract fs f workers skipEmpty honest).holds h →
          (roundsContract (f :: fs) workers skipEmpty honest).holds h := by
        rintro h ⟨hless, hpublished⟩
        refine ⟨?_, by simp [hpublished], RoundsInTurn.first hless⟩
        rw [List.flatMap_cons]
        exact hless.trans (List.prefix_append _ _)
      rw [List.map_cons, Process.forEach]
      refine Process.Meets.bind (Process.Meets.bind (hround.imp (fun _ => id) hholds ?_ ?_ ?_))
      · rintro h r - (⟨d, rest, hrest, hr⟩ | ⟨hsent, hroom, hawaits⟩)
        · refine .inr (.inl ⟨d, rest ++ fs.flatMap (·.coordinatorPlan workers skipEmpty), ?_, hr⟩)
          rw [List.flatMap_cons, hrest, List.append_assoc, List.cons_append]
        · refine .inr (.inr ⟨0, f, rfl, hroom, ?_, hawaits⟩)
          rw [hsent]
          simp
      · -- the result is published, and the later rounds go on from there
        rintro h result hround ⟨hsent, hroom, hthree, hresult⟩
        refine (Process.meets_ask_loud rfl).mpr ⟨hholds h hround, .inl ⟨result, rfl⟩, fun _ _ => ?_⟩
        have hlater := meets_later (g := h ++ [⟨.publish result, ()⟩]) ih ?_ hroom ?_ ?_ hresult
        · exact Process.meets_done hlater.holds hlater
        · simpa [Event.deed?] using hsent
        · simpa [Event.deed?] using hthree
        · simp [Event.published?, hround.2]
      · rintro h e ⟨-, hpublished⟩ (hfails | ⟨k, x, hk, hfull, rfl⟩)
        · exact .inl hfails
        · rw [hpublished, List.length_nil] at hk
          cases hk
          exact .inr ⟨f, x, by simp [hpublished], hfull, rfl⟩

end

end RowBlock.Coordinator
