import RowBlock.Proofs.Plans
import RowBlock.Proofs.RoundMessages

set_option autoImplicit false

/-! # The plans of a round

In a round every worker takes its work and sends its reply (`workerPlan`), and the coordinator first
sends all work (`coordinatorPlan`). What a worker can have replied is limited by what it was sent
(`KeepsUp`): with the work of one round it replies to that round at most (`KeepsUp.first`), and after
a whole round only the later ones count (`KeepsUp.rest`).
-/

namespace RowBlock

theorem flatMap_range_ite {α : Type} (n i : Nat) (l : Nat → List α) :
    ((List.range n).flatMap fun j => if j = i then l j else []) = if i < n then l i else [] := by
  induction n with
  | zero => simp
  | succ n ih =>
      rw [List.range_succ, List.flatMap_append, ih, List.flatMap_singleton]
      rcases Nat.lt_trichotomy i n with hlt | heq | hgt
      · rw [if_pos hlt, if_neg (by omega), if_pos (by omega), List.append_nil]
      · rw [if_neg (by omega), if_pos heq.symm, if_pos (by omega), heq, List.nil_append]
      · rw [if_neg (by omega), if_neg (by omega), if_neg (by omega), List.append_nil]

namespace Factors

variable (f : Factors) (workers : Nat) (skipEmpty : Bool) (i : Nat)

/-- **The plan of a worker** for a round. -/
def workerPlan : List Deed :=
  (f.workFields workers skipEmpty i).map (.taken 0 .work)
    ++ (f.replyFields workers skipEmpty i).map (.sent 0 .result)

/-- **The plan of the coordinator** for the first part of a round: every worker is sent its work. -/
def coordinatorPlan : List Deed :=
  (List.range workers).flatMap fun i =>
    (f.workFields workers skipEmpty i).map (.sent (i + 1 : Nat) .work)

variable {f workers skipEmpty i}

/-! ## The coordinator's plan

The plan goes through the workers by rank. For one worker all parts of it but one are empty, and
that one is its work. -/

theorem isSent_coordinatorPlan {d : Deed} (h : d ∈ f.coordinatorPlan workers skipEmpty) :
    d.isSent = true := by
  simp only [coordinatorPlan, List.mem_flatMap, List.mem_map] at h
  obtain ⟨_, -, _, -, rfl⟩ := h
  rfl

theorem filter_coordinatorPlan :
    (f.coordinatorPlan workers skipEmpty).filter Deed.isSent = f.coordinatorPlan workers skipEmpty :=
  List.filter_eq_self.mpr fun _ => isSent_coordinatorPlan

theorem takenFrom_coordinatorPlan (source : Nat) (channel : Channel) :
    takenFrom (f.coordinatorPlan workers skipEmpty) source channel = [] := by
  apply List.filterMap_eq_nil_iff.mpr
  intro d hd
  cases d with
  | sent _ _ _ => rfl
  | taken _ _ _ => cases isSent_coordinatorPlan hd

theorem sentTo_map (l : List Payload) (d dest : Nat) (c channel : Channel) :
    sentTo (l.map (.sent d c)) dest channel = if d = dest ∧ c = channel then l else [] := by
  induction l with
  | nil => rw [List.map_nil, sentTo_nil, ite_self]
  | cons x l ih =>
      unfold sentTo at ih ⊢
      rw [List.map_cons, List.filterMap_cons, ih]
      by_cases h : d = dest ∧ c = channel <;> simp [Deed.sentTo?, h]

/-- **What the plan sends a worker** is its work. -/
theorem sentTo_coordinatorPlan (hi : i < workers) :
    sentTo (f.coordinatorPlan workers skipEmpty) (i + 1) .work
      = f.workFields workers skipEmpty i := by
  have hone : ∀ j, sentTo ((f.workFields workers skipEmpty j).map (.sent (j + 1 : Nat) .work))
      (i + 1) .work = if j = i then f.workFields workers skipEmpty j else [] := by
    intro j
    rw [sentTo_map]
    exact if_congr (by simp) rfl rfl
  unfold coordinatorPlan sentTo at *
  simp only [List.filterMap_flatMap, hone]
  rw [flatMap_range_ite, if_pos hi]

theorem sentTo_coordinatorPlan_result (dest : Nat) :
    sentTo (f.coordinatorPlan workers skipEmpty) dest .result = [] := by
  apply List.filterMap_eq_nil_iff.mpr
  intro d hd
  simp only [coordinatorPlan, List.mem_flatMap, List.mem_map] at hd
  obtain ⟨_, -, _, -, rfl⟩ := hd
  simp [Deed.sentTo?]

/-! ## The worker's plan

A worker takes from one rank and sends to one, so its plan is told apart by kind and not by rank.
The plans of several rounds stand one after another, and what was taken or sent in all of them is
that of each round in turn. -/

theorem takenFrom_map_sent (l : List Payload) (d : Int) (c : Channel) (source : Nat)
    (channel : Channel) : takenFrom (l.map (.sent d c)) source channel = [] := by
  apply List.filterMap_eq_nil_iff.mpr
  intro x hx
  obtain ⟨_, -, rfl⟩ := List.mem_map.mp hx
  rfl

theorem sentTo_map_taken (l : List Payload) (s : Nat) (c : Channel) (dest : Nat)
    (channel : Channel) : sentTo (l.map (.taken s c)) dest channel = [] := by
  apply List.filterMap_eq_nil_iff.mpr
  intro x hx
  obtain ⟨_, -, rfl⟩ := List.mem_map.mp hx
  rfl

theorem takenFrom_map (l : List Payload) (s source : Nat) (c channel : Channel) :
    takenFrom (l.map (.taken s c)) source channel = if s = source ∧ c = channel then l else [] := by
  induction l with
  | nil => rw [List.map_nil, takenFrom_nil, ite_self]
  | cons x l ih =>
      unfold takenFrom at ih ⊢
      rw [List.map_cons, List.filterMap_cons, ih]
      by_cases h : s = source ∧ c = channel <;> simp [Deed.takenFrom?, h]

theorem takenFrom_workerPlan (source : Nat) (channel : Channel) :
    takenFrom (f.workerPlan workers skipEmpty i) source channel
      = if 0 = source ∧ .work = channel then f.workFields workers skipEmpty i else [] := by
  rw [workerPlan, takenFrom_append, takenFrom_map_sent, List.append_nil, takenFrom_map]

theorem sentTo_workerPlan (dest : Nat) (channel : Channel) :
    sentTo (f.workerPlan workers skipEmpty i) dest channel
      = if 0 = dest ∧ .result = channel then f.replyFields workers skipEmpty i else [] := by
  rw [workerPlan, sentTo_append, sentTo_map_taken, List.nil_append]
  exact sentTo_map _ 0 dest .result channel

/-- Over several rounds a worker takes work from the coordinator, and nothing else. -/
theorem taken_workerPlans {fs : List Factors} {source : Nat} {channel : Channel} {payload : Payload}
    (h : .taken source channel payload ∈ fs.flatMap fun f => f.workerPlan workers skipEmpty i) :
    source = 0 ∧ channel = .work := by
  simp only [workerPlan, List.mem_flatMap, List.mem_append, List.mem_map] at h
  obtain ⟨f, -, ⟨p, -, htaken⟩ | ⟨p, -, hsent⟩⟩ := h
  · cases htaken
    exact ⟨rfl, rfl⟩
  · cases hsent

theorem sentTo_coordinatorPlans (hi : i < workers) (fs : List Factors) :
    sentTo (fs.flatMap fun f => f.coordinatorPlan workers skipEmpty) (i + 1) .work
      = fs.flatMap fun f => f.workFields workers skipEmpty i := by
  rw [sentTo_flatMap]
  exact List.flatMap_congr fun f _ => sentTo_coordinatorPlan hi

theorem takenFrom_workerPlans (fs : List Factors) :
    takenFrom (fs.flatMap fun f => f.workerPlan workers skipEmpty i) 0 .work
      = fs.flatMap fun f => f.workFields workers skipEmpty i := by
  rw [takenFrom_flatMap]
  exact List.flatMap_congr fun f _ => by simp [takenFrom_workerPlan]

theorem sentTo_workerPlans (fs : List Factors) :
    sentTo (fs.flatMap fun f => f.workerPlan workers skipEmpty i) 0 .result
      = fs.flatMap fun f => f.replyFields workers skipEmpty i := by
  rw [sentTo_flatMap]
  exact List.flatMap_congr fun f _ => by simp [sentTo_workerPlan]

/-- **What a worker relies on** holds where it has taken no more than its work. -/
theorem workerPlans_rely {α : Type} {Q : α → Prop} {E : Error → Prop} {fs : List Factors}
    {h : History} (hadmitted : h.Admitted)
    (htaken : takenFrom h.deeds 0 .work <+: fs.flatMap fun f => f.workFields workers skipEmpty i) :
    (planContract (fs.flatMap fun f => f.workerPlan workers skipEmpty i) Q E).rely h := by
  refine planContract_rely hadmitted fun source channel payload hmem => ?_
  obtain ⟨rfl, rfl⟩ := taken_workerPlans hmem
  rwa [takenFrom_workerPlans]

/-- The plans of several rounds begin with taking work. -/
theorem eq_taken_of_workerPlans {fs : List Factors} {d : Deed} {later : List Deed}
    (h : (fs.flatMap fun f => f.workerPlan workers skipEmpty i) = d :: later) :
    ∃ payload, d = .taken 0 .work payload := by
  cases fs with
  | nil => cases h
  | cons f fs =>
      simp only [List.flatMap_cons, workerPlan, workFields, List.cons_append, List.map_cons,
        List.cons.injEq] at h
      exact ⟨_, h.1.symm⟩

/-- A worker that has sent its whole reply is at the end of its plan. -/
theorem eq_workerPlan {g : List Deed} (hg : g <+: f.workerPlan workers skipEmpty i)
    (hsent : 3 ≤ (sentTo g 0 .result).length) : g = f.workerPlan workers skipEmpty i := by
  -- without its last message the plan sends two fields only
  have hlast : f.workerPlan workers skipEmpty i
      = (f.workFields workers skipEmpty i).map (.taken 0 .work)
          ++ [Payload.int (f.start workers i), .int (f.size workers i)].map (.sent 0 .result)
        ++ [.sent 0 .result (.tensor (f.replyBlock workers skipEmpty i))] := by
    simp [workerPlan, replyFields]
  rw [hlast] at hg ⊢
  rcases List.prefix_concat_iff.mp hg with heq | hless
  · exact heq
  · have hlength := (sentTo_isPrefix hless 0 .result).length_le
    rw [sentTo_append, sentTo_map_taken, List.nil_append] at hlength
    have htwo := sentTo_map [Payload.int (f.start workers i), .int (f.size workers i)] 0 0 .result
      .result
    rw [Nat.cast_zero] at htwo
    rw [htwo] at hlength
    simp at hlength
    omega

/-! ## Keeping up

The coordinator knows what it has sent a worker and what it has taken from it. That the second
cannot run ahead of the first is what makes the messages of a round belong to it, though they carry
no number. The relation is stated by the plan alone, so that it can be used inside the code of the
coordinator, where there is no run. -/

/-- **What a worker can have replied** to what it was sent: it follows its plan. -/
def KeepsUp (fs : List Factors) (workers : Nat) (skipEmpty : Bool) (i : Nat)
    (sent taken : List Payload) : Prop :=
  ∃ g, g <+: (fs.flatMap fun f => f.workerPlan workers skipEmpty i) ∧
    takenFrom g 0 .work <+: sent ∧ taken <+: sentTo g 0 .result

variable {fs : List Factors} {sent taken : List Payload}

/-- **Without more than the work of a round** a worker has replied no more than to that round. -/
theorem KeepsUp.first (h : KeepsUp (f :: fs) workers skipEmpty i sent taken)
    (hsent : sent <+: f.workFields workers skipEmpty i) :
    taken <+: f.replyFields workers skipEmpty i := by
  obtain ⟨g, hg, hwork, hreply⟩ := h
  have hplan : sentTo (f.workerPlan workers skipEmpty i) 0 .result
      = f.replyFields workers skipEmpty i := by simp [sentTo_workerPlan]
  rw [← hplan]
  refine hreply.trans (sentTo_isPrefix ?_ 0 .result)
  rw [List.flatMap_cons] at hg
  -- past the plan of the round there would be more work taken than was sent
  rcases List.prefix_or_prefix_of_prefix hg (List.prefix_append _ _) with hless | ⟨more, rfl⟩
  · exact hless
  · rw [List.prefix_append_right_inj] at hg
    cases more with
    | nil => simp
    | cons d more =>
        obtain ⟨later, hlater⟩ := hg
        obtain ⟨payload, rfl⟩ := eq_taken_of_workerPlans hlater.symm
        have hlength := (hwork.trans hsent).length_le
        rw [takenFrom_append, takenFrom_workerPlan, if_pos ⟨rfl, rfl⟩] at hlength
        simp [takenFrom, Deed.takenFrom?] at hlength

/-- A worker that has sent a whole reply is past the plan of the first round. -/
theorem exists_later {g : List Deed}
    (hg : g <+: ((f :: fs).flatMap fun f => f.workerPlan workers skipEmpty i))
    (hsent : 3 ≤ (sentTo g 0 .result).length) :
    ∃ more, f.workerPlan workers skipEmpty i ++ more = g ∧
      more <+: (fs.flatMap fun f => f.workerPlan workers skipEmpty i) := by
  rw [List.flatMap_cons] at hg
  obtain ⟨more, rfl⟩ : ∃ more, f.workerPlan workers skipEmpty i ++ more = g := by
    rcases List.prefix_or_prefix_of_prefix hg (List.prefix_append _ _) with hless | hmore
    · exact ⟨[], by rw [eq_workerPlan hless hsent, List.append_nil]⟩
    · exact hmore
  exact ⟨more, rfl, (List.prefix_append_right_inj _).mp hg⟩

/-- **After a whole round** a worker keeps up with the rounds that are left. -/
theorem KeepsUp.rest {reply : List Payload} (hthree : reply.length = 3)
    (h : KeepsUp (f :: fs) workers skipEmpty i (f.workFields workers skipEmpty i ++ sent)
      (reply ++ taken)) : KeepsUp fs workers skipEmpty i sent taken := by
  obtain ⟨g, hg, hwork, hreply⟩ := h
  have hlength : 3 ≤ (sentTo g 0 .result).length := by
    have := hreply.length_le
    simp [hthree] at this
    omega
  -- with three fields replied the plan of the round is done
  obtain ⟨more, rfl, hmore⟩ := exists_later hg hlength
  have hsent : sentTo (f.workerPlan workers skipEmpty i ++ more) 0 .result
      = f.replyFields workers skipEmpty i ++ sentTo more 0 .result := by
    simp [sentTo_workerPlan]
  rw [hsent] at hreply
  have hfirst : reply = f.replyFields workers skipEmpty i := by
    obtain ⟨later, hlater⟩ := hreply
    rw [List.append_assoc] at hlater
    exact (List.append_inj hlater hthree).1
  subst hfirst
  refine ⟨more, hmore, ?_, (List.prefix_append_right_inj _).mp hreply⟩
  simpa [takenFrom_workerPlan] using hwork

/-- **Before its reply** a worker takes its work: past the replies of `n` rounds it has taken the work
of the next one too. -/
theorem workFields_isPrefix_takenFrom {g : List Deed} {n : Nat}
    (hg : g <+: (fs.flatMap fun f => f.workerPlan workers skipEmpty i))
    (hsent : 3 * n < (sentTo g 0 .result).length) :
    ((fs.take (n + 1)).flatMap fun f => f.workFields workers skipEmpty i)
      <+: takenFrom g 0 .work := by
  -- induction on the rounds that are replied to; each one takes its plan off the front
  induction n generalizing fs g with
  | zero =>
      cases fs with
      | nil =>
          rw [List.flatMap_nil, List.prefix_nil] at hg
          simp [hg] at hsent
      | cons f fs =>
          have hwork : (f.workFields workers skipEmpty i).map (.taken 0 .work) <+: g := by
            have hfirst : (f.workFields workers skipEmpty i).map (.taken 0 .work)
                <+: ((f :: fs).flatMap fun f => f.workerPlan workers skipEmpty i) := by
              rw [List.flatMap_cons, workerPlan, List.append_assoc]
              exact List.prefix_append _ _
            rcases List.prefix_or_prefix_of_prefix hg hfirst with hless | hmore
            · have hnone := (sentTo_isPrefix hless 0 .result).length_le
              rw [sentTo_map_taken, List.length_nil] at hnone
              omega
            · exact hmore
          have htaken := takenFrom_map (f.workFields workers skipEmpty i) 0 0 .work .work
          rw [if_pos ⟨rfl, rfl⟩] at htaken
          obtain ⟨more, rfl⟩ := hwork
          rw [takenFrom_append, htaken]
          simp
  | succ n ih =>
      cases fs with
      | nil =>
          rw [List.flatMap_nil, List.prefix_nil] at hg
          simp [hg] at hsent
      | cons f fs =>
          obtain ⟨more, rfl, hmore⟩ := exists_later hg (by omega)
          rw [sentTo_append, sentTo_workerPlan, if_pos ⟨rfl, rfl⟩, List.length_append] at hsent
          have hthree : (f.replyFields workers skipEmpty i).length = 3 := rfl
          rw [List.take_succ_cons, List.flatMap_cons, takenFrom_append, takenFrom_workerPlan,
            if_pos ⟨rfl, rfl⟩]
          exact (List.prefix_append_right_inj _).mpr (ih hmore (by omega))

/-! ## Waiting for work

A worker that waits has used up what it was sent. In a final state all workers wait or are done, and
here it is seen that their replies are then complete. -/

/-- **A worker that waits for work** has replied to as many rounds as it has the work of. -/
theorem sentTo_of_waiting {g rest : List Deed} {payload : Payload} {n : Nat}
    (hplan : fs.flatMap (fun f => f.workerPlan workers skipEmpty i)
      = g ++ .taken 0 .work payload :: rest)
    (hwork : takenFrom g 0 .work = (fs.take n).flatMap fun f => f.workFields workers skipEmpty i) :
    sentTo g 0 .result = (fs.take n).flatMap fun f => f.replyFields workers skipEmpty i := by
  have hwhole := congrArg (List.flatMap fun f => f.workerPlan workers skipEmpty i)
    (List.take_append_drop n fs).symm
  rw [List.flatMap_append, hplan] at hwhole
  have htaken : takenFrom ((fs.take n).flatMap fun f => f.workerPlan workers skipEmpty i) 0 .work
      = (fs.take n).flatMap fun f => f.workFields workers skipEmpty i := takenFrom_workerPlans _
  have hfirst : g <+: ((fs.take n).flatMap fun f => f.workerPlan workers skipEmpty i)
      ++ (fs.drop n).flatMap fun f => f.workerPlan workers skipEmpty i :=
    hwhole ▸ List.prefix_append g _
  rw [← sentTo_workerPlans]
  congr 1
  -- the plan takes work right after either part, so neither is longer than the other
  rcases List.prefix_or_prefix_of_prefix hfirst (List.prefix_append _ _) with
    ⟨more, hmore⟩ | ⟨more, hmore⟩
  · cases more with
    | nil => rw [← hmore, List.append_nil]
    | cons d more =>
        rw [← hmore, List.append_assoc, List.append_cancel_left_eq, List.cons_append,
          List.cons.injEq] at hwhole
        obtain ⟨rfl, -⟩ := hwhole
        rw [← hmore] at htaken
        exact absurd (htaken.trans hwork.symm) (takenFrom_append_taken_ne g more 0 .work payload)
  · cases more with
    | nil => rw [← hmore, List.append_nil]
    | cons d more =>
        rw [← hmore, List.append_assoc, List.append_cancel_left_eq, List.cons_append] at hwhole
        obtain ⟨p, rfl⟩ := eq_taken_of_workerPlans hwhole.symm
        rw [← hmore] at hwork
        exact absurd (hwork.trans htaken.symm) (takenFrom_append_taken_ne _ more 0 .work p)

end Factors

end RowBlock
