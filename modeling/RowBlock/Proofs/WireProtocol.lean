import RowBlock.Proofs.Completion

set_option autoImplicit false

/-! # The wire protocol

What has gone over the network of a crew in any reachable state. The coordinator has sent each worker
a first part of its work, round after round, each worker has sent a first part of its replies, and no
other channel has carried anything. The blocks of rows sent in a round, stacked in the order of the
ranks, are the left factor (`Factors.stack_block`). The rounds keep apart: no result is taken before
all work of its round is sent (`Crew.work_sent`), and no work of a later round is sent before every
message of the round has been received (`Crew.round_received`).
-/

namespace RowBlock

/-! ## Stacking the blocks

The left factor is kept in row-major order, so its blocks are consecutive parts of its words. They
lie one behind the other because each share begins where the one before it ends. -/

/-- **Matrices of the same columns below one another.** -/
def Tensor.stack (type : CellType) (cols : Nat) (blocks : List Tensor) : Tensor :=
  .generate type [(blocks.map Tensor.rows).sum, cols] fun p =>
    (blocks.flatMap fun t => t.words.toList).getD p 0

namespace Factors

variable {f : Factors} {workers i : Nat}

theorem length_words : f.a.words.toList.length = f.rows * f.inner := by
  rw [Array.length_toList, f.a.size_eq, f.left.shape_eq]
  simp

theorem words_block (hi : i < workers) : (f.block workers i).words.toList
    = (f.a.words.toList.drop (f.start workers i * f.inner)).take (f.size workers i * f.inner) := by
  have hle := start_add_size_le (f := f) hi
  have hblock := isMatrix_block (f := f) hi
  have hcells : f.start workers i * f.inner + f.size workers i * f.inner ≤ f.rows * f.inner := by
    rw [← Nat.add_mul]
    exact Nat.mul_le_mul_right _ hle
  have hpart : (f.block workers i).words.toList.length = f.size workers i * f.inner := by
    rw [Array.length_toList, (f.block workers i).size_eq, hblock.shape_eq]
    simp
  refine List.ext_getElem ?_ fun p hp hq => ?_
  · rw [hpart, List.length_take, List.length_drop, length_words]
    omega
  · rw [hpart] at hp
    -- cell `p` of the block is in its row `p / inner`
    obtain ⟨hrow, hcol⟩ := Tensor.div_lt_and_mod_lt hp
    have hplace : p / f.inner * f.inner + p % f.inner = p := Nat.div_add_mod' p f.inner
    have hcell : (f.block workers i).entry (p / f.inner) (p % f.inner)
        = f.a.entry (f.start workers i + p / f.inner) (p % f.inner) :=
      Tensor.entry_rowsBetween f.left hle hrow hcol
    rw [Tensor.entry, Tensor.entry, hblock.cols_eq, f.left.cols_eq, hplace, Nat.add_mul,
      Nat.add_assoc, hplace, Tensor.word, Tensor.word, ← Array.getElem?_toList,
      ← Array.getElem?_toList, List.getElem?_eq_getElem (by rw [hpart]; exact hp),
      List.getElem?_eq_getElem (by rw [length_words]; omega)] at hcell
    rw [List.getElem_take, List.getElem_drop]
    exact hcell

/-- The words of the first blocks are those of the rows before the next one. -/
theorem words_blocks {n : Nat} (hn : n ≤ workers) :
    ((List.range n).flatMap fun i => (f.block workers i).words.toList)
      = f.a.words.toList.take (f.start workers n * f.inner) := by
  induction n with
  | zero => simp [start]
  | succ n ih =>
      have hnext : f.start workers (n + 1) = f.start workers n + f.size workers n :=
        Partition.start_succ f.rows workers n
      rw [List.range_succ, List.flatMap_append, List.flatMap_singleton, ih (by omega),
        words_block (by omega), hnext, Nat.add_mul, List.take_add]

theorem sum_rows_blocks {n : Nat} (hn : n ≤ workers) :
    (((List.range n).map (f.block workers)).map Tensor.rows).sum = f.start workers n := by
  induction n with
  | zero => simp [start]
  | succ n ih =>
      have hnext : f.start workers (n + 1) = f.start workers n + f.size workers n :=
        Partition.start_succ f.rows workers n
      rw [List.range_succ, List.map_append, List.map_append, List.sum_append, ih (by omega), hnext]
      simp [(isMatrix_block (f := f) (show n < workers by omega)).rows_eq]

/-- **The blocks stacked in order of the ranks are the left factor.** -/
theorem stack_block (hworkers : 0 < workers) :
    Tensor.stack (.int f.type) f.inner ((List.range workers).map (f.block workers)) = f.a := by
  have hend : f.start workers workers = f.rows := Partition.start_workers f.rows hworkers
  have hwords : (((List.range workers).map (f.block workers)).flatMap fun t => t.words.toList)
      = f.a.words.toList := by
    rw [List.flatMap_map, words_blocks le_rfl, hend, ← length_words, List.take_length]
  rw [Tensor.stack, sum_rows_blocks le_rfl, hend, hwords]
  conv_rhs => rw [← f.a.generate_word, f.left.type_eq, f.left.shape_eq]
  apply Tensor.generate_congr
  intro p _
  rw [List.getD_eq_getElem?_getD, Array.getElem?_toList]
  rfl

end Factors

namespace Crew

variable {crew : Crew} {readings : List Float} {files : Files} {z : Hazards} {t u : Ensemble}
  {ms : List Move} {i : Nat}

/-! ## What the plans of all rounds hold

The work of some number of rounds is a beginning of the work of more of them. -/

theorem flatMap_take_isPrefix {α : Type} (fields : Factors → List α) (fs : List Factors)
    {n m : Nat} (h : n ≤ m) : (fs.take n).flatMap fields <+: (fs.take m).flatMap fields := by
  obtain ⟨rest, hrest⟩ := List.take_prefix_take_left (l := fs) h
  rw [← hrest, List.flatMap_append]
  exact List.prefix_append _ _

theorem flatMap_take_isPrefix_flatMap {α : Type} (fields : Factors → List α) (fs : List Factors)
    (n : Nat) : (fs.take n).flatMap fields <+: fs.flatMap fields := by
  have hall := flatMap_take_isPrefix fields fs (Nat.le_max_left n fs.length)
  rwa [List.take_of_length_le (Nat.le_max_right _ _)] at hall

theorem rounds_le {n r : Nat} (hr : r < crew.factors.length)
    (h : ((crew.factors.take (r + 1)).flatMap
        fun f => f.workFields crew.workers crew.skipEmpty i).length
      ≤ ((crew.factors.take (n + 1)).flatMap
        fun f => f.workFields crew.workers crew.skipEmpty i).length) : r ≤ n := by
  by_contra hlater
  have hless := (flatMap_take_isPrefix
    (fun f => f.workFields crew.workers crew.skipEmpty i) crew.factors
    (show n + 1 ≤ r by omega)).length_le
  have hone := crew.length_workFields crew.factors[r] i
  rw [List.take_succ_eq_append_getElem hr, List.flatMap_append, List.length_append,
    List.flatMap_singleton] at h
  split at hone <;> omega

/-! ## What has been sent

The invariant of a crew keeps each rank on its plan. What was sent to a rank is then a beginning of
what the plan sends it, on both channels, and what the plan does not send was not sent. -/

section

variable [Memory]

section

variable (hhonest : ∀ rank, ¬z.rogue rank) (hrun : Run z (crew.start readings files) ms t)
include hhonest hrun

theorem sends_isPrefix : (historyOf ms 0).deeds.filter Deed.isSent <+: crew.coordinatorPlan :=
  (holds (fun rank h => absurd h (hhonest rank)) hrun (Nat.succ_pos _) (hhonest 0)).1

theorem deeds_isPrefix (hi : i < crew.workers) :
    (historyOf ms (i + 1)).deeds <+: crew.workerPlan i :=
  (holds (fun rank h => absurd h (hhonest rank)) hrun (Nat.succ_lt_succ hi) (hhonest _)).1

/-- **The work sent** to a worker is a first part of its work of all rounds. -/
theorem work_isPrefix (hi : i < crew.workers) :
    sentTo (historyOf ms 0).deeds (i + 1) .work
      <+: crew.factors.flatMap fun f => f.workFields crew.workers crew.skipEmpty i := by
  rw [← sentTo_filter, ← Factors.sentTo_coordinatorPlans hi]
  exact sentTo_isPrefix (sends_isPrefix hhonest hrun) (i + 1) .work

/-- **The results sent** by a worker are a first part of its replies of all rounds. -/
theorem replies_isPrefix (hi : i < crew.workers) :
    sentTo (historyOf ms (i + 1)).deeds 0 .result
      <+: crew.factors.flatMap fun f => f.replyFields crew.workers crew.skipEmpty i := by
  rw [← sentTo_workerPlan]
  exact sentTo_isPrefix (deeds_isPrefix hhonest hrun hi) 0 .result

/-- **No other channel** carries anything. -/
theorem sent_cases {source : Nat} {dest : Int} {channel : Channel} {payload : Payload}
    (hsent : .sent dest channel payload ∈ (historyOf ms source).deeds) :
    ∃ i < crew.workers, (source = 0 ∧ dest = (i + 1 : Nat) ∧ channel = .work) ∨
      (source = i + 1 ∧ dest = 0 ∧ channel = .result) := by
  cases source with
  | zero =>
      have hmem := (sends_isPrefix hhonest hrun).subset (List.mem_filter.mpr ⟨hsent, rfl⟩)
      obtain ⟨i, hi, _, heq⟩ := mem_coordinatorPlan hmem
      cases heq
      exact ⟨i, hi, .inl ⟨rfl, rfl, rfl⟩⟩
  | succ i =>
      have hi : i < crew.workers := by
        by_contra hout
        rw [hrun.historyOf_eq_nil (hhonest _) (by rw [length_start, size]; omega)] at hsent
        cases hsent
      obtain ⟨_, heq | heq⟩ := mem_workerPlan ((deeds_isPrefix hhonest hrun hi).subset hsent)
      · cases heq
      · cases heq
        exact ⟨i, hi, .inr ⟨rfl, rfl, rfl⟩⟩

/-- A worker that has replied to a number of rounds has taken the work of the next one. -/
theorem work_taken (hi : i < crew.workers) {n : Nat}
    (hreplied : 3 * n < (sentTo (historyOf ms (i + 1)).deeds 0 .result).length) :
    ((crew.factors.take (n + 1)).flatMap fun f => f.workFields crew.workers crew.skipEmpty i)
      <+: takenFrom (historyOf ms (i + 1)).deeds 0 .work :=
  Factors.workFields_isPrefix_takenFrom (deeds_isPrefix hhonest hrun hi) hreplied

/-! ## The rounds keep apart

Messages do not say what round they are of. The rounds are told apart by counting: in the history of
the coordinator, what it has sent and what it has taken when an event happens. -/

/-- **The coordinator takes results** of the round whose work it has sent. -/
theorem sends_of_taking {e : Event} {source : Nat} {payload : Payload}
    (hstep : Step z t (.act 0 e) u) (hdeed : e.deed? = some (.taken source .result payload)) :
    ∃ n < crew.factors.length, (historyOf ms 0).deeds.filter Deed.isSent
      = (crew.factors.take (n + 1)).flatMap (·.coordinatorPlan crew.workers crew.skipEmpty) := by
  cases hstep with
  | rogue hrogue _ _ => exact absurd hrogue (hhonest 0)
  | @act _ request next answer host _ hpart _ =>
      have hmeets := meets (fun rank h => absurd h (hhonest rank)) hrun (hhonest 0) hpart
      have hquiet : request.isQuiet = false := by
        by_contra hq
        rw [Event.deed?_of_quiet (e := ⟨request, answer⟩) (by simpa using hq)] at hdeed
        cases hdeed
      rcases hmeets.2.1 hquiet with ⟨result, rfl⟩ | ⟨d, rest, hplan, rfl⟩ | ⟨n, f, hf, -, hsent, -⟩
      · cases hdeed
      · have hmem : d ∈ crew.coordinatorPlan := by
          rw [coordinatorPlan, hplan]
          simp
        obtain ⟨_, -, _, rfl⟩ := mem_coordinatorPlan hmem
        rcases answer with cause | ⟨⟩ <;> cases hdeed
      · exact ⟨n, (List.getElem?_eq_some_iff.mp hf).1, hsent⟩

/-- **Work before results**: when a result of some round is taken, all work of the round is sent. -/
theorem work_sent {e : Event} {source r : Nat} {payload : Payload}
    (hstep : Step z t (.act 0 e) u) (hdeed : e.deed? = some (.taken source .result payload))
    (hround : 3 * r ≤ (takenFrom (historyOf ms 0).deeds source .result).length)
    {j : Nat} (hj : j < crew.workers) :
    ((crew.factors.take (r + 1)).flatMap fun f => f.workFields crew.workers crew.skipEmpty j)
      <+: sentTo (historyOf ms 0).deeds (j + 1) .work := by
  -- the result is one more that its sender has sent
  have hless := Run.takenFrom_isPrefix (s := crew.start readings files) rfl hrun hstep source 0
    .result
  have hmore : 3 * r < (sentTo (historyOf ms source).deeds 0 .result).length := by
    have hone : takenFrom [.taken source .result payload] source .result = [payload] := by
      simp [takenFrom, Deed.takenFrom?]
    have hlength := hless.length_le
    rw [deeds_historyOf_act, if_pos rfl, hdeed, takenFrom_append, Option.toList_some, hone,
      List.length_append, List.length_singleton] at hlength
    omega
  obtain ⟨i, hi, rfl⟩ : ∃ i < crew.workers, source = i + 1 := by
    obtain ⟨_, hmem⟩ := exists_sent (List.ne_nil_of_length_pos (Nat.zero_lt_of_lt hmore))
    obtain ⟨i, hi, ⟨-, -, hchannel⟩ | ⟨hsource, -, -⟩⟩ := sent_cases hhonest hrun hmem
    · cases hchannel
    · exact ⟨i, hi, hsource⟩
  obtain ⟨n, hn, hsent⟩ := sends_of_taking hhonest hrun hstep hdeed
  have hwork {j : Nat} (hj : j < crew.workers) : sentTo (historyOf ms 0).deeds (j + 1) .work
      = (crew.factors.take (n + 1)).flatMap
        fun f => f.workFields crew.workers crew.skipEmpty j := by
    rw [← sentTo_filter, hsent, Factors.sentTo_coordinatorPlans hj]
  -- the sender had the work of its round, so that is not a later one
  have hrn : r ≤ n := by
    have hreplies := (replies_isPrefix hhonest hrun hi).length_le
    rw [length_replies] at hreplies
    have htaken := (work_taken hhonest hrun hi hmore).length_le
    have hless := congrArg List.length (hrun.sentTo_eq rfl 0 (i + 1) .work)
    rw [hwork hi, List.length_append] at hless
    exact rounds_le (by omega) (htaken.trans (Nat.le.intro hless.symm))
  rw [hwork hj]
  exact flatMap_take_isPrefix _ _ (Nat.succ_le_succ hrn)

/-- When work of some round is sent, more is sent than the plans of the rounds before it. -/
theorem lt_length_sends {e : Event} {r : Nat} {payload : Payload}
    (hstep : Step z t (.act 0 e) u) (hi : i < crew.workers)
    (hdeed : e.deed? = some (.sent (i + 1 : Nat) .work payload))
    (hround : ((crew.factors.take r).flatMap
        fun f => f.workFields crew.workers crew.skipEmpty i).length
      ≤ (sentTo (historyOf ms 0).deeds (i + 1) .work).length) :
    ((crew.factors.take r).flatMap (·.coordinatorPlan crew.workers crew.skipEmpty)).length
      < ((historyOf (ms ++ [.act 0 e]) 0).deeds.filter Deed.isSent).length := by
  by_contra hfew
  have hplans := flatMap_take_isPrefix_flatMap (·.coordinatorPlan crew.workers crew.skipEmpty)
    crew.factors r
  have hfirst := List.prefix_of_prefix_length_le (sends_isPrefix hhonest (hrun.step hstep)) hplans
    (Nat.le_of_not_lt hfew)
  have hone : sentTo [.sent (i + 1 : Nat) .work payload] (i + 1) .work = [payload] := by
    simp [sentTo, Deed.sentTo?]
  have hlength := (sentTo_isPrefix hfirst (i + 1) .work).length_le
  rw [Factors.sentTo_coordinatorPlans hi, sentTo_filter, deeds_historyOf_act, if_pos rfl, hdeed,
    sentTo_append, Option.toList_some, hone, List.length_append, List.length_singleton] at hlength
  omega

/-- **A round is over before the next one**: when work of some round is sent, all messages of the
rounds before it have been taken. -/
theorem round_received {e : Event} {r : Nat} {payload : Payload} (hi : i < crew.workers)
    (hstep : Step z t (.act 0 e) u) (hdeed : e.deed? = some (.sent (i + 1 : Nat) .work payload))
    (hround : ((crew.factors.take r).flatMap
        fun f => f.workFields crew.workers crew.skipEmpty i).length
      ≤ (sentTo (historyOf ms 0).deeds (i + 1) .work).length)
    {j : Nat} (hj : j < crew.workers) :
    ((crew.factors.take r).flatMap fun f => f.workFields crew.workers crew.skipEmpty j)
        <+: takenFrom (historyOf ms (j + 1)).deeds 0 .work ∧
      ((crew.factors.take r).flatMap fun f => f.replyFields crew.workers crew.skipEmpty j)
        <+: takenFrom (historyOf ms 0).deeds (j + 1) .result := by
  have hmore := lt_length_sends hhonest hrun hstep hi hdeed hround
  have hcount : 3 * r ≤ (takenFrom (historyOf ms 0).deeds (j + 1) .result).length := by
    have hnone : takenFrom [.sent (i + 1 : Nat) .work payload] (j + 1) .result = [] := rfl
    have hturn := (holds (fun rank h => absurd h (hhonest rank)) (hrun.step hstep) (Nat.succ_pos _)
      (hhonest 0)).2.2 r hmore j hj
    rwa [deeds_historyOf_act, if_pos rfl, hdeed, takenFrom_append, Option.toList_some, hnone,
      List.append_nil] at hturn
  have htaken := hrun.sentTo_eq rfl (j + 1) 0 .result
  have hreplies : takenFrom (historyOf ms 0).deeds (j + 1) .result
      <+: crew.factors.flatMap fun f => f.replyFields crew.workers crew.skipEmpty j :=
    List.IsPrefix.trans ⟨_, htaken.symm⟩ (replies_isPrefix hhonest hrun hj)
  constructor
  · cases r with
    | zero => simp
    | succ r =>
        refine work_taken hhonest hrun hj ?_
        rw [htaken, List.length_append]
        omega
  · refine List.prefix_of_prefix_length_le (flatMap_take_isPrefix_flatMap _ _ r) hreplies ?_
    rw [length_replies, List.length_take]
    omega

end

/-! ## The protocol -/

/-- **The wire protocol** of a crew without rogue ranks, in every state it can reach. The work sent to
each worker and the results it has sent are first parts of those of all rounds, and no other channel
carries anything. A result is taken only when all work of its round is sent, and work is sent only when
every message of the rounds before has been taken. In each round the blocks are the rows dealt by the
balanced partition, and stacked in order of the ranks they are the left factor. -/
theorem wire_protocol (hhonest : ∀ rank, ¬z.rogue rank)
    (hrun : Run z (crew.start readings files) ms t) :
    (∀ i < crew.workers,
      sentTo (historyOf ms 0).deeds (i + 1) .work
        <+: (crew.factors.flatMap fun f => f.workFields crew.workers crew.skipEmpty i) ∧
      sentTo (historyOf ms (i + 1)).deeds 0 .result
        <+: crew.factors.flatMap fun f => f.replyFields crew.workers crew.skipEmpty i) ∧
    (∀ (source : Nat) (dest : Int) channel payload,
      .sent dest channel payload ∈ (historyOf ms source).deeds →
      ∃ i < crew.workers, (source = 0 ∧ dest = (i + 1 : Nat) ∧ channel = .work) ∨
        (source = i + 1 ∧ dest = 0 ∧ channel = .result)) ∧
    (∀ e u source payload r, Step z t (.act 0 e) u →
      e.deed? = some (.taken source .result payload) →
      3 * r ≤ (takenFrom (historyOf ms 0).deeds source .result).length →
      ∀ j < crew.workers,
        ((crew.factors.take (r + 1)).flatMap fun f => f.workFields crew.workers crew.skipEmpty j)
          <+: sentTo (historyOf ms 0).deeds (j + 1) .work) ∧
    (∀ e u i payload r, i < crew.workers → Step z t (.act 0 e) u →
      e.deed? = some (.sent (i + 1 : Nat) .work payload) →
      ((crew.factors.take r).flatMap
          fun f => f.workFields crew.workers crew.skipEmpty i).length
        ≤ (sentTo (historyOf ms 0).deeds (i + 1) .work).length →
      ∀ j < crew.workers,
        ((crew.factors.take r).flatMap fun f => f.workFields crew.workers crew.skipEmpty j)
            <+: takenFrom (historyOf ms (j + 1)).deeds 0 .work ∧
          ((crew.factors.take r).flatMap fun f => f.replyFields crew.workers crew.skipEmpty j)
            <+: takenFrom (historyOf ms 0).deeds (j + 1) .result) ∧
    ∀ f ∈ crew.factors,
      Partition.balanced f.rows crew.workers
        = .ok ((List.range crew.workers).map fun i : Nat =>
          ⟨i + 1, f.start crew.workers i, f.size crew.workers i⟩) ∧
      Tensor.stack (.int f.type) f.inner ((List.range crew.workers).map (f.block crew.workers))
        = f.a := by
  refine ⟨fun i hi => ⟨work_isPrefix hhonest hrun hi, replies_isPrefix hhonest hrun hi⟩, ?_, ?_, ?_,
    fun f _ => ⟨Partition.balanced_eq f.rows crew.workers_pos,
      Factors.stack_block crew.workers_pos⟩⟩
  · intro source dest channel payload hsent
    exact sent_cases hhonest hrun hsent
  · intro e u source payload r hstep hdeed hround j hj
    exact work_sent hhonest hrun hstep hdeed hround hj
  · intro e u i payload r hi hstep hdeed hround j hj
    exact round_received hhonest hrun hi hstep hdeed hround hj

end

/-- In the end the first worker of the pair has sent one row and then two. -/
theorem wire_protocol_pair : ∃ ms t, Run .none (pair.start [] ⟨[]⟩) ms t ∧
    sentTo (historyOf ms 1).deeds 0 .result =
      [.int 0, .int 1, .tensor (.matrix (.int .int8) 1 1 fun _ _ => -62),
        .int 0, .int 2, .tensor (.matrix (.int .uint16) 2 1 fun i _ => 5 * (i + 1))] := by
  obtain ⟨ms, t, hrun, hfinal⟩ := exists_final (pair.start [] ⟨[]⟩)
  have hdone := coordinator_done hrun hfinal hasRoom_pair
  have hcount := (returns_coordinator hrun hdone).2.2.1 0 (by decide)
  have hreplies := ((wire_protocol (fun _ h => h) hrun).1 0 (by decide)).2
  have hlength : (sentTo (historyOf ms 1).deeds 0 .result).length
      = (pair.factors.flatMap fun f => f.replyFields 2 true 0).length := by
    refine Nat.le_antisymm hreplies.length_le ?_
    have htaken := congrArg List.length (hrun.sentTo_eq rfl 1 0 .result)
    rw [List.length_append, hcount] at htaken
    rw [htaken]
    exact Nat.le_add_right _ _
  have hall : sentTo (historyOf ms 1).deeds 0 .result
      = pair.factors.flatMap fun f => f.replyFields 2 true 0 := hreplies.eq_of_length hlength
  refine ⟨ms, t, hrun, hall.trans ?_⟩
  rfl

end Crew

end RowBlock
