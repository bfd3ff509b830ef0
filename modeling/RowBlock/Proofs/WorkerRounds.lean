import RowBlock.Proofs.Paths
import RowBlock.Proofs.RoundPlans

set_option autoImplicit false

/-! # The rounds of a worker

A worker that takes the work of its rounds from the coordinator follows a plan: it takes the fields
of its work and sends the fields of its reply, round after round (`Worker.follows_rounds`). The only
error of its own is that there is no room for a product.
-/

namespace RowBlock

namespace Worker

variable {f : Factors} {workers i : Nat} {skipEmpty : Bool} {w : Worker} {E : Error → Prop}

section

variable [Memory]

/-- **The product of the work** of a round is the reply's, if there is room for it. -/
theorem compute_work (hi : i < workers) (hkernel : w.kernel ≠ .device) :
    w.compute (f.work workers skipEmpty i) =
      if f.omitted workers skipEmpty i then .ok (f.replyBlock workers skipEmpty i)
      else ((Tensor.room (.int f.type) [f.size workers i, f.cols]).mapError KernelError.room).map
        fun _ => f.replyBlock workers skipEmpty i := by
  have hblock := Factors.isMatrix_block (f := f) hi
  cases homitted : f.omitted workers skipEmpty i with
  | true => simp only [compute, Factors.work, Factors.replyBlock, homitted, if_true, hblock.type_eq]
  | false =>
      simp only [compute, Factors.work, Factors.replyBlock, homitted, Bool.false_eq_true, if_false]
      split
      · rename_i hzero
        have hempty : f.size workers i = 0 := by exact_mod_cast hzero
        -- the empty block is put down without a kernel, and is the product all the same
        have hzeros : Tensor.zeros (.int f.type) [0, f.cols]
            = (f.block workers i).product f.type f.b := by
          rw [Tensor.product, hblock.rows_eq, hempty, f.right.cols_eq]
          exact Tensor.generate_congr fun p hp => by simp at hp
        rw [hblock.type_eq, f.right.cols_eq, hempty, Nat.cast_zero, ← hzeros]
        rcases Tensor.room_matrix_cases (.int f.type) 0 f.cols with hroom | ⟨e, hroom⟩ <;>
        · rw [Nat.cast_zero] at hroom
          rw [hroom]
          rfl
      · exact Kernel.multiply_eq hkernel hblock f.right

theorem compute_work_error {e : KernelError} (hi : i < workers) (hkernel : w.kernel ≠ .device)
    (h : w.compute (f.work workers skipEmpty i) = .error e) :
    f.omitted workers skipEmpty i = false ∧ ¬f.HasRoom ∧ ∃ x, e = .room x := by
  rw [compute_work hi hkernel] at h
  split at h
  · cases h
  · rename_i hkept
    refine ⟨by simpa using hkept, ?_⟩
    have hle := Factors.start_add_size_le (f := f) hi
    rcases hroom : Tensor.room (.int f.type) [(f.size workers i : Int), (f.cols : Int)] with x | shape
    · rw [hroom] at h
      cases h
      -- there is room for the rows of one worker where there is room for all rows
      refine ⟨fun hfits => ?_, x, rfl⟩
      have hless := Tensor.room_mono le_rfl (show f.size workers i ≤ f.rows by omega) hfits
      rw [hroom] at hless
      cases hless
    · rw [hroom] at h
      cases h

theorem compute_work_ok {t : Tensor} (hi : i < workers) (hkernel : w.kernel ≠ .device)
    (h : w.compute (f.work workers skipEmpty i) = .ok t) : t = f.replyBlock workers skipEmpty i := by
  rw [compute_work hi hkernel] at h
  split at h
  · cases h
    rfl
  · rcases hroom : Tensor.room (.int f.type) [(f.size workers i : Int), (f.cols : Int)] with x | shape
    · rw [hroom] at h
      cases h
    · rw [hroom] at h
      cases h
      rfl

end

theorem follows_receive (hskip : w.skipEmpty = skipEmpty) (hi : i < workers) :
    w.receive.Follows (· = f.work workers skipEmpty i) E
      ((f.workFields workers skipEmpty i).map (.taken 0 .work)) := by
  have hblock := Factors.isMatrix_block (f := f) hi
  unfold receive Factors.workFields
  rw [List.map_append, List.map_cons, List.map_cons, List.map_cons, List.map_nil]
  refine (Endpoint.follows_receiveInt (Field.int_natCast _ _)).bind fun offset hoffset => ?_
  refine (Endpoint.follows_receiveInt (Field.int_natCast _ _)).bind fun rowCount hcount => ?_
  subst hoffset hcount
  refine (Endpoint.follows_receiveBlock
    (Field.block_tensor _ hblock (by simp))).bind fun rows hrows => ?_
  subst hrows
  have hiff : ((f.size workers i : Int) = 0 ∧ w.skipEmpty = true) ↔
      f.omitted workers skipEmpty i = true := by
    simp [Factors.omitted, Coordinator.omits, hskip]
  cases homitted : f.omitted workers skipEmpty i with
  | true =>
      rw [if_pos (hiff.mpr homitted)]
      exact .done (by simp [Factors.work, homitted])
  | false =>
      have hkept : ¬((f.size workers i : Int) = 0 ∧ w.skipEmpty = true) := by
        rw [hiff, homitted]
        exact Bool.false_ne_true
      rw [if_neg hkept, hblock.cols_eq]
      refine (Endpoint.follows_receiveBlock
        (Field.block_tensor _ f.right (by simp))).check fun right hright => ?_
      subst hright
      exact (Process.follows_note _ _ _).bind fun _ _ => .done (by simp [Factors.work, homitted])

theorem follows_reply (hi : i < workers) :
    (reply (f.start workers i) (f.size workers i)
        (.tensor (f.replyBlock workers skipEmpty i))).Follows (fun _ => True) E
      ((f.replyFields workers skipEmpty i).map (.sent 0 .result)) := by
  have htravels : (f.replyBlock workers skipEmpty i).contiguous = f.replyBlock workers skipEmpty i :=
    (Factors.isMatrix_replyBlock hi).contiguous_eq
  have hblock := Endpoint.follows_send (E := E) (.tensor (f.replyBlock workers skipEmpty i)) 0 .result
  rw [Payload.contiguous, htravels] at hblock
  unfold reply
  refine (Endpoint.follows_send _ _ _).bind fun _ _ => ?_
  exact (Endpoint.follows_send _ _ _).bind fun _ _ => hblock

/-- **A round of a worker** follows its plan. -/
theorem follows_round [Memory] (hkernel : w.kernel ≠ .device) (hskip : w.skipEmpty = skipEmpty)
    (hi : i < workers)
    (hroom : f.omitted workers skipEmpty i = false → ¬f.HasRoom → ∀ x, E (.kernel (.room x))) :
    w.round.Follows (fun _ => True) E (f.workerPlan workers skipEmpty i) := by
  unfold round Factors.workerPlan
  refine (follows_receive hskip hi).bind fun work hwork => ?_
  subst hwork
  refine (Process.follows_ofExcept (Q := (· = f.replyBlock workers skipEmpty i))
    (fun t ht => compute_work_ok hi hkernel ht) fun e he => ?_).bind fun block hblock => ?_
  · obtain ⟨hkept, hnone, x, rfl⟩ := compute_work_error hi hkernel he
    exact hroom hkept hnone x
  · subst hblock
    exact follows_reply hi

/-- **The rounds of a worker** follow the plans of the rounds one after another. -/
theorem follows_rounds [Memory] {fs : List Factors} (hkernel : w.kernel ≠ .device)
    (hskip : w.skipEmpty = skipEmpty) (hi : i < workers)
    (hroom : ∀ f ∈ fs, f.omitted workers skipEmpty i = false → ¬f.HasRoom →
      ∀ x, E (.kernel (.room x))) :
    (w.rounds fs.length).Follows (fun _ => True) E
      (fs.flatMap fun f => f.workerPlan workers skipEmpty i) := by
  unfold rounds
  induction fs with
  | nil => exact .done trivial
  | cons f fs ih =>
      rw [List.flatMap_cons, List.length_cons, Process.times]
      exact (follows_round hkernel hskip hi (hroom f (by simp))).bind fun _ _ =>
        ih fun g hg => hroom g (by simp [hg])

/-- A worker that follows the plans of its rounds **meets their contract on every path** on which it
takes no more than its work. -/
theorem meets_of_comes {fs : List Factors} {p q : Process Unit} {h : History}
    (hp : p.Follows (fun _ => True) E (fs.flatMap fun f => f.workerPlan workers skipEmpty i))
    (hpath : p.Comes h q) (hadmitted : h.Admitted)
    (htaken : takenFrom h.deeds 0 .work <+: fs.flatMap fun f => f.workFields workers skipEmpty i) :
    q.Meets (planContract (fs.flatMap fun f => f.workerPlan workers skipEmpty i) (fun _ => True) E)
      h := by
  have hstart : p.Meets (planContract (fs.flatMap fun f => f.workerPlan workers skipEmpty i)
      (fun _ => True) E) [] := hp.meets rfl rfl
  refine hstart.comes hpath fun k hk => ?_
  rw [List.nil_append]
  obtain ⟨rest, rfl⟩ := hk
  rw [History.deeds_append, takenFrom_append] at htaken
  exact Factors.workerPlans_rely (History.admitted_append.mp hadmitted).1
    ((List.prefix_append _ _).trans htaken)

end Worker

end RowBlock
