import RowBlock.Proofs.KernelFailures
import RowBlock.Proofs.Launch

set_option autoImplicit false

/-! # Failures of a job

What can go wrong in a job is *accounted for* (`Program.Accounted`): it is of a kind that is reported,
or of one of the few that leave the program on purpose. Indices that are out of range, cells that the
kernels cannot store and names that are missing are not among them. This is shown for each part of a
rank: the operands (`accounts_operands`), the rounds, by their contract, and the check with the report
(`accounts_finish`).
-/

namespace RowBlock

/-! ## Numbers

A float of a whole number below `2 ^ 31` is finite, so the length of a row can be computed from it.
This bound on the extents is the one hypothesis that the theory of failures has about numbers. -/

namespace Decimal

/-- A quotient whose size is far below that of the largest numbers is rounded to a finite number. -/
theorem Format.exists_round {f : Format} (negative : Bool) {num den : Nat}
    (hleast : f.least < f.most) (hsmall : floorLog2 num den - (f.precision - 1) < f.most) :
    ∃ m e, f.round negative num den = .finite negative m e := by
  unfold round
  split
  · exact ⟨_, _, rfl⟩
  · have hplace : max f.least (floorLog2 num den - (f.precision - 1)) < f.most :=
      max_lt hleast hsmall
    dsimp only
    generalize (if 0 ≤ max f.least (floorLog2 num den - (f.precision - 1)) then _ else _) = q
    by_cases hq : q = 2 ^ f.precision
    · rw [if_pos hq]
      dsimp only
      rw [if_neg (by omega)]
      exact ⟨_, _, rfl⟩
    · rw [if_neg hq]
      dsimp only
      rw [if_neg (by omega)]
      exact ⟨_, _, rfl⟩

/-- A short whole number is a float, and has a whole part. -/
theorem Value.truncate?_ofInt {n : Int} (hn : n.natAbs < 2 ^ 31) :
    (Value.ofInt .double n).truncate? ≠ none := by
  have hlog : floorLog2 n.natAbs 1 ≤ 31 := by
    have hle : n.natAbs.log2 ≤ 31 := by
      by_cases hzero : n.natAbs = 0
      · rw [hzero]
        decide
      · exact ((Nat.log2_lt hzero).mpr hn).le
    have hone : Nat.log2 1 = 0 := by decide
    unfold floorLog2
    rw [hone]
    dsimp only
    split <;> omega
  have hleast : Format.double.least < Format.double.most := by decide
  have hmost : floorLog2 n.natAbs 1 - (Format.double.precision - 1) < Format.double.most := by
    show floorLog2 n.natAbs 1 - ((53 : Nat) - 1) < 971
    omega
  obtain ⟨m, e, hround⟩ := Format.exists_round (decide (n < 0)) hleast hmost
  rw [ofInt, hround]
  exact nofun

end Decimal

theorem IntType.holds_int64 {x : Int} : int64.Holds x ↔ -2 ^ 63 ≤ x ∧ x ≤ 2 ^ 63 - 1 := Iff.rfl

/-! ## Kinds of failures

The errors of most parts are all of reported kinds, by cases on the error. Overflow is not, so the
places that can overflow have to be looked at one by one. -/

def Settings.LeavesBlank (s : Settings Int) : Prop :=
  s.type = .blank ∨ s.low = .blank ∨ s.high = .blank ∨ s.kernel = .blank ∨ s.logLevel = .blank

namespace Program

/-- **A failure that is accounted for**: it is reported, or it leaves the program for want of memory,
or because the times of the rounds are out of range, or because an option is blank. -/
inductive Accounted (s : Settings Int) : Error → Prop
  | reported {e : Error} (h : e.kind.isReported = true) : Accounted s e
  | memory {e : Error} (h : e.kind = .memory) : Accounted s e
  | times (x : Decimal.NumberError) : Accounted s (.statistics (.number x))
  | blank {e : Error} (h : e.kind = .type) (hs : s.LeavesBlank) : Accounted s e

variable {s : Settings Int} {type : IntType} {n m : Int} {a b : Tensor}

namespace Accounted

theorem value {e : Error} (h : e.kind = .value) : Accounted s e := .reported (by rw [h]; rfl)

theorem room {e : Error} (x : RoomError) (h : e.kind = x.kind) : Accounted s e := by
  cases x with
  | pastMemory type shape => exact .memory h
  | _ => exact .value h

theorem file (x : FileError) : Accounted s (.file x) := by
  refine .reported ?_
  cases x <;> rfl

theorem table (x : CsvError) : Accounted s (.table x) := by
  refine .reported ?_
  cases x <;> rfl

theorem statistics (x : StatisticsError) : Accounted s (.statistics x) := by
  cases x with
  | noTimes => exact .value rfl
  | number x => exact .times x

/-- Operands that cannot be had are accounted for, but for extents that are too large to count. -/
theorem operand {x : OperandError} (h : x.kind ≠ .overflow) : Accounted s (.operand x) := by
  cases x with
  | room x => exact .room x rfl
  | rowPastFloats => exact absurd rfl h
  | countPastWords => exact absurd rfl h
  | _ => exact .value rfl

end Accounted

/-! ## Operands

A job that fills its operands can overflow in counting cells, and only there. Each of the functions
it goes through is shown not to, if the extents are short. -/

section

variable {x : OperandError}

theorem kind_rowLength (hm : m.natAbs < 2 ^ 31) (h : Operands.rowLength m = .error x) :
    x.kind ≠ .overflow := by
  unfold Operands.rowLength at h
  split at h
  · rename_i hnone
    exact absurd hnone (Decimal.Value.truncate?_ofInt hm)
  · split at h
    · cases h
      exact nofun
    · cases h

variable [Memory]

theorem kind_counting (hn : n.natAbs < 2 ^ 31) (hm : m.natAbs < 2 ^ 31)
    (h : Operands.counting type n m = .error x) : x.kind ≠ .overflow := by
  have hwords : IntType.int64.Holds n := IntType.holds_int64.mpr (by omega)
  have hroom (extents : List Int) (y : OperandError)
      (hfull : (Tensor.room (.int type) extents).mapError OperandError.room = .error y) :
      y.kind ≠ .overflow := by
    obtain ⟨e, -, rfl⟩ := error_of_mapError hfull
    cases e <;> exact nofun
  unfold Operands.counting at h
  rcases error_of_bind h with hlength | ⟨length, -, h⟩
  · exact kind_rowLength hm hlength
  rcases error_of_bind h with hrow | ⟨_, -, h⟩
  · exact hroom _ _ hrow
  dsimp only at h
  split at h
  · rename_i hlarge
    exact absurd hwords hlarge.2.2
  split at h
  · cases h
    exact nofun
  rcases error_of_bind h with hall | ⟨_, -, h⟩
  · exact hroom _ _ hall
  · cases h

theorem kind_pattern (hn : n.natAbs < 2 ^ 31) (hm : m.natAbs < 2 ^ 31)
    (h : Operands.pattern n m type = .error x) : x.kind ≠ .overflow := by
  unfold Operands.pattern at h
  rcases error_of_bind h with ha | ⟨_, -, h⟩
  · exact kind_counting hn hm ha
  rcases error_of_bind h with hb | ⟨_, -, h⟩
  · exact kind_counting hm hn hb
  · cases h

theorem kind_shapes (h : Operands.shapes n m type = .error x) : x.kind ≠ .overflow := by
  unfold Operands.shapes at h
  rcases error_of_bind h with hfull | ⟨_, -, h⟩
  · obtain ⟨e, -, rfl⟩ := error_of_mapError hfull
    cases e <;> exact nofun
  · cases h

omit [Memory] in
theorem kind_checkRange {low high : Int} (h : Operands.checkRange type low high = .error x) :
    x.kind ≠ .overflow := by
  unfold Operands.checkRange at h
  split at h
  · cases h
    exact nofun
  · split at h
    · cases h
      exact nofun
    · cases h

theorem kind_random {low high seed : Int} (h : Operands.random n m type low high seed = .error x) :
    x.kind ≠ .overflow := by
  unfold Operands.random at h
  dsimp only at h
  split at h
  · cases h
    exact nofun
  split at h
  · cases h
    exact nofun
  -- whether or not the range is looked at, the cells are drawn in the same way
  split at h
  on_goal 1 =>
    rcases error_of_bind h with hrange | ⟨_, -, h⟩
    · exact kind_checkRange hrange
  all_goals
    rcases error_of_bind h with hshapes | ⟨⟨p, q⟩, -, h⟩
    · exact kind_shapes hshapes
    dsimp only at h
    split at h
    · cases h
      exact nofun
    · cases h

theorem kind_unbounded {seed : Int} (h : Operands.unbounded n m type seed = .error x) :
    x.kind ≠ .overflow := by
  unfold Operands.unbounded at h
  dsimp only at h
  split at h
  · cases h
    exact nofun
  rcases error_of_bind h with hshapes | ⟨⟨p, q⟩, -, h⟩
  · exact kind_shapes hshapes
  dsimp only at h
  split at h
  · split at h
    · cases h
      exact nofun
    · split at h
      · cases h
        exact nofun
      · cases h
  · cases h

omit [Memory] in
theorem kind_check (h : Operands.check a b = .error x) : x.kind ≠ .overflow := by
  unfold Operands.check at h
  split at h
  · cases h
    exact nofun
  split at h
  · cases h
    exact nofun
  split at h
  · cases h
    exact nofun
  · cases h

end

abbrev Accounts {α : Type} (s : Settings Int) (p : Process α) : Prop :=
  p.Only (fun _ => True) (Accounted s)

theorem accounts_load (path : String) (type : IntType) : Accounts s (load path type) := by
  unfold load
  refine (Process.only_request trivial).bind fun _ => ?_
  refine (Process.only_ofExcept _ fun x _ => .file x).bind fun _ => ?_
  exact Process.only_ofExcept _ fun x _ => .table x

theorem accounts_seedOf (setting : Option (Setting Int)) : Accounts s (seedOf setting) := by
  unfold seedOf
  split
  · trivial
  · trivial
  · exact (Process.only_request trivial).bind fun _ => trivial

theorem accounts_filledOperands [Memory] (hrows : s.rows.natAbs < 2 ^ 31)
    (hinner : s.inner.natAbs < 2 ^ 31) (type : IntType) : Accounts s (filledOperands s type) := by
  unfold filledOperands randomOperands
  split
  · split
    · split
      · exact .value rfl
      · exact (accounts_seedOf _).bind fun _ =>
          Process.only_ofExcept _ fun x hx => .operand (kind_random hx)
    · rename_i hlow _
      exact .blank rfl (.inr (.inl hlow))
    · rename_i _ hhigh
      exact .blank rfl (.inr (.inr (.inl hhigh)))
    · exact (accounts_seedOf _).bind fun _ =>
        Process.only_ofExcept _ fun x hx => .operand (kind_unbounded hx)
  · exact Process.only_ofExcept _ fun x hx => .operand (kind_pattern hrows hinner hx)

theorem accounted_typeOf (htypes : ∀ type, s.type = .value type → type ∈ [IntType.int32, .int64])
    {x : Error} (h : typeOf s.type = .error x) : Accounted s x := by
  cases htype : s.type with
  | blank =>
      rw [htype] at h
      cases h
      exact .blank rfl (.inl htype)
  | value type =>
      have hfound := typeOf_eq_ok_iff.mpr ⟨htype, htypes type htype⟩
      rw [hfound] at h
      cases h

/-- **Getting the operands** fails in ways that are accounted for, if their extents are short and their
type is one of those there are. -/
theorem accounts_operands [Memory]
    (htypes : ∀ type, s.type = .value type → type ∈ [IntType.int32, .int64])
    (hrows : s.rows.natAbs < 2 ^ 31) (hinner : s.inner.natAbs < 2 ^ 31) :
    Accounts s (operands s) := by
  have hgiven (type : IntType) : Accounts s (givenOperands s type) := by
    unfold givenOperands
    split
    · refine (accounts_load _ _).bind fun _ => ?_
      refine Process.Only.bind ?_ fun _ => trivial
      unfold loadSecond
      split
      · exact accounts_load _ _
      · exact .value rfl
    · exact accounts_filledOperands hrows hinner type
  unfold operands
  refine (Process.only_ofExcept _ fun x hx => accounted_typeOf htypes hx).bind fun _ => ?_
  exact (hgiven _).bind fun ⟨_, _⟩ =>
    (Process.only_ofExcept _ fun x hx => .operand (kind_check hx)).bind fun _ => trivial

/-! ## The check and the report

With the product of the factors as the last result the check cannot fail. The report writes matrices
of integers, the statistics and the chart; the times are the only floats in it, and the only part of
it that may overflow. -/

section

variable {f : Factors} {workers : Nat} {e : Endpoint} {results : List RoundResult}
  {last : RoundResult}

variable [Memory]

theorem exists_chart {rows cols : Nat} (hworkers : 0 < workers)
    (hroom : Tensor.room (.int type) [rows, cols] = .ok [rows, cols])
    {assignments : List Assignment}
    (hassignments : .ok assignments = Partition.balanced rows workers) (times : List RoundResult) :
    ∃ chart, Chart.ofRounds assignments (times.map fun r => .real r.elapsed) = .ok chart := by
  rw [Partition.balanced_eq rows hworkers] at hassignments
  obtain rfl := Except.ok.inj hassignments
  -- no worker has more rows than the product, which are counted in signed words
  have hrows : IntType.int64.Holds (rows : Int) :=
    (Tensor.room_eq_ok_iff.mp hroom).1 rows (by simp)
  have hsigned : ∀ k ∈ (Partition.assignments rows workers).map Assignment.rowCount,
      IntType.int64.Holds k := by
    intro k hk
    obtain ⟨assignment, hassignment, rfl⟩ := List.mem_map.mp hk
    obtain ⟨i, hi, rfl⟩ := Partition.mem_assignments.mp hassignment
    have hle := Partition.start_add_size_le rows hi
    rw [IntType.holds_int64] at hrows ⊢
    simp only [Partition.share]
    omega
  have hheights : Chart.barHeights ((Partition.assignments rows workers).map Assignment.rowCount)
      = .ok ((Partition.assignments rows workers).map Assignment.rowCount) := by
    have hall : ((Partition.assignments rows workers).map Assignment.rowCount).all
        (fun n => decide (IntType.int64.Holds n)) = true :=
      List.all_eq_true.mpr fun k hk => decide_eq_true (hsigned k hk)
    have hboth : ((Partition.assignments rows workers).map Assignment.rowCount).all
        (fun n => decide (IntType.int64.Holds n) ||
          (decide (IntType.uint64.Holds n) && !decide (IntType.int64.Holds n))) = true :=
      List.all_eq_true.mpr fun k hk => by simp [hsigned k hk]
    unfold Chart.barHeights
    simp only [hall, hboth, Bool.not_true, Bool.false_eq_true, if_false, Bool.true_or, if_true]
  have htimes : (times.map fun r => Decimal.Number.real r.elapsed).mapM Decimal.Number.toFloat
      = .ok (times.map RoundResult.elapsed) := by
    rw [List.mapM_map]
    exact Kernel.mapM_eq_ok fun _ _ => rfl
  unfold Chart.ofRounds
  rw [hheights, htimes]
  exact ⟨_, rfl⟩

/-- **The report** fails in ways that are accounted for. -/
theorem accounts_report (hworkers : 0 < workers) (hroom : f.HasRoom)
    (hlast : Coordinator.IsResult f workers (fun _ => True) last) :
    Accounts s (report s e f.a f.b results last) := by
  obtain ⟨text, -, hround⟩ :=
    reportRound_eq (s := s) f.left.rank_eq f.right.rank_eq hlast.2.1.rank_eq
  have hsave (path : String) (content : Content) : Accounts s (save path content) := by
    unfold save
    exact (Process.only_request trivial).bind fun _ => Process.only_ofExcept _ fun x _ => .file x
  rw [report_eq, hround]
  refine Process.Only.bind (Process.only_request trivial) fun _ => Process.Only.bind ?_ fun _ =>
    Process.Only.bind ?_ fun _ => ?_
  · split
    · exact Process.only_request trivial
    · trivial
  · split
    · refine (Process.only_ofExcept _ fun x _ => .statistics x).bind fun _ => ?_
      exact (Process.only_ofExcept _ fun x _ => .statistics x).bind fun _ =>
        Process.only_request trivial
    · trivial
  · unfold saveAll
    refine (only_withFile _ fun path => ?_).bind fun _ =>
      (only_withFile _ fun path => ?_).bind fun _ => only_withFile _ fun path => ?_
    · exact (Process.only_ofExcept _ fun x _ => .table x).bind fun _ => hsave path _
    · exact (Process.only_ofExcept _ fun x _ => .statistics x).bind fun _ => hsave path _
    · obtain ⟨chart, hchart⟩ := exists_chart hworkers hroom hlast.1 results
      refine Process.Only.bind ?_ fun _ => hsave path _
      refine (Process.only_request trivial).bind fun _ => (Process.only_request trivial).bind fun _ => ?_
      rw [hchart]
      trivial

/-- **What rank zero does with its results** fails in ways that are accounted for. -/
theorem accounts_finish (hworkers : 0 < workers)
    (hresults : ∀ result ∈ results, f.HasRoom ∧
      Coordinator.IsResult f workers (fun _ => True) result) :
    Accounts s (finish s e (f.a, f.b, results)) := by
  simp only [finish]
  split
  · trivial
  · rename_i last hlast
    obtain ⟨hroom, hresult⟩ := hresults last (List.mem_of_getLast? hlast)
    have hreport : Accounts s (report s e f.a f.b results last) :=
      accounts_report hworkers hroom hresult
    have hverify : Accounts s (verify f.a f.b last.product) := by
      unfold verify
      refine (Process.only_ofExcept _ fun x hx => ?_).bind fun _ => ?_
      · rw [Kernel.matmul_eq (Kernel.promote_self f.type) f.left f.right] at hx
        rcases Tensor.room_matrix_cases (.int f.type) f.rows f.cols with hok | ⟨y, hfull⟩
        · rw [hok] at hx
          cases hx
        · rw [hfull] at hx
          cases hx
          exact .room y rfl
      · split
        · trivial
        · exact .value rfl
    split
    · exact hverify.bind fun _ => hreport.bind fun _ => trivial
    · exact hreport.bind fun _ => trivial

end

end Program

end RowBlock
