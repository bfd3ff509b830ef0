import RowBlock.Partition
import Mathlib.Algebra.Order.Ring.Nat
import Mathlib.Data.List.Nodup
import Mathlib.Tactic.Ring

set_option autoImplicit false

/-! # The balanced tiling of rows

Counted from zero, the share of worker `i` begins at row `start rows workers i` and holds
`size rows workers i` rows. The shares lie end to end (`start_succ`) from row zero to the last row
(`start_workers`), so those of different workers are disjoint (`start_add_size_le_start`) and
together they hold every row (`exists_share`). The balanced partition lists exactly these shares
(`balanced_eq`), and it passes the check of partitions (`check_assignments`).
-/

namespace RowBlock.Partition

def start (rows workers i : Nat) : Nat := i * (rows / workers) + min i (rows % workers)

def size (rows workers i : Nat) : Nat := rows / workers + if i < rows % workers then 1 else 0

/-- The share of worker `i`, counted from zero, whose rank is `i + 1`. -/
def share (rows workers i : Nat) : Assignment :=
  ⟨i + 1, start rows workers i, size rows workers i⟩

def assignments (rows workers : Nat) : List Assignment :=
  (List.range workers).map (share rows workers)

/-! ## Shares lie end to end

The closed form of `start` is quotient times index, and one row more for each share before it that
has one. Neighbouring shares meet (`start_succ`), and with the first and the last row known the rest
follows by monotonicity. -/

@[simp]
theorem start_zero (rows workers : Nat) : start rows workers 0 = 0 := by simp [start]

/-- **A share begins where the one before it ends.** -/
theorem start_succ (rows workers i : Nat) :
    start rows workers (i + 1) = start rows workers i + size rows workers i := by
  have hmul : (i + 1) * (rows / workers) = i * (rows / workers) + rows / workers := Nat.succ_mul _ _
  unfold start size
  rw [hmul]
  split <;> omega

theorem start_workers (rows : Nat) {workers : Nat} (h : 0 < workers) :
    start rows workers workers = rows := by
  have hmin : min workers (rows % workers) = rows % workers :=
    Nat.min_eq_right (Nat.mod_lt rows h).le
  rw [start, hmin, Nat.div_add_mod]

theorem start_mono (rows workers : Nat) {i j : Nat} (h : i ≤ j) :
    start rows workers i ≤ start rows workers j := by
  induction h with
  | refl => exact Nat.le_refl _
  | step _ ih => exact ih.trans (by rw [start_succ]; exact Nat.le_add_right _ _)

/-- **Shares of different workers are disjoint.** -/
theorem start_add_size_le_start (rows workers : Nat) {i j : Nat} (h : i < j) :
    start rows workers i + size rows workers i ≤ start rows workers j := by
  rw [← start_succ]
  exact start_mono rows workers h

/-- A row of one worker is before or after the rows of another. -/
theorem row_lt_or_le (rows workers : Nat) {i j r : Nat} (hij : j ≠ i)
    (hr : r < size rows workers j) :
    start rows workers j + r < start rows workers i ∨
      start rows workers i + size rows workers i ≤ start rows workers j + r := by
  rcases Nat.lt_or_gt_of_ne hij with hlt | hgt
  · have := start_add_size_le_start rows workers hlt
    omega
  · have := start_add_size_le_start rows workers hgt
    omega

theorem start_add_size_le (rows : Nat) {workers i : Nat} (h : i < workers) :
    start rows workers i + size rows workers i ≤ rows := by
  calc start rows workers i + size rows workers i
      ≤ start rows workers workers := start_add_size_le_start rows workers h
    _ = rows := start_workers rows (by omega)

/-- **Every row is in a share.** -/
theorem exists_share {rows workers r : Nat} (h : 0 < workers) (hr : r < rows) :
    ∃ i < workers, start rows workers i ≤ r ∧ r < start rows workers i + size rows workers i := by
  -- induction on the number of shares up to one that begins after the row
  have key : ∀ j, r < start rows workers j →
      ∃ i < j, start rows workers i ≤ r ∧ r < start rows workers i + size rows workers i := by
    intro j
    induction j with
    | zero => intro hj; simp at hj
    | succ j ih =>
        intro hj
        by_cases hlt : r < start rows workers j
        · obtain ⟨i, hi, hshare⟩ := ih hlt
          exact ⟨i, by omega, hshare⟩
        · rw [start_succ] at hj
          exact ⟨j, by omega, by omega, hj⟩
  exact key workers (by rw [start_workers rows h]; exact hr)

/-! ## The list of shares

The lists built by the program recurse on a first worker and a first row, so the lemmas about them
are stated for a range of workers from any of them on, and the induction is on how many there are. -/

theorem length_assignments (rows workers : Nat) :
    (assignments rows workers).length = workers := by simp [assignments]

theorem mem_assignments {rows workers : Nat} {a : Assignment} :
    a ∈ assignments rows workers ↔ ∃ i < workers, share rows workers i = a := by
  simp [assignments]

theorem mem_workers {rows workers : Nat} {x : Int} :
    x ∈ (assignments rows workers).map Assignment.worker ↔ ∃ i < workers, x = (i + 1 : Nat) := by
  simp [assignments, share, eq_comm]

theorem nodup_workers (rows workers : Nat) :
    ((assignments rows workers).map Assignment.worker).Nodup := by
  rw [assignments, List.map_map]
  refine List.nodup_range.map fun i j hij => ?_
  simpa [share] using hij

/-- Counts laid out from a share on give the shares from there on. -/
theorem layOut_eq (rows workers first count : Nat) :
    layOut (first + 1) (start rows workers first) ((List.range' first count).map (size rows workers))
      = (List.range' first count).map (share rows workers) := by
  induction count generalizing first with
  | zero => rfl
  | succ count ih =>
      -- the next share begins where the layout has got to
      have hstart : (start rows workers first : Int) + (size rows workers first : Nat)
          = start rows workers (first + 1) := by
        rw [start_succ]
        exact_mod_cast rfl
      simp only [List.range'_succ, List.map_cons, layOut]
      rw [hstart]
      congr 1
      exact_mod_cast ih (first + 1)

/-- **The balanced partition** is the list of shares. -/
theorem balanced_eq (rows : Nat) {workers : Nat} (h : 0 < workers) :
    balanced rows workers = .ok (assignments rows workers) := by
  have hlist := layOut_eq rows workers 0 workers
  rw [← List.range_eq_range', start_zero] at hlist
  rw [balanced, if_neg (by omega), if_neg (by omega)]
  congr 1

theorem endOf_eq (rows workers first count : Nat) :
    endOf (start rows workers first) ((List.range' first count).map (share rows workers))
      = .ok (start rows workers (first + count) : Int) := by
  induction count generalizing first with
  | zero => rfl
  | succ count ih =>
      have hstop : (share rows workers first).stop = start rows workers (first + 1) := by
        rw [start_succ]
        exact_mod_cast rfl
      simp only [List.range'_succ, List.map_cons, endOf]
      rw [if_neg (by simp [share]), if_neg (by simp [share]), hstop, ih (first + 1)]
      congr 3
      omega

/-- The spread of numbers from an interval is at most its length. -/
theorem spread_le {low high : Int} {l : List Int} (hle : low ≤ high)
    (h : ∀ x ∈ l, low ≤ x ∧ x ≤ high) : spread l ≤ high - low := by
  have hmax : ∀ (cs : List Int) (c : Int), c ≤ high → (∀ x ∈ cs, x ≤ high) →
      cs.foldl max c ≤ high := by
    intro cs
    induction cs with
    | nil => intro c hc _; exact hc
    | cons x cs ih =>
        intro c hc hx
        exact ih _ (max_le hc (hx x (by simp))) fun y hy => hx y (by simp [hy])
  have hmin : ∀ (cs : List Int) (c : Int), low ≤ c → (∀ x ∈ cs, low ≤ x) →
      low ≤ cs.foldl min c := by
    intro cs
    induction cs with
    | nil => intro c hc _; exact hc
    | cons x cs ih =>
        intro c hc hx
        exact ih _ (le_min hc (hx x (by simp))) fun y hy => hx y (by simp [hy])
  cases l with
  | nil => simp only [spread]; omega
  | cons c cs =>
      have hc := h c (by simp)
      have h1 := hmax cs c hc.2 fun x hx => (h x (by simp [hx])).2
      have h2 := hmin cs c hc.1 fun x hx => (h x (by simp [hx])).1
      simp only [spread]
      omega

/-- **The balanced partition passes the check.** -/
theorem check_assignments (rows : Nat) {workers : Nat} (h : 0 < workers) :
    check (assignments rows workers) rows = .ok () := by
  have hne : (assignments rows workers).isEmpty = false := by
    rw [List.isEmpty_eq_false_iff, ← List.length_pos_iff, length_assignments]
    exact h
  have hend : endOf 0 (assignments rows workers) = .ok (rows : Int) := by
    have := endOf_eq rows workers 0 workers
    rw [← List.range_eq_range', start_zero, Nat.zero_add, start_workers rows h] at this
    exact this
  -- all counts are the quotient or one more
  have hspread : spread ((assignments rows workers).map Assignment.rowCount) ≤ 1 := by
    have hbounds : ∀ x ∈ (assignments rows workers).map Assignment.rowCount,
        ((rows / workers : Nat) : Int) ≤ x ∧ x ≤ (rows / workers : Nat) + 1 := by
      intro x hx
      obtain ⟨a, ha, rfl⟩ := List.mem_map.mp hx
      obtain ⟨i, -, rfl⟩ := mem_assignments.mp ha
      simp only [share, size]
      split <;> omega
    have := spread_le (by omega) hbounds
    omega
  unfold check
  rw [hne, hend]
  simp only [Bool.false_eq_true, if_false]
  show (if (rows : Int) ≠ rows then _ else _) = _
  rw [if_neg (by simp), if_neg (by omega)]

end RowBlock.Partition
