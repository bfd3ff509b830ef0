import RowBlock.Error
import RowBlock.Proofs.Tiling
import Mathlib.Algebra.BigOperators.Group.List.Basic
import Mathlib.Data.List.Perm.Basic
import Mathlib.Data.List.Sort

set_option autoImplicit false

/-! # Even tilings

An *even tiling* of rows is a list of assignments whose ranges lie end to end from row zero to the last
row, each of them as long as the mean of all, rounded down, or longer by one row
(`Partition.IsEvenTiling`). The check of partitions accepts these lists and no others
(`Partition.check_accepts`). It compares the longest range with the shortest one; that the number of
the longer ranges is the remainder of the mean follows, since there are too few of them to raise the
mean by one (`Partition.even_sum`).

Of the even tilings for the workers in order, one has ranges that do not grow from worker to worker, and
this is the balanced partition (`Partition.balanced_front_loaded`).
-/

namespace RowBlock.Partition

/-- **An even tiling** of rows: the ranges lie end to end, and each has the mean number of rows, rounded
down, or one row more. -/
structure IsEvenTiling (assignments : List Assignment) (rows : Int) : Prop where
  ne_nil : assignments ≠ []
  rowCount_nonneg : ∀ a ∈ assignments, 0 ≤ a.rowCount
  offset_eq : ∀ before a after, assignments = before ++ a :: after →
    a.offset = (before.map Assignment.rowCount).sum
  sum_eq : (assignments.map Assignment.rowCount).sum = rows
  rowCount_cases : ∀ a ∈ assignments,
    a.rowCount = rows / assignments.length ∨ a.rowCount = rows / assignments.length + 1
  count_longer : ((assignments.map Assignment.rowCount).count (rows / assignments.length + 1) : Int)
    = rows % assignments.length

/-! ## Ranges end to end

What the walk over a list accepts is said without the walk: each range begins after the sum of the
lengths before it. The induction is on the list, with the first row of the walk free. -/

/-- **Ranges lie end to end** when each begins after all rows of those before it. -/
theorem endOf_eq_ok_iff {offset stop : Int} {l : List Assignment} :
    endOf offset l = .ok stop ↔
      (∀ a ∈ l, 0 ≤ a.rowCount) ∧
      (∀ before a after, l = before ++ a :: after →
        a.offset = offset + (before.map Assignment.rowCount).sum) ∧
      offset + (l.map Assignment.rowCount).sum = stop := by
  induction l generalizing offset with
  | nil => simp [endOf]
  | cons x l ih =>
      rw [endOf]
      by_cases hoffset : x.offset = offset
      · by_cases hcount : 0 ≤ x.rowCount
        · rw [if_neg (by simpa using hoffset), if_neg (by omega), ih, Assignment.stop, hoffset]
          constructor
          · rintro ⟨hcounts, hoffsets, hstop⟩
            refine ⟨?_, ?_, ?_⟩
            · intro a ha
              rcases List.mem_cons.mp ha with rfl | ha
              · exact hcount
              · exact hcounts a ha
            · intro before a after hsplit
              cases before with
              | nil =>
                  cases hsplit
                  simpa using hoffset
              | cons y before =>
                  cases hsplit
                  have := hoffsets before a after rfl
                  simp only [List.map_cons, List.sum_cons]
                  omega
            · simp only [List.map_cons, List.sum_cons]
              omega
          · rintro ⟨hcounts, hoffsets, hstop⟩
            refine ⟨fun a ha => hcounts a (List.mem_cons_of_mem x ha), ?_, ?_⟩
            · intro before a after hsplit
              have := hoffsets (x :: before) a after (by rw [hsplit]; rfl)
              simp only [List.map_cons, List.sum_cons] at this
              omega
            · simp only [List.map_cons, List.sum_cons] at hstop
              omega
        · rw [if_neg (by simpa using hoffset), if_pos (by omega)]
          exact iff_of_false (by rintro ⟨⟩) fun h => hcount (h.1 x List.mem_cons_self)
      · rw [if_pos hoffset]
        refine iff_of_false (by rintro ⟨⟩) fun h => hoffset ?_
        simpa using h.2.1 [] x l rfl

/-- Ranges that lie end to end are known by their workers and their lengths. -/
theorem eq_of_endOf {offset stop stop' : Int} {l l' : List Assignment}
    (h : endOf offset l = .ok stop) (h' : endOf offset l' = .ok stop')
    (hworkers : l.map Assignment.worker = l'.map Assignment.worker)
    (hcounts : l.map Assignment.rowCount = l'.map Assignment.rowCount) : l = l' := by
  rw [endOf_eq_ok_iff] at h h'
  obtain ⟨-, hoffsets, -⟩ := h
  obtain ⟨-, hoffsets', -⟩ := h'
  clear stop stop'
  induction l generalizing l' offset with
  | nil => simpa using hworkers
  | cons x l ih =>
      cases l' with
      | nil => simp at hworkers
      | cons y l' =>
          rw [List.map_cons, List.map_cons, List.cons.injEq] at hworkers hcounts
          have hoffset : x.offset = y.offset := (hoffsets [] x l rfl).trans (hoffsets' [] y l' rfl).symm
          have hhead : x = y := by
            rcases x with ⟨worker, offset, rowCount⟩
            rcases y with ⟨worker', offset', rowCount'⟩
            rw [Assignment.mk.injEq]
            exact ⟨hworkers.1, hoffset, hcounts.1⟩
          subst hhead
          have hrest : l = l' := by
            apply @ih (offset + x.rowCount) l' hworkers.2 hcounts.2
            · intro before a after hsplit
              have := hoffsets (x :: before) a after (by rw [hsplit]; rfl)
              simpa [Int.add_assoc] using this
            · intro before a after hsplit
              have := hoffsets' (x :: before) a after (by rw [hsplit]; rfl)
              simpa [Int.add_assoc] using this
          rw [hrest]

/-! ## Numbers that differ by at most one

The spread is a difference of two folds. A fold by the maximum is above everything it has seen and
is itself one of the numbers, and the same argument upside down is the one for the minimum
(`rel_foldl`). Once all numbers are known to be one of two neighbours, their sum says how many there
are of each. -/

/-- What a fold of a list keeps above its arguments is above all numbers of the list. -/
theorem rel_foldl {r : Int → Int → Prop} {op : Int → Int → Int} (hrefl : ∀ x, r x x)
    (htrans : ∀ x y z, r x y → r y z → r x z) (hleft : ∀ x y, r x (op x y))
    (hright : ∀ x y, r y (op x y)) {c : Int} {cs : List Int} :
    ∀ x ∈ c :: cs, r x (cs.foldl op c) := by
  induction cs generalizing c with
  | nil =>
      intro x hx
      obtain rfl := List.mem_singleton.mp hx
      exact hrefl x
  | cons d cs ih =>
      intro x hx
      have hstep := ih (c := op c d) (op c d) List.mem_cons_self
      rcases List.mem_cons.mp hx with rfl | hx
      · exact htrans _ _ _ (hleft x d) hstep
      · rcases List.mem_cons.mp hx with rfl | hx
        · exact htrans _ _ _ (hright c x) hstep
        · exact ih x (List.mem_cons_of_mem _ hx)

theorem sub_le_spread {c x : Int} {cs : List Int} (hx : x ∈ c :: cs) :
    cs.foldl min c ≤ x ∧ x - cs.foldl min c ≤ spread (c :: cs) := by
  have hlow : cs.foldl min c ≤ x := rel_foldl (r := fun a b => b ≤ a) (fun _ => le_rfl)
    (fun _ _ _ h h' => h'.trans h) min_le_left min_le_right x hx
  have hhigh : x ≤ cs.foldl max c := rel_foldl (r := fun a b => a ≤ b) (fun _ => le_rfl)
    (fun _ _ _ h h' => h.trans h') le_max_left le_max_right x hx
  simp only [spread]
  omega

/-- **The spread is at most one** when two neighbouring numbers are all there is. -/
theorem spread_le_one_iff {l : List Int} :
    spread l ≤ 1 ↔ ∃ low, ∀ c ∈ l, c = low ∨ c = low + 1 := by
  constructor
  · intro h
    cases l with
    | nil => exact ⟨0, nofun⟩
    | cons c cs =>
        refine ⟨cs.foldl min c, fun x hx => ?_⟩
        obtain ⟨hlow, hhigh⟩ := sub_le_spread hx
        omega
  · rintro ⟨low, h⟩
    have hbounds : ∀ c ∈ l, low ≤ c ∧ c ≤ low + 1 := by
      intro c hc
      have := h c hc
      omega
    have hspread := spread_le (by omega) hbounds
    omega

/-- Two neighbouring numbers add up to the lower one for each place and one for each higher one. -/
theorem sum_of_cases {l : List Int} {low : Int} (h : ∀ c ∈ l, c = low ∨ c = low + 1) :
    l.sum = l.length * low + l.count (low + 1) := by
  induction l with
  | nil => simp
  | cons c l ih =>
      have ih := ih fun d hd => h d (List.mem_cons_of_mem c hd)
      rw [List.sum_cons, ih, List.length_cons]
      push_cast
      rcases h c List.mem_cons_self with rfl | rfl
      · rw [List.count_cons_of_ne (by omega)]
        ring
      · rw [List.count_cons_self]
        push_cast
        ring

/-- **The mean of two neighbouring numbers**, rounded down, is the lower one, unless all are the higher
one; the remainder counts those above it. -/
theorem even_sum {l : List Int} {low : Int} (hne : l ≠ []) (h : ∀ c ∈ l, c = low ∨ c = low + 1) :
    (∀ c ∈ l, c = l.sum / l.length ∨ c = l.sum / l.length + 1) ∧
      (l.count (l.sum / l.length + 1) : Int) = l.sum % l.length := by
  have hlength : 0 < l.length := List.length_pos_iff.mpr hne
  have hsum := sum_of_cases h
  -- the mean is `q` with the remainder `r`, once these two have been guessed
  have hmean (q r : Int) (hr : 0 ≤ r) (hless : r < l.length) (heq : l.sum = l.length * q + r) :
      l.sum / l.length = q ∧ l.sum % l.length = r :=
    (Int.ediv_emod_unique (by omega)).mpr ⟨by rw [heq]; ring, hr, hless⟩
  rcases Nat.lt_or_eq_of_le (List.count_le_length (a := low + 1) (l := l)) with hless | hall
  · obtain ⟨hdiv, hmod⟩ := hmean low (l.count (low + 1)) (by omega) (by omega) hsum
    rw [hdiv, hmod]
    exact ⟨h, rfl⟩
  · have hhigh : ∀ c ∈ l, low + 1 = c := List.count_eq_length.mp hall
    obtain ⟨hdiv, hmod⟩ := hmean (low + 1) 0 le_rfl (by omega) (by
      rw [hsum, hall]
      ring)
    rw [hdiv, hmod]
    refine ⟨fun c hc => .inl (hhigh c hc).symm, ?_⟩
    rw [List.count_eq_zero.mpr fun hmem => by have := hhigh _ hmem; omega]
    rfl

theorem perm_of_cases {l : List Int} {low : Int} (h : ∀ c ∈ l, c = low ∨ c = low + 1) :
    l.Perm (List.replicate (l.count (low + 1)) (low + 1) ++
      List.replicate (l.length - l.count (low + 1)) low) := by
  have hperm : l.Perm (List.replicate (l.count (low + 1)) (low + 1) ++
      List.replicate (l.count low) low) :=
    (List.perm_replicate_append_replicate (by omega)).mpr ⟨rfl, rfl, fun c hc => by
      simpa [or_comm] using h c hc⟩
  have hlength := hperm.length_eq
  rw [List.length_append, List.length_replicate, List.length_replicate] at hlength
  rwa [show l.count low = l.length - l.count (low + 1) by omega] at hperm

/-! ## The check

The check is a walk and a spread, `IsEvenTiling` is neither: the walk is given by the ranges before
each one, and the spread by the mean. -/

theorem check_eq_ok {assignments : List Assignment} {rows : Int} :
    check assignments rows = .ok () ↔ assignments ≠ [] ∧ endOf 0 assignments = .ok rows ∧
      spread (assignments.map Assignment.rowCount) ≤ 1 := by
  unfold check
  cases hempty : assignments.isEmpty with
  | true =>
      rw [List.isEmpty_iff] at hempty
      exact iff_of_false nofun fun h => h.1 hempty
  | false =>
      have hne : assignments ≠ [] := by simpa using hempty
      rw [if_neg Bool.false_ne_true]
      cases hend : endOf 0 assignments with
      | error e => exact iff_of_false nofun fun h => nomatch h.2.1
      | ok covered =>
          show (if covered ≠ rows then _ else _) = _ ↔ _
          by_cases hrows : covered = rows
          · subst hrows
            rw [if_neg (by simp)]
            show (if 1 < spread (assignments.map Assignment.rowCount) then _ else _) = _ ↔ _
            by_cases hspread : 1 < spread (assignments.map Assignment.rowCount)
            · rw [if_pos hspread]
              exact iff_of_false nofun fun h => by omega
            · rw [if_neg hspread]
              exact iff_of_true rfl ⟨hne, rfl, by omega⟩
          · rw [if_pos hrows]
            exact iff_of_false nofun fun h => hrows (Except.ok.inj h.2.1)

/-- **The check accepts even tilings**, and no other list. -/
theorem check_iff {assignments : List Assignment} {rows : Int} :
    check assignments rows = .ok () ↔ IsEvenTiling assignments rows := by
  rw [check_eq_ok, endOf_eq_ok_iff, spread_le_one_iff]
  simp only [Int.zero_add]
  constructor
  · rintro ⟨hne, ⟨hcounts, hoffsets, hsum⟩, low, hlow⟩
    obtain ⟨hcases, hcount⟩ := even_sum (by simpa using hne) hlow
    rw [hsum, List.length_map] at hcases hcount
    exact ⟨hne, hcounts, hoffsets, hsum, fun a ha => hcases _ (List.mem_map_of_mem ha), hcount⟩
  · rintro ⟨hne, hcounts, hoffsets, hsum, hcases, -⟩
    refine ⟨hne, ⟨hcounts, hoffsets, hsum⟩, rows / assignments.length, fun c hc => ?_⟩
    obtain ⟨a, ha, rfl⟩ := List.mem_map.mp hc
    exact hcases a ha

/-- **The check of partitions**: even tilings pass, and all other lists are refused with an error of the
value kind. -/
theorem check_accepts (assignments : List Assignment) (rows : Int) :
    (check assignments rows = .ok () ↔ IsEvenTiling assignments rows) ∧
    ((∃ e, check assignments rows = .error e ∧ (Error.partition e).kind = .value) ↔
      ¬IsEvenTiling assignments rows) := by
  refine ⟨check_iff, ?_⟩
  rw [← check_iff]
  cases check assignments rows with
  | ok u => exact iff_of_false nofun (by simp)
  | error e => exact iff_of_true ⟨e, rfl, rfl⟩ nofun

/-! ## The tiling with the longer ranges in front

Even tilings for the same workers can differ in which workers have the longer ranges. In decreasing
order that freedom is gone: the lengths are a sorted permutation of a list that is known, and the
first rows follow from the lengths. -/

/-- **The longer ranges in front**: a list that passes the check, for the workers from one on in order,
in which no worker has more rows than the one before. -/
structure IsFrontLoaded (assignments : List Assignment) (rows workers : Int) : Prop where
  workers_eq : assignments.map Assignment.worker
    = (List.range workers.toNat).map fun i : Nat => (i + 1 : Int)
  check_eq : check assignments rows = .ok ()
  descending : assignments.Pairwise fun a b => b.rowCount ≤ a.rowCount

/-- **There is one such list** at most: the mean and its remainder say which lengths occur how often, and
their order is fixed. -/
theorem IsFrontLoaded.unique {l l' : List Assignment} {rows workers : Int}
    (h : IsFrontLoaded l rows workers) (h' : IsFrontLoaded l' rows workers) : l = l' := by
  have hworkers : l.map Assignment.worker = l'.map Assignment.worker :=
    h.workers_eq.trans h'.workers_eq.symm
  have hlength : l.length = l'.length := by simpa using congrArg List.length hworkers
  have htiling := check_iff.mp h.check_eq
  have htiling' := check_iff.mp h'.check_eq
  have hperm : (l.map Assignment.rowCount).Perm (l'.map Assignment.rowCount) := by
    have hcases : ∀ c ∈ l.map Assignment.rowCount, c = rows / l.length ∨ c = rows / l.length + 1 := by
      simpa using htiling.rowCount_cases
    have hcases' : ∀ c ∈ l'.map Assignment.rowCount, c = rows / l.length ∨ c = rows / l.length + 1 := by
      rw [hlength]
      simpa using htiling'.rowCount_cases
    have hcount := htiling.count_longer
    have hcount' := htiling'.count_longer
    rw [← hlength] at hcount'
    have hsame : (l.map Assignment.rowCount).count (rows / l.length + 1)
        = (l'.map Assignment.rowCount).count (rows / l.length + 1) := by omega
    have hall := perm_of_cases hcases
    have hall' := perm_of_cases hcases'
    rw [← hsame, List.length_map, ← hlength] at hall'
    rw [List.length_map] at hall
    exact hall.trans hall'.symm
  have hcounts : l.map Assignment.rowCount = l'.map Assignment.rowCount :=
    hperm.eq_of_pairwise (fun _ _ _ _ hle hge => le_antisymm hge hle)
      (List.pairwise_map.mpr h.descending) (List.pairwise_map.mpr h'.descending)
  exact eq_of_endOf (check_eq_ok.mp h.check_eq).2.1 (check_eq_ok.mp h'.check_eq).2.1 hworkers hcounts

theorem isFrontLoaded_assignments (rows : Nat) {workers : Nat} (h : 0 < workers) :
    IsFrontLoaded (assignments rows workers) rows workers where
  workers_eq := by simp [assignments, share]
  check_eq := check_assignments rows h
  descending := by
    refine List.pairwise_map.mpr (List.pairwise_lt_range.imp fun {i j} hij => ?_)
    simp only [share, size]
    split <;> split <;> omega

/-- **The balanced partition** is the one list of assignments that passes the check, is for the workers in
order and has the longer ranges in front. Its ranges begin where quotient and remainder say, and every
row is in one of them alone. For a negative number of rows, or without workers, there is none. -/
theorem balanced_front_loaded (rows workers : Int) :
    (0 ≤ rows → 1 ≤ workers → ∃ l, balanced rows workers = .ok l ∧
      (∀ others, IsFrontLoaded others rows workers ↔ others = l) ∧
      (∀ a ∈ l, a.offset
        = (a.worker - 1) * (rows / workers) + min (a.worker - 1) (rows % workers)) ∧
      ∀ row, 0 ≤ row → row < rows → ∃! a, a ∈ l ∧ a.offset ≤ row ∧ row < a.stop) ∧
    (rows < 0 ∨ workers < 1 →
      ∃ e, balanced rows workers = .error e ∧ (Error.partition e).kind = .value) := by
  constructor
  · intro hrows hworkers
    obtain ⟨rows, rfl⟩ := Int.eq_ofNat_of_zero_le hrows
    obtain ⟨workers, rfl⟩ := Int.eq_ofNat_of_zero_le (show 0 ≤ workers by omega)
    have hpos : 0 < workers := by omega
    have hfront := isFrontLoaded_assignments rows hpos
    refine ⟨assignments rows workers, balanced_eq rows hpos, ?_, ?_, ?_⟩
    · intro others
      constructor
      · exact fun hothers => hothers.unique hfront
      · rintro rfl
        exact hfront
    · intro a ha
      obtain ⟨i, -, rfl⟩ := mem_assignments.mp ha
      have hmin : ((min i (rows % workers) : Nat) : Int) = min (i : Int) (rows % workers) := by omega
      simp [share, start, hmin]
    · intro row hrow hless
      obtain ⟨row, rfl⟩ := Int.eq_ofNat_of_zero_le hrow
      obtain ⟨i, hi, hlow, hhigh⟩ := exists_share hpos (show row < rows by omega)
      refine ⟨share rows workers i, ⟨mem_assignments.mpr ⟨i, hi, rfl⟩, ?_, ?_⟩, ?_⟩
      · simp only [share]
        omega
      · simp only [share, Assignment.stop]
        omega
      · -- the ranges of two different workers have no row in common
        rintro a ⟨ha, hfrom, hto⟩
        obtain ⟨j, -, rfl⟩ := mem_assignments.mp ha
        simp only [share, Assignment.stop] at hfrom hto
        by_contra hne
        have hij : j ≠ i := fun hij => hne (by rw [hij])
        have := row_lt_or_le rows workers hij (r := row - start rows workers j) (by omega)
        omega
  · rintro (hrows | hworkers)
    · by_cases hworkers : workers < 1
      · exact ⟨.noWorkers workers, by rw [balanced, if_pos hworkers], rfl⟩
      · exact ⟨.negativeRows rows, by rw [balanced, if_neg hworkers, if_pos hrows], rfl⟩
    · exact ⟨.noWorkers workers, by rw [balanced, if_pos hworkers], rfl⟩

/-- Seven rows among three workers: two ranges of two rows follow one of three, and row four is in the
second of the three. -/
theorem balanced_front_loaded_seven :
    (∃ l, balanced 7 3 = .ok l ∧ l = [⟨1, 0, 3⟩, ⟨2, 3, 2⟩, ⟨3, 5, 2⟩] ∧
      IsFrontLoaded l 7 3 ∧ ∃! a, a ∈ l ∧ a.offset ≤ 4 ∧ 4 < a.stop) ∧
    ∃ e, balanced 7 0 = .error e ∧ (Error.partition e).kind = .value := by
  obtain ⟨l, hbalanced, honly, -, hrows⟩ := (balanced_front_loaded 7 3).1 (by decide) (by decide)
  have hl : l = [⟨1, 0, 3⟩, ⟨2, 3, 2⟩, ⟨3, 5, 2⟩] :=
    Except.ok.inj (hbalanced.symm.trans (by decide))
  exact ⟨⟨l, hbalanced, hl, (honly l).mpr rfl, hrows 4 (by decide) (by decide)⟩,
    (balanced_front_loaded 7 0).2 (.inr (by decide))⟩

end RowBlock.Partition
