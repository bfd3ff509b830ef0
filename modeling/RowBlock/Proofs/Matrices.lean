import RowBlock.Tensor.Room
import Mathlib.Algebra.Order.Ring.Nat
import Mathlib.Tactic.Linarith

set_option autoImplicit false

/-! # Matrices of integers

Tensors of rank two and integer type (`Tensor.IsMatrix`) are known by their cells
(`eq_matrix`). Rows cut out of a matrix and rows placed into one are again matrices, whose
cells are given by `entry_rowsBetween` and `placeRows_eq_ok`. There is room for a matrix up to two
limits on the product of its extents (`room_matrix_iff`), so a smaller matrix, or one of a shorter
type, has room where a larger one has (`room_mono`).
-/

namespace RowBlock.Tensor

structure IsMatrix (t : Tensor) (type : IntType) (rows cols : Nat) : Prop where
  type_eq : t.type = .int type
  shape_eq : t.shape = [rows, cols]

namespace IsMatrix

variable {t : Tensor} {type : IntType} {rows cols : Nat}

theorem rows_eq (h : t.IsMatrix type rows cols) : t.rows = rows := by simp [Tensor.rows, h.shape_eq]

theorem cols_eq (h : t.IsMatrix type rows cols) : t.cols = cols := by simp [Tensor.cols, h.shape_eq]

theorem rank_eq (h : t.IsMatrix type rows cols) : t.rank = 2 := by simp [Tensor.rank, h.shape_eq]

theorem contiguous_eq (h : t.IsMatrix type rows cols) : t.contiguous = t := by
  simp [contiguous, h.shape_eq]

end IsMatrix

theorem isMatrix_matrix (type : IntType) (rows cols : Nat) (cell : Nat → Nat → Int) :
    (matrix (.int type) rows cols cell).IsMatrix type rows cols := ⟨rfl, rfl⟩

/-! ## Cells

A cell is named by row and column or by its place in row-major order. All statements outside this
module use rows and columns; the places are only needed to show that generated tensors have the
cells they were given. -/

theorem div_lt_and_mod_lt {rows cols p : Nat} (h : p < rows * cols) :
    p / cols < rows ∧ p % cols < cols := by
  have hcols : 0 < cols := Nat.pos_of_ne_zero fun hz => by simp [hz] at h
  exact ⟨(Nat.div_lt_iff_lt_mul hcols).mpr h, Nat.mod_lt p hcols⟩

theorem place_lt {rows cols i k : Nat} (hi : i < rows) (hk : k < cols) :
    i * cols + k < rows * cols := by
  calc i * cols + k < i * cols + cols := Nat.add_lt_add_left hk _
    _ = (i + 1) * cols := (Nat.succ_mul i cols).symm
    _ ≤ rows * cols := Nat.mul_le_mul_right cols hi

/-- The cells of a matrix in the range of its type are values of the type. -/
theorem IsMatrix.holds_entry {t : Tensor} {type : IntType} {rows cols : Nat}
    (h : t.IsMatrix type rows cols) (hrange : t.InRange) :
    ∀ i < rows, ∀ k < cols, type.Holds (t.entry i k) := by
  obtain ⟨other, hother, hholds⟩ := hrange
  obtain rfl : type = other := CellType.int.inj (h.type_eq.symm.trans hother)
  intro i hi k hk
  rw [entry, h.cols_eq]
  refine hholds _ ?_
  rw [h.shape_eq]
  simpa using place_lt hi hk

/-- Only the cells within the shape matter to `generate`. -/
theorem generate_congr {type : CellType} {shape : List Nat} {f g : Nat → Int}
    (h : ∀ p < shape.prod, f p = g p) : generate type shape f = generate type shape g := by
  have hcells : (fun i : Fin shape.prod => f i) = fun i : Fin shape.prod => g i :=
    funext fun i => h i i.isLt
  simp only [generate, hcells]

theorem generate_word (t : Tensor) : generate t.type t.shape t.word = t := by
  rcases t with ⟨type, shape, words, hsize⟩
  have hwords : (Array.ofFn fun i : Fin shape.prod => words[(i : Nat)]?.getD 0) = words := by
    refine Array.ext (by simp [hsize]) fun i _ h2 => ?_
    simp [Array.getElem?_eq_getElem h2]
  simp only [generate, word, hwords]

/-- **A matrix is known by its cells.** -/
theorem eq_matrix {t : Tensor} {type : IntType} {rows cols : Nat} {cell : Nat → Nat → Int}
    (ht : t.IsMatrix type rows cols) (h : ∀ i < rows, ∀ k < cols, t.entry i k = cell i k) :
    t = matrix (.int type) rows cols cell := by
  rw [← t.generate_word, ht.type_eq, ht.shape_eq]
  apply generate_congr
  intro p hp
  have hlt : p < rows * cols := by simpa using hp
  obtain ⟨hi, hk⟩ := div_lt_and_mod_lt hlt
  rw [← h _ hi _ hk, entry, ht.cols_eq, Nat.mul_comm, Nat.div_add_mod]

theorem entry_cast {t : Tensor} {type : IntType} {rows cols i k : Nat}
    (ht : t.IsMatrix type rows cols) (target : CellType) (hi : i < rows) (hk : k < cols) :
    (t.cast target).entry i k = (CellType.int type).convert target (t.entry i k) := by
  have hcols : (t.cast target).cols = cols := by simp [cast, Tensor.cols, ht.shape_eq]
  have hlt : i * cols + k < t.shape.prod := by simpa [ht.shape_eq] using place_lt hi hk
  rw [entry, hcols, cast, word_generate hlt, ht.type_eq, entry, ht.cols_eq]

/-! ## Rows

Slices clamp their ends, but the rows of a partition lie within the matrix, so here the ends are
natural numbers in bounds and clamping does nothing. -/

theorem place_natCast {n x : Nat} (h : x ≤ n) : place n x = x := by
  simp [place, Nat.min_eq_left h]

variable {t block : Tensor} {type other : IntType} {rows cols first count : Nat}

theorem isMatrix_rowsBetween (ht : t.IsMatrix type rows cols) (h : first + count ≤ rows) :
    (t.rowsBetween first (first + count)).IsMatrix type count cols := by
  have hlow : place t.rows first = first := place_natCast (by rw [ht.rows_eq]; omega)
  have hhigh : place t.rows (first + count) = first + count := by
    rw [← Nat.cast_add, place_natCast (by rw [ht.rows_eq]; omega)]
  refine ⟨ht.type_eq, ?_⟩
  simp only [rowsBetween, shape_generate, hlow, hhigh, ht.shape_eq, Nat.add_sub_cancel_left,
    List.tail_cons]

/-- **The cells of rows cut out** of a matrix. -/
theorem entry_rowsBetween {i k : Nat} (ht : t.IsMatrix type rows cols) (h : first + count ≤ rows)
    (hi : i < count) (hk : k < cols) :
    (t.rowsBetween first (first + count)).entry i k = t.entry (first + i) k := by
  have hlow : place t.rows first = first := place_natCast (by rw [ht.rows_eq]; omega)
  have hcut := isMatrix_rowsBetween ht h
  have hlt : i * cols + k < (t.rowsBetween first (first + count)).shape.prod := by
    simpa [hcut.shape_eq] using place_lt hi hk
  rw [entry, hcut.cols_eq, entry, ht.cols_eq]
  rw [show t.rowsBetween first (first + count) = generate t.type
    (t.rowsBetween first (first + count)).shape
    fun p => t.word (place t.rows first * t.shape.tail.prod + p) from rfl]
  rw [word_generate hlt, hlow, ht.shape_eq]
  congr 1
  simp only [List.tail_cons, List.prod_cons, List.prod_nil, Nat.mul_one]
  rw [Nat.add_mul, Nat.add_assoc]

/-- **Placing a block** into a matrix it fits changes the rows it is placed at and no others. -/
theorem placeRows_eq_ok (ht : t.IsMatrix type rows cols) (hb : block.IsMatrix other count cols)
    (h : first + count ≤ rows) :
    ∃ u, t.placeRows block first (first + count) = .ok u ∧ u.IsMatrix type rows cols ∧
      ∀ i < rows, ∀ k < cols, u.entry i k =
        if first ≤ i ∧ i < first + count then type.wrap (block.entry (i - first) k)
        else t.entry i k := by
  have hlow : place t.rows first = first := place_natCast (by rw [ht.rows_eq]; omega)
  have hhigh : place t.rows (first + count) = first + count := by
    rw [← Nat.cast_add, place_natCast (by rw [ht.rows_eq]; omega)]
  have hfit : (block.rows = first + count - first ∨ block.rows = 1) ∧
      (block.cols = t.cols ∨ block.cols = 1) := by
    rw [hb.rows_eq, hb.cols_eq, ht.cols_eq]
    exact ⟨.inl (by omega), .inl rfl⟩
  simp only [placeRows, hlow, hhigh, if_pos hfit]
  -- the block fits exactly, so a row or column of its that is alone stands for itself
  refine ⟨_, rfl, ?_, ?_⟩
  · rw [ht.type_eq, ht.rows_eq, ht.cols_eq]
    exact isMatrix_matrix type rows cols _
  · intro i hi k hk
    rw [entry_matrix (by rw [ht.rows_eq]; exact hi) (by rw [ht.cols_eq]; exact hk)]
    by_cases hin : first ≤ i ∧ i < first + count
    · have hrow : (if block.rows = 1 then 0 else i - first) = i - first := by
        rw [hb.rows_eq]
        split <;> omega
      have hcol : (if block.cols = 1 then 0 else k) = k := by
        rw [hb.cols_eq]
        split <;> omega
      rw [if_pos hin, if_pos hin, hrow, hcol, hb.type_eq, ht.type_eq]
      rfl
    · rw [if_neg hin, if_neg hin]

/-! ## Room

The check of the extents multiplies them up one after the other, and zeros are left out. For two
extents this is a closed inequality, and for a matrix that has cells the two limits of it are limits
on the same number. -/

/-- **There is room** within three limits: on each extent, on their products, and on the cells. -/
theorem room_eq_ok_iff [Memory] {type : CellType} {extents : List Int} {shape : List Nat} :
    room type extents = .ok shape ↔
      (∀ n ∈ extents, IntType.int64.Holds n) ∧ checkExtents type.bytes extents = .ok () ∧
        type.bytes * (extents.map Int.toNat).prod ≤ Memory.bytes ∧ shape = extents.map Int.toNat := by
  unfold room
  by_cases hwords : ∀ n ∈ extents, IntType.int64.Holds n
  · have hany : ¬(extents.any fun n => decide ¬IntType.int64.Holds n) = true := by simpa using hwords
    rw [if_neg hany]
    cases hcheck : checkExtents type.bytes extents with
    | error e => simp [bind, Except.bind]
    | ok u =>
        by_cases hcells : Memory.bytes < type.bytes * (extents.map Int.toNat).prod
        · have hmore : ¬type.bytes * (extents.map Int.toNat).prod ≤ Memory.bytes := by omega
          simp [bind, Except.bind, hcells, hmore, throw, throwThe, MonadExceptOf.throw]
        · have hfew : type.bytes * (extents.map Int.toNat).prod ≤ Memory.bytes := by omega
          simp only [bind, Except.bind, pure, Except.pure, hcells, if_false, Except.ok.injEq, hfew,
            true_and]
          exact ⟨fun h => ⟨hwords, h.symm⟩, fun h => h.2.symm⟩
  · have hany : (extents.any fun n => decide ¬IntType.int64.Holds n) = true := by simpa using hwords
    rw [if_pos hany]
    simp [bind, Except.bind, throw, throwThe, MonadExceptOf.throw, hwords]

theorem room_matrix_cases [Memory] (type : CellType) (rows cols : Nat) :
    room type [rows, cols] = .ok [rows, cols] ∨ ∃ e, room type [rows, cols] = .error e := by
  cases h : room type [rows, cols] with
  | error e => exact .inr ⟨e, rfl⟩
  | ok shape =>
      obtain ⟨-, -, -, hshape⟩ := room_eq_ok_iff.mp h
      exact .inl (by simp [hshape])

theorem bytes_bounds (type : CellType) : 0 < type.bytes ∧ type.bytes < 2 ^ 63 := by
  rcases type with ⟨⟨_, width⟩⟩ | ⟨width⟩ | _
  · cases width <;> simp [CellType.bytes, Width.bits]
  · cases width <;> simp [CellType.bytes]
  · simp [CellType.bytes]

theorem checkExtents_cons {bytes n : Nat} (ns : List Int) (h : bytes * max n 1 < 2 ^ 63) :
    checkExtents bytes (n :: ns) = checkExtents (bytes * max n 1) ns := by
  rcases Nat.eq_zero_or_pos n with rfl | hn
  · simp [checkExtents]
  · have hmax : max n 1 = n := Nat.max_eq_left hn
    have hholds : IntType.int64.Holds (bytes * n) := by
      simp only [IntType.Holds, IntType.int64, IntType.least, IntType.greatest, Width.bits, if_true]
      rw [hmax] at h
      constructor
      · have : (0 : Int) ≤ bytes * n := by positivity
        omega
      · have : ((bytes * n : Nat) : Int) < 2 ^ 63 := by exact_mod_cast h
        push_cast at this
        omega
    rw [checkExtents, if_neg (by omega), if_neg (by omega), if_pos hholds, Int.toNat_natCast, hmax]

/-- An extent past the addressable bytes is refused. -/
theorem checkExtents_cons_of_le {bytes n : Nat} (ns : List Int) (hbytes : bytes < 2 ^ 63)
    (h : 2 ^ 63 ≤ bytes * max n 1) :
    checkExtents bytes (n :: ns) = .error .pastAddresses := by
  rcases Nat.eq_zero_or_pos n with rfl | hn
  · simp at h
    omega
  · have hmax : max n 1 = n := Nat.max_eq_left hn
    have hholds : ¬IntType.int64.Holds (bytes * n) := by
      simp only [IntType.Holds, IntType.int64, IntType.least, IntType.greatest, Width.bits, if_true]
      rw [hmax] at h
      have : (2 : Int) ^ 63 ≤ ((bytes * n : Nat) : Int) := by exact_mod_cast h
      push_cast at this
      omega
    rw [checkExtents, if_neg (by omega), if_neg (by omega), if_neg hholds]

/-- **There is room for a matrix** exactly within two limits: on its extents, where an empty one
counts as one, and on its cells. -/
theorem room_matrix_iff [Memory] {type : CellType} {rows cols : Nat} :
    room type [rows, cols] = .ok [rows, cols] ↔
      type.bytes * max rows 1 * max cols 1 < 2 ^ 63 ∧ type.bytes * (rows * cols) ≤ Memory.bytes := by
  obtain ⟨hpos, hlt⟩ := bytes_bounds type
  -- the check goes through the extents one by one and stops at the first product past the limit
  have hcheck : checkExtents type.bytes [(rows : Int), (cols : Int)] = .ok () ↔
      type.bytes * max rows 1 * max cols 1 < 2 ^ 63 := by
    by_cases hrows : type.bytes * max rows 1 < 2 ^ 63
    · rw [checkExtents_cons _ hrows]
      by_cases hcols : type.bytes * max rows 1 * max cols 1 < 2 ^ 63
      · rw [checkExtents_cons _ hcols]
        exact iff_of_true rfl hcols
      · rw [checkExtents_cons_of_le _ hrows (Nat.le_of_not_lt hcols)]
        exact iff_of_false (by simp) hcols
    · have hmore : type.bytes * max rows 1 ≤ type.bytes * max rows 1 * max cols 1 :=
        Nat.le_mul_of_pos_right _ (by omega)
      rw [checkExtents_cons_of_le _ hlt (Nat.le_of_not_lt hrows)]
      exact iff_of_false (by simp) (by omega)
  -- the limit on each extent follows from the one on the products
  have hwords (n m : Nat) (hm : 0 < m) (h : m * max n 1 < 2 ^ 63) : IntType.int64.Holds (n : Int) := by
    have : n ≤ m * max n 1 := le_trans (le_max_left n 1) (Nat.le_mul_of_pos_left _ hm)
    simp only [IntType.Holds, IntType.int64, IntType.least, IntType.greatest, Width.bits, if_true]
    omega
  rw [room_eq_ok_iff, hcheck]
  constructor
  · rintro ⟨-, hmax, hcells, -⟩
    exact ⟨hmax, by simpa using hcells⟩
  · rintro ⟨hmax, hcells⟩
    refine ⟨?_, hmax, by simpa using hcells, by simp⟩
    simp only [List.mem_cons, List.not_mem_nil, or_false]
    rintro n (rfl | rfl)
    · refine hwords rows (type.bytes * max cols 1) (by positivity) ?_
      rwa [Nat.mul_right_comm]
    · exact hwords cols (type.bytes * max rows 1) (by positivity) hmax

/-- A matrix of no more rows, of a type of no more bytes, has room where the other one has. -/
theorem room_mono [Memory] {type other : CellType} {rows fewer cols : Nat}
    (hbytes : other.bytes ≤ type.bytes) (hrows : fewer ≤ rows) (h : room type [rows, cols] = .ok [rows, cols]) :
    room other [fewer, cols] = .ok [fewer, cols] := by
  rw [room_matrix_iff] at h ⊢
  obtain ⟨hwords, hcells⟩ := h
  constructor
  · calc other.bytes * max fewer 1 * max cols 1
        ≤ type.bytes * max rows 1 * max cols 1 :=
          Nat.mul_le_mul_right _ (Nat.mul_le_mul hbytes (max_le_max_right 1 hrows))
      _ < 2 ^ 63 := hwords
  · calc other.bytes * (fewer * cols)
        ≤ type.bytes * (rows * cols) := Nat.mul_le_mul hbytes (Nat.mul_le_mul_right _ hrows)
      _ ≤ Memory.bytes := hcells

end RowBlock.Tensor
