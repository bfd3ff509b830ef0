import RowBlock.Proofs.KernelProducts

set_option autoImplicit false

/-! # Failures of the kernels

Two matrices of integers that fit each other, of whatever integer types, have a product in the type of
the left one, unless a kernel fails (`Kernel.isMatrix_of_multiply`). Either kernel can fail for want of
room for the product (`Kernel.placeType`), and the row kernel also at a cell that it cannot store, if
the common type is not the left operand's (`Kernel.multiply_error`). Misfits of the operands
(`KernelError.isMisfit`) are not among the failures.
-/

namespace RowBlock

/-! ## Where an error comes from

The kernels are written in the monad of errors. An error of a composite computation is one of its
parts, which these lemmas find. -/

theorem error_of_bind {ε α β : Type} {x : Except ε α} {f : α → Except ε β} {e : ε}
    (h : x >>= f = .error e) : x = .error e ∨ ∃ a, x = .ok a ∧ f a = .error e := by
  cases x with
  | error e' =>
      cases h
      exact .inl rfl
  | ok a => exact .inr ⟨a, rfl, h⟩

theorem error_of_mapError {ε ε' α : Type} {x : Except ε α} {g : ε → ε'} {e : ε'}
    (h : x.mapError g = .error e) : ∃ e', x = .error e' ∧ e = g e' := by
  cases x with
  | ok a => cases h
  | error e' =>
      cases h
      exact ⟨e', rfl, rfl⟩

theorem error_of_mapM {ε α β : Type} {f : α → Except ε β} {l : List α} {e : ε}
    (h : l.mapM f = .error e) : ∃ x ∈ l, f x = .error e := by
  induction l with
  | nil => cases h
  | cons x l ih =>
      rw [List.mapM_cons] at h
      rcases error_of_bind h with hx | ⟨_, -, h⟩
      · exact ⟨x, by simp, hx⟩
      · rcases error_of_bind h with hl | ⟨_, -, h⟩
        · obtain ⟨y, hy, he⟩ := ih hl
          exact ⟨y, by simp [hy], he⟩
        · cases h

namespace KernelError

/-! ## Kinds of failures -/

/-- The operands are not two matrices, or do not fit each other. -/
def isMisfit : KernelError → Bool
  | tooFewAxes _ | tooManyAxes | noSecondAxis | pastAxis _ _ | cellIsBlock => true
  | scalarOperand _ | innerMismatch _ _ | outerMismatch _ _ _ _ => true
  | _ => false

/-- A cell of the product cannot be stored. -/
def isCell : KernelError → Bool
  | outOfRange _ _ | tooLarge | infiniteCell | undefinedCell => true
  | _ => false

variable {e : KernelError}

theorem not_isMisfit_room (x : RoomError) : (room x).isMisfit = false ∧ (room x).kind ≠ .index := by
  cases x <;> exact ⟨rfl, nofun⟩

theorem not_isMisfit_of_isCell (h : e.isCell = true) : e.isMisfit = false ∧ e.kind ≠ .index := by
  cases e <;> first | exact ⟨rfl, fun h => by cases h⟩ | cases h

theorem kind_of_isCell (h : e.isCell = true) : e.kind = .overflow ∨ e.kind = .value := by
  cases e <;> first | exact .inl rfl | exact .inr rfl | cases h

end KernelError

namespace Kernel

/-! ## Cells

Only the row kernel can fail at a cell, and only in storing: all places it reads are inside both
matrices. -/

section

variable {source target : CellType} {type : IntType} {sum : Int} {e : KernelError}

theorem isCell_of_wholeSum (h : wholeSum source sum = .error e) : e.isCell = true := by
  cases source with
  | float t =>
      simp only [wholeSum] at h
      split at h <;> cases h <;> rfl
  | _ => cases h

theorem isCell_of_storeSigned (h : storeSigned source type sum = .error e) : e.isCell = true := by
  rcases error_of_bind h with hwhole | ⟨n, -, h⟩
  · exact isCell_of_wholeSum hwhole
  · split at h
    · cases h
    · split at h <;> cases h <;> rfl

/-- **Storing a sum** fails only when it has another type than the cell. -/
theorem store_error (h : store source target sum = .error e) :
    source ≠ target ∧ e.isCell = true := by
  unfold store at h
  split at h
  · cases h
  · rename_i hne
    refine ⟨hne, ?_⟩
    cases target with
    | int t =>
        dsimp only at h
        split at h
        · exact isCell_of_storeSigned h
        · cases h
    | _ => cases h

end

/-! ## Products

The shapes that the kernels check fit, so for each kernel it remains to go through the room and the
cells. The type of the tensor that needs room differs between the two (`placeType`). -/

/-- The type of the tensor that a kernel needs room for: the row kernel fills in the product, and the
whole-product kernel converts it. -/
def placeType : Kernel → CellType → CellType → CellType
  | whole, left, right => left.promote right
  | _, left, _ => left

variable {dA dB : IntType} {rows inner cols : Nat} {a b : Tensor} {e : KernelError}

/-- A cell of the row kernel fails only where the sum has another type than the left operand. -/
theorem rowCell_error (ha : a.IsMatrix dA rows inner) (hb : b.IsMatrix dB inner cols) {i k : Nat}
    (h : rowCell a b i k = .error e) : a.type.promote b.type ≠ a.type ∧ e.isCell = true := by
  unfold rowCell at h
  split at h
  · cases h
  · -- the right operand has as many rows as the left one has columns
    rw [if_neg (by rw [hb.rows_eq, ha.cols_eq]; omega), if_neg (by rw [hb.rank_eq]; omega)] at h
    exact store_error h

variable [Memory]

/-- The whole product only needs room. -/
theorem matmul_eq_of_room (ha : a.IsMatrix dA rows inner) (hb : b.IsMatrix dB inner cols) :
    ∃ t : Tensor, t.shape = [rows, cols] ∧
      matmul a b
        = ((Tensor.room (a.type.promote b.type) [rows, cols]).mapError .room).map fun _ => t := by
  have hleft : a.shape.reverse = [inner, rows] := by rw [ha.shape_eq]; rfl
  have hright : b.shape.reverse = [cols, inner] := by rw [hb.shape_eq]; rfl
  unfold matmul
  simp only [hleft, hright, ne_eq, not_true_eq_false, if_false, broadcast?, List.reverse_nil,
    List.nil_append, List.cons_append, List.map_cons, List.map_nil, Int.ofNat_eq_natCast]
  rcases Tensor.room_matrix_cases (a.type.promote b.type) rows cols with hroom | ⟨e, hroom⟩
  · rw [hroom]
    exact ⟨Tensor.generate _ [rows, cols] _, rfl, rfl⟩
  · rw [hroom]
    exact ⟨.zeros (.int dA) [rows, cols], rfl, rfl⟩

theorem isMatrix_of_multiplyRows (ha : a.IsMatrix dA rows inner) (hb : b.IsMatrix dB inner cols)
    {t : Tensor} (h : multiplyRows a b = .ok t) : t.IsMatrix dA rows cols := by
  rw [multiplyRows_eq ha hb] at h
  rcases Tensor.room_matrix_cases (.int dA) rows cols with hroom | ⟨x, hroom⟩
  · rw [hroom] at h
    cases hcells : (List.range (rows * cols)).mapM fun p => rowCell a b (p / cols) (p % cols) with
    | ok cells =>
        rw [hcells] at h
        cases h
        exact ⟨rfl, rfl⟩
    | error x =>
        rw [hcells] at h
        cases h
  · rw [hroom] at h
    cases h

theorem isMatrix_of_multiplyWhole (ha : a.IsMatrix dA rows inner) (hb : b.IsMatrix dB inner cols)
    {t : Tensor} (h : multiplyWhole a b = .ok t) : t.IsMatrix dA rows cols := by
  obtain ⟨u, hshape, hproduct⟩ := matmul_eq_of_room ha hb
  unfold multiplyWhole at h
  rw [hproduct] at h
  cases hroom : Tensor.room (a.type.promote b.type) [rows, cols] with
  | ok shape =>
      rw [hroom] at h
      cases h
      exact ⟨ha.type_eq, hshape⟩
  | error x =>
      rw [hroom] at h
      cases h

variable {kernel : Kernel}

/-- **A product** of matrices that fit each other is a matrix of the left operand's type. -/
theorem isMatrix_of_multiply (ha : a.IsMatrix dA rows inner) (hb : b.IsMatrix dB inner cols)
    {t : Tensor} (h : kernel.multiply a b = .ok t) : t.IsMatrix dA rows cols := by
  cases kernel with
  | rows => exact isMatrix_of_multiplyRows ha hb h
  | whole => exact isMatrix_of_multiplyWhole ha hb h
  | device => cases h

/-- **How kernels fail** on matrices that fit each other: there is no room for the product, or the row
kernel cannot store a cell, and the common type is not the left operand's then. -/
theorem multiply_error (hkernel : kernel ≠ .device) (ha : a.IsMatrix dA rows inner)
    (hb : b.IsMatrix dB inner cols) (h : kernel.multiply a b = .error e) :
    (∃ x, e = .room x ∧ Tensor.room (kernel.placeType a.type b.type) [rows, cols] = .error x) ∨
      (kernel = .rows ∧ a.type.promote b.type ≠ a.type ∧ e.isCell = true) := by
  cases kernel with
  | rows =>
      change multiplyRows a b = .error e at h
      rw [multiplyRows_eq ha hb, ← ha.type_eq] at h
      rcases error_of_bind h with hroom | ⟨shape, -, h⟩
      · obtain ⟨x, hx, rfl⟩ := error_of_mapError hroom
        exact .inl ⟨x, rfl, hx⟩
      · rcases error_of_bind h with hcells | ⟨cells, -, h⟩
        · obtain ⟨p, -, hp⟩ := error_of_mapM hcells
          exact .inr ⟨rfl, rowCell_error ha hb hp⟩
        · cases h
  | whole =>
      obtain ⟨u, -, hproduct⟩ := matmul_eq_of_room ha hb
      change (matmul a b).map (·.cast a.type) = .error e at h
      rw [hproduct] at h
      cases hroom : Tensor.room (a.type.promote b.type) [rows, cols] with
      | ok shape =>
          rw [hroom] at h
          cases h
      | error x =>
          rw [hroom] at h
          cases h
          exact .inl ⟨x, rfl, hroom⟩
  | device => exact absurd rfl hkernel

/-- No failure on matrices that fit each other is one of an index or a misfit. -/
theorem not_isMisfit_of_multiply (ha : a.IsMatrix dA rows inner) (hb : b.IsMatrix dB inner cols)
    (h : kernel.multiply a b = .error e) : e.isMisfit = false ∧ e.kind ≠ .index := by
  by_cases hkernel : kernel = .device
  · subst hkernel
    cases h
    exact ⟨rfl, nofun⟩
  · rcases multiply_error hkernel ha hb h with ⟨x, rfl, -⟩ | ⟨-, -, hcell⟩
    · exact KernelError.not_isMisfit_room x
    · exact KernelError.not_isMisfit_of_isCell hcell

end Kernel

end RowBlock
