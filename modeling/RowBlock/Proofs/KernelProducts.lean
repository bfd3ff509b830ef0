import RowBlock.Kernel
import RowBlock.Machine
import RowBlock.Proofs.Matrices
import RowBlock.Proofs.Wrapping

set_option autoImplicit false

/-! # The products of the kernels

Both kernels compute each cell from one number, the sum of products reduced into the common type
(`cellSum`). The whole-product kernel converts it to the type of the left operand
(`multiplyWhole_eq`). The row kernel reduces after every step, which comes to the same
(`runningSum_eq`), and stores the result: a signed type has to have it, an unsigned one takes
every word (`Storable`). For operands of one type both kernels give `Tensor.product`
(`multiply_eq`).
-/

namespace RowBlock

def cellSum (type : IntType) (a b : Tensor) (i k : Nat) : Int :=
  type.wrap (∑ j ∈ Finset.range a.cols, a.entry i j * b.entry j k)

/-- **The matrix product** of `a` and `b` modulo `2 ^ width`, as a matrix of the type. -/
def Tensor.product (a : Tensor) (type : IntType) (b : Tensor) : Tensor :=
  .matrix (.int type) a.rows b.cols (cellSum type a b)

namespace Kernel

/-! ## Sums

Both kernels come down to `cellSum`. For the row kernel this is an induction on the number of steps,
with the wrapped sum so far. -/

theorem runningSum_eq (type : IntType) (steps : Nat) (left right : Nat → Int) :
    runningSum (.int type) steps left right
      = type.wrap (∑ j ∈ Finset.range steps, left j * right j) := by
  unfold runningSum
  induction steps with
  | zero => simp
  | succ n ih =>
      rw [List.range_succ, List.foldl_append, ih, Finset.sum_range_succ]
      exact type.wrap_add_wrap _ _

theorem dot_eq (type : IntType) (alone : Bool) (steps : Nat) (left right : Nat → Int) :
    dot (.int type) alone steps left right
      = type.wrap (∑ j ∈ Finset.range steps, left j * right j) := rfl

theorem promote_eq {s t u : IntType} (h : s.promote? t = some u) :
    (CellType.int s).promote (.int t) = .int u := by
  simp [CellType.promote, h]

theorem promote_self (t : IntType) : t.promote? t = some t := by
  simp [IntType.promote?]

/-! ## Storing a sum

The sum is one of the common type, so it always fits a signed word or an unsigned one; the only
error left for a signed type is that it lies out of its own range. -/

/-- The words a finished sum can be stored from: a signed type has to have the value, and an
unsigned one takes every word. -/
def Storable (type : IntType) (n : Int) : Prop := type.signed = true → type.Holds n

instance (type : IntType) (n : Int) : Decidable (Storable type n) :=
  inferInstanceAs (Decidable (_ → _))

/-- **Storing a finished sum** of the common type in the left operand's type. -/
theorem store_eq {type other common : IntType} (hc : type.promote? other = some common) {n : Int}
    (h : common.Holds n) :
    store (.int common) (.int type) n =
      if Storable type n then .ok (type.wrap n) else .error (.outOfRange n type) := by
  unfold store
  -- nothing is checked where the sum has the type of the cell already
  by_cases hsame : CellType.int common = .int type
  · injection hsame with hsame
    subst hsame
    have hstorable : Storable common n := fun _ => h
    rw [if_pos rfl, if_pos hstorable, IntType.wrap_of_holds _ h]
  · rw [if_neg hsame]
    cases hs : type.signed with
    | true =>
        have hword := IntType.int64_holds_of_signed (IntType.signed_of_promote hc hs) h
        by_cases hn : type.Holds n
        · simp [storeSigned, wholeSum, Storable, hs, hn, IntType.wrap_of_holds, bind, Except.bind,
            pure, Except.pure]
        · simp [storeSigned, wholeSum, Storable, hs, hn, hword, bind, Except.bind]
    | false => simp [Storable, hs, CellType.convert]

/-! ## The row kernel

The cells are computed in row-major order, and the traversal stops at the first that fails. The
first cell that cannot be stored, row by row, is the one at the place `i * cols + k` of that order,
which is why it is the one in the error. -/

section

variable {dA dB common : IntType} {rows inner cols : Nat} {a b : Tensor}

theorem rowCell_eq (hc : dA.promote? dB = some common) (ha : a.IsMatrix dA rows inner)
    (hb : b.IsMatrix dB inner cols) (i k : Nat) :
    rowCell a b i k =
      if Storable dA (cellSum common a b i k) then .ok (dA.wrap (cellSum common a b i k))
      else .error (.outOfRange (cellSum common a b i k) dA) := by
  have hholds : common.Holds (cellSum common a b i k) := common.holds_wrap _
  unfold rowCell
  by_cases hinner : a.cols = 0
  · -- without a product the sum never leaves the left operand's type, where it is zero
    have hzero : cellSum common a b i k = 0 := by simp [cellSum, hinner]
    have hstore : Storable dA 0 := fun _ => by simpa using dA.holds_wrap 0
    rw [if_pos hinner, hzero, if_pos hstore, IntType.wrap_zero]
  · have hsum : runningSum (.int common) a.cols
        (fun j => (CellType.int dA).convert (.int common) (a.entry i j))
        (fun j => (CellType.int dB).convert (.int common) (b.entry j k)) = cellSum common a b i k := by
      rw [runningSum_eq]
      exact common.wrap_sum_wrap_mul a.cols _ _
    rw [if_neg hinner, if_neg (by rw [hb.rows_eq, ha.cols_eq]; omega),
      if_neg (by rw [hb.rank_eq]; omega), ha.type_eq, hb.type_eq, promote_eq hc]
    simp only [hsum]
    exact store_eq hc hholds

theorem mapM_eq_ok {α β ε : Type} {f : α → Except ε β} {g : α → β} {l : List α}
    (h : ∀ x ∈ l, f x = .ok (g x)) : l.mapM f = .ok (l.map g) := by
  induction l with
  | nil => rfl
  | cons x l ih =>
      rw [List.mapM_cons, h x (by simp), ih fun y hy => h y (by simp [hy])]
      rfl

theorem mapM_eq_error {α β ε : Type} {f : α → Except ε β} {e : ε} {x : α} (before after : List α)
    (h : ∀ y ∈ before, ∃ v, f y = .ok v) (hx : f x = .error e) :
    (before ++ x :: after).mapM f = .error e := by
  induction before with
  | nil => rw [List.nil_append, List.mapM_cons, hx]; rfl
  | cons y l ih =>
      obtain ⟨v, hv⟩ := h y (by simp)
      rw [List.cons_append, List.mapM_cons, hv]
      show (do let vs ← (l ++ x :: after).mapM f; pure (v :: vs)) = _
      rw [ih fun z hz => h z (by simp [hz])]
      rfl

def convertedProduct (type common : IntType) (a b : Tensor) : Tensor :=
  .matrix (.int type) a.rows b.cols fun i k => type.wrap (cellSum common a b i k)

variable [Memory]

theorem multiplyRows_eq (ha : a.IsMatrix dA rows inner) (hb : b.IsMatrix dB inner cols) :
    multiplyRows a b = ((Tensor.room (.int dA) [rows, cols]).mapError .room).bind fun shape =>
      ((List.range (rows * cols)).mapM fun p => rowCell a b (p / cols) (p % cols)).bind fun cells =>
        .ok (Tensor.generate (.int dA) shape fun p => cells.getD p 0) := by
  unfold multiplyRows
  rw [if_neg (by rw [ha.rank_eq]; omega), if_neg (by rw [ha.rank_eq]; omega),
    if_neg (by rw [hb.rank_eq]; omega), ha.type_eq, ha.rows_eq, hb.cols_eq]
  rfl

/-- **The row kernel** has the converted product where all its sums can be stored. -/
theorem multiplyRows_eq_ok (hc : dA.promote? dB = some common) (ha : a.IsMatrix dA rows inner)
    (hb : b.IsMatrix dB inner cols) (hroom : Tensor.room (.int dA) [rows, cols] = .ok [rows, cols])
    (h : ∀ i < rows, ∀ k < cols, Storable dA (cellSum common a b i k)) :
    multiplyRows a b = .ok (convertedProduct dA common a b) := by
  have hcells : (List.range (rows * cols)).mapM (fun p => rowCell a b (p / cols) (p % cols))
      = .ok ((List.range (rows * cols)).map fun p =>
          dA.wrap (cellSum common a b (p / cols) (p % cols))) := by
    refine mapM_eq_ok fun p hp => ?_
    obtain ⟨hi, hk⟩ := Tensor.div_lt_and_mod_lt (List.mem_range.mp hp)
    rw [rowCell_eq hc ha hb, if_pos (h _ hi _ hk)]
  rw [multiplyRows_eq ha hb, hroom, hcells]
  show Except.ok _ = _
  rw [convertedProduct, Tensor.matrix, ha.rows_eq, hb.cols_eq]
  congr 1
  apply Tensor.generate_congr
  intro p hp
  have hlt : p < rows * cols := by simpa using hp
  simp [List.getD_eq_getElem?_getD, hlt]

/-- **The row kernel** stops at the first cell, row by row, whose sum cannot be stored. -/
theorem multiplyRows_eq_error (hc : dA.promote? dB = some common) (ha : a.IsMatrix dA rows inner)
    (hb : b.IsMatrix dB inner cols) (hroom : Tensor.room (.int dA) [rows, cols] = .ok [rows, cols])
    {i k : Nat} (hi : i < rows) (hk : k < cols) (hn : ¬Storable dA (cellSum common a b i k))
    (hfirst : ∀ i' < rows, ∀ k' < cols, i' < i ∨ i' = i ∧ k' < k →
      Storable dA (cellSum common a b i' k')) :
    multiplyRows a b = .error (.outOfRange (cellSum common a b i k) dA) := by
  -- the cell has a place in row-major order, from which its row and column are read back
  have hp := Tensor.place_lt hi hk
  have hdiv : (i * cols + k) / cols = i := by
    rw [Nat.mul_comm, Nat.mul_add_div (by omega), Nat.div_eq_of_lt hk, Nat.add_zero]
  have hmod : (i * cols + k) % cols = k := by
    rw [Nat.mul_comm, Nat.mul_add_mod, Nat.mod_eq_of_lt hk]
  have hsplit : List.range (rows * cols) = List.range (i * cols + k) ++
      (i * cols + k) :: (List.range (rows * cols)).drop (i * cols + k + 1) := by
    conv_lhs => rw [← List.take_append_drop (i * cols + k) (List.range (rows * cols))]
    rw [List.take_range, Nat.min_eq_left hp.le, List.drop_eq_getElem_cons (by simpa using hp)]
    simp
  have herror : (List.range (rows * cols)).mapM (fun p => rowCell a b (p / cols) (p % cols))
      = .error (.outOfRange (cellSum common a b i k) dA) := by
    rw [hsplit]
    refine mapM_eq_error _ _ (fun q hq => ?_) (by
      simp only [hdiv, hmod]
      rw [rowCell_eq hc ha hb, if_neg hn])
    have hq := List.mem_range.mp hq
    obtain ⟨hqi, hqk⟩ := Tensor.div_lt_and_mod_lt (hq.trans hp)
    refine ⟨_, (rowCell_eq hc ha hb _ _).trans (if_pos (hfirst _ hqi _ hqk ?_))⟩
    -- an earlier place is in an earlier row, or in this row in an earlier column
    rcases Nat.lt_trichotomy (q / cols) i with hlt | heq | hgt
    · exact .inl hlt
    · have := Nat.div_add_mod q cols
      rw [heq, Nat.mul_comm] at this
      exact .inr ⟨heq, by omega⟩
    · have := Nat.div_le_div_right (c := cols) hq.le
      omega
  rw [multiplyRows_eq ha hb, hroom, herror]
  rfl

/-! ## The whole-product kernel

For matrices of rank two the outer axes are empty, and what is left of the general product is the
room and the cells. -/

theorem matmul_eq (hc : dA.promote? dB = some common) (ha : a.IsMatrix dA rows inner)
    (hb : b.IsMatrix dB inner cols) :
    matmul a b = ((Tensor.room (.int common) [rows, cols]).mapError .room).map fun _ =>
      .matrix (.int common) rows cols (cellSum common a b) := by
  have hleft : a.shape.reverse = [inner, rows] := by rw [ha.shape_eq]; rfl
  have hright : b.shape.reverse = [cols, inner] := by rw [hb.shape_eq]; rfl
  unfold matmul
  -- both operands have two axes: none is left to be stretched or repeated
  simp only [hleft, hright, ne_eq, not_true_eq_false, if_false, broadcast?, List.reverse_nil,
    List.nil_append, List.cons_append, List.map_cons, List.map_nil, Int.ofNat_eq_natCast, ha.type_eq,
    hb.type_eq, promote_eq hc, outerPlace, Nat.zero_mul, Nat.zero_add]
  rcases Tensor.room_matrix_cases (.int common) rows cols with hroom | ⟨e, hroom⟩
  · rw [hroom]
    show Except.ok _ = Except.ok _
    congr 1
    apply Tensor.generate_congr
    intro p hp
    have hlt : p < rows * cols := by simpa using hp
    obtain ⟨hi, -⟩ := Tensor.div_lt_and_mod_lt hlt
    rw [dot_eq, Nat.mod_eq_of_lt hi, cellSum, ha.cols_eq]
    refine (common.wrap_sum_wrap_mul inner _ _).trans ?_
    congr 1
    apply Finset.sum_congr rfl
    intro j _
    rw [Tensor.entry, Tensor.entry, ha.cols_eq, hb.cols_eq, Nat.add_comm (p % cols)]
  · rw [hroom]
    rfl

/-- **The whole-product kernel** has the converted product, if there is room for the product. -/
theorem multiplyWhole_eq (hc : dA.promote? dB = some common) (ha : a.IsMatrix dA rows inner)
    (hb : b.IsMatrix dB inner cols) :
    multiplyWhole a b = ((Tensor.room (.int common) [rows, cols]).mapError .room).map fun _ =>
      convertedProduct dA common a b := by
  have hcast : (Tensor.matrix (.int common) rows cols (cellSum common a b)).cast (.int dA)
      = convertedProduct dA common a b := by
    rw [convertedProduct, ha.rows_eq, hb.cols_eq]
    refine Tensor.eq_matrix ⟨rfl, rfl⟩ fun i hi k hk => ?_
    rw [Tensor.entry_cast (Tensor.isMatrix_matrix common rows cols _) _ hi hk,
      Tensor.entry_matrix hi hk]
    rfl
  unfold multiplyWhole
  rw [matmul_eq hc ha hb, ha.type_eq]
  rcases Tensor.room_matrix_cases (.int common) rows cols with hroom | ⟨e, hroom⟩
  · rw [hroom, ← hcast]
    rfl
  · rw [hroom]
    rfl

/-! ## Both kernels

In the type of the left operand every sum can be stored, so the kernels differ only in the type of
the product they need room for, and here the two types are the same. -/

/-- The row kernel and the whole-product kernel are the same on operands with the left one's type
in common. -/
theorem multiplyRows_eq_multiplyWhole (hc : dA.promote? dB = some dA)
    (ha : a.IsMatrix dA rows inner) (hb : b.IsMatrix dB inner cols) :
    multiplyRows a b = multiplyWhole a b := by
  rw [multiplyWhole_eq hc ha hb]
  rcases Tensor.room_matrix_cases (.int dA) rows cols with hroom | ⟨e, hroom⟩
  · rw [multiplyRows_eq_ok hc ha hb hroom fun _ _ _ _ _ => dA.holds_wrap _, hroom]
    rfl
  · rw [multiplyRows_eq ha hb, hroom]
    rfl

/-- **Each kernel that runs here** multiplies matrices of one type, if there is room for the
product. -/
theorem multiply_eq {kernel : Kernel} (hkernel : kernel ≠ .device) (ha : a.IsMatrix dA rows inner)
    (hb : b.IsMatrix dA inner cols) :
    kernel.multiply a b = ((Tensor.room (.int dA) [rows, cols]).mapError .room).map fun _ =>
      a.product dA b := by
  have hc := promote_self dA
  have hproduct : convertedProduct dA dA a b = a.product dA b := by
    unfold convertedProduct Tensor.product
    congr 1
    funext i k
    exact dA.wrap_wrap _
  cases kernel with
  | rows => exact (multiplyRows_eq_multiplyWhole hc ha hb).trans (hproduct ▸ multiplyWhole_eq hc ha hb)
  | whole => exact hproduct ▸ multiplyWhole_eq hc ha hb
  | device => exact absurd rfl hkernel

/-- **The products of both kernels** on integer matrices with a common integer type. The
whole-product kernel returns each sum of products, reduced into the common type, converted to the
left operand's type. The row kernel returns the same matrix where all sums can be stored, and
otherwise overflows at the first cell, row by row, whose sum cannot. With the left operand's type
in common it never does, and the kernels agree. -/
theorem products_of_kernels (hc : dA.promote? dB = some common) (ha : a.IsMatrix dA rows inner)
    (hb : b.IsMatrix dB inner cols) :
    (Tensor.room (.int common) [rows, cols] = .ok [rows, cols] →
      multiplyWhole a b = .ok (convertedProduct dA common a b)) ∧
    (Tensor.room (.int dA) [rows, cols] = .ok [rows, cols] →
      ((∀ i < rows, ∀ k < cols, Storable dA (cellSum common a b i k)) →
        multiplyRows a b = .ok (convertedProduct dA common a b)) ∧
      ∀ i < rows, ∀ k < cols, ¬Storable dA (cellSum common a b i k) →
        (∀ i' < rows, ∀ k' < cols, i' < i ∨ i' = i ∧ k' < k →
          Storable dA (cellSum common a b i' k')) →
        multiplyRows a b = .error (.outOfRange (cellSum common a b i k) dA)) ∧
    (common = dA → multiplyRows a b = multiplyWhole a b) := by
  refine ⟨?_, ?_, ?_⟩
  · intro hroom
    rw [multiplyWhole_eq hc ha hb, hroom]
    rfl
  · intro hroom
    refine ⟨multiplyRows_eq_ok hc ha hb hroom, ?_⟩
    intro i hi k hk hn hfirst
    exact multiplyRows_eq_error hc ha hb hroom hi hk hn hfirst
  · rintro rfl
    exact multiplyRows_eq_multiplyWhole hc ha hb

end

/-- A column of two bytes times a word of two bytes: the second sum is no byte, which the row
kernel reports and the whole-product kernel wraps. -/
theorem products_of_kernels_short :
    let a := Tensor.matrix (.int .int8) 2 1 fun i _ => if i = 0 then 1 else 100
    let b := Tensor.matrix (.int .int16) 1 1 fun _ _ => 2
    IntType.int8.promote? .int16 = some .int16 ∧ a.IsMatrix .int8 2 1 ∧ b.IsMatrix .int16 1 1 ∧
      multiplyWhole a b = .ok (convertedProduct .int8 .int16 a b) ∧
      multiplyRows a b = .error (.outOfRange 200 .int8) := by
  intro a b
  have hc : IntType.int8.promote? .int16 = some .int16 := rfl
  have ha : a.IsMatrix .int8 2 1 := Tensor.isMatrix_matrix _ _ _ _
  have hb : b.IsMatrix .int16 1 1 := Tensor.isMatrix_matrix _ _ _ _
  obtain ⟨hwhole, hrows, -⟩ := products_of_kernels hc ha hb
  refine ⟨hc, ha, hb, hwhole (by decide), ?_⟩
  exact (hrows (by decide)).2 1 (by decide) 0 (by decide) (by decide) (by decide)

/-- An unsigned type does not have the sum `-3`, and the row kernel stores it all the same. -/
theorem unsigned_store_wraps :
    let a := Tensor.matrix (.int .uint8) 1 1 fun _ _ => 3
    let b := Tensor.matrix (.int .int8) 1 1 fun _ _ => -1
    IntType.uint8.promote? .int8 = some .int16 ∧ ¬IntType.uint8.Holds (cellSum .int16 a b 0 0) ∧
      multiplyRows a b = .ok (Tensor.matrix (.int .uint8) 1 1 fun _ _ => 253) := by
  decide

end Kernel

end RowBlock
