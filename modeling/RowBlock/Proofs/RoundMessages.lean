import RowBlock.Coordinator
import RowBlock.Proofs.KernelProducts
import RowBlock.Proofs.Tiling
import RowBlock.Worker

set_option autoImplicit false

/-! # The messages of a round

Two matrices of one integer type that can be multiplied are the *factors* of a round. They settle
every message of it: the fields of a worker's work are its share of the rows of the left factor and
the right factor (`workFields`), those of its reply the product of the two (`replyFields`). The
fields are what the receivers check them for, and the cells of the replies are those of the product
(`entry_replyBlock`).
-/

namespace RowBlock

/-- **The factors** of a round: two matrices of one integer type that can be multiplied. -/
structure Factors where
  type : IntType
  rows : Nat
  inner : Nat
  cols : Nat
  a : Tensor
  b : Tensor
  left : a.IsMatrix type rows inner
  right : b.IsMatrix type inner cols

namespace Factors

variable (f : Factors) (workers : Nat) (skipEmpty : Bool) (i : Nat)

def product : Tensor := f.a.product f.type f.b

/-- There is room for the product. -/
def HasRoom [Memory] : Prop := Tensor.room (.int f.type) [f.rows, f.cols] = .ok [f.rows, f.cols]

instance [Memory] : Decidable f.HasRoom := inferInstanceAs (Decidable (_ = _))

def start : Nat := Partition.start f.rows workers i

def size : Nat := Partition.size f.rows workers i

def omitted : Bool := Coordinator.omits skipEmpty (f.size workers i)

def block : Tensor :=
  f.a.rowsBetween (f.start workers i) (f.start workers i + f.size workers i : Int)

/-- **The fields of the work** of worker `i`. -/
def workFields : List Payload :=
  [.int (f.start workers i), .int (f.size workers i), .tensor (f.block workers i)]
    ++ if f.omitted workers skipEmpty i then [] else [.tensor f.b]

def work : Work :=
  ⟨f.start workers i, f.size workers i, f.block workers i,
    if f.omitted workers skipEmpty i then none else some f.b⟩

def replyBlock : Tensor :=
  if f.omitted workers skipEmpty i then .zeros (.int f.type) [0, 0]
  else (f.block workers i).product f.type f.b

/-- **The fields of the reply** of worker `i`. -/
def replyFields : List Payload :=
  [.int (f.start workers i), .int (f.size workers i), .tensor (f.replyBlock workers skipEmpty i)]

variable {f workers skipEmpty i}

theorem size_eq_zero_of_omitted (h : f.omitted workers skipEmpty i = true) :
    f.size workers i = 0 := by
  simp only [omitted, Coordinator.omits, Bool.and_eq_true, beq_iff_eq] at h
  exact_mod_cast h.1

theorem start_add_size_le (hi : i < workers) : f.start workers i + f.size workers i ≤ f.rows :=
  Partition.start_add_size_le f.rows hi

theorem isMatrix_block (hi : i < workers) :
    (f.block workers i).IsMatrix f.type (f.size workers i) f.inner :=
  Tensor.isMatrix_rowsBetween f.left (start_add_size_le hi)

theorem isMatrix_replyBlock (hi : i < workers) :
    (f.replyBlock workers skipEmpty i).IsMatrix f.type (f.size workers i)
      (if f.omitted workers skipEmpty i then 0 else f.cols) := by
  unfold replyBlock
  split
  · rename_i homitted
    rw [size_eq_zero_of_omitted homitted]
    exact ⟨rfl, rfl⟩
  · rw [Tensor.product, (isMatrix_block hi).rows_eq, f.right.cols_eq]
    exact Tensor.isMatrix_matrix _ _ _ _

/-- **The cells of a reply are those of the product.** -/
theorem entry_replyBlock (hi : i < workers) {r k : Nat} (hr : r < f.size workers i)
    (hk : k < f.cols) :
    (f.replyBlock workers skipEmpty i).entry r k = f.product.entry (f.start workers i + r) k := by
  have hle := start_add_size_le (f := f) hi
  -- a worker with a row has work
  have hkept : f.omitted workers skipEmpty i = false := by
    by_contra homitted
    rw [size_eq_zero_of_omitted (by simpa using homitted)] at hr
    exact absurd hr (Nat.not_lt_zero r)
  have hblock := isMatrix_block (f := f) hi
  rw [replyBlock, hkept, if_neg (by simp), Tensor.product, product, Tensor.product,
    Tensor.entry_matrix (by rwa [hblock.rows_eq]) (by rwa [f.right.cols_eq]),
    Tensor.entry_matrix (by rw [f.left.rows_eq]; omega) (by rwa [f.right.cols_eq]),
    cellSum, cellSum, hblock.cols_eq, f.left.cols_eq]
  congr 1
  apply Finset.sum_congr rfl
  intro j hj
  rw [block, Tensor.entry_rowsBetween f.left hle hr (Finset.mem_range.mp hj)]

/-- **The product, cell by cell.** -/
theorem product_eq : f.product = .matrix (.int f.type) f.rows f.cols fun i k =>
    f.type.wrap (∑ j ∈ Finset.range f.inner, f.a.entry i j * f.b.entry j k) := by
  rw [product, Tensor.product, f.left.rows_eq, f.right.cols_eq]
  unfold cellSum
  rw [f.left.cols_eq]

theorem entry_product {r k : Nat} (hr : r < f.rows) (hk : k < f.cols) : f.product.entry r k
    = f.type.wrap (∑ j ∈ Finset.range f.inner, f.a.entry r j * f.b.entry j k) := by
  rw [product_eq, Tensor.entry_matrix hr hk]

/-- The cells of the product are values of its type. -/
theorem wrap_entry_product {r k : Nat} (hr : r < f.rows) (hk : k < f.cols) :
    f.type.wrap (f.product.entry r k) = f.product.entry r k := by
  rw [entry_product hr hk, IntType.wrap_wrap]

end Factors

/-! ## Checks of fields

The receivers check what they get against what they know. Fields of the round pass these checks, and
of a block that passes the shape is known, whoever has sent it. -/

namespace Field

theorem int_natCast (source : Int) (n : Nat) : int source (.int n) = .ok n := by
  simp [int, Payload.int?]

theorem block_tensor {t : Tensor} {type : IntType} {rows cols : Nat} (source : Int)
    {cols? : Option Int} (ht : t.IsMatrix type rows cols) (hcols : ∀ c ∈ cols?, c = cols) :
    block source rows cols? (.tensor t) = .ok t := by
  have hmatrix : (Payload.tensor t).matrix? = some t := if_pos ht.rank_eq
  have hint : t.type.isInt = true := by rw [ht.type_eq]; rfl
  have hfits : ((t.rows : Int) = rows ∧ (t.cols : Int) = cols?.getD t.cols) := by
    rw [ht.rows_eq, ht.cols_eq]
    cases cols? with
    | none => exact ⟨rfl, rfl⟩
    | some c => exact ⟨rfl, (hcols c rfl).symm⟩
  simp only [block, hmatrix, hint, Bool.not_true, Bool.false_eq_true, if_false, if_pos hfits]

theorem matrix?_eq_some {payload : Payload} {t : Tensor} (h : payload.matrix? = some t) :
    payload = .tensor t ∧ t.rank = 2 := by
  unfold Payload.matrix? at h
  split at h
  · split at h
    · rename_i hrank
      cases h
      exact ⟨rfl, hrank⟩
    · cases h
  · cases h

/-- **A block that is accepted** is a matrix of integers of the shape asked for. -/
theorem block_eq_ok {source : Int} {rows cols : Nat} {payload : Payload} {t : Tensor}
    (h : block source rows (some (cols : Int)) payload = .ok t) :
    payload = .tensor t ∧ ∃ type, t.IsMatrix type rows cols := by
  unfold block at h
  split at h
  · cases h
  · rename_i u hu
    obtain ⟨rfl, hrank⟩ := matrix?_eq_some hu
    split at h
    · cases h
    · rename_i hint
      simp only [Option.getD_some] at h
      split at h
      · rename_i hshape
        cases h
        refine ⟨rfl, ?_⟩
        rcases t with ⟨type, shape, words, hsize⟩
        obtain ⟨r, c, rfl⟩ := List.length_eq_two.mp hrank
        simp only [Tensor.rows, Tensor.cols, List.headD_cons, List.tail_cons, Nat.cast_inj] at hshape
        obtain ⟨rfl, rfl⟩ := hshape
        cases type with
        | int type => exact ⟨type, rfl, rfl⟩
        | _ => exact absurd rfl hint
      · cases h

end Field

end RowBlock
