import RowBlock.Cell
import RowBlock.Decimal.Shortest
import RowBlock.Text.Listing

set_option autoImplicit false

/-! # Tensors

A tensor has a cell type, a shape and its cells in row-major order, the last axis running
fastest. The number of cells is the product of the shape, which the type keeps as a proof. All
tensors are made by `Tensor.generate`, which is given the cell at each place; `word_generate`
reads it back. Most of the library works on tensors of rank two, whose cells `entry` names by
row and column.
-/

namespace RowBlock

/-! ## The structure -/

/-- A rectangular block of cells. -/
structure Tensor where
  type : CellType
  shape : List Nat
  words : Array Int
  size_eq : words.size = shape.prod
  deriving DecidableEq, Repr

namespace Tensor

/-- The tensor whose cell at each place, counted in row-major order, is given. -/
def generate (type : CellType) (shape : List Nat) (cell : Nat → Int) : Tensor :=
  ⟨type, shape, Array.ofFn fun i : Fin shape.prod => cell i, Array.size_ofFn⟩

def ofList? (type : CellType) (shape : List Nat) (words : List Int) : Option Tensor :=
  if h : words.toArray.size = shape.prod then some ⟨type, shape, words.toArray, h⟩ else none

def zeros (type : CellType) (shape : List Nat) : Tensor := generate type shape fun _ => 0

/-- The matrix whose cell at each row and column is given. -/
def matrix (type : CellType) (rows cols : Nat) (cell : Nat → Nat → Int) : Tensor :=
  generate type [rows, cols] fun i => cell (i / cols) (i % cols)

/-- The cell at a place in row-major order; zero past the end. -/
def word (t : Tensor) (i : Nat) : Int := t.words[i]?.getD 0

def rank (t : Tensor) : Nat := t.shape.length

def rows (t : Tensor) : Nat := t.shape.headD 0

def cols (t : Tensor) : Nat := t.shape.tail.headD 0

def entry (t : Tensor) (i j : Nat) : Int := t.word (i * t.cols + j)

@[simp]
theorem shape_generate (type : CellType) (shape : List Nat) (cell : Nat → Int) :
    (generate type shape cell).shape = shape := rfl

/-- A generated tensor holds the cells it was given. -/
theorem word_generate {type : CellType} {shape : List Nat} {cell : Nat → Int} {i : Nat}
    (h : i < shape.prod) : (generate type shape cell).word i = cell i := by
  simp [generate, word, h]

/-- A matrix holds the cells it was given. -/
theorem entry_matrix {type : CellType} {rows cols : Nat} {cell : Nat → Nat → Int} {i j : Nat}
    (hi : i < rows) (hj : j < cols) : (matrix type rows cols cell).entry i j = cell i j := by
  have hlt : i * cols + j < [rows, cols].prod := by
    have := Nat.mul_le_mul_right cols (show i + 1 ≤ rows from hi)
    simp only [List.prod_cons, List.prod_nil, Nat.mul_one]
    have : (i + 1) * cols = i * cols + cols := by rw [Nat.add_mul, Nat.one_mul]
    omega
  have hdiv : (i * cols + j) / cols = i := by
    rw [Nat.mul_comm, Nat.mul_add_div (by omega), Nat.div_eq_of_lt hj, Nat.add_zero]
  have hmod : (i * cols + j) % cols = j := by
    rw [Nat.mul_comm, Nat.mul_add_mod, Nat.mod_eq_of_lt hj]
  show (generate type [rows, cols] fun i => cell (i / cols) (i % cols)).word (i * cols + j) = _
  rw [word_generate hlt, hdiv, hmod]

/-! ## Conversion and ranges of rows

The rows of a matrix are cut and filled by slices, whose ends may be any integers (`place`). An
assignment of a checked partition never uses that freedom, but a reply can bring a range of its own,
so cutting (`rowsBetween`) and placing (`placeRows`) are defined for every range. -/

/-- All cells are values of the integer type. -/
def InRange (t : Tensor) : Prop :=
  ∃ type : IntType, t.type = .int type ∧ ∀ i < t.shape.prod, type.Holds (t.word i)

/-- Every cell converted to another type. -/
def cast (t : Tensor) (type : CellType) : Tensor :=
  generate type t.shape fun i => t.type.convert type (t.word i)

/-- The form a tensor travels in: a tensor without axes gets one axis of extent one. -/
def contiguous (t : Tensor) : Tensor :=
  match t.shape with
  | [] => generate t.type [1] t.word
  | _ => t

/-- A place on an axis of extent `n`: negative places count from its end, and places beyond it
are moved to the nearest end. -/
def place (n : Nat) (x : Int) : Nat :=
  if x < 0 then (x + n).toNat else min x.toNat n

/-- **Rows** from place `low` up to before place `high`. -/
def rowsBetween (t : Tensor) (low high : Int) : Tensor :=
  let first := place t.rows low
  let stop := place t.rows high
  let size := t.shape.tail.prod
  generate t.type ((stop - first) :: t.shape.tail) fun i => t.word (first * size + i)

/-- **Placing a block** into the rows of a matrix from place `low` up to before place `high`,
converted to the matrix' type. A block of one row fills all of them, a block of one column all
columns; any other extent has to fit, and the two shapes are returned where it does not. -/
def placeRows (t block : Tensor) (low high : Int) : Except (List Nat × List Nat) Tensor :=
  let first := place t.rows low
  let stop := place t.rows high
  let room := stop - first
  if (block.rows = room ∨ block.rows = 1) ∧ (block.cols = t.cols ∨ block.cols = 1) then
    .ok (matrix t.type t.rows t.cols fun i j =>
      if first ≤ i ∧ i < stop then
        block.type.convert t.type
          (block.entry (if block.rows = 1 then 0 else i - first)
            (if block.cols = 1 then 0 else j))
      else t.entry i j)
  else .error (block.shape, [room, t.cols])

/-! ## Comparison and text

Two tensors agree if their shapes and cells are the same; their types are not compared. -/

def agrees (t u : Tensor) : Bool := t.shape == u.shape && t.words == u.words

/-- The shape as text: `()`, `(3,)`, `(2, 3)`. -/
def shapeText (shape : List Nat) : String := Text.tuple (shape.map toString)

def describe (t : Tensor) : String := "array" ++ shapeText t.shape ++ ":" ++ t.type.name

def cellText (type : CellType) (word : Int) : String :=
  match type with
  | .int _ => toString word
  | .float t => Decimal.text t.format ((CellType.floatValue word).narrow t.format)
  | .bool => Text.truth (word != 0)

end Tensor

end RowBlock
