import RowBlock.Kernel.Error

set_option autoImplicit false

/-! # The whole product

The product of two operands as a whole: both are converted to their common type, and a cell is
the sum of products reduced once into that type (`dot`). Floating point products are added to the
sum with one rounding each. A sum of half precision numbers is kept in single precision until the
end, and the single cell of a product of single precision in double precision.

Operands with one axis stand for a row on the left and a column on the right, and lose that axis
in the product; axes before the last two are matched pairwise, an axis of extent one with any
extent. The kernel converts the product to the type of the left operand (`multiplyWhole`).
-/

namespace RowBlock.Kernel

/-! ## Dot products

The whole product of integers is the same as that of the row kernel before it is stored: wrapping
once at the end is wrapping at each step. With floating point numbers the two differ, in the type
the sum is kept in and in the number of roundings. -/

/-- The type in which a sum of floating point numbers is kept; `alone` tells that it is the only
cell of a product. -/
def sumType (alone : Bool) : FloatType → FloatType
  | .half => .single
  | .single => if alone then .double else .single
  | .double => .double

def floatDot (t : FloatType) (alone : Bool) (steps : Nat) (left right : Nat → Int) : Int :=
  let kept := sumType alone t
  let step (sum : Int) (j : Nat) : Int :=
    if kept = t then CellType.fused t (left j) (right j) sum
    else CellType.add (.float kept) sum (CellType.mul (.float .single) (left j) (right j))
  CellType.convert (.float kept) (.float t) ((List.range steps).foldl step 0)

def dot (type : CellType) (alone : Bool) (steps : Nat) (left right : Nat → Int) : Int :=
  match type with
  | .int t => t.wrap ((List.range steps).map fun j => left j * right j).sum
  | .bool => if (List.range steps).any fun j => left j != 0 && right j != 0 then 1 else 0
  | .float t => floatDot t alone steps left right

/-! ## Outer axes

Outer axes are matched from the last one on, so both lists are given last axis first. An operand
with an axis of extent one there is used again for every place of the other one (`outerPlace`). -/

def broadcast? : List Nat → List Nat → Option (List Nat)
  | [], ns => some ns
  | ms, [] => some ms
  | m :: ms, n :: ns => do
    let rest ← broadcast? ms ns
    if m = n then some (m :: rest)
    else if m = 1 then some (n :: rest)
    else if n = 1 then some (m :: rest)
    else none

/-- The place among the outer axes `inner` (last axis first) that stands for place `p` among the
axes `outer` they are matched with. -/
def outerPlace : (outer inner : List Nat) → Nat → Nat
  | _, [], _ => 0
  | [], _, _ => 0
  | n :: outer, m :: inner, p =>
    (if m = 1 then 0 else p % n) + m * outerPlace outer inner (p / n)

/-! ## The product

The shape is settled before a cell is computed: axes that are too few, inner extents that differ,
outer axes that do not match, and then the room for the result. After that the product cannot fail,
and neither can its conversion to the type of the left operand. -/

/-- **The product of two operands** in their common type. -/
def matmul [Memory] (a b : Tensor) : Except KernelError Tensor :=
  match a.shape.reverse, b.shape.reverse with
  | [], _ => .error (.scalarOperand 0)
  | _, [] => .error (.scalarOperand 1)
  | inner :: left, axis :: right =>
    let (rows, outerLeft, rowAxis) :=
      match left with
      | [] => (1, [], [])
      | rows :: outer => (rows, outer, [rows])
    let (bInner, cols, outerRight, colAxis) :=
      match right with
      | [] => (axis, 1, [], [])
      | bInner :: outer => (bInner, axis, outer, [axis])
    if bInner ≠ inner then .error (.innerMismatch bInner inner)
    else
      match broadcast? outerLeft outerRight with
      | none => .error (.outerMismatch a.shape b.shape rows cols)
      | some outer => do
        let common := a.type.promote b.type
        let extents := (outer.reverse ++ rowAxis ++ colAxis).map Int.ofNat
        let shape ← (Tensor.room common extents).mapError .room
        .ok <| Tensor.generate common shape fun p =>
          let i := p / cols % rows
          let k := p % cols
          let block := p / (rows * cols)
          let startLeft := outerPlace outer outerLeft block * (rows * inner) + i * inner
          let startRight := outerPlace outer outerRight block * (inner * cols) + k
          dot common (rows == 1 && cols == 1) inner
            (fun j => a.type.convert common (a.word (startLeft + j)))
            (fun j => b.type.convert common (b.word (startRight + j * cols)))

/-- **The whole-product kernel**: the product converted to the type of the left operand. -/
def multiplyWhole [Memory] (a b : Tensor) : Except KernelError Tensor :=
  (matmul a b).map (·.cast a.type)

end RowBlock.Kernel
