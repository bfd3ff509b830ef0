import RowBlock.Kernel.Product
import RowBlock.Kernel.Rows

set_option autoImplicit false

/-! # Kernels

A kernel multiplies a block of rows with a whole matrix. There are three, chosen by name: the
row kernel, the whole-product kernel, and one that needs a device this program does not have.
-/

namespace RowBlock

/-! ## The kernels

Every worker of a job runs the same kernel. The product is a partial function of the operands:
shapes that do not fit, cells that do not fit and a missing device are all errors of the kernel, and
the worker that meets one sends nothing back. -/

/-- The kernels. -/
inductive Kernel where
  | rows
  | whole
  | device
  deriving DecidableEq, Repr

namespace Kernel

def name : Kernel → String
  | rows => "loop"
  | whole => "numpy"
  | device => "gpu"

def all : List Kernel := [device, rows, whole]

def named (name : String) : Except KernelError Kernel :=
  match all.find? (·.name == name) with
  | some kernel => .ok kernel
  | none => .error (.unknown name)

/-- **The product** a kernel computes. -/
def multiply [Memory] : Kernel → Tensor → Tensor → Except KernelError Tensor
  | rows, a, b => multiplyRows a b
  | whole, a, b => multiplyWhole a b
  | device, _, _ => .error .unavailable

end Kernel

end RowBlock
