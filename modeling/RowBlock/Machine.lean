import RowBlock.Tensor.Room

set_option autoImplicit false

/-! # The machine

The programs of the library run on any machine, and what is proved about them holds for any amount
of memory. Here is one machine, on which a tensor may take sixty-four gibibytes. Jobs and
rehearsals run on it, and examples are worked out for it.
-/

namespace RowBlock

instance machine : Memory := ⟨2 ^ 36⟩

end RowBlock
