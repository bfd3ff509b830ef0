set_option autoImplicit false

/-! # Arithmetic

Powers of integers, and sums and products of lists of them, are the ones of the core library
everywhere here, also in modules that import further algebra. What is computed and what is proved
about it are then the same expressions.
-/

namespace RowBlock

-- before the instances that come with algebraic structures
attribute [scoped instance (1100), default_instance (10100)] instPowNat
attribute [scoped instance (1100)] One.ofOfNat1 Zero.ofOfNat0

end RowBlock
