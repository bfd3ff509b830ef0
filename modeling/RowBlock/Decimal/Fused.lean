import RowBlock.Decimal.Binary

set_option autoImplicit false

/-! # Multiplying and adding with one rounding

The sum of a product and a number is computed exactly and rounded once. This is defined for
finite values only; with infinities and undefined values nothing is gained over two steps.
-/

namespace RowBlock.Decimal

def signed (negative : Bool) (n : Nat) : Int := if negative then -(n : Int) else n

/-- **`x · y + z` rounded once**, for finite values. A sum of zeros is negative if both are. -/
def Format.fused? (f : Format) : Value → Value → Value → Option Value
  | .finite xNegative x xPlace, .finite yNegative y yPlace, .finite zNegative z zPlace =>
    let productNegative := xNegative != yNegative
    let productPlace := xPlace + yPlace
    let place := min productPlace zPlace
    let product := signed productNegative (x * y * 2 ^ (productPlace - place).toNat)
    let sum := product + signed zNegative (z * 2 ^ (zPlace - place).toNat)
    let negative := if sum = 0 then product = 0 && productNegative && zNegative else sum < 0
    let (num, den) := quotient sum.natAbs place
    some (f.round negative num den)
  | _, _, _ => none

end RowBlock.Decimal
