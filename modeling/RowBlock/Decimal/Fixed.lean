import RowBlock.Decimal.Binary
import RowBlock.Text.Listing

set_option autoImplicit false

/-! # A fixed number of decimal places

Times and percentages are written with a fixed number of places. The exact value of the float
is rounded, half way to the even neighbour; the sign of a negative number stays, also where
all written digits are zero.
-/

namespace RowBlock.Decimal

def withPoint (negative : Bool) (places q : Nat) : String :=
  let cs := (Text.zeroPadded (places + 1) q).toList
  let whole := String.ofList (cs.take (cs.length - places))
  let fraction := String.ofList (cs.drop (cs.length - places))
  (if negative then "-" else "") ++ whole ++ "." ++ fraction

/-- **Fixed places.** The text of a float with that many places behind the point. -/
def fixed (places : Nat) (x : Float) : String :=
  match Value.ofFloat x with
  | .nan => "nan"
  | .infinite negative => if negative then "-inf" else "inf"
  | .finite negative m e =>
    let (num, den) := quotient m e
    withPoint negative places (roundDiv (num * 10 ^ places) den)

end RowBlock.Decimal
