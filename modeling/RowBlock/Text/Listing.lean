set_option autoImplicit false

/-! # Listings

How truth values and several items are written in one line: items in brackets, or in parentheses
with a comma after a single item, so that `(3,)` is a tuple and `(3)` is not. Items below each
other are moved to the right, or filled up with zeros.
-/

namespace RowBlock.Text

def bracketed (items : List String) : String :=
  "[" ++ String.intercalate ", " items ++ "]"

/-- Items in parentheses: `()`, `(3,)`, `(2, 3)`. -/
def tuple : List String → String
  | [] => "()"
  | [item] => "(" ++ item ++ ",)"
  | items => "(" ++ String.intercalate ", " items ++ ")"

/-- Items in parentheses without blanks: `(3,)`, `(2,3)`. -/
def tightTuple : List String → String
  | [item] => "(" ++ item ++ ",)"
  | items => "(" ++ String.intercalate "," items ++ ")"

def truth (b : Bool) : String := if b then "True" else "False"

def blanks (n : Nat) : String := String.ofList (List.replicate n ' ')

def alignRight (width : Nat) (s : String) : String := blanks (width - s.length) ++ s

def trimRight (s : String) : String :=
  String.ofList (s.toList.reverse.dropWhile (· == ' ')).reverse

def zeroPadded (width n : Nat) : String :=
  let digits := toString n
  String.ofList (List.replicate (width - digits.length) '0') ++ digits

end RowBlock.Text
