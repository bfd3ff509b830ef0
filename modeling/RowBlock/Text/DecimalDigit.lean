set_option autoImplicit false

/-! # Decimal digits and blanks of all scripts

Unicode 14 has 66 runs of ten decimal digits, one after the other from zero to nine. A whole
number may be written with the digits of any of them, with single underscores between digits
and with blanks around it (`wholeNumber?`).
-/

namespace RowBlock.Text

def digitZeros : List Nat := [
  48, 1632, 1776, 1984, 2406, 2534, 2662, 2790, 2918, 3046, 3174, 3302, 3430, 3558, 3664, 3792,
  3872, 4160, 4240, 6112, 6160, 6470, 6608, 6784, 6800, 6992, 7088, 7232, 7248, 42528, 43216,
  43264, 43472, 43504, 43600, 44016, 65296, 66720, 68912, 69734, 69872, 69942, 70096, 70384,
  70736, 70864, 71248, 71360, 71472, 71904, 72016, 72784, 73040, 73120, 92768, 92864, 93008,
  120782, 120792, 120802, 120812, 120822, 123200, 123632, 125264, 130032]

def digitValue? (c : Char) : Option Nat :=
  (digitZeros.find? fun first => first ≤ c.toNat && c.toNat < first + 10).map (c.toNat - ·)

/-- Blanks that may surround a number: the six ASCII ones, the next-line and no-break characters
and the Unicode space, line and paragraph separators. -/
def isBlank (c : Char) : Bool :=
  let n := c.toNat
  (9 ≤ n && n ≤ 13) || n == 32 || n == 0x85 || n == 0xA0 || n == 0x1680 ||
    (0x2000 ≤ n && n ≤ 0x200A) || n == 0x2028 || n == 0x2029 || n == 0x202F || n == 0x205F ||
    n == 0x3000

def trimBlanks (cs : List Char) : List Char :=
  ((cs.dropWhile isBlank).reverse.dropWhile isBlank).reverse

/-- The value of digits with single underscores between them, most significant digit first, on
top of the value `acc` of the digits before; `afterDigit` says that a digit came right before. -/
def groupedValue? (acc : Nat) (afterDigit : Bool) : List Char → Option Nat
  | [] => if afterDigit then some acc else none
  | c :: cs =>
    if c = '_' then
      if afterDigit then groupedValue? acc false cs else none
    else
      match digitValue? c with
      | some d => groupedValue? (10 * acc + d) true cs
      | none => none

def maxDigits : Nat := 4300

/-- Reads a whole number: blanks, an optional sign, digits of any script grouped by single
underscores, blanks. More than `maxDigits` digits are refused. -/
def wholeNumber? (s : String) : Option Int :=
  let body := trimBlanks s.toList
  let (negative, digits) :=
    match body with
    | '-' :: rest => (true, rest)
    | '+' :: rest => (false, rest)
    | rest => (false, rest)
  if maxDigits < (digits.filter (· != '_')).length then none
  else (groupedValue? 0 false digits).map fun n => if negative then -(n : Int) else n

/-- Whether the text looks like a negative number: a minus sign and then digits of any script,
or digits, a point and at least one digit. One line feed may follow. -/
def looksNegative (s : String) : Bool :=
  let cs := s.toList
  let body := if cs.getLast? = some '\n' then cs.dropLast else cs
  match body with
  | '-' :: rest =>
    let whole := rest.takeWhile (digitValue? · |>.isSome)
    match rest.drop whole.length with
    | [] => !whole.isEmpty
    | '.' :: fraction => !fraction.isEmpty && fraction.all (digitValue? · |>.isSome)
    | _ => false
  | _ => false

end RowBlock.Text
