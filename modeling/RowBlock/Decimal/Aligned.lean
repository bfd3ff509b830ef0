import RowBlock.Decimal.Shortest
import RowBlock.Text.Listing

set_option autoImplicit false

/-! # Numbers in a column

Numbers shown together are written alike: all positional, or all with exponents when they are
very large, very small or far apart (`needsExponents`). A number has at most eight places
behind its point. Positional numbers end in blanks where others have more places. Numbers with
exponents all have as many digits as the longest of them needs; those that need fewer go on with
the digits of their exact values. All are moved to the right until their points stand below each
other.
-/

namespace RowBlock.Decimal

/-! ## Figures

A magnitude is counted in units of its last place before it is written. The count is that of the
shortest decimal if this has no more places than there is room for; if it has more, the exact value
is rounded to the last place, which may differ from rounding the shortest decimal. -/

def maxPlaces : Nat := 8

/-- A magnitude ready to be written: the number before the point, the digits behind it, and the
exponent of ten the whole is scaled by. -/
structure Figures where
  whole : Nat
  fraction : List Char
  exponent : Int
  deriving DecidableEq, Repr

def trimZeros (digits : List Char) : List Char :=
  (digits.reverse.dropWhile (· == '0')).reverse

/-- The figures of a number of units of `10 ^ -places`. -/
def Figures.ofUnits (places units : Nat) (exponent : Int) : Figures :=
  let digits := Text.zeroPadded places (units % 10 ^ places)
  ⟨units / 10 ^ places, trimZeros digits.toList, exponent⟩

/-- A positive number in units of `10 ^ place`: its shortest decimal where that fits, and
otherwise the number itself, rounded. -/
def unitsAt (f : Format) (m : Nat) (e place : Int) : Nat :=
  let (d, last) := shortest f m e
  if place ≤ last then d * 10 ^ (last - place).toNat
  else (Neighbourhood.of f m e).nearest place

/-- A positive number in units of `10 ^ place`, whether fewer digits read back or not. -/
def allUnitsAt (f : Format) (m : Nat) (e place : Int) : Nat :=
  let n := Neighbourhood.of f m e
  (n.onGrid? place).getD (n.nearest place)

/-- The figures of a number written positionally. -/
def Figures.positional (f : Format) (m : Nat) (e : Int) : Figures :=
  if m = 0 then ⟨0, [], 0⟩ else .ofUnits maxPlaces (unitsAt f m e (-maxPlaces)) 0

/-- The figures of a number written with an exponent: one digit stands before the point, and
the units of its last place are counted. -/
def Figures.scientific (count : Nat → Int → Int → Nat) (places m : Nat) (e : Int) : Figures :=
  if m = 0 then ⟨0, [], 0⟩
  else
    let (num, den) := quotient m e
    let top := floorLog10 num den
    let units := count m e (top - places)
    if units = 10 ^ (places + 1) then .ofUnits places (10 ^ places) (top + 1)
    else .ofUnits places units top

/-! ## The style of a column

The numbers shown decide together whether exponents are used and how many places there are. Zero,
infinity and the undefined value have no say in it. -/

/-- How the numbers of a column are written: with exponents of at least that many digits or
without, and with how many places. -/
structure Style where
  format : Format
  exponentDigits? : Option Nat
  places : Nat
  deriving DecidableEq, Repr

def exceeds (v : Value) (n : Nat) : Bool :=
  match v with
  | .finite negative m e =>
    let (num, den) := quotient m e
    !negative && n * den < num
  | .infinite negative => !negative
  | .nan => false

/-- **Very large, very small or far apart**: whether positive quotients are written with
exponents. Formats of few digits call a number large earlier, and the bounds are rounded to the
format. -/
def needsExponents (f : Format) (quotients : List (Nat × Nat)) : Bool :=
  let least := quotients.foldl
    (fun best q => if q.1 * best.2 < best.1 * q.2 then q else best) (quotients.headD (1, 1))
  let greatest := quotients.foldl
    (fun best q => if best.1 * q.2 < q.1 * best.2 then q else best) (quotients.headD (1, 1))
  let small :=
    match f.round false 1 10000 with
    | .finite _ m e => quotient m e
    | _ => (0, 1)
  let limit := 10 ^ min maxPlaces f.wholeDigits
  limit * greatest.2 ≤ greatest.1 || least.1 * small.2 < small.1 * least.2 ||
    exceeds (f.round false (greatest.1 * least.2) (greatest.2 * least.1)) 1000

def finiteParts (values : List Value) : List (Nat × Int) :=
  values.filterMap fun v =>
    match v with
    | .finite _ m e => some (m, e)
    | _ => none

def Style.ofValues (f : Format) (values : List Value) : Style :=
  let parts := finiteParts values
  let nonzero := (parts.filter (·.1 != 0)).map fun (m, e) => quotient m e
  let exponents := needsExponents f nonzero
  let figures := parts.map fun (m, e) =>
    if exponents then Figures.scientific (unitsAt f) maxPlaces m e else Figures.positional f m e
  let places := figures.foldl (fun n x => max n x.fraction.length) 0
  let digits := figures.foldl (fun n x => max n (digitCount x.exponent.natAbs)) 2
  ⟨f, if exponents then some digits else none, places⟩

def Style.text (s : Style) : Value → String
  | .nan => "nan"
  | .infinite negative => if negative then "-inf" else "inf"
  | .finite negative m e =>
    let sign := if negative then "-" else ""
    let filled (x : Figures) (filler : Char) : String :=
      let missing := List.replicate (s.places - x.fraction.length) filler
      sign ++ toString x.whole ++ "." ++ String.ofList (x.fraction ++ missing)
    match s.exponentDigits? with
    | none => filled (.positional s.format m e) ' '
    | some digits =>
      let x := Figures.scientific (allUnitsAt s.format) s.places m e
      filled x '0' ++ "e" ++ (if x.exponent < 0 then "-" else "+") ++
        Text.zeroPadded digits x.exponent.natAbs

end RowBlock.Decimal
