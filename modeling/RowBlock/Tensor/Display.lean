import RowBlock.Decimal.Aligned
import RowBlock.Tensor

set_option autoImplicit false

/-! # Tensors as text

A tensor inside other text is written in nested brackets, its cells made equally long so that
columns line up. The cells of the last axis fill lines of limited width; each further axis puts
one more line feed between its items. Of a tensor with many cells only the three first and last
items of each axis are shown.
-/

namespace RowBlock.Tensor

def lineWidth : Nat := 75

def fullSize : Nat := 1000

def edge : Nat := 3

def ellipsis : String := "..."

/-! ## Which items are shown

An axis is shortened only if the tensor as a whole has more cells than `fullSize`, and then only if
it has more items than the two edges together. The widths below are those of the cells shown, not of
all. -/

/-- The items shown of an axis, `none` for those left out. -/
def shownItems (short : Bool) (n : Nat) : List (Option Nat) :=
  if short && decide (2 * edge < n) then
    (List.range edge).map some ++ [none] ++ (List.range edge).map fun i => some (n - edge + i)
  else (List.range n).map some

def shownPlaces (short : Bool) : List Nat → Nat → List Nat
  | [], start => [start]
  | n :: axes, start =>
    (shownItems short n).flatMap fun item? =>
      match item? with
      | some i => shownPlaces short axes (start + i * axes.prod)
      | none => []

/-! ## Cells

Cells of floating point types share one style, which the values shown decide together, and all cells
are padded to the longest one. -/

/-- A cell as text of its own; truth values fill the same room beside others. -/
def bareCell (type : CellType) (words : List Int) (inside : Bool) : Int → String :=
  match type with
  | .int _ => fun word => toString word
  | .float t =>
    let value (word : Int) := (CellType.floatValue word).narrow t.format
    let style := Decimal.Style.ofValues t.format (words.map value)
    fun word => style.text (value word)
  | .bool => fun word => if inside && word != 0 then " True" else Text.truth (word != 0)

def alignedCell (type : CellType) (words : List Int) (inside : Bool) (word : Int) : String :=
  let bare := bareCell type words inside
  let width := words.foldl (fun n w => max n (bare w).length) 0
  Text.alignRight width (bare word)

/-! ## Brackets

The recursion is on the shape. The last axis is filled into lines; an axis before it puts its items
below each other, separated by as many line feeds as axes follow. Both the width that is left and
the indentation change by one with each bracket. -/

/-- Words put one after the other into lines of a width. A new line starts with `indent` blanks,
and where a word would not fit, unless it is the first one of its line. -/
def fillLines (comma : String) (width indent : Nat) (line : String) : List String → String
  | [] => line
  | word :: rest =>
    let word' := if rest.isEmpty then word else word ++ comma ++ " "
    if width < line.length + word.length && decide (indent < line.length) then
      Text.trimRight line ++ "\n" ++
        fillLines comma width indent (Text.blanks indent ++ word') rest
    else fillLines comma width indent (line ++ word') rest

/-- The part of a tensor from a place on in nested brackets. The cells are given by place, and a
comma may follow each item. -/
def nested (comma : String) (short : Bool) (cell : Nat → String) (width indent : Nat) :
    List Nat → Nat → String
  | [], start => cell start
  | [n], start =>
    let words := (shownItems short n).map fun item? =>
      (item?.map fun i => cell (start + i)).getD ellipsis
    let lines := fillLines comma (width - 1) indent (Text.blanks indent) words
    "[" ++ String.ofList (lines.toList.drop indent) ++ "]"
  | n :: axes, start =>
    let items := (shownItems short n).map fun item? =>
      (item?.map fun i =>
        nested comma short cell (width - 1) (indent + 1) axes (start + i * axes.prod)).getD
        ellipsis
    let feeds := String.ofList (List.replicate axes.length '\n')
    "[" ++ String.intercalate (comma ++ feeds ++ Text.blanks indent) items ++ "]"

/-- The whole tensor in brackets, within lines of a width, the first of which holds `used`
characters already. -/
def bracketed (t : Tensor) (comma : String) (width used : Nat) : String :=
  if t.shape.prod = 0 then "[]"
  else
    let short := decide (fullSize < t.shape.prod)
    let words := (shownPlaces short t.shape 0).map t.word
    let cell := alignedCell t.type words (t.rank != 0)
    nested comma short (fun i => cell (t.word i)) width (used + 1) t.shape 0

/-! ## The whole text

There are two forms, one for a text of its own and one for an item of a listing, which has to be
readable as an expression and therefore says what its brackets leave open. -/

/-- **A tensor as text**: `[1 2]`. One without axes is its cell. -/
def display (t : Tensor) : String :=
  if t.rank = 0 then cellText t.type (t.word 0) else t.bracketed "" lineWidth 0

/-- What the brackets of a tensor do not tell: its shape where cells are missing or left out,
and its type where that is not the plain one. -/
def untold (t : Tensor) : List String :=
  let size := t.shape.prod
  let plain := t.type == .int .int64 || t.type == .float .double || t.type == .bool
  (if (size = 0 ∧ t.shape ≠ [0]) ∨ fullSize < size then ["shape=" ++ shapeText t.shape] else [])
    ++ if plain && size != 0 then [] else ["dtype=" ++ t.type.name]

/-- **A tensor as an item** of a listing: `array([1, 2])`. What its brackets do not tell follows
them, on a line of its own where it does not fit. -/
def listed (t : Tensor) : String :=
  let opening := "array("
  let body := opening ++ t.bracketed "," (lineWidth - 1) opening.length
  match t.untold with
  | [] => body ++ ")"
  | facts =>
    let body := body ++ ","
    let extra := String.intercalate ", " facts ++ ")"
    let last := (body.toList.reverse.takeWhile (· != '\n')).length
    let gap := if lineWidth < last + extra.length + 1 then
      "\n" ++ Text.blanks opening.length else " "
    body ++ gap ++ extra

end RowBlock.Tensor
