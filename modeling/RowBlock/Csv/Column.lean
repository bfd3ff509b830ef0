import RowBlock.Cell
import RowBlock.Csv.Records
import RowBlock.Text.Utf8

set_option autoImplicit false

/-! # Columns of a table

A column is read as a whole. Its fields are `int64` integers if all of them can be; if the
first field that is none is an integer too large for that type, the column is tried as `uint64`;
failing both it holds floating point numbers, truth values or texts.

The empty field and a few words stand for a missing entry, which takes no part in this. There is
one exception: an integer above `int64` next to a minus sign or a missing entry leaves the column
as it is written, and its words are texts like the others.
-/

namespace RowBlock.Csv

/-! ## Missing entries -/

def missingWords : List String :=
  ["-1.#IND", "1.#QNAN", "1.#IND", "-1.#QNAN", "#N/A N/A", "#N/A", "N/A", "n/a", "NA", "<NA>",
    "#NA", "NULL", "null", "NaN", "-NaN", "nan", "-nan", "None"]

def isMissing (field : Field) : Bool :=
  field.isEmpty || missingWords.any fun word => Text.Utf8.encode word == field

def present (fields : List Field) : List Field := fields.filter (!isMissing ·)

/-! ## Integers

White space may stand around an integer, and a sign before its digits. A field reads as a value, as
an integer that is too large, or as none at all, and the three lead on differently: the first field
of a column that is no value decides what is tried next. -/

def isSpace (b : UInt8) : Bool := b == 32 || (9 ≤ b && b ≤ 13)

def isDigit (b : UInt8) : Bool := 48 ≤ b && b ≤ 57

def digitsValue (digits : List UInt8) : Nat :=
  digits.foldl (fun n b => 10 * n + (b.toNat - 48)) 0

/-- What a field is for an integer type: a value, an integer the type does not have, or no
integer. -/
inductive Reading where
  | value (n : Int)
  | overflow
  | invalid
  deriving DecidableEq, Repr

/-- Reads an integer of a type: white space, an optional sign, digits, white space. -/
def readInt (type : IntType) (field : Field) : Reading :=
  let body := field.dropWhile isSpace
  let (negative, body) :=
    match body with
    | 45 :: rest => (true, rest)
    | 43 :: rest => (false, rest)
    | rest => (false, rest)
  let digits := body.takeWhile isDigit
  let n : Int := if negative then -(digitsValue digits : Int) else digitsValue digits
  if digits.isEmpty ∨ ¬(body.dropWhile isDigit).all isSpace then .invalid
  else if type.Holds n then .value n
  else .overflow

/-- The values of fields as integers of a type, up to the first field that is none. -/
def readInts (read : Field → Reading) : List Field → Reading ⊕ List Int
  | [] => .inr []
  | field :: fields =>
    match read field with
    | .value n =>
      match readInts read fields with
      | .inr ns => .inr (n :: ns)
      | failed => failed
    | other => .inl other

/-! ## Unsigned integers and numbers

Whether a field is a number is decided here, but not its value: a column of numbers is refused by
the reader of matrices, and only the name of its type is shown. -/

def isNegative (field : Field) : Bool := (field.dropWhile isSpace).head? == some 45

/-- Reads an unsigned field; one with a minus sign is noticed elsewhere and passes here. -/
def readNatural (field : Field) : Reading :=
  if isNegative field then .value 0 else readInt .uint64 field

def dropSign : List UInt8 → List UInt8
  | b :: rest => if b = 45 || b = 43 then rest else b :: rest
  | [] => []

/-- The exponent of a decimal, then white space: nothing, or the letter, a sign and digits. -/
def isExponent : List UInt8 → Bool
  | b :: rest =>
    if b = 101 || b = 69 then
      let body := dropSign rest
      !(body.takeWhile isDigit).isEmpty && (body.dropWhile isDigit).all isSpace
    else (b :: rest).all isSpace
  | [] => true

def lower (field : Field) : Field :=
  field.map fun b => if 65 ≤ b && b ≤ 90 then b + 32 else b

def isWord (field : Field) (words : List String) : Bool :=
  words.any fun word => Text.Utf8.encode word == lower field

/-- Whether a field is a floating point number: a decimal or a name of infinity. -/
def isNumber (field : Field) : Bool :=
  let body := dropSign (field.dropWhile isSpace)
  let whole := body.takeWhile isDigit
  let (fraction, rest) :=
    match body.dropWhile isDigit with
    | 46 :: more => (more.takeWhile isDigit, more.dropWhile isDigit)
    | rest => ([], rest)
  (!(whole.isEmpty && fraction.isEmpty) && isExponent rest) ||
    isWord (dropSign field) ["inf", "infinity"]

/-! ## Columns

A column is typed by a cascade of attempts, each over all of its fields: `int64`, `uint64`, numbers,
truth values, texts. The words of missing entries are left out of the attempts but may change what
comes of them. -/

/-- What a column holds. Texts may be `verbatim`: no field of theirs stands for a missing
entry. -/
inductive Column where
  | integers (values : List Int)
  | naturals (values : List Int)
  | numbers
  | truths
  | texts (verbatim : Bool)
  deriving DecidableEq, Repr

def plainColumn (fields : List Field) : Column :=
  if fields.all isNumber then .numbers
  else if fields.all (isWord · ["true", "false"]) then .truths
  else .texts false

/-- A column whose first non-`int64` field is an integer out of range. It is unsigned if no field
has a minus sign and none is missing, and text if one of these or another overflow stands in the
way. -/
def unsignedColumn (fields : List Field) : Column :=
  match readInts readNatural (present fields) with
  | .inl .overflow => .texts false
  | .inl _ => plainColumn (present fields)
  | .inr values =>
    let negative := (present fields).any isNegative
    if values.any (¬IntType.int64.Holds ·) ∧ (negative ∨ fields.any isMissing) then .texts true
    else if negative then .texts false
    else .naturals values

/-- **The column** of its fields. -/
def Column.ofFields (fields : List Field) : Column :=
  match readInts (readInt .int64) (present fields) with
  | .inr values => .integers values
  | .inl .overflow => unsignedColumn fields
  | .inl _ => plainColumn (present fields)

/-! ## The table as a whole

The columns of a table become one matrix, whose type covers the types of all columns. There is none
as soon as a column holds texts, or holds truth values beside anything else. -/

/-- The cell type of a column's entries; texts have none. -/
def Column.type? : Column → Option CellType
  | integers _ => some (.int .int64)
  | naturals _ => some (.int .uint64)
  | numbers => some (.float .double)
  | truths => some .bool
  | texts _ => none

def Column.values : Column → List Int
  | integers values | naturals values => values
  | _ => []

/-- The cell type that covers all columns. Truth values mix with nothing else, and texts have
no type. -/
def commonType? : List Column → Option CellType
  | [] => none
  | [c] => c.type?
  | c :: cs => do
    let s ← c.type?
    let t ← commonType? cs
    if s = t then some s
    else if s = .bool ∨ t = .bool then none
    else some (s.promote t)

def Column.lacks (column : Column) (fields : List Field) : Bool :=
  match column with
  | .texts true => false
  | _ => fields.any isMissing

/-- The first fault of a text in a column that holds texts. -/
def Column.fault? (column : Column) (fields : List Field) : Option Text.Utf8.Fault :=
  match column with
  | .texts _ => fields.findSome? Text.Utf8.fault?
  | _ => none

end RowBlock.Csv
