set_option autoImplicit false

/-! # Records of a table

The bytes of a table are cut into records and the records into fields. A line feed, a carriage
return or both end a record and commas separate its fields; a field that opens with a double
quote runs to the closing one, and a doubled quote inside stands for one.

Between records, lines that are empty or hold only blanks are skipped, but counted
(`Lead.ofText`). A line that begins with blanks and goes on with anything else is a record, with
its blanks. A comma right behind the carriage return of a skipped line is skipped with it, unless
blanks come next.

The first record sets the number of fields. Shorter ones are filled up with empty fields, a
longer one is an error.
-/

namespace RowBlock.Csv

/-! ## Bytes

A field is kept as the bytes that stand in the file. What they mean is settled when the columns are
known, and bytes that are no text may still be skipped over or stand for a missing entry. -/

abbrev Field := List UInt8

def comma : UInt8 := 44
def doubleQuote : UInt8 := 34
def lineFeed : UInt8 := 10
def carriageReturn : UInt8 := 13

def isBlank (b : UInt8) : Bool := b == 32 || b == 9

/-! ## Between records

A line feed behind the carriage return of a skipped line belongs to it, and the reader has to
remember the start of the line it is in, because blanks count only if nothing else follows them on
the line. -/

/-- Where a reader between records stands: at the start of a line, after blanks at the start of
a line, or after the carriage return that ended a skipped line. -/
inductive Gap where
  | lineStart
  | blanks
  | afterReturn
  deriving DecidableEq, Repr

/-- What follows between records: no further record, or a record at the start of the given
bytes after some skipped lines. -/
inductive Lead where
  | nothing
  | record (skipped : Nat) (start : List UInt8)
  deriving DecidableEq, Repr

/-- Skips blank lines. The line that the reader is in begins at `line`: a record starts there if
it turns out to have begun with blanks. -/
def Lead.skip (gap : Gap) (skipped : Nat) (line : List UInt8) : List UInt8 → Lead
  | [] => .nothing
  | b :: rest =>
    if gap = .afterReturn ∧ b = lineFeed then Lead.skip .lineStart skipped rest rest
    else if gap = .afterReturn ∧ b = comma then Lead.skip .lineStart skipped line rest
    else if b = lineFeed then Lead.skip .lineStart (skipped + 1) rest rest
    else if b = carriageReturn then Lead.skip .afterReturn (skipped + 1) rest rest
    else if isBlank b then Lead.skip .blanks skipped line rest
    else if gap = .blanks then .record skipped line
    else .record skipped (b :: rest)

def Lead.ofText (text : List UInt8) : Lead := Lead.skip .lineStart 0 text text

/-! ## Inside a record

The reader is a machine with four places. A quote opens a quoted field only at its start; a quote in
the middle of a plain field is a character like any other. After the closing quote a field goes on
as a plain one. -/

/-- Where a reader inside a record stands: at the start of a field, in a plain field, in a
quoted one, or after a quote in a quoted one. -/
inductive Place where
  | fieldStart
  | plain
  | quoted
  | quoteSeen
  deriving DecidableEq, Repr

/-- A record and the bytes after it; `closed` tells that no quoted field was left open. -/
structure Record where
  fields : List Field
  closed : Bool
  rest : List UInt8
  deriving DecidableEq, Repr

def afterReturn : List UInt8 → List UInt8
  | [] => []
  | b :: rest => if b = lineFeed then rest else b :: rest

/-- Reads a record: `field` holds the bytes of the current field and `fields` the fields before
it, both last first. -/
def Record.read (place : Place) (field : Field) (fields : List Field) : List UInt8 → Record
  | [] => ⟨(field.reverse :: fields).reverse, place ≠ .quoted, []⟩
  | b :: rest =>
    if place = .quoted then
      if b = doubleQuote then Record.read .quoteSeen field fields rest
      else Record.read .quoted (b :: field) fields rest
    else if b = lineFeed then ⟨(field.reverse :: fields).reverse, true, rest⟩
    else if b = carriageReturn then ⟨(field.reverse :: fields).reverse, true, afterReturn rest⟩
    else if b = comma then Record.read .fieldStart [] (field.reverse :: fields) rest
    else if b = doubleQuote ∧ place = .fieldStart then Record.read .quoted field fields rest
    else if b = doubleQuote ∧ place = .quoteSeen then
      Record.read .quoted (b :: field) fields rest
    else Record.read .plain (b :: field) fields rest

def Record.ofText (text : List UInt8) : Record := Record.read .fieldStart [] [] text

/-! ## Lengths

Every record takes at least one byte of the text, whatever was skipped before it. This is what the
recursion over all records goes down by. -/

/-- A record starts no earlier than the line the reader is in, and not at the end. -/
theorem Lead.skip_length {gap : Gap} {n k : Nat} {line text start : List UInt8}
    (hline : text.length ≤ line.length) (h : Lead.skip gap n line text = .record k start) :
    0 < start.length ∧ start.length ≤ line.length := by
  induction text generalizing gap n line with
  | nil => simp [Lead.skip] at h
  | cons b rest ih =>
    have hrest : rest.length ≤ line.length := Nat.le_trans (Nat.le_succ _) hline
    simp only [List.length_cons] at hline
    unfold Lead.skip at h
    split at h
    · have := ih (Nat.le_refl _) h
      omega
    · split at h
      · exact ih hrest h
      · split at h
        · have := ih (Nat.le_refl _) h
          omega
        · split at h
          · have := ih (Nat.le_refl _) h
            omega
          · split at h
            · exact ih hrest h
            · split at h
              · cases h
                omega
              · cases h
                simp only [List.length_cons]
                omega

/-- A record of a text starts no earlier than the text, and not at its end. -/
theorem Lead.ofText_length {text start : List UInt8} {k : Nat}
    (h : Lead.ofText text = .record k start) :
    0 < start.length ∧ start.length ≤ text.length :=
  Lead.skip_length (Nat.le_refl _) h

theorem afterReturn_length (text : List UInt8) : (afterReturn text).length ≤ text.length := by
  cases text with
  | nil => exact Nat.le_refl _
  | cons b rest =>
    simp only [afterReturn]
    split
    · exact Nat.le_succ _
    · exact Nat.le_refl _

/-- Reading a record uses up at least one byte, if there is one. -/
theorem Record.read_length (place : Place) (field : Field) (fields : List Field)
    (text : List UInt8) : (Record.read place field fields text).rest.length ≤ text.length - 1 := by
  induction text generalizing place field fields with
  | nil => simp [Record.read]
  | cons b rest ih =>
    have step := fun p f fs => Nat.le_trans (ih p f fs) (Nat.sub_le rest.length 1)
    have skip := afterReturn_length rest
    unfold Record.read
    simp only [List.length_cons, Nat.add_sub_cancel]
    repeat' split
    all_goals first | exact step _ _ _ | exact skip | exact Nat.le_refl _

/-! ## All records

The number of fields is fixed by the first record. Errors name the line by its number in the file,
in which skipped lines count. -/

inductive RecordError where
  | tooLong (expected line found : Nat)
  | openQuote (line : Nat)
  deriving DecidableEq, Repr

def pad (width : Nat) (fields : List Field) : List Field :=
  fields ++ List.replicate (width - fields.length) []

/-- The records of a text after `lines` lines; `width?` is the number of fields of the first
record, once there is one. -/
def recordsFrom (lines : Nat) (width? : Option Nat) (text : List UInt8) :
    Except RecordError (List (List Field)) :=
  match h : Lead.ofText text with
  | .nothing => .ok []
  | .record skipped start =>
    let record := Record.ofText start
    if !record.closed then .error (.openQuote (lines + skipped))
    else
      let line := lines + skipped + 1
      let width := width?.getD record.fields.length
      if width < record.fields.length then
        .error (.tooLong width line record.fields.length)
      else
        have : record.rest.length < text.length := by
          have hstart := Lead.ofText_length h
          have hrest : record.rest.length ≤ start.length - 1 :=
            Record.read_length .fieldStart [] [] start
          omega
        (recordsFrom line (some width) record.rest).map (pad width record.fields :: ·)
termination_by text.length

def byteOrderMark : List UInt8 := [0xEF, 0xBB, 0xBF]

/-- **The records of a file**, all with the same number of fields. -/
def records (bytes : List UInt8) : Except RecordError (List (List Field)) :=
  recordsFrom 0 none
    (if byteOrderMark.isPrefixOf bytes then bytes.drop byteOrderMark.length else bytes)

end RowBlock.Csv
