import RowBlock.Csv.Column
import Mathlib.Data.List.Basic

set_option autoImplicit false

/-! # Lines of plain fields

A plain field holds digits and signs alone, and at least one of them. Nothing in it separates fields
or records, so lines of plain fields with commas between them are cut at exactly these commas and at the
ends of the lines, whichever of the three ends each line has and whether or not the last one has one
(`records_lines`). No plain field stands for a missing entry (`IsPlain.not_missing`).
-/

namespace RowBlock.Csv

/-! ## Plain fields

The words that stand for missing entries and the bytes that separate fields all contain something
other than digits and signs. For the words this is checked one by one. -/

def isPlainByte (b : UInt8) : Bool := isDigit b || b == 43 || b == 45

/-- **A plain field**: it has bytes, and all of them are digits or signs. -/
structure IsPlain (field : Field) : Prop where
  ne_nil : field ≠ []
  plain : ∀ b ∈ field, isPlainByte b = true

/-- A plain byte is nothing that separates fields, records or lines. -/
theorem ne_of_isPlainByte {b : UInt8} (h : isPlainByte b = true) :
    b ≠ comma ∧ b ≠ doubleQuote ∧ b ≠ lineFeed ∧ b ≠ carriageReturn ∧ isBlank b = false ∧
      b ≠ 0xEF := by
  simp only [isPlainByte, isDigit, isBlank, comma, doubleQuote, lineFeed, carriageReturn,
    Bool.and_eq_true, Bool.or_eq_true, beq_iff_eq, decide_eq_true_eq, UInt8.le_iff_toNat_le,
    Bool.or_eq_false_iff, beq_eq_false_iff_ne, ne_eq, ← UInt8.toNat_inj] at h ⊢
  simp only [UInt8.reduceToNat] at h ⊢
  omega

theorem IsPlain.exists_cons {field : Field} (h : IsPlain field) :
    ∃ b rest, field = b :: rest ∧ isPlainByte b = true := by
  obtain ⟨b, rest, rfl⟩ := List.exists_cons_of_ne_nil h.ne_nil
  exact ⟨b, rest, rfl, h.plain b (by simp)⟩

/-- A plain field does not stand for a missing entry: every word that does has a byte that is not
plain. -/
theorem IsPlain.not_missing {field : Field} (h : IsPlain field) : isMissing field = false := by
  have hwords : ∀ word ∈ missingWords, ∃ b ∈ Text.Utf8.encode word, isPlainByte b = false := by
    decide
  have hempty : field.isEmpty = false := by simp [h.ne_nil]
  rw [isMissing, hempty, Bool.false_or, List.any_eq_false]
  intro word hword heq
  obtain ⟨b, hb, hother⟩ := hwords word hword
  rw [beq_iff_eq.mp heq] at hb
  rw [h.plain b hb] at hother
  cases hother

/-! ## Lines

A carriage return and a line feed after it are one end of a line. A line feed of its own would end
an empty line, so what has to be shown is that the two are never taken apart and that no line feed
is taken from the line after. -/

inductive LineEnd where
  | feed
  | carriage
  | both
  deriving DecidableEq, Repr

def LineEnd.bytes : LineEnd → List UInt8
  | feed => [lineFeed]
  | carriage => [carriageReturn]
  | both => [carriageReturn, lineFeed]

def rowText (cells : List Field) : List UInt8 := List.intercalate [comma] cells

/-- **The bytes of lines**, each with its end, and of a last line without one, if there is such a
line. -/
def linesText (lines : List (List Field × LineEnd)) (last : Option (List Field)) : List UInt8 :=
  lines.flatMap (fun (cells, e) => rowText cells ++ e.bytes) ++ last.elim [] rowText

/-! ### One line -/

theorem Record.read_plainByte {place : Place} {b : UInt8}
    (hplace : place = .fieldStart ∨ place = .plain) (hb : isPlainByte b = true) (field : Field)
    (fields : List Field) (rest : List UInt8) :
    Record.read place field fields (b :: rest) = Record.read .plain (b :: field) fields rest := by
  obtain ⟨hcomma, hquote, hfeed, hreturn, -⟩ := ne_of_isPlainByte hb
  rw [Record.read.eq_def]
  rcases hplace with rfl | rfl <;> simp [hcomma, hquote, hfeed, hreturn]

/-- Plain bytes go on a field that is begun. -/
theorem Record.read_plainBytes {w : List UInt8} (hw : ∀ b ∈ w, isPlainByte b = true) (field : Field)
    (fields : List Field) (rest : List UInt8) : Record.read .plain field fields (w ++ rest)
      = Record.read .plain (w.reverse ++ field) fields rest := by
  induction w generalizing field with
  | nil => rfl
  | cons b w ih =>
      rw [List.cons_append, Record.read_plainByte (.inr rfl) (hw b (by simp)),
        ih fun x hx => hw x (by simp [hx])]
      simp

theorem Record.read_plain {field : Field} (h : IsPlain field) (fields : List Field)
    (rest : List UInt8) : Record.read .fieldStart [] fields (field ++ rest)
      = Record.read .plain field.reverse fields rest := by
  obtain ⟨b, w, rfl, hb⟩ := h.exists_cons
  rw [List.cons_append, Record.read_plainByte (.inl rfl) hb,
    Record.read_plainBytes fun x hx => h.plain x (by simp [hx])]
  simp

/-- Bytes that end the record whose last field is being read, and those that they leave. -/
def EndsRecord (tail rest : List UInt8) : Prop :=
  ∀ field fields, Record.read .plain field fields tail
    = ⟨(field.reverse :: fields).reverse, true, rest⟩

theorem endsRecord_nil : EndsRecord [] [] := fun _ _ => rfl

/-- Each end of a line ends the record, whatever other than a line feed comes next. -/
theorem LineEnd.endsRecord (e : LineEnd) {rest : List UInt8} (hrest : rest.head? ≠ some lineFeed) :
    EndsRecord (e.bytes ++ rest) rest := by
  intro field fields
  cases e with
  | feed => simp [bytes, Record.read, lineFeed]
  | carriage =>
      have hnext : afterReturn rest = rest := by
        cases rest with
        | nil => rfl
        | cons b rest => rw [afterReturn, if_neg fun hb => hrest (by rw [hb]; rfl)]
      simp [bytes, Record.read, lineFeed, carriageReturn, hnext]
  | both => simp [bytes, Record.read, afterReturn, lineFeed, carriageReturn]

/-- **A line** is read as its fields. -/
theorem Record.read_rowText {cells : List Field} (hne : cells ≠ [])
    (hcells : ∀ c ∈ cells, IsPlain c) {tail rest : List UInt8} (htail : EndsRecord tail rest)
    (fields : List Field) :
    Record.read .fieldStart [] fields (rowText cells ++ tail)
      = ⟨fields.reverse ++ cells, true, rest⟩ := by
  induction cells generalizing fields with
  | nil => exact absurd rfl hne
  | cons c cs ih =>
      have hc := hcells c (by simp)
      cases cs with
      | nil =>
          rw [rowText, List.intercalate_singleton, Record.read_plain hc, htail]
          simp
      | cons c' cs =>
          -- after the comma the line goes on with its other fields
          have hrow : rowText (c :: c' :: cs) ++ tail = c ++ comma :: (rowText (c' :: cs) ++ tail) := by
            simp [rowText]
          have hcomma (text : List UInt8) : Record.read .plain c.reverse fields (comma :: text)
              = Record.read .fieldStart [] (c :: fields) text := by
            rw [Record.read.eq_def]
            simp [comma, lineFeed, carriageReturn]
          rw [hrow, Record.read_plain hc, hcomma,
            ih (by simp) fun x hx => hcells x (by simp [hx])]
          simp

theorem exists_rowText {cells : List Field} (hne : cells ≠ []) (hcells : ∀ c ∈ cells, IsPlain c) :
    ∃ b rest, rowText cells = b :: rest ∧ isPlainByte b = true := by
  obtain ⟨c, cs, rfl⟩ := List.exists_cons_of_ne_nil hne
  obtain ⟨b, w, rfl, hb⟩ := (hcells c (by simp)).exists_cons
  cases cs with
  | nil => exact ⟨b, w, by simp [rowText], hb⟩
  | cons c' cs => exact ⟨b, _, by simp [rowText]; rfl, hb⟩

/-- A record begins at once at a plain byte. -/
theorem Lead.ofText_plainByte {b : UInt8} (hb : isPlainByte b = true) (rest : List UInt8) :
    Lead.ofText (b :: rest) = .record 0 (b :: rest) := by
  obtain ⟨-, -, hfeed, hreturn, hblank, -⟩ := ne_of_isPlainByte hb
  simp [Lead.ofText, Lead.skip, hfeed, hreturn, hblank]

/-- **A line is the next record**, as long as it has the width that is set. -/
theorem recordsFrom_rowText {cells : List Field} {width : Nat} (hwidth : 0 < width)
    (hlength : cells.length = width) (hcells : ∀ c ∈ cells, IsPlain c) {tail rest : List UInt8}
    (htail : EndsRecord tail rest) (count : Nat) {width? : Option Nat}
    (hset : width?.getD width = width) :
    recordsFrom count width? (rowText cells ++ tail)
      = (recordsFrom (count + 1) (some width) rest).map (cells :: ·) := by
  have hne : cells ≠ [] := List.ne_nil_of_length_pos (by omega)
  obtain ⟨b, w, hrow, hb⟩ := exists_rowText hne hcells
  have hlead : Lead.ofText (rowText cells ++ tail) = .record 0 (rowText cells ++ tail) := by
    rw [hrow, List.cons_append]
    exact Lead.ofText_plainByte hb _
  have hrecord : Record.ofText (rowText cells ++ tail) = ⟨cells, true, rest⟩ :=
    Record.read_rowText hne hcells htail []
  have hpad : pad width cells = cells := by simp [pad, hlength]
  rw [recordsFrom]
  split
  · rename_i hnone
    rw [hlead] at hnone
    cases hnone
  · rename_i skipped start hstart
    rw [hlead] at hstart
    cases hstart
    simp only [hrecord, hlength, hset, Bool.not_true, Bool.false_eq_true, if_false, Nat.lt_irrefl,
      Nat.add_zero, hpad]

/-! ### All lines -/

section

variable {lines : List (List Field × LineEnd)} {last : Option (List Field)} {width : Nat}

def PlainLines (width : Nat) (rows : List (List Field)) : Prop :=
  ∀ row ∈ rows, row.length = width ∧ ∀ c ∈ row, IsPlain c

/-- The text of lines is empty or begins with a plain byte. -/
theorem linesText_cases (hwidth : 0 < width)
    (hrows : PlainLines width (lines.map Prod.fst ++ last.toList)) :
    linesText lines last = [] ∨
      ∃ b rest, linesText lines last = b :: rest ∧ isPlainByte b = true := by
  have hfirst {cells : List Field} (hmem : cells ∈ lines.map Prod.fst ++ last.toList)
      (tail : List UInt8) : ∃ b rest, rowText cells ++ tail = b :: rest ∧ isPlainByte b = true := by
    obtain ⟨hlength, hcells⟩ := hrows cells hmem
    obtain ⟨b, w, hrow, hb⟩ := exists_rowText (List.ne_nil_of_length_pos (by omega)) hcells
    exact ⟨b, w ++ tail, by rw [hrow, List.cons_append], hb⟩
  cases lines with
  | cons head lines =>
      obtain ⟨cells, e⟩ := head
      have htext : linesText ((cells, e) :: lines) last
          = rowText cells ++ (e.bytes ++ linesText lines last) := by simp [linesText]
      rw [htext]
      exact .inr (hfirst (by simp) _)
  | nil =>
      cases last with
      | none => exact .inl rfl
      | some cells =>
          have htext : linesText [] (some cells) = rowText cells ++ [] := by simp [linesText]
          rw [htext]
          exact .inr (hfirst (by simp) [])

theorem head?_linesText (hwidth : 0 < width)
    (hrows : PlainLines width (lines.map Prod.fst ++ last.toList)) :
    (linesText lines last).head? ≠ some lineFeed := by
  rcases linesText_cases hwidth hrows with htext | ⟨b, rest, htext, hb⟩
  · simp [htext]
  · simp [htext, (ne_of_isPlainByte hb).2.2.1]

theorem recordsFrom_linesText (hwidth : 0 < width)
    (hrows : PlainLines width (lines.map Prod.fst ++ last.toList)) (count : Nat)
    {width? : Option Nat} (hset : width?.getD width = width) :
    recordsFrom count width? (linesText lines last) = .ok (lines.map Prod.fst ++ last.toList) := by
  induction lines generalizing count width? with
  | cons head lines ih =>
      obtain ⟨cells, e⟩ := head
      obtain ⟨hlength, hcells⟩ := hrows cells (by simp)
      have hrest : PlainLines width (lines.map Prod.fst ++ last.toList) := fun row hrow =>
        hrows row (by
          rw [List.map_cons, List.cons_append]
          exact List.mem_cons_of_mem _ hrow)
      have htext : linesText ((cells, e) :: lines) last
          = rowText cells ++ (e.bytes ++ linesText lines last) := by simp [linesText]
      rw [htext, recordsFrom_rowText hwidth hlength hcells
        (e.endsRecord (head?_linesText hwidth hrest)) count hset, ih hrest (count + 1) rfl]
      rfl
  | nil =>
      cases last with
      | none =>
          rw [recordsFrom]
          rfl
      | some cells =>
          obtain ⟨hlength, hcells⟩ := hrows cells (by simp)
          have htext : linesText [] (some cells) = rowText cells ++ [] := by simp [linesText]
          rw [htext, recordsFrom_rowText hwidth hlength hcells endsRecord_nil count hset, recordsFrom]
          rfl

/-- **Lines of plain fields**, all of one width, are the records of their text. -/
theorem records_lines (hwidth : 0 < width)
    (hrows : PlainLines width (lines.map Prod.fst ++ last.toList)) :
    records (linesText lines last) = .ok (lines.map Prod.fst ++ last.toList) := by
  have hmark : byteOrderMark.isPrefixOf (linesText lines last) = false := by
    rcases linesText_cases hwidth hrows with htext | ⟨b, rest, htext, hb⟩
    · rw [htext]
      rfl
    · have hne : b ≠ 0xEF := (ne_of_isPlainByte hb).2.2.2.2.2
      rw [htext, byteOrderMark]
      simp [List.isPrefixOf, Ne.symm hne]
  rw [records, hmark]
  exact recordsFrom_linesText hwidth hrows 0 rfl

end

end RowBlock.Csv
