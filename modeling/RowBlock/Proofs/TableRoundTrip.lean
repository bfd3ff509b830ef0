import RowBlock.Proofs.Numerals
import RowBlock.Proofs.Wrapping

set_option autoImplicit false

/-! # A written table is read back

A matrix of integers that is written as a table is read back cell by cell (`Csv.read_of_write`). The
field of an integer is its decimal text, which is a numeral of that value (`field_intNumeral`,
`value_intNumeral`), and each row ends with a line feed, so what is written is a table of numerals and is
read as one.
-/

namespace RowBlock.Csv

/-! ## Text as bytes

A table is written as text and read as bytes. The encoding goes through joining, so it is enough to
know the bytes of a cell. -/

theorem encode_append (s t : String) :
    Text.Utf8.encode (s ++ t) = Text.Utf8.encode s ++ Text.Utf8.encode t := by
  simp [Text.Utf8.encode]

theorem encode_intercalate (separator : String) (cells : List String) :
    Text.Utf8.encode (String.intercalate separator cells)
      = List.intercalate (Text.Utf8.encode separator) (cells.map Text.Utf8.encode) := by
  induction cells with
  | nil => rfl
  | cons c cs ih =>
      cases cs with
      | nil => simp
      | cons c' cs =>
          rw [String.intercalate_cons_cons, encode_append, encode_append, ih, List.map_cons,
            List.map_cons, List.map_cons, List.intercalate_cons_cons]

theorem encode_join (lines : List String) :
    Text.Utf8.encode (String.join lines) = lines.flatMap Text.Utf8.encode := by
  induction lines with
  | nil => rfl
  | cons l ls ih => rw [String.join_cons, encode_append, ih, List.flatMap_cons]

/-! ## Decimal fields

Printed integers are numerals: digits without leading zeros, perhaps after a minus sign. The theory
of numerals then says what is read. -/

def digits (n : Nat) : Field := (Nat.toDigits 10 n).map fun c => UInt8.ofNat c.toNat

/-- The field of an integer. -/
def intField (n : Int) : Field := Text.Utf8.encode (toString n)

theorem toNat_of_isDigit {c : Char} (h : c.isDigit = true) :
    48 ≤ c.toNat ∧ c.toNat ≤ 57 ∧ (UInt8.ofNat c.toNat).toNat = c.toNat := by
  simp only [Char.isDigit, Bool.and_eq_true, decide_eq_true_eq, UInt32.le_iff_toNat_le] at h
  have hlow : 48 ≤ c.toNat := h.1
  have hhigh : c.toNat ≤ 57 := h.2
  exact ⟨hlow, hhigh, by rw [UInt8.toNat_ofNat']; omega⟩

theorem digitsValue_digits (n : Nat) : digitsValue (digits n) = n := by
  have hbytes : ∀ (cs : List Char) (acc : Nat), (∀ c ∈ cs, c.isDigit = true) →
      (cs.map fun c => UInt8.ofNat c.toNat).foldl (fun n b => 10 * n + (b.toNat - 48)) acc
        = Nat.ofDigitChars 10 cs acc := by
    intro cs
    induction cs with
    | nil => intros; rfl
    | cons c cs ih =>
        intro acc hall
        obtain ⟨-, -, hbyte⟩ := toNat_of_isDigit (hall c (by simp))
        rw [List.map_cons, List.foldl_cons, hbyte, ih _ fun x hx => hall x (by simp [hx])]
        rfl
  rw [digitsValue, digits, hbytes _ _ fun c hc =>
    Nat.isDigit_of_mem_toDigits (by decide) (by decide) hc, Nat.ofDigitChars_ten_toDigits]

theorem encode_digits (n : Nat) : Text.Utf8.encode (Nat.repr n) = digits n := by
  rw [Text.Utf8.encode, Nat.repr_eq_ofList_toDigits, String.toList_ofList, digits,
    List.map_eq_flatMap]
  refine List.flatMap_congr fun c hc => ?_
  obtain ⟨-, hhigh, -⟩ :=
    toNat_of_isDigit (Nat.isDigit_of_mem_toDigits (b := 10) (by decide) (by decide) hc)
  have hle : c.val.toNat ≤ 0x7f := by
    have : c.val.toNat = c.toNat := rfl
    omega
  simp only [String.utf8EncodeChar, if_pos hle]
  rfl

/-- **The numeral of an integer**. -/
def intNumeral (n : Int) : Numeral where
  sign? := if n < 0 then some .minus else none
  digits := (Nat.toDigits 10 n.natAbs).map fun c => ⟨(c.toNat - 48) % 10, Nat.mod_lt _ (by decide)⟩
  digits_ne_nil := by simp [Nat.toDigits_ne_nil]

theorem map_digitByte_intNumeral (n : Int) :
    (intNumeral n).digits.map digitByte = digits n.natAbs := by
  rw [intNumeral, digits, List.map_map]
  refine List.map_congr_left fun c hc => ?_
  obtain ⟨hlow, hhigh, -⟩ :=
    toNat_of_isDigit (Nat.isDigit_of_mem_toDigits (by decide) (by decide) hc)
  have hdigit : (c.toNat - 48) % 10 = c.toNat - 48 := Nat.mod_eq_of_lt (by omega)
  simp only [Function.comp_apply, digitByte, hdigit]
  rw [Nat.add_sub_cancel' hlow]

/-- **The field of an integer** is its digits, after a minus sign if it is negative. -/
theorem field_intNumeral (n : Int) : (intNumeral n).field = intField n := by
  rw [Numeral.field, map_digitByte_intNumeral]
  cases n with
  | ofNat k => exact (encode_digits k).symm
  | negSucc k =>
      have hsign : (intNumeral (Int.negSucc k)).sign? = some .minus := if_pos (Int.negSucc_lt_zero k)
      rw [hsign]
      show 45 :: digits (k + 1) = Text.Utf8.encode ("-" ++ Nat.repr (k + 1))
      rw [encode_append, encode_digits]
      rfl

theorem value_intNumeral (n : Int) : (intNumeral n).value = n := by
  have hmagnitude : (intNumeral n).magnitude = n.natAbs := by
    rw [Numeral.magnitude, ← digitsValue_map_digitByte, map_digitByte_intNumeral, digitsValue_digits]
  rw [Numeral.value, hmagnitude]
  by_cases hn : n < 0
  · rw [if_pos (by simp [intNumeral, hn])]
    omega
  · rw [if_neg (by simp [intNumeral, hn])]
    omega

theorem intField_ne_nil (n : Int) : intField n ≠ [] := by
  rw [← field_intNumeral]
  exact (isPlain_field _).ne_nil

/-! ## Tables

A table with rows and columns is read back. One without rows is empty text, in which no columns can
be found, and one without columns consists of blank lines. -/

def rowBytes (cells : List Field) : List UInt8 := List.intercalate [comma] cells ++ [lineFeed]

/-- The fields of a table of integers. -/
def tableFields (rows cols : Nat) (cell : Nat → Nat → Int) : List (List Field) :=
  (List.range rows).map fun i => (List.range cols).map fun j => intField (cell i j)

theorem encode_line (ns : List Int) :
    Text.Utf8.encode (line (ns.map toString)) = rowBytes (ns.map intField) := by
  have hline : line (ns.map toString) = String.intercalate "," (ns.map toString) ++ "\n" := by
    unfold line
    split
    · -- no integer has an empty field
      rename_i hblank
      obtain ⟨n, -, hn⟩ := List.mem_map.mp (show "" ∈ ns.map toString by rw [hblank]; simp)
      exact absurd (show intField n = [] by rw [intField, hn]; rfl) (intField_ne_nil n)
    · rfl
  rw [hline, encode_append, encode_intercalate, List.map_map]
  rfl

/-- **A matrix of integers is written** as the table of their fields. -/
theorem write_eq {t : Tensor} {type : IntType} {rows cols : Nat} (ht : t.IsMatrix type rows cols) :
    ∃ text, write t = .ok text ∧
      Text.Utf8.encode text = (tableFields rows cols t.entry).flatMap rowBytes := by
  have hcell (i j : Nat) : cellText t.type (t.word (i * cols + j)) = toString (t.entry i j) := by
    rw [ht.type_eq, Tensor.entry, ht.cols_eq]
    rfl
  refine ⟨_, by rw [write, ht.shape_eq], ?_⟩
  rw [encode_join, tableFields, List.flatMap_map, List.flatMap_map]
  refine List.flatMap_congr fun i _ => ?_
  simp only [hcell]
  have hline := encode_line ((List.range cols).map (t.entry i))
  rw [List.map_map, List.map_map] at hline
  exact hline

section

variable {rows cols : Nat} {cell : Nat → Nat → Int}

def tableNumerals (rows cols : Nat) (cell : Nat → Nat → Int) : List (List Numeral) :=
  (List.range rows).map fun i => (List.range cols).map fun j => intNumeral (cell i j)

theorem length_of_mem_tableNumerals : ∀ row ∈ tableNumerals rows cols cell, row.length = cols := by
  intro row hrow
  obtain ⟨i, -, rfl⟩ := List.mem_map.mp hrow
  simp

theorem map_field_tableNumerals : (tableNumerals rows cols cell).map (List.map Numeral.field)
    = tableFields rows cols cell := by
  simp [tableNumerals, tableFields, field_intNumeral, Function.comp_def]

theorem forall_tableNumerals {P : Int → Prop} (hP : ∀ i < rows, ∀ j < cols, P (cell i j)) :
    ∀ row ∈ tableNumerals rows cols cell, ∀ w ∈ row, P w.value := by
  intro row hrow w hw
  obtain ⟨i, hi, rfl⟩ := List.mem_map.mp hrow
  obtain ⟨j, hj, rfl⟩ := List.mem_map.mp hw
  rw [value_intNumeral]
  exact hP i (List.mem_range.mp hi) j (List.mem_range.mp hj)

/-- The rows of a table are the records of its bytes. -/
theorem records_tableFields (hcols : 0 < cols) :
    records ((tableFields rows cols cell).flatMap rowBytes) = .ok (tableFields rows cols cell) := by
  -- every line ends with a line feed
  have hlines : (tableFields rows cols cell).flatMap rowBytes
      = linesText ((tableFields rows cols cell).map (·, LineEnd.feed)) none := by
    rw [linesText, List.flatMap_map, Option.elim_none, List.append_nil]
    rfl
  have hrows : ((tableFields rows cols cell).map (·, LineEnd.feed)).map Prod.fst
      ++ (none : Option (List Field)).toList = tableFields rows cols cell := by
    simp [Function.comp_def]
  rw [hlines, records_lines hcols, hrows]
  rw [hrows, ← map_field_tableNumerals]
  intro row hrow
  obtain ⟨ws, hws, rfl⟩ := List.mem_map.mp hrow
  refine ⟨by rw [List.length_map, length_of_mem_tableNumerals ws hws], fun field hfield => ?_⟩
  obtain ⟨w, -, rfl⟩ := List.mem_map.mp hfield
  exact isPlain_field w

/-- **A table of integers is read** as the matrix of them, where they are integers of the type. -/
theorem read_tableFields {type : IntType} (hrows : 0 < rows) (hcols : 0 < cols)
    (hint : ∀ i < rows, ∀ j < cols, IntType.int64.Holds (cell i j))
    (hholds : ∀ i < rows, ∀ j < cols, type.Holds (cell i j)) (path : String) :
    read path type ((tableFields rows cols cell).flatMap rowBytes)
      = .ok (.matrix (.int type) rows cols cell) := by
  have hlength : (tableNumerals rows cols cell).length = rows := by simp [tableNumerals]
  have hne : tableNumerals rows cols cell ≠ [] := List.ne_nil_of_length_pos (by omega)
  have hrecords : records ((tableFields rows cols cell).flatMap rowBytes)
      = .ok ((tableNumerals rows cols cell).map (List.map Numeral.field)) := by
    rw [map_field_tableNumerals, records_tableFields hcols]
  rw [read_rows hcols length_of_mem_tableNumerals hne hrecords
    (forall_tableNumerals hint) (forall_tableNumerals hholds), hlength]
  refine congrArg Except.ok (Tensor.eq_matrix (Tensor.isMatrix_matrix _ _ _ _) fun i hi j hj => ?_)
  rw [Tensor.entry_matrix hi hj]
  simp [tableNumerals, hi, hj, value_intNumeral]

/-- **What is written is read back.** -/
theorem read_of_write {t : Tensor} {source type : IntType} {text : String}
    (ht : t.IsMatrix source rows cols) (hrows : 0 < rows) (hcols : 0 < cols)
    (hint : ∀ i < rows, ∀ j < cols, IntType.int64.Holds (t.entry i j))
    (hholds : ∀ i < rows, ∀ j < cols, type.Holds (t.entry i j)) (htext : write t = .ok text)
    (path : String) : read path type (Text.Utf8.encode text)
      = .ok (.matrix (.int type) rows cols t.entry) := by
  obtain ⟨text', hwrite, hbytes⟩ := write_eq ht
  obtain rfl : text' = text := Except.ok.inj (hwrite.symm.trans htext)
  rw [hbytes, read_tableFields hrows hcols hint hholds]

/-- **A matrix of a signed type** that is written is read back as it is. -/
theorem read_of_write_self {t : Tensor} {type : IntType} {text path : String}
    (ht : t.IsMatrix type rows cols) (hsigned : type.signed = true) (hrows : 0 < rows)
    (hcols : 0 < cols) (hholds : ∀ i < rows, ∀ j < cols, type.Holds (t.entry i j))
    (htext : write t = .ok text) : read path type (Text.Utf8.encode text) = .ok t := by
  have hint : ∀ i < rows, ∀ j < cols, IntType.int64.Holds (t.entry i j) := fun i hi j hj =>
    IntType.int64_holds_of_signed hsigned (hholds i hi j hj)
  rw [read_of_write ht hrows hcols hint hholds htext]
  exact congrArg Except.ok (Tensor.eq_matrix ht fun _ _ _ _ => rfl).symm

end

end RowBlock.Csv
