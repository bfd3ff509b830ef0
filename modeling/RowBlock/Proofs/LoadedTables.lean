import RowBlock.Program
import RowBlock.Proofs.Numerals
import RowBlock.Proofs.TableRoundTrip
import RowBlock.Proofs.WrittenFiles

set_option autoImplicit false

/-! # Tables in files

A file is loaded as what its bytes are read as (`run_load`), so what is said of tables holds of files. A
matrix that is saved is loaded again with the same values, in any type that has them (`load_of_save`). A
file of numerals is loaded as the matrix of their values, or refused as soon as one of them is no value of
the type: nothing wraps (`load_numerals`).
-/

namespace RowBlock.Program

variable {h : Host} {rank : Nat} {path : String} {type : IntType} {bytes : List UInt8}

/-! ## Loading and saving

Both are one request to the host and a computation without requests. -/

/-- **Loading** a file reads the table in it, and changes nothing. -/
theorem run_load (hread : h.files.read path = .ok bytes) :
    h.run rank (load path type)
      = h.run rank (Process.ofExcept .table (Csv.read path type bytes)) := by
  simp only [load, Process.request, Process.ask_bind, Process.done_bind, Host.run, Host.serve, hread,
    Process.ofExcept]

/-- **Saving** a text puts it into the file. -/
theorem run_saveText (hwritable : h.files.IsWritable path) (rank : Nat) (text : String) :
    ∃ h', h.run rank (saveText path text) = (.done (), h') ∧
      h'.files = h.files.keep path (.bytes (Text.Utf8.encode text)) := by
  obtain ⟨files, hwrite⟩ := hwritable.written (Text.Utf8.encode text)
  refine ⟨{ h with files }, ?_, by simp only [Files.keep, hwrite]⟩
  simp only [saveText, save, Process.request, Process.ask_bind, Process.done_bind, Host.run, Host.serve,
    hwrite, Process.ofExcept]

/-! ## Saved matrices

A file that was written is found again under the same path, and its text is read as the table that
was written. The cells come back in the type of the job, which may differ from the one they were
written in. -/

/-- **A matrix that is saved is loaded again.** It has a row and a column, its cells are integers of any
type but `uint64`, and the type it is loaded in has all of them. Then saving succeeds, and what is loaded
has the same shape and the same cells. -/
theorem load_of_save {m : Tensor} {source target : IntType} {rows cols : Nat}
    (hm : m.IsMatrix source rows cols) (hrange : m.InRange) (hsource : source ≠ .uint64)
    (hrows : 0 < rows) (hcols : 0 < cols)
    (hholds : ∀ i < rows, ∀ j < cols, target.Holds (m.entry i j))
    (hwritable : h.files.IsWritable path) (rank : Nat) :
    ∃ h' loaded,
      h.run rank (do saveText path (← Process.ofExcept .table (Csv.write m))) = (.done (), h') ∧
      h'.run rank (load path target) = (.done loaded, h') ∧
      loaded.IsMatrix target rows cols ∧ loaded.words = m.words := by
  obtain ⟨text, htext, -⟩ := Csv.write_eq hm
  have hints : ∀ i < rows, ∀ j < cols, IntType.int64.Holds (m.entry i j) := fun i hi j hj =>
    IntType.int64_holds_of_ne hsource (hm.holds_entry hrange i hi j hj)
  have htable := Csv.read_of_write hm hrows hcols hints hholds htext path
  obtain ⟨h', hsaved, hfiles⟩ := run_saveText hwritable rank text
  have hread : h'.files.read path = .ok (Text.Utf8.encode text) := by
    rw [hfiles]
    exact hwritable.read_keep _
  refine ⟨h', .matrix (.int target) rows cols m.entry, ?_, ?_,
    Tensor.isMatrix_matrix target rows cols m.entry, ?_⟩
  · rw [htext]
    exact hsaved
  · rw [run_load hread, htable]
    rfl
  · -- the words of a matrix do not depend on its type
    have hsame : m = .matrix (.int source) rows cols m.entry := Tensor.eq_matrix hm fun _ _ _ _ => rfl
    calc (Tensor.matrix (.int target) rows cols m.entry).words
        = (Tensor.matrix (.int source) rows cols m.entry).words := rfl
      _ = m.words := (congrArg Tensor.words hsame).symm

def limits : Tensor :=
  .matrix (.int .int64) 1 2 fun _ j => if j = 0 then -9223372036854775808 else 9223372036854775807

/-- The limits of `int64` are saved and loaded again. -/
theorem load_of_save_limits : ∃ h' loaded,
    (Host.initial 2 [] ⟨[]⟩ 0).run 0
      (do saveText "m.csv" (← Process.ofExcept .table (Csv.write limits))) = (.done (), h') ∧
    h'.run 0 (load "m.csv" .int64) = (.done loaded, h') ∧ loaded.shape = [1, 2] ∧
    loaded.words = #[-9223372036854775808, 9223372036854775807] := by
  have hlimits : limits.IsMatrix .int64 1 2 := Tensor.isMatrix_matrix _ _ _ _
  have hholds : ∀ i < 1, ∀ j < 2, IntType.int64.Holds (limits.entry i j) := by decide
  have hwritable : (Host.initial 2 [] ⟨[]⟩ 0).files.IsWritable "m.csv" :=
    ⟨⟨[], "m.csv", rfl⟩, fun _ => ⟨_, rfl⟩⟩
  obtain ⟨h', loaded, hsaved, hloaded, hmatrix, hwords⟩ := load_of_save hlimits
    ⟨.int64, rfl, by decide⟩ (by decide) (by decide) (by decide) hholds hwritable 0
  exact ⟨h', loaded, hsaved, hloaded, hmatrix.shape_eq, hwords⟩

/-! ## Numerals in files

The statement is about the bytes of the file, so it holds of files that were not written by this
program: numerals may have signs and leading zeros, and lines may end in different ways. -/

/-- **No value wraps when it is loaded.** A file holds a table of numerals with any number of digits, any
signs and any ends of lines, and is loaded in any type but `uint64`. If the type has all the values, what
is loaded is the matrix of them; if there is one it does not have, loading fails with a value error. -/
theorem load_numerals (t : Csv.NumeralTable) (htype : type ≠ .uint64)
    (hread : h.files.read path = .ok t.bytes) (rank : Nat) :
    ((∀ n ∈ t.values, type.Holds n) →
      h.run rank (load path type) = (.done (.matrix (.int type) t.height t.width t.cell), h)) ∧
    ((∃ n ∈ t.values, ¬type.Holds n) →
      ∃ e : Error, e.kind = .value ∧ h.run rank (load path type) = (.failed e, h)) := by
  have hrecords := t.records_bytes
  rw [run_load hread]
  constructor
  · intro hall
    have hholds : ∀ row ∈ t.rows, ∀ w ∈ row, type.Holds w.value := fun row hrow w hw =>
      hall w.value (t.mem_values_iff.mpr ⟨row, hrow, w, hw, rfl⟩)
    have htable := Csv.read_rows t.width_pos t.length_eq t.rows_ne_nil hrecords
      (fun row hrow w hw => IntType.int64_holds_of_ne htype (hholds row hrow w hw)) hholds path
    rw [htable]
    rfl
  · rintro ⟨n, hn, hnot⟩
    obtain ⟨row, hrow, w, hw, rfl⟩ := t.mem_values_iff.mp hn
    obtain ⟨e, htable, hkind⟩ := Csv.exists_error_rows t.width_pos t.length_eq t.rows_ne_nil hrecords
      ⟨row, hrow, w, hw, hnot⟩ path
    exact ⟨.table e, hkind, by rw [htable]; rfl⟩

def mixedEnds (n : Int) : Csv.NumeralTable where
  lines := [([{ Csv.intNumeral 7 with sign? := some .plus },
    { Csv.intNumeral 0 with sign? := some .minus }], .both)]
  last := some [Csv.intNumeral n, Csv.intNumeral (-92)]
  width := 2
  width_pos := Nat.two_pos
  rows_ne_nil := by simp
  length_eq := by simp

def fileHost (text : String) : Host :=
  .initial 2 [] (.ofList [("m.csv", .bytes (Text.Utf8.encode text))]) 0

/-- One table is loaded, and one with the first number above `int64` is refused. -/
theorem load_numerals_mixedEnds :
    (∃ m, ((fileHost "+7,-0\r\n5,-92").run 0 (load "m.csv" .int32)).1 = .done m ∧
        m.shape = [2, 2] ∧ m.words = #[7, 0, 5, -92]) ∧
      ∃ e : Error, e.kind = .value ∧
        ((fileHost "+7,-0\r\n9223372036854775808,-92").run 0 (load "m.csv" .int64)).1
          = .failed e := by
  have hshort : (mixedEnds 5).bytes = Text.Utf8.encode "+7,-0\r\n5,-92" := by decide +kernel
  have hlong : (mixedEnds 9223372036854775808).bytes
      = Text.Utf8.encode "+7,-0\r\n9223372036854775808,-92" := by decide +kernel
  have hreadShort : (fileHost "+7,-0\r\n5,-92").files.read "m.csv" = .ok (mixedEnds 5).bytes := by
    rw [hshort]
    rfl
  have hreadLong : (fileHost "+7,-0\r\n9223372036854775808,-92").files.read "m.csv"
      = .ok (mixedEnds 9223372036854775808).bytes := by
    rw [hlong]
    rfl
  obtain ⟨hloaded, -⟩ := load_numerals _ (show IntType.int32 ≠ .uint64 by decide) hreadShort 0
  obtain ⟨-, hrefused⟩ := load_numerals _ (show IntType.int64 ≠ .uint64 by decide) hreadLong 0
  constructor
  · rw [hloaded (by decide +kernel)]
    exact ⟨_, rfl, rfl, by decide +kernel⟩
  · obtain ⟨e, hkind, hfailed⟩ :=
      hrefused ⟨9223372036854775808, by decide +kernel, by decide⟩
    exact ⟨e, hkind, by rw [hfailed]⟩

end RowBlock.Program
