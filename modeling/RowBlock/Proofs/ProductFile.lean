import RowBlock.Machine
import RowBlock.Proofs.Distribution
import RowBlock.Proofs.TableRoundTrip

set_option autoImplicit false

/-! # From files to a file

A job whose operands are in tables makes the table of their product. The tables are read back as the
operands they were written from (`Program.operandsOf_tables`), nothing in the report stands in the way of
the file of the product (`reportLines_pass`), and nobody but rank zero writes, and nothing but this
file, so at the end it holds the table of the product, which is read back in turn (`product_file`).
-/

namespace RowBlock

/-! ## The line of statistics

The statistics of floats may not exist, since a square may overflow; but if they do, nothing in
writing them fails. The theorem about the file takes their existence as a hypothesis. -/

namespace Statistics

open Decimal

/-- Choosing among floats gives a float. -/
theorem exists_real_foldl {op : Number → Number → Number} (hop : ∀ x y, op x y = x ∨ op x y = y)
    (x : Float) (xs : List Float) : ∃ y, (xs.map Number.real).foldl op (.real x) = .real y := by
  refine List.foldlRecOn (motive := fun b => ∃ y, b = .real y) _ op ⟨x, rfl⟩ fun b hb a ha => ?_
  obtain ⟨y, -, rfl⟩ := List.mem_map.mp ha
  rcases hop b (.real y) with h | h <;> rw [h]
  · exact hb
  · exact ⟨y, rfl⟩

/-- **The statistics of floats** can be written as a line. -/
theorem exists_line {times : List Float} {st : Statistics}
    (h : ofTimes (times.map Number.real) = .ok st) : ∃ text, st.line = .ok text := by
  cases times with
  | nil => cases h
  | cons t ts =>
      obtain ⟨st', hst, h⟩ : ∃ st', ofNonempty (.real t) (ts.map Number.real) = .ok st' ∧ st' = st := by
        rw [List.map_cons, ofTimes] at h
        cases hst : ofNonempty (.real t) (ts.map Number.real) with
        | error e =>
            rw [hst] at h
            cases h
        | ok st' =>
            rw [hst] at h
            exact ⟨st', rfl, Except.ok.inj h⟩
      unfold ofNonempty at hst
      obtain ⟨sum, -, hst⟩ := exists_ok_of_bind hst
      obtain ⟨mean, -, hst⟩ := exists_ok_of_bind hst
      obtain ⟨variance, -, hst⟩ := exists_ok_of_bind hst
      cases hst
      subst h
      obtain ⟨x, hleast⟩ : ∃ x, Number.least (.real t) (ts.map Number.real) = .real x :=
        exists_real_foldl (fun _ _ => (ite_eq_or_eq _ _ _).symm) t ts
      obtain ⟨y, hgreatest⟩ : ∃ y, Number.greatest (.real t) (ts.map Number.real) = .real y :=
        exists_real_foldl (fun _ _ => (ite_eq_or_eq _ _ _).symm) t ts
      simp only [line, hleast, hgreatest]
      split <;> exact ⟨_, rfl⟩

end Statistics

/-! ## Operands in tables

Loading needs the files and the tables, and both are given: what was written is read back. -/

theorem Setting.eq_of_file? {setting : Option (Setting String)} {path : String}
    (h : Setting.file? setting = some path) : setting = some (.value path) := by
  unfold Setting.file? at h
  split at h
  · split at h
    · cases h
    · cases h
      rfl
  · cases h

/-- Matrices of a square product pass the check. -/
theorem Operands.check_eq {a b : Tensor} {type : IntType} {n m : Nat} (ha : a.IsMatrix type n m)
    (hb : b.IsMatrix type m n) : Operands.check a b = .ok (n, m) := by
  have hint : (!a.type.isInt || !b.type.isInt) = false := by
    rw [ha.type_eq, hb.type_eq]
    rfl
  rw [Operands.check, if_neg (by rw [ha.rank_eq, hb.rank_eq]; simp), if_neg (by rw [hint]; simp),
    if_neg (by rw [hb.shape_eq, ha.cols_eq, ha.rows_eq]; simp), ha.rows_eq, ha.cols_eq]

namespace Program

variable {args : List String} {s : Settings Int} {size : Nat} {readings : List Float} {files : Files}
  {entropy : Nat} {ms : List Move} {t : Ensemble} {f : Factors} {a b : Tensor} {type : IntType}
  {n m : Nat} {pathA pathB pathC textA textB : String}

/-- **Operands in tables** are what the tables are read as. -/
theorem operandsOf_tables [Memory] {bytesA bytesB : List UInt8} (htype : typeOf s.type = .ok type)
    (hA : Setting.file? s.matrixA = some pathA) (hB : Setting.file? s.matrixB = some pathB)
    (hreadA : files.read pathA = .ok bytesA) (hreadB : files.read pathB = .ok bytesB)
    (htableA : Csv.read pathA type bytesA = .ok a) (htableB : Csv.read pathB type bytesB = .ok b)
    (ha : a.IsMatrix type n m) (hb : b.IsMatrix type m n) :
    operandsOf s files entropy = .done (a, b) := by
  have hrun (h : Host) (hfiles : h.files = files) :
      (h.run coordinatorRank (operands s)).1 = .done (a, b) := by
    subst hfiles
    simp only [operands, htype, givenOperands, hA, load, loadSecond, Setting.eq_of_file? hB,
      Process.request, Process.ask_bind, Process.done_bind, Host.run, Host.serve, hreadA, hreadB,
      Process.ofExcept, htableA, htableB]
    show (h.run coordinatorRank (Process.ofExcept .operand (Operands.check a b) >>= fun _ =>
      .done (a, b))).1 = _
    rw [Operands.check_eq ha hb]
    rfl
  exact hrun _ rfl

/-! ## The lines of the report

The file comes after the lines, so for the file to be written the lines must not fail. They consist
of matrices and times, and only the statistics of several rounds leave something to be asked. -/

theorem reportTimes_eq {times : List Float} {st : Statistics}
    (hst : Statistics.ofTimes (times.map .real) = .ok st) :
    ∃ text, reportTimes (times.map .real) = say text := by
  obtain ⟨line, hline⟩ := Statistics.exists_line hst
  refine ⟨line ++ "\n", ?_⟩
  rw [reportTimes, hst]
  show (Process.ofExcept .statistics st.line >>= fun text => say (text ++ "\n")) = _
  rw [hline]
  rfl

theorem reportLines_pass {times : List Float} {last : RoundResult} (ha : a.rank = 2)
    (hb : b.rank = 2) (hproduct : last.product.rank = 2)
    (htimes : 1 < s.rounds → ∃ st, Statistics.ofTimes (times.map .real) = .ok st) :
    (reportLines s a b times last).Only Process.Says fun _ => False := by
  refine only_reportLines ?_ fun hrounds => ?_
  · obtain ⟨text, -, hround⟩ := reportRound_eq (s := s) ha hb hproduct
    rw [hround]
    exact says_text text
  · obtain ⟨st, hst⟩ := htimes hrounds
    obtain ⟨text, htext⟩ := reportTimes_eq hst
    rw [htext]
    exact says_text text

/-! ## The file of the product

The history of rank zero says what was written, and by the theory of written files this is what is
in the files in the end. The text that was written is the table of the product, which is read back
in any type that holds its cells. -/

section

variable [Memory]

section

variable (hargs : Options.parse args = .ok s)
  (hrun : Run .none (launch args size readings files entropy) ms t)

include hargs hrun

/-- **What a plain job writes** when nothing goes wrong: the table of the product, if there is room for
the product, and else nothing. -/
theorem written_of_final (hready : s.IsReady) (hplain : s.IsPlain) (hsize : 2 ≤ size)
    (hoperands : operandsOf s files entropy = .done (f.a, f.b))
    (htimes : 1 < s.rounds → ∃ st, Statistics.ofTimes
      ((spans ((Clock.ofReadings readings).times (2 * s.rounds.toNat))).map .real) = .ok st)
    (hfinal : t.IsFinal) :
    (f.HasRoom → (historyOf ms 0).written = writtenOf s f.product) ∧
      (¬f.HasRoom → (historyOf ms 0).written = []) := by
  rcases shown_of_final hargs hready hplain hsize hoperands hrun hfinal with
    ⟨hfull, -, hnothing⟩ | ⟨hroom, last, k, p, hproduct, -, hlines, hend, -, hdone, -⟩
  · exact ⟨fun hroom => absurd hroom hfull, fun _ => hnothing⟩
  · refine ⟨fun _ => ?_, fun hfull => absurd hroom hfull⟩
    have hrank : last.product.rank = 2 := by
      rw [hproduct, Factors.product_eq]
      rfl
    obtain ⟨-, hpasses⟩ :=
      (reportLines_pass f.left.rank_eq f.right.rank_eq hrank htimes).comes hlines
    cases p with
    | done u => exact hdone rfl
    | failed x => exact absurd hpasses id
    | ask r next => exact absurd rfl (hend r next)

/-- Where there is no room for the product, or no file is named for it, the files stay as they are. -/
theorem files_of_final (hready : s.IsReady) (hplain : s.IsPlain) (hsize : 2 ≤ size)
    (hoperands : operandsOf s files entropy = .done (f.a, f.b))
    (htimes : 1 < s.rounds → ∃ st, Statistics.ofTimes
      ((spans ((Clock.ofReadings readings).times (2 * s.rounds.toNat))).map .real) = .ok st)
    (hfinal : t.IsFinal) (hnone : ¬f.HasRoom ∨ Setting.file? s.output = none) :
    t.host.files = files := by
  obtain ⟨hfile, hnothing⟩ := written_of_final hargs hrun hready hplain hsize hoperands htimes hfinal
  have hwritten : (historyOf ms 0).written = [] := by
    by_cases hroom : f.HasRoom
    · rw [hfile hroom, writtenOf, hnone.resolve_left (not_not_intro hroom)]
    · exact hnothing hroom
  rw [files_of_launch hargs hrun fun _ => id, Files.after, hwritten]
  rfl

theorem failed_of_final (hready : s.IsReady) (hsize : 2 ≤ size)
    (hoperands : operandsOf s files entropy = .done (f.a, f.b)) (hfinal : t.IsFinal) {x : RoomError}
    (hfull : Tensor.room (.int f.type) [f.rows, f.cols] = .error x) :
    (run s ⟨0, size⟩).Comes (historyOf ms 0) (.failed (.room x)) := by
  rcases zero_of_final hargs hready hsize hoperands hrun hfinal with
    ⟨y, hy, hfailed⟩ | ⟨hroom, -⟩
  · obtain rfl : x = y := Except.error.inj (hfull.symm.trans hy)
    rw [run_zero]
    exact hfailed.bind _
  · exact absurd (hfull.symm.trans hroom) (by simp)

end

/-- **From files to a file.** The factors of a square product of `int32` or `int64` are written as tables,
and a job in which nothing goes wrong has these tables as its operands, with any number of workers, either
kernel, any order, any number of rounds, checked or not, quiet or not, and names no file but one for the
product, which can be written. If it takes several rounds, there are statistics of their times. Then,
whatever the order of its steps, once no step is left this file is read as the product modulo `2 ^ width`.
The one exception is a product that there is no room for: then rank zero has failed for that, and the
files are as they were. -/
theorem product_file (hargs : Options.parse args = .ok s) (hready : s.IsReady) (hplain : s.IsPlain)
    (hsize : 2 ≤ size) (hname : s.type = .value type) (htype : type = .int32 ∨ type = .int64)
    (hn : 0 < n) (hm : 0 < m) (ha : a.IsMatrix type n m) (hb : b.IsMatrix type m n)
    (hrangeA : a.InRange) (hrangeB : b.InRange)
    (htextA : Csv.write a = .ok textA) (htextB : Csv.write b = .ok textB)
    (hA : Setting.file? s.matrixA = some pathA) (hB : Setting.file? s.matrixB = some pathB)
    (hreadA : files.read pathA = .ok (Text.Utf8.encode textA))
    (hreadB : files.read pathB = .ok (Text.Utf8.encode textB))
    (hC : Setting.file? s.output = some pathC) (hwritable : files.IsWritable pathC)
    (htimes : 1 < s.rounds → ∃ st, Statistics.ofTimes
      ((spans ((Clock.ofReadings readings).times (2 * s.rounds.toNat))).map .real) = .ok st)
    (hrun : Run .none (launch args size readings files entropy) ms t) (hfinal : t.IsFinal) :
    (Tensor.room (.int type) [n, n] = .ok [n, n] → ∃ bytes, t.host.files.read pathC = .ok bytes ∧
      Csv.read pathC type bytes = .ok (.matrix (.int type) n n fun i k =>
        type.wrap (∑ j ∈ Finset.range m, a.entry i j * b.entry j k))) ∧
    ∀ x, Tensor.room (.int type) [n, n] = .error x →
      (run s ⟨0, size⟩).Comes (historyOf ms 0) (.failed (.room x)) ∧ t.host.files = files := by
  have hsigned : type.signed = true := by rcases htype with rfl | rfl <;> rfl
  have hfound : typeOf s.type = .ok type :=
    typeOf_eq_ok_iff.mpr ⟨hname, by rcases htype with rfl | rfl <;> decide⟩
  have hoperands : operandsOf s files entropy = .done (a, b) :=
    operandsOf_tables hfound hA hB hreadA hreadB
      (Csv.read_of_write_self ha hsigned hn hm (ha.holds_entry hrangeA) htextA)
      (Csv.read_of_write_self hb hsigned hm hn (hb.holds_entry hrangeB) htextB) ha hb
  obtain ⟨f, rfl, rfl, rfl, rfl, rfl, hsquare⟩ : ∃ f : Factors, f.type = type ∧ f.rows = n ∧
      f.inner = m ∧ f.a = a ∧ f.b = b ∧ f.cols = f.rows := ⟨⟨type, n, m, n, a, b, ha, hb⟩, by simp⟩
  refine ⟨fun hroom => ?_, fun x hfull => ⟨?_, ?_⟩⟩
  · have hproduct : f.product.IsMatrix f.type f.rows f.rows := by
      rw [Factors.product_eq, hsquare]
      exact Tensor.isMatrix_matrix _ _ _ _
    have hholds : ∀ i < f.rows, ∀ k < f.rows, f.type.Holds (f.product.entry i k) := by
      intro i hi k hk
      rw [Factors.entry_product hi (by omega)]
      exact IntType.holds_wrap _ _
    obtain ⟨text, htext, -⟩ := Csv.write_eq hproduct
    have hwritten : (historyOf ms 0).written = [(pathC, .bytes (Text.Utf8.encode text))] := by
      rw [(written_of_final hargs hrun hready hplain hsize hoperands htimes hfinal).1
        (by rw [Factors.HasRoom, hsquare]; exact hroom), writtenOf, hC, htext]
    have hkept : t.host.files = files.keep pathC (.bytes (Text.Utf8.encode text)) := by
      rw [files_of_launch hargs hrun fun _ => id, Files.after, hwritten, List.foldl_cons,
        List.foldl_nil]
    rw [hkept]
    refine ⟨Text.Utf8.encode text, hwritable.read_keep _, ?_⟩
    rw [Csv.read_of_write_self hproduct hsigned hn hn hholds htext, Factors.product_eq, hsquare]
  · exact failed_of_final hargs hrun hready hsize hoperands hfinal (by rw [hsquare]; exact hfull)
  · have hnot : ¬f.HasRoom := by
      rw [Factors.HasRoom, hsquare, hfull]
      simp
    exact files_of_final hargs hrun hready hplain hsize hoperands htimes hfinal (.inl hnot)

end

def filed : Settings Int :=
  { Settings.initial with
    rows := 20, inner := 32, rounds := 1, verify := true, type := .value .int32
    matrixA := some (.value "a.csv"), matrixB := some (.value "b.csv"),
    output := some (.value "c.csv") }

def filedArgs : List String :=
  ["--matrix-a=a.csv", "--matrix-b=b.csv", "--output=c.csv", "--dtype=int32", "--verify"]

def filedOperands : Files :=
  .ofList [("a.csv", .bytes (Text.Utf8.encode "3\n-1\n")),
    ("b.csv", .bytes (Text.Utf8.encode "2147483647,5\n"))]

/-- The job with its operands in files leaves their product, one cell of it wrapped. -/
theorem product_file_filed :
    ∃ ms t bytes product, Run .none (launch filedArgs 3 [] filedOperands 0) ms t ∧ t.IsFinal ∧
      t.host.files.read "c.csv" = .ok bytes ∧ Csv.read "c.csv" .int32 bytes = .ok product ∧
      product.shape = [2, 2] ∧ product.words = #[2147483645, 15, -2147483647, -5] := by
  obtain ⟨ms, t, hrun, hfinal⟩ := exists_final (launch filedArgs 3 [] filedOperands 0)
  have hargs : Options.parse filedArgs = .ok filed := by decide +kernel
  have hready : filed.IsReady := ⟨⟨.rows, rfl, by decide⟩, by decide, by decide⟩
  have htextA : Csv.write (.matrix (.int .int32) 2 1 fun i _ => if i = 0 then 3 else -1)
      = .ok "3\n-1\n" := by decide +kernel
  have htextB : Csv.write (.matrix (.int .int32) 1 2 fun _ k => if k = 0 then 2147483647 else 5)
      = .ok "2147483647,5\n" := by decide +kernel
  obtain ⟨hfile, -⟩ := product_file hargs hready ⟨rfl, rfl⟩ (by decide) rfl (.inl rfl) (by decide)
    (by decide) (Tensor.isMatrix_matrix _ 2 1 _) (Tensor.isMatrix_matrix _ 1 2 _)
    ⟨.int32, rfl, by decide⟩ ⟨.int32, rfl, by decide⟩ htextA htextB rfl rfl rfl rfl rfl
    ⟨⟨[], "c.csv", rfl⟩, fun _ => ⟨_, rfl⟩⟩ (fun hrounds => absurd hrounds (by decide)) hrun hfinal
  obtain ⟨bytes, hread, htable⟩ := hfile (by decide)
  exact ⟨ms, t, bytes, _, hrun, hfinal, hread, htable, rfl, by decide⟩

/-- The settings of a job with its operands in two files, and something for a third one. -/
def tabled (output : Setting String) : Settings Int :=
  { Settings.initial with
    rows := 20, inner := 32, rounds := 1
    matrixA := some (.value "a.csv"), matrixB := some (.value "b.csv"), output := some output }

def tabledArgs (last : String) : List String := ["--matrix-a=a.csv", "--matrix-b=b.csv", last]

def tables (textA textB : String) : Files :=
  .ofList [("a.csv", .bytes (Text.Utf8.encode textA)), ("b.csv", .bytes (Text.Utf8.encode textB))]

def columnTimesRow (n : Nat) (x y : Int) : Factors where
  type := .int64
  rows := n
  inner := 1
  cols := n
  a := .matrix (.int .int64) n 1 fun _ _ => x
  b := .matrix (.int .int64) 1 n fun _ _ => y
  left := Tensor.isMatrix_matrix _ _ _ _
  right := Tensor.isMatrix_matrix _ _ _ _

/-- A job with a column and a row in its tables changes no file if there is no room for the product, or
the option for it is blank. -/
theorem files_of_tabled {output : Setting String} {last : String} {n : Nat} {x y : Int}
    (hargs : Options.parse (tabledArgs last) = .ok (tabled output)) (hn : 0 < n)
    (hx : IntType.int64.Holds x) (hy : IntType.int64.Holds y)
    (htextA : Csv.write (columnTimesRow n x y).a = .ok textA)
    (htextB : Csv.write (columnTimesRow n x y).b = .ok textB)
    (hnone : ¬(columnTimesRow n x y).HasRoom ∨ output = .blank) :
    ∃ ms t, Run .none (launch (tabledArgs last) 2 [] (tables textA textB) 0) ms t ∧ t.IsFinal ∧
      t.host.files = tables textA textB := by
  obtain ⟨ms, t, hrun, hfinal⟩ := exists_final (launch (tabledArgs last) 2 [] (tables textA textB) 0)
  have hentry {rows cols : Nat} {z : Int} (hz : IntType.int64.Holds z) : ∀ i < rows, ∀ j < cols,
      IntType.int64.Holds ((Tensor.matrix (.int .int64) rows cols fun _ _ => z).entry i j) := by
    intro i hi j hj
    rwa [Tensor.entry_matrix hi hj]
  have hoperands : operandsOf (tabled output) (tables textA textB) 0
      = .done ((columnTimesRow n x y).a, (columnTimesRow n x y).b) :=
    operandsOf_tables (typeOf_eq_ok_iff.mpr ⟨rfl, by decide⟩) rfl rfl rfl rfl
      (Csv.read_of_write_self (columnTimesRow n x y).left rfl hn Nat.one_pos (hentry hx) htextA)
      (Csv.read_of_write_self (columnTimesRow n x y).right rfl Nat.one_pos hn (hentry hy) htextB)
      (columnTimesRow n x y).left (columnTimesRow n x y).right
  have hunwritten : ¬(columnTimesRow n x y).HasRoom ∨ Setting.file? (tabled output).output = none := by
    rcases hnone with hroom | rfl
    · exact .inl hroom
    · exact .inr rfl
  exact ⟨ms, t, hrun, hfinal, files_of_final hargs hrun ⟨⟨.rows, rfl, by decide⟩, nofun, nofun⟩
    ⟨rfl, rfl⟩ (by decide) hoperands (fun hrounds => absurd hrounds (show ¬(1 : Int) < 1 by decide))
    hfinal hunwritten⟩

/-- **No file is left** under the name `--`, since the separator leaves the option blank, nor is one left
for want of room, as for the product of a column of 131072 numbers and a row of as many. -/
theorem product_file_missing :
    (∃ ms t, Run .none (launch (tabledArgs "--output=--") 2 [] (tables "5\n" "7\n") 0) ms t ∧
      t.IsFinal ∧ t.host.files.read "--" = .error (.missing "--")) ∧
    ∃ textA textB, Csv.write (columnTimesRow 131072 1 1).a = .ok textA ∧
      Csv.write (columnTimesRow 131072 1 1).b = .ok textB ∧
      ∃ ms t, Run .none (launch (tabledArgs "--output=c.csv") 2 [] (tables textA textB) 0) ms t ∧
        t.IsFinal ∧ t.host.files.read "c.csv" = .error (.missing "c.csv") := by
  have hblank : Options.parse (tabledArgs "--output=--") = .ok (tabled .blank) := by decide +kernel
  have hnamed : Options.parse (tabledArgs "--output=c.csv") = .ok (tabled (.value "c.csv")) := by
    decide +kernel
  constructor
  · have hfive : Csv.write (columnTimesRow 1 5 7).a = .ok "5\n" := by decide +kernel
    have hseven : Csv.write (columnTimesRow 1 5 7).b = .ok "7\n" := by decide +kernel
    obtain ⟨ms, t, hrun, hfinal, hfiles⟩ :=
      files_of_tabled hblank Nat.one_pos (by decide) (by decide) hfive hseven (.inr rfl)
    exact ⟨ms, t, hrun, hfinal, by rw [hfiles]; rfl⟩
  · obtain ⟨textA, htextA, -⟩ := Csv.write_eq (columnTimesRow 131072 1 1).left
    obtain ⟨textB, htextB, -⟩ := Csv.write_eq (columnTimesRow 131072 1 1).right
    have hfull : ¬(columnTimesRow 131072 1 1).HasRoom := by decide
    obtain ⟨ms, t, hrun, hfinal, hfiles⟩ :=
      files_of_tabled hnamed (by decide) (by decide) (by decide) htextA htextB (.inl hfull)
    exact ⟨textA, textB, htextA, htextB, ms, t, hrun, hfinal, by rw [hfiles]; rfl⟩

end Program

end RowBlock
