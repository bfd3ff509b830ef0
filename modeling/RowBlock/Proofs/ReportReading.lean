import Mathlib
import RowBlock.Proofs.Matrices
import RowBlock.Report

set_option autoImplicit false

/-! # Reading a report

The report of a round that shows its matrices can be read back (`Report.read?`). It is cut into lines; the
lines below a heading, up to the line that opens the next part, are the rows of a matrix, and the fields of
a row stand between tabs. The rows of a matrix of integers consist of digits, minus signs and tabs, so no
row is taken for a heading, for the time of the round or for an empty line, whatever the matrices are
(`Report.read?_round`). Two reports with the same text therefore show the same matrices
(`Report.round_determines`).
-/

namespace RowBlock

/-! ## Tables

The report says nothing about the type of the cells, so what it determines is the shape and the
values. A matrix without rows or without columns has no lines that could tell its other extent, and
is left out. -/

namespace Tensor

/-- The cells of a matrix, row by row. -/
def table (t : Tensor) : List (List Int) :=
  (List.range t.rows).map fun i => (List.range t.cols).map fun j => t.entry i j

/-- **A filled matrix** has integer cells, at least one row and at least one column. -/
structure IsFilled (t : Tensor) : Prop where
  isInt : t.type.isInt = true
  rank_eq : t.rank = 2
  rows_pos : 0 < t.rows
  cols_pos : 0 < t.cols

variable {t u : Tensor}

theorem IsFilled.exists_isMatrix (h : t.IsFilled) : ∃ type, t.IsMatrix type t.rows t.cols := by
  obtain ⟨n, m, hshape⟩ : ∃ n m, t.shape = [n, m] := List.length_eq_two.mp h.rank_eq
  have hint := h.isInt
  cases htype : t.type with
  | int type => exact ⟨type, htype, by simp [Tensor.rows, Tensor.cols, hshape]⟩
  | float type => simp [htype, CellType.isInt] at hint
  | bool => simp [htype, CellType.isInt] at hint

/-- **A filled matrix is known by its table**, up to the type of its cells. -/
theorem eq_of_table (ht : t.IsFilled) (hu : u.IsFilled) (h : t.table = u.table) :
    t.shape = u.shape ∧ t.words = u.words := by
  obtain ⟨type, htm⟩ := ht.exists_isMatrix
  obtain ⟨other, hum⟩ := hu.exists_isMatrix
  have hrows : t.rows = u.rows := by simpa [table] using congrArg List.length h
  have hrow : ∀ i < t.rows, ((List.range t.cols).map fun j => t.entry i j)
      = (List.range u.cols).map fun j => u.entry i j := by
    intro i hi
    have hat := congrArg (fun l => l[i]?) h
    simpa [table, hi, hrows ▸ hi] using hat
  have hcols : t.cols = u.cols := by simpa using congrArg List.length (hrow 0 ht.rows_pos)
  have hcell : ∀ i < t.rows, ∀ j < t.cols, t.entry i j = u.entry i j := by
    intro i hi j hj
    have hat := congrArg (fun l => l[j]?) (hrow i hi)
    simpa [hj, hcols ▸ hj] using hat
  refine ⟨by rw [htm.shape_eq, hum.shape_eq, hrows, hcols], ?_⟩
  rw [← hrows, ← hcols] at hum
  calc t.words
      = (matrix (.int type) t.rows t.cols u.entry).words :=
        congrArg Tensor.words (eq_matrix htm hcell)
    -- the words of a matrix do not depend on its type
    _ = (matrix (.int other) t.rows t.cols u.entry).words := rfl
    _ = u.words := (congrArg Tensor.words (eq_matrix hum fun _ _ _ _ => rfl)).symm

end Tensor

namespace Report

/-! ## Reading

The reader uses the headings and the ends of the lines, and nothing it does depends on the matrices. -/

/-- The integers of a line, with tabs between them. -/
def row? (line : List Char) : Option (List Int) :=
  (line.splitOn '\t').mapM fun field => (String.ofList field).toInt?

/-- **The lines of a part**: those below its heading that are not empty, up to the line that opens the
next part. -/
def linesBelow (heading next : String) (lines : List (List Char)) : List (List Char) :=
  let below := (lines.dropWhile (· != heading.toList)).drop 1
  (below.takeWhile fun l => !next.toList.isPrefixOf l).filter (!·.isEmpty)

/-- **Reading a report**: the rows of the operands and of the product. -/
def read? (text : String) : Option (List (List Int) × List (List Int) × List (List Int)) := do
  let lines := text.toList.splitOn '\n'
  let a ← (linesBelow "Matrix A:" "Matrix B:" lines).mapM row?
  let b ← (linesBelow "Matrix B:" "The Resultant Matrix" lines).mapM row?
  let product ← (linesBelow "The Resultant Matrix is ::" "Total time elapsed" lines).mapM row?
  return (a, b, product)

/-! ## Lines

Cutting a text at line feeds undoes joining lines by them, if no line has one. A part is found by
its heading as long as no earlier line is the same. -/

/-- Lines with their ends are cut apart again. -/
theorem splitOn_lines {lines : List (List Char)} (h : ∀ l ∈ lines, '\n' ∉ l) (rest : List Char) :
    (lines.flatMap (· ++ ['\n']) ++ rest).splitOn '\n' = lines ++ rest.splitOn '\n' := by
  induction lines with
  | nil => rfl
  | cons l lines ih =>
      have hl : '\n' ∉ l := h l List.mem_cons_self
      have hlines : ∀ x ∈ lines, '\n' ∉ x := fun x hx => h x (List.mem_cons_of_mem l hx)
      calc ((l :: lines).flatMap (· ++ ['\n']) ++ rest).splitOn '\n'
          = (l ++ '\n' :: (lines.flatMap (· ++ ['\n']) ++ rest)).splitOn '\n' := by simp
        _ = l :: (lines.flatMap (· ++ ['\n']) ++ rest).splitOn '\n' :=
          List.splitOn_append_cons_self_of_not_mem hl _
        _ = (l :: lines) ++ rest.splitOn '\n' := by rw [ih hlines, List.cons_append]

/-- Lines with ends between them, and one more end, are lines with their ends. -/
theorem intercalate_append_end {lines : List (List Char)} (h : lines ≠ []) :
    List.intercalate ['\n'] lines ++ ['\n'] = lines.flatMap (· ++ ['\n']) := by
  induction lines with
  | nil => exact absurd rfl h
  | cons l lines ih =>
      cases lines with
      | nil => simp
      | cons l' lines =>
          rw [List.intercalate_cons_cons, List.flatMap_cons, ← ih (List.cons_ne_nil l' lines)]
          simp

/-- A text that opens with some letters has a first line that does. -/
theorem exists_splitOn_append {opening : List Char} (h : '\n' ∉ opening) (rest : List Char) :
    ∃ l lines, (opening ++ rest).splitOn '\n' = l :: lines ∧ opening <+: l := by
  induction opening with
  | nil =>
      obtain ⟨l, lines, hlines⟩ := List.exists_cons_of_ne_nil (List.splitOn_ne_nil '\n' rest)
      exact ⟨l, lines, hlines, List.nil_prefix⟩
  | cons c opening ih =>
      obtain ⟨l, lines, hlines, hprefix⟩ := ih fun hmem => h (List.mem_cons_of_mem c hmem)
      have hc : (c == '\n') = false := by
        rw [beq_eq_false_iff_ne]
        rintro rfl
        exact h List.mem_cons_self
      refine ⟨c :: l, lines, ?_, (List.prefix_cons_inj c).mpr hprefix⟩
      rw [List.cons_append, List.splitOn_cons_eq_if_modifyHead, if_neg (by simp [hc]), hlines]
      rfl

/-- **A part of a report** is found below its heading, if no line before it is the heading, no line of it
opens like the next part, and the next part begins after it or nothing but empty lines follow. -/
theorem linesBelow_eq {heading next : String} {before body rest : List (List Char)}
    (hbefore : heading.toList ∉ before) (hbody : ∀ l ∈ body, ¬next.toList <+: l)
    (hrest : (rest.takeWhile fun l => !next.toList.isPrefixOf l).filter (!·.isEmpty) = []) :
    linesBelow heading next (before ++ heading.toList :: (body ++ rest))
      = body.filter (!·.isEmpty) := by
  have hdrop : ((before ++ heading.toList :: (body ++ rest)).dropWhile (· != heading.toList))
      = heading.toList :: (body ++ rest) := by
    rw [List.dropWhile_append_of_pos]
    · simp
    · intro l hl
      rw [bne_iff_ne]
      rintro rfl
      exact hbefore hl
  have htake : ((body ++ rest).takeWhile fun l => !next.toList.isPrefixOf l)
      = body ++ rest.takeWhile fun l => !next.toList.isPrefixOf l :=
    List.takeWhile_append_of_pos fun l hl => by
      rw [Bool.not_eq_true', ← Bool.not_eq_true, List.isPrefixOf_iff_prefix]
      exact hbody l hl
  rw [linesBelow, hdrop, List.drop_one, List.tail_cons, htake, List.filter_append, hrest,
    List.append_nil]

/-! ## Rows

Cells are separated by tabs and numbers contain none, so cutting at tabs gives the numbers back. A
row has characters that no heading begins with, and headings begin with letters that no row has. -/

/-- The characters rows are written with. -/
def IsRowChar (c : Char) : Prop := c.isDigit = true ∨ c = '-' ∨ c = '\t'

instance (c : Char) : Decidable (IsRowChar c) := inferInstanceAs (Decidable (_ ∨ _))

def rowFields (t : Tensor) (i : Nat) : List (List Char) :=
  (List.range t.cols).map fun j => (toString (t.entry i j)).toList

def rowLine (t : Tensor) (i : Nat) : List Char := List.intercalate ['\t'] (rowFields t i)

def rowLines (t : Tensor) : List (List Char) := (List.range t.rows).map (rowLine t)

/-- Integers are written with digits and a minus sign. -/
theorem mem_toString {n : Int} {c : Char} (h : c ∈ (toString n).toList) :
    c.isDigit = true ∨ c = '-' := by
  have hrepr : ∀ k : Nat, c ∈ (Nat.repr k).toList → c.isDigit = true := by
    intro k hk
    rw [Nat.repr_eq_ofList_toDigits, String.toList_ofList] at hk
    exact Nat.isDigit_of_mem_toDigits (by decide) (by decide) hk
  cases n with
  | ofNat k => exact .inl (hrepr k h)
  | negSucc k =>
      have hsplit : c ∈ ("-" ++ Nat.repr (k + 1)).toList := h
      rw [String.toList_append] at hsplit
      rcases List.mem_append.mp hsplit with hsign | hdigits
      · exact .inr (by simpa using hsign)
      · exact .inl (hrepr _ hdigits)

theorem toString_ne_nil (n : Int) : (toString n).toList ≠ [] := by
  have hrepr : ∀ k : Nat, (Nat.repr k).toList ≠ [] := by
    intro k
    rw [Nat.repr_eq_ofList_toDigits, String.toList_ofList]
    exact Nat.toDigits_ne_nil
  cases n with
  | ofNat k => exact hrepr k
  | negSucc k =>
      show ("-" ++ Nat.repr (k + 1)).toList ≠ []
      simp

theorem mem_intercalate {separator : List Char} {l : List (List Char)} {c : Char}
    (h : c ∈ List.intercalate separator l) : c ∈ separator ∨ ∃ x ∈ l, c ∈ x := by
  induction l with
  | nil => exact absurd h List.not_mem_nil
  | cons x l ih =>
      cases l with
      | nil => exact .inr ⟨x, List.mem_cons_self, by simpa using h⟩
      | cons y l =>
          rw [List.intercalate_cons_cons, List.append_assoc] at h
          rcases List.mem_append.mp h with hx | h
          · exact .inr ⟨x, List.mem_cons_self, hx⟩
          · rcases List.mem_append.mp h with hseparator | hrest
            · exact .inl hseparator
            · rcases ih hrest with hseparator | ⟨z, hz, hc⟩
              · exact .inl hseparator
              · exact .inr ⟨z, List.mem_cons_of_mem x hz, hc⟩

section

variable {t : Tensor} {i : Nat}

theorem isRowChar_rowLine {c : Char} (h : c ∈ rowLine t i) : IsRowChar c := by
  rcases mem_intercalate h with htab | ⟨field, hfield, hc⟩
  · exact .inr (.inr (by simpa using htab))
  · obtain ⟨j, -, rfl⟩ := List.mem_map.mp hfield
    rcases mem_toString hc with hdigit | hminus
    · exact .inl hdigit
    · exact .inr (.inl hminus)

/-- **A line of a row is no other line**: it has a character, and it opens like no line that begins with a
letter. -/
theorem rowLine_ne_nil (hcols : 0 < t.cols) : rowLine t i ≠ [] := by
  obtain ⟨cols, hcols⟩ := Nat.exists_eq_add_one_of_ne_zero (Nat.ne_of_gt hcols)
  have hne := toString_ne_nil (t.entry i 0)
  rw [rowLine, rowFields, hcols, List.range_succ_eq_map, List.map_cons]
  cases hrest : ((List.range cols).map Nat.succ).map fun j => (toString (t.entry i j)).toList with
  | nil => simpa using hne
  | cons field rest =>
      rw [List.intercalate_cons_cons, List.append_assoc]
      exact List.append_ne_nil_of_left_ne_nil hne _

theorem not_prefix_rowLine {c : Char} {opening : List Char} (hc : ¬IsRowChar c) :
    ¬c :: opening <+: rowLine t i := by
  intro h
  exact hc (isRowChar_rowLine (h.subset List.mem_cons_self))

theorem newline_notMem_rowLine : '\n' ∉ rowLine t i := by
  intro h
  rcases isRowChar_rowLine h with h | h | h <;> exact absurd h (by decide)

/-- **A row is read back** from its line. -/
theorem row?_rowLine (hcols : 0 < t.cols) :
    row? (rowLine t i) = some ((List.range t.cols).map fun j => t.entry i j) := by
  have htab : ∀ field ∈ rowFields t i, '\t' ∉ field := by
    intro field hfield hmem
    obtain ⟨j, -, rfl⟩ := List.mem_map.mp hfield
    rcases mem_toString hmem with h | h <;> exact absurd h (by decide)
  have hne : rowFields t i ≠ [] := by
    rw [rowFields, ne_eq, List.map_eq_nil_iff, List.range_eq_nil]
    omega
  have hread : ((fun field => (String.ofList field).toInt?) ∘ fun j => (toString (t.entry i j)).toList)
      = fun j => pure (t.entry i j) := by
    funext j
    rw [Function.comp_apply, String.ofList_toList]
    exact Int.toInt?_repr _
  rw [row?, rowLine, List.splitOn_intercalate '\t' htab hne, rowFields, List.mapM_map, hread,
    List.mapM_pure]
  rfl

/-- **The rows of a matrix are read back**; none of their lines is empty. -/
theorem mapM_row?_rowLines (hcols : 0 < t.cols) :
    ((rowLines t).filter (!·.isEmpty)).mapM row? = some t.table := by
  have hfilter : (rowLines t).filter (!·.isEmpty) = rowLines t := by
    apply List.filter_eq_self.mpr
    intro l hl
    obtain ⟨i, -, rfl⟩ := List.mem_map.mp hl
    simpa using rowLine_ne_nil hcols
  have hrow : row? ∘ rowLine t = fun i => pure ((List.range t.cols).map fun j => t.entry i j) :=
    funext fun i => row?_rowLine hcols
  rw [hfilter, rowLines, List.mapM_map, hrow, List.mapM_pure]
  rfl

/-! ## The text of a report

The text is put together from parts, the last of which may be cut short by an error. The lines of
the matrices are there in any case, each with its end. -/

theorem toList_matrix {type : IntType} (htype : t.type = .int type) :
    (matrix t).toList = List.intercalate ['\n'] (rowLines t) := by
  simp only [matrix, String.toList_intercalate, List.map_map, rowLines]
  congr 1
  refine List.map_congr_left fun i _ => ?_
  simp only [Function.comp_apply, String.toList_intercalate, List.map_map, rowLine, rowFields, htype]
  rfl

end

/-- The line with the time, or nothing if there is no time to show. -/
def timeText (elapsed : Decimal.Number) : String := (joinParts [timeLine elapsed]).1

def shownLines (a b product : Tensor) : List (List Char) :=
  "Matrix A:".toList :: (rowLines a ++ "Matrix B:".toList :: (rowLines b ++
    [] :: "The Resultant Matrix is ::".toList :: rowLines product))

/-- **The text of a report** consists of the lines of the matrices below their headings, and the time. -/
theorem toList_round {a b product : Tensor} (ha : a.IsFilled) (hb : b.IsFilled)
    (hproduct : product.IsFilled) (elapsed : Decimal.Number) :
    (round a b product elapsed true).1.toList
      = (shownLines a b product).flatMap (· ++ ['\n']) ++ (timeText elapsed).toList := by
  have hgrid {t : Tensor} (ht : t.IsFilled) : grid (.tensor t) = .ok (matrix t) := by
    have hmatrix : (Payload.tensor t).matrix? = some t := if_pos ht.rank_eq
    rw [grid, hmatrix]
  have hlines {t : Tensor} (ht : t.IsFilled) :
      (matrix t).toList ++ ['\n'] = (rowLines t).flatMap (· ++ ['\n']) := by
    obtain ⟨type, hmatrix⟩ := ht.exists_isMatrix
    have hne : rowLines t ≠ [] := by
      rw [rowLines, ne_eq, List.map_eq_nil_iff, List.range_eq_nil]
      have := ht.rows_pos
      omega
    rw [toList_matrix hmatrix.type_eq, intercalate_append_end hne]
  have htext : (round a b product elapsed true).1
      = "Matrix A:\n" ++ (matrix a ++ "\n" ++ ("Matrix B:\n" ++ (matrix b ++ "\n" ++
          ("\nThe Resultant Matrix is ::\n" ++ (matrix product ++ "\n" ++ timeText elapsed))))) := by
    simp only [round, roundParts, hgrid ha, hgrid hb, hgrid hproduct, if_true, Except.map]
    rfl
  rw [htext]
  simp only [String.toList_append, shownLines, List.flatMap_cons, List.flatMap_append,
    ← hlines ha, ← hlines hb, ← hlines hproduct, List.append_assoc]
  rfl

theorem takeWhile_timeText (elapsed : Decimal.Number) :
    ((((timeText elapsed).toList.splitOn '\n').takeWhile
      fun l => !"Total time elapsed".toList.isPrefixOf l).filter (!·.isEmpty)) = [] := by
  cases htime : elapsed.toFloat with
  | error e =>
      have hnone : timeText elapsed = "" := by
        simp only [timeText, timeLine, htime, Except.map, Except.mapError, joinParts]
      rw [hnone]
      rfl
  | ok x =>
      have htext : (timeText elapsed).toList = "Total time elapsed".toList
          ++ (" :: " ++ Decimal.fixed 6 x ++ "\n").toList := by
        simp only [timeText, timeLine, htime, Except.map, Except.mapError, joinParts]
        rw [← String.toList_append]
        congr 1
        simp only [String.append_empty, ← String.append_assoc]
        rfl
      have hends : '\n' ∉ "Total time elapsed".toList := by decide
      obtain ⟨l, lines, hsplit, hprefix⟩ :=
        exists_splitOn_append hends (" :: " ++ Decimal.fixed 6 x ++ "\n").toList
      rw [htext, hsplit, List.takeWhile_cons_of_neg]
      · rfl
      · simpa using hprefix

/-! ## The parts of a report

The three parts are found one after the other. Before the second heading stand the rows of the first
operand, and before the third those of both, so it has to be shown each time that no row is a
heading. -/

section

variable (a b product : Tensor) {c : Char} {opening : List Char}

theorem not_prefix_rowLines (t : Tensor) (hc : ¬IsRowChar c) :
    ∀ l ∈ rowLines t, ¬c :: opening <+: l := by
  intro l hl
  obtain ⟨i, -, rfl⟩ := List.mem_map.mp hl
  exact not_prefix_rowLine hc

theorem notMem_rowLines (t : Tensor) (hc : ¬IsRowChar c) : c :: opening ∉ rowLines t :=
  fun hmem => not_prefix_rowLines t hc _ hmem (List.prefix_refl _)

theorem newline_notMem_shownLines : ∀ l ∈ shownLines a b product, '\n' ∉ l := by
  intro l hl
  have hrow {t : Tensor} (hl : l ∈ rowLines t) : '\n' ∉ l := by
    obtain ⟨i, -, rfl⟩ := List.mem_map.mp hl
    exact newline_notMem_rowLine
  simp only [shownLines, List.mem_cons, List.mem_append] at hl
  rcases hl with rfl | hl | rfl | hl | rfl | rfl | hl
  · decide
  · exact hrow hl
  · decide
  · exact hrow hl
  · decide
  · decide
  · exact hrow hl

theorem linesBelow_first (time : List (List Char)) :
    linesBelow "Matrix A:" "Matrix B:" (shownLines a b product ++ time)
      = (rowLines a).filter (!·.isEmpty) := by
  have hsplit : shownLines a b product ++ time = [] ++ "Matrix A:".toList :: (rowLines a ++
      ("Matrix B:".toList :: (rowLines b ++
        [] :: "The Resultant Matrix is ::".toList :: rowLines product) ++ time)) := by
    simp [shownLines]
  rw [hsplit, linesBelow_eq List.not_mem_nil (not_prefix_rowLines a (by decide))]
  rfl

/-- The lines below the second heading are those of the second operand, and an empty one. -/
theorem linesBelow_second (time : List (List Char)) :
    linesBelow "Matrix B:" "The Resultant Matrix" (shownLines a b product ++ time)
      = (rowLines b).filter (!·.isEmpty) := by
  have hsplit : shownLines a b product ++ time = ("Matrix A:".toList :: rowLines a) ++
      "Matrix B:".toList :: ((rowLines b ++ [[]]) ++
        ("The Resultant Matrix is ::".toList :: rowLines product ++ time)) := by
    simp [shownLines]
  have hbefore : "Matrix B:".toList ∉ "Matrix A:".toList :: rowLines a := by
    rw [List.mem_cons, not_or]
    exact ⟨by decide, notMem_rowLines a (by decide)⟩
  have hbody : ∀ l ∈ rowLines b ++ [[]], ¬"The Resultant Matrix".toList <+: l := by
    intro l hl
    rcases List.mem_append.mp hl with hl | hl
    · exact not_prefix_rowLines b (by decide) l hl
    · obtain rfl := List.mem_singleton.mp hl
      decide
  rw [hsplit, linesBelow_eq hbefore hbody rfl]
  simp

theorem linesBelow_product (elapsed : Decimal.Number) :
    linesBelow "The Resultant Matrix is ::" "Total time elapsed"
      (shownLines a b product ++ (timeText elapsed).toList.splitOn '\n')
      = (rowLines product).filter (!·.isEmpty) := by
  have hsplit (time : List (List Char)) : shownLines a b product ++ time
      = ("Matrix A:".toList :: (rowLines a ++ "Matrix B:".toList :: (rowLines b ++ [[]]))) ++
        "The Resultant Matrix is ::".toList :: (rowLines product ++ time) := by
    simp [shownLines]
  have hbefore : "The Resultant Matrix is ::".toList
      ∉ "Matrix A:".toList :: (rowLines a ++ "Matrix B:".toList :: (rowLines b ++ [[]])) := by
    simp only [List.mem_cons, List.mem_append, List.not_mem_nil, or_false, not_or]
    exact ⟨by decide, notMem_rowLines a (by decide), by decide, notMem_rowLines b (by decide),
      by decide⟩
  rw [hsplit, linesBelow_eq hbefore (not_prefix_rowLines product (by decide))
    (takeWhile_timeText elapsed)]

end

/-! ## Reports are read back

That two reports differ if their matrices do follows by reading both. -/

/-- **A report is read back**: the lines below its headings are the rows of its matrices. -/
theorem read?_round {a b product : Tensor} (ha : a.IsFilled) (hb : b.IsFilled)
    (hproduct : product.IsFilled) (elapsed : Decimal.Number) :
    read? (round a b product elapsed true).1 = some (a.table, b.table, product.table) := by
  have hlines : (round a b product elapsed true).1.toList.splitOn '\n'
      = shownLines a b product ++ (timeText elapsed).toList.splitOn '\n' := by
    rw [toList_round ha hb hproduct, splitOn_lines (newline_notMem_shownLines a b product)]
  rw [read?, hlines, linesBelow_first, linesBelow_second, linesBelow_product,
    mapM_row?_rowLines ha.cols_pos, mapM_row?_rowLines hb.cols_pos,
    mapM_row?_rowLines hproduct.cols_pos]
  rfl

/-- **The report determines the matrices.** The lines below the headings of a report, cut at tabs and read
as integers, are the rows of its matrices, whatever time it shows; so reports of matrices that differ in
shape or in a cell differ. -/
theorem round_determines {a b product : Tensor} (ha : a.IsFilled) (hb : b.IsFilled)
    (hproduct : product.IsFilled) (elapsed : Decimal.Number) :
    read? (round a b product elapsed true).1 = some (a.table, b.table, product.table) ∧
    ∀ (a' b' product' : Tensor) (elapsed' : Decimal.Number),
      a'.IsFilled → b'.IsFilled → product'.IsFilled →
      (round a' b' product' elapsed' true).1 = (round a b product elapsed true).1 →
        (a'.shape = a.shape ∧ a'.words = a.words) ∧ (b'.shape = b.shape ∧ b'.words = b.words) ∧
          product'.shape = product.shape ∧ product'.words = product.words := by
  have hread := read?_round ha hb hproduct elapsed
  refine ⟨hread, ?_⟩
  intro a' b' product' elapsed' ha' hb' hproduct' hsame
  have hread' := read?_round ha' hb' hproduct' elapsed'
  rw [hsame, hread] at hread'
  simp only [Option.some.injEq, Prod.mk.injEq] at hread'
  obtain ⟨hfirst, hsecond, hlast⟩ := hread'
  exact ⟨Tensor.eq_of_table ha' ha hfirst.symm, Tensor.eq_of_table hb' hb hsecond.symm,
    Tensor.eq_of_table hproduct' hproduct hlast.symm⟩

def rowOf (cells : List Int) : Tensor :=
  .matrix (.int .int32) 1 cells.length fun _ j => cells.getD j 0

/-- The report of a single row is read back, and it is not that of a row in which two neighbouring numbers
are one, nor that of the same numbers one below the other. -/
theorem round_determines_joined :
    read? (round (rowOf [1, -2, 3]) (rowOf [5]) (rowOf [-7]) (.whole 4) true).1
      = some ([[1, -2, 3]], [[5]], [[-7]]) ∧
    (round (rowOf [1, -23]) (rowOf [5]) (rowOf [-7]) (.whole 4) true).1
      ≠ (round (rowOf [1, -2, 3]) (rowOf [5]) (rowOf [-7]) (.whole 4) true).1 ∧
    (round (.matrix (.int .int32) 3 1 fun i _ => [1, -2, 3].getD i 0) (rowOf [5]) (rowOf [-7])
        (.whole 4) true).1
      ≠ (round (rowOf [1, -2, 3]) (rowOf [5]) (rowOf [-7]) (.whole 4) true).1 := by
  have hfilled (cells : List Int) (h : 0 < cells.length) : (rowOf cells).IsFilled :=
    ⟨rfl, rfl, Nat.one_pos, h⟩
  obtain ⟨hread, hsame⟩ := round_determines (hfilled [1, -2, 3] (by decide))
    (hfilled [5] (by decide)) (hfilled [-7] (by decide)) (.whole 4)
  refine ⟨by rw [hread]; decide, ?_, ?_⟩
  · intro h
    obtain ⟨⟨hshape, -⟩, -⟩ := hsame (rowOf [1, -23]) (rowOf [5]) (rowOf [-7]) (.whole 4)
      (hfilled _ (by decide)) (hfilled _ (by decide)) (hfilled _ (by decide)) h
    exact absurd hshape (by decide)
  · intro h
    obtain ⟨⟨hshape, -⟩, -⟩ := hsame _ _ _ _ ⟨rfl, rfl, by decide, by decide⟩
      (hfilled _ (by decide)) (hfilled _ (by decide)) h
    exact absurd hshape (by decide)

end Report

end RowBlock
