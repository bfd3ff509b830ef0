import RowBlock.Machine
import RowBlock.Proofs.GivenOptions
import RowBlock.Proofs.HostRuns
import RowBlock.Proofs.LoadedTables
import RowBlock.Proofs.OperandFactors

set_option autoImplicit false

/-! # Given files

The files that a command line gives are the operands of the job: getting the operands fails, or it returns
what the two files hold (`operands_of_given`). Only an empty name and a blank setting name no file. One of
these for the first operand has the operands filled as if no files had been given, whatever is given for
the second one.
-/

namespace RowBlock.Program

open Options

variable {s : Settings Int} {type : IntType} {pathA pathB : String}

/-! ## Loading two files

Reading a file is answered by the host at once and changes nothing on it. So getting operands from
files is a function of the files, with two loads, one after the other, and a check. -/

/-- **Loading** fails, or it returns what the file holds; it changes nothing. -/
theorem run_load_cases (h : Host) (rank : Nat) (path : String) (type : IntType) :
    (∃ e, h.run rank (load path type) = (.failed e, h)) ∨
      ∃ t, h.run rank (load path type) = (.done t, h) ∧ t.type = .int type := by
  cases hread : h.files.read path with
  | error e =>
      left
      refine ⟨.file e, ?_⟩
      simp only [load, Process.request, Process.ask_bind, Process.done_bind, Host.run, Host.serve, hread,
        Process.ofExcept, Process.failed_bind]
  | ok bytes =>
      cases htable : Csv.read path type bytes with
      | error e =>
          left
          exact ⟨.table e, by rw [run_load hread, htable]; rfl⟩
      | ok t =>
          right
          exact ⟨t, by rw [run_load hread, htable]; rfl, Csv.type_of_read htable⟩

def withoutFiles (s : Settings Int) : Settings Int := { s with matrixA := none, matrixB := none }

theorem operands_of_file?_eq_none [Memory] (h : Setting.file? s.matrixA = none) :
    operands s = operands (withoutFiles s) := by
  have hfilled (type : IntType) : givenOperands s type = givenOperands (withoutFiles s) type := by
    simp only [givenOperands, h]
    rfl
  simp only [operands, hfilled]
  rfl

/-- Every text but the empty one and the separator names a file. -/
theorem file?_ofText (text : String) :
    Setting.file? (some (ofText text)) = if text = "" ∨ text = "--" then none else some text := by
  rw [ofText]
  by_cases hblank : text = "--"
  · rw [if_pos hblank, if_pos (.inr hblank)]
    rfl
  · rw [if_neg hblank]
    by_cases hempty : text = ""
    · rw [if_pos (.inl hempty), hempty]
      rfl
    · rw [if_neg (not_or_intro hempty hblank)]
      simp [Setting.file?, hempty]

section

variable [Memory]

/-- **Operands from files** before they are checked: getting them fails, or both files are loaded. -/
theorem run_givenOperands_cases (hfile : Setting.file? s.matrixA = some pathA) (h : Host) (rank : Nat)
    (type : IntType) :
    (∃ e, h.run rank (givenOperands s type) = (.failed e, h)) ∨
      ∃ a b pathB, s.matrixB = some (.value pathB) ∧ a.type = .int type ∧
        h.run rank (givenOperands s type) = (.done (a, b), h) ∧
        h.run rank (load pathA type) = (.done a, h) ∧ h.run rank (load pathB type) = (.done b, h) := by
  have hgiven : givenOperands s type = load pathA type >>= fun a =>
      loadSecond s.matrixB type >>= fun b => .done (a, b) := by
    rw [givenOperands, hfile]
    rfl
  rw [hgiven]
  rcases run_load_cases h rank pathA type with ⟨e, hfirst⟩ | ⟨a, hfirst, hatype⟩
  · exact .inl ⟨e, Host.run_bind_failed hfirst _⟩
  rw [Host.run_bind hfirst]
  rcases hsecond : s.matrixB with _ | pathB | _
  · exact .inl ⟨_, rfl⟩
  · rcases run_load_cases h rank pathB type with ⟨e, hload⟩ | ⟨b, hload, -⟩
    · exact .inl ⟨e, Host.run_bind_failed hload _⟩
    · exact .inr ⟨a, b, pathB, rfl, hatype, Host.run_bind hload _, hfirst, hload⟩
  · exact .inl ⟨_, rfl⟩

/-- **Operands from files**: getting them fails, or they are what the files hold. -/
theorem run_operands_cases (hfile : Setting.file? s.matrixA = some pathA) (h : Host) (rank : Nat) :
    (∃ e, h.run rank (operands s) = (.failed e, h)) ∨
      ∃ type n m a b pathB, s.type = .value type ∧ s.matrixB = some (.value pathB) ∧
        h.run rank (operands s) = (.done (a, b), h) ∧
        h.run rank (load pathA type) = (.done a, h) ∧ h.run rank (load pathB type) = (.done b, h) ∧
        a.IsMatrix type n m ∧ b.IsMatrix type m n := by
  cases htype : typeOf s.type with
  | error e => exact .inl ⟨e, by rw [operands, htype]; rfl⟩
  | ok type =>
      have hoperands : operands s = givenOperands s type >>= fun ab =>
          Process.ofExcept .operand (Operands.check ab.1 ab.2) >>= fun _ => .done ab := by
        rw [operands, htype]
        rfl
      rcases run_givenOperands_cases hfile h rank type with
        ⟨e, hgiven⟩ | ⟨a, b, pathB, hpathB, hatype, hgiven, hfirst, hsecond⟩
      · exact .inl ⟨e, by rw [hoperands, Host.run_bind_failed hgiven]⟩
      have hrun := Host.run_bind hgiven fun ab =>
        Process.ofExcept .operand (Operands.check ab.1 ab.2) >>= fun _ => Process.done ab
      rw [← hoperands] at hrun
      cases hcheck : Operands.check a b with
      | error e =>
          rw [hcheck] at hrun
          exact .inl ⟨_, hrun⟩
      | ok extents =>
          rw [hcheck] at hrun
          have hdone : h.run rank (operands s) = (.done (a, b), h) := hrun
          obtain ⟨g, -, hpath⟩ := Host.comes_of_done hdone
          obtain ⟨f, rfl, rfl, hsquare⟩ := comes_operands_done hpath
          obtain rfl : f.type = type := CellType.int.inj (f.left.type_eq.symm.trans hatype)
          exact .inr ⟨f.type, f.rows, f.inner, f.a, f.b, pathB, (typeOf_eq_ok_iff.mp htype).1, hpathB,
            hdone, hfirst, hsecond, f.left, hsquare ▸ f.right⟩

/-- **Given files are the operands.** The command line gives texts for both files. If the first is neither
empty nor the separator, then getting the operands fails, or it returns just what the files of these names
hold, two matrices that make a square product. An empty text and the separator for the first one have the
operands filled. -/
theorem operands_of_given {args : List String} (hparse : Options.parse args = .ok s)
    (ha : given args "--matrix-a" = some pathA) (hb : given args "--matrix-b" = some pathB)
    (h : Host) (rank : Nat) :
    if pathA = "" ∨ pathA = "--" then operands s = operands (withoutFiles s)
    else (∃ e, h.run rank (operands s) = (.failed e, h)) ∨
      ∃ type n m a b, s.type = .value type ∧ h.run rank (operands s) = (.done (a, b), h) ∧
        h.run rank (load pathA type) = (.done a, h) ∧ h.run rank (load pathB type) = (.done b, h) ∧
        a.IsMatrix type n m ∧ b.IsMatrix type m n := by
  obtain ⟨hmatrixA, hmatrixB⟩ := matrices_of_given hparse ha hb
  have hfile := file?_ofText pathA
  rw [← hmatrixA] at hfile
  by_cases hunnamed : pathA = "" ∨ pathA = "--"
  · rw [if_pos hunnamed] at hfile ⊢
    exact operands_of_file?_eq_none hfile
  · rw [if_neg hunnamed] at hfile ⊢
    rcases run_operands_cases hfile h rank with
      hfails | ⟨type, n, m, a, b, other, htype, hother, hdone, hfirst, hsecond, hleft, hright⟩
    · exact .inl hfails
    · right
      rw [hmatrixB, ofText] at hother
      split at hother
      · cases hother
      · cases hother
        exact ⟨type, n, m, a, b, htype, hdone, hfirst, hsecond, hleft, hright⟩

end

def fromFiles (pathA pathB : String) (rows inner : Int) : Settings Int :=
  { Settings.initial with
    rows, inner, rounds := 1
    matrixA := some (.value pathA), matrixB := some (.value pathB) }

def rowAndColumn : Host :=
  .initial 2 [] (.ofList [("a.csv", .bytes (Text.Utf8.encode "1,2\n")),
    ("b.csv", .bytes (Text.Utf8.encode "3\n4\n"))]) 0

/-- A row and a column are loaded from their files. -/
theorem operands_of_given_rowAndColumn :
    Options.parse ["--matrix-a=a.csv", "--matrix-b", "b.csv"] = .ok (fromFiles "a.csv" "b.csv" 20 32) ∧
      given ["--matrix-a=a.csv", "--matrix-b", "b.csv"] "--matrix-a" = some "a.csv" ∧
      given ["--matrix-a=a.csv", "--matrix-b", "b.csv"] "--matrix-b" = some "b.csv" ∧
      ∃ type n m a b, (fromFiles "a.csv" "b.csv" 20 32).type = .value type ∧
        rowAndColumn.run 0 (operands (fromFiles "a.csv" "b.csv" 20 32)) = (.done (a, b), rowAndColumn) ∧
        rowAndColumn.run 0 (load "a.csv" type) = (.done a, rowAndColumn) ∧
        rowAndColumn.run 0 (load "b.csv" type) = (.done b, rowAndColumn) ∧
        a.IsMatrix type n m ∧ b.IsMatrix type m n := by
  have hparse : Options.parse ["--matrix-a=a.csv", "--matrix-b", "b.csv"]
      = .ok (fromFiles "a.csv" "b.csv" 20 32) := by decide +kernel
  have ha : given ["--matrix-a=a.csv", "--matrix-b", "b.csv"] "--matrix-a" = some "a.csv" := by decide
  have hb : given ["--matrix-a=a.csv", "--matrix-b", "b.csv"] "--matrix-b" = some "b.csv" := by decide
  refine ⟨hparse, ha, hb, ?_⟩
  have hgiven := operands_of_given hparse ha hb rowAndColumn 0
  rw [if_neg (by decide)] at hgiven
  rcases hgiven with ⟨e, hfails⟩ | hloaded
  · have hdone : ((rowAndColumn.run 0 (operands (fromFiles "a.csv" "b.csv" 20 32))).1 matches .done _)
        = true := by decide +kernel
    rw [hfails] at hdone
    cases hdone
  · exact hloaded

def oneNumber : Host := .initial 2 [] (.ofList [("b.csv", .bytes (Text.Utf8.encode "5\n"))]) 0

/-- **Given files can be ignored**: with an empty name for the first one the operands are filled, though
no file of this name can be loaded. -/
theorem operands_filled_of_empty :
    Options.parse ["--matrix-a", "", "--matrix-b", "b.csv", "--rows", "1", "--inner", "1"]
        = .ok (fromFiles "" "b.csv" 1 1) ∧
      given ["--matrix-a", "", "--matrix-b", "b.csv", "--rows", "1", "--inner", "1"] "--matrix-a"
        = some "" ∧
      given ["--matrix-a", "", "--matrix-b", "b.csv", "--rows", "1", "--inner", "1"] "--matrix-b"
        = some "b.csv" ∧
      (∃ a b, oneNumber.run 0 (operands (fromFiles "" "b.csv" 1 1)) = (.done (a, b), oneNumber) ∧
        a.words = #[1] ∧ b.words = #[1]) ∧
      ∀ type a, oneNumber.run 0 (load "" type) ≠ (.done a, oneNumber) := by
  let one : Tensor := .matrix (.int .int64) 1 1 fun _ j => IntType.int64.wrap (j + 1)
  have hpattern : Operands.pattern 1 1 .int64 = .ok (one, one) := rfl
  have hcheck : Operands.check one one = .ok (1, 1) := rfl
  have hmissing : oneNumber.files.read "" = .error (.missing "") := by decide +kernel
  refine ⟨by decide +kernel, by decide, by decide, ⟨one, one, ?_, rfl, rfl⟩, ?_⟩
  · show oneNumber.run 0 (Process.ofExcept .operand (Operands.pattern 1 1 .int64) >>= fun ab =>
      Process.ofExcept .operand (Operands.check ab.1 ab.2) >>= fun _ => Process.done ab) = _
    rw [hpattern]
    show oneNumber.run 0 (Process.ofExcept .operand (Operands.check one one) >>= fun _ =>
      Process.done (one, one)) = _
    rw [hcheck]
    rfl
  · intro type a hload
    simp only [load, Process.request, Process.ask_bind, Process.done_bind, Host.run, Host.serve, hmissing,
      Process.ofExcept, Process.failed_bind] at hload
    cases hload

end RowBlock.Program
