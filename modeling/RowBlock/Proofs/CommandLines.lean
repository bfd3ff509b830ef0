import RowBlock.Proofs.GivenOptions
import RowBlock.Proofs.Launch

set_option autoImplicit false

/-! # Command lines

A command line ends the program, or its settings are those of a job that can start (`Settings.IsValid`),
with one exception: an attached separator, as in `--dtype=--`, leaves an option blank. For eight options
that is no valid setting, and nothing but that makes the settings invalid (`isValid_iff_of_parse`). Every
part of a job accepts valid settings (`Settings.IsValid.isAccepted`).
-/

namespace RowBlock

/-! ## Valid settings

Valid settings have a type, a kernel, an order and a level, counts that are not negative and at
least one round. `IsAccepted` says what the parts of the program make of them, by running those
parts: the look-ups of the type, of the threshold and of the kernel, and the making of the roles. -/

/-- **Valid settings** of a job. -/
structure Settings.IsValid (s : Settings Int) : Prop where
  rows_nonneg : 0 ≤ s.rows
  inner_nonneg : 0 ≤ s.inner
  rounds_pos : 1 ≤ s.rounds
  matrices_eq : s.matrixA.isNone = s.matrixB.isNone
  type_mem : ∃ type ∈ [IntType.int32, .int64], s.type = .value type
  fill_mem : ∃ fill ∈ [Fill.pattern, .random], s.fill = .value fill
  kernel_mem : ∃ kernel ∈ Kernel.all, s.kernel = .value kernel
  order_mem : ∃ order ∈ [Order.rank, .arrival], s.order = .value order
  logLevel_mem : ∃ level ∈ [Level.debug, .info, .warning, .error], s.logLevel = .value level

/-- **Settings that a job accepts**: on every rank the log is set up and the type of the cells is known, and
in a job with workers the coordinator and the workers can be made on their ranks and the rows can be
dealt. -/
structure Settings.IsAccepted (s : Settings Int) : Prop where
  log : ∀ rank, ∃ setup, Program.setUpLog rank s.logLevel = Process.request (.setUpLog setup)
  type : ∃ type, Program.typeOf s.type = .ok type
  coordinator : ∀ size ≥ 2, ∃ c,
    Coordinator.create ⟨0, size⟩ (Program.orderName s.order) s.skipEmpty = .ok c
  worker : ∀ size rank, 0 < rank → ∃ w, Program.workerOn s ⟨rank, size⟩ = .ok w
  rows : ∀ size : Nat, 2 ≤ size → ∃ assignments, Partition.balanced s.rows (size - 1) = .ok assignments

theorem Settings.IsValid.isAccepted {s : Settings Int} (h : s.IsValid) : s.IsAccepted where
  log := by
    intro rank
    obtain ⟨level, hmem, hlevel⟩ := h.logLevel_mem
    exact ⟨⟨rank, level⟩, by rw [hlevel, Program.setUpLog_eq hmem]⟩
  type := by
    obtain ⟨type, hmem, htype⟩ := h.type_mem
    exact ⟨type, Program.typeOf_eq_ok_iff.mpr ⟨htype, hmem⟩⟩
  coordinator := by
    intro size hsize
    cases hcreate : Coordinator.create ⟨0, size⟩ (Program.orderName s.order) s.skipEmpty with
    | ok c => exact ⟨c, rfl⟩
    | error e =>
        obtain ⟨hblank, -⟩ := Program.create_zero hsize hcreate
        obtain ⟨order, -, horder⟩ := h.order_mem
        rw [horder] at hblank
        cases hblank
  worker := by
    intro size rank hrank
    obtain ⟨kernel, -, hkernel⟩ := h.kernel_mem
    obtain ⟨i, rfl⟩ := Nat.exists_eq_succ_of_ne_zero (Nat.ne_of_gt hrank)
    exact ⟨_, Program.workerOn_succ hkernel size i⟩
  rows := by
    intro size hsize
    have hworkers : ¬(size : Int) - 1 < 1 := by omega
    exact ⟨_, by rw [Partition.balanced, if_neg hworkers, if_neg (Int.not_lt.mpr h.rows_nonneg)]⟩

namespace Options

/-! ## Restricted options

An option is blank exactly if the separator was the last value given to it. Eight options may not be
blank; for three of them the check of the counts notices, and the other five pass it. -/

/-- The options that cannot be blank. -/
def restricted : List String :=
  ["--rows", "--inner", "--rounds", "--dtype", "--fill", "--kernel", "--gather-order", "--log-level"]

/-- A job can start with a command line: its settings are valid, and so every part of the job accepts
them. -/
def CanStart (args : List String) : Prop := ∃ s, parse args = .ok s ∧ s.IsValid ∧ s.IsAccepted

variable {args : List String} {s : Settings Int}

theorem given_ne_of_passes {d : Draft} (hd : d.Reflects (usedLast args)) (hpasses : d.Passes s) :
    given args "--rows" ≠ some "--" ∧ given args "--inner" ≠ some "--" ∧
      given args "--rounds" ≠ some "--" :=
  ⟨hd.rows.eq_blank_iff.not.mp hpasses.rows.1, hd.inner.eq_blank_iff.not.mp hpasses.inner.1,
    hd.rounds.eq_blank_iff.not.mp hpasses.rounds.1⟩

theorem exists_given_of_isUncounted {d : Draft} (hd : d.Reflects (usedLast args))
    (hblank : d.IsUncounted) : ∃ name ∈ restricted, given args name = some "--" := by
  rcases hblank with hrows | hinner | hrounds
  · exact ⟨"--rows", by decide, hd.rows.eq_blank_iff.mp hrows⟩
  · exact ⟨"--inner", by decide, hd.inner.eq_blank_iff.mp hinner⟩
  · exact ⟨"--rounds", by decide, hd.rounds.eq_blank_iff.mp hrounds⟩

/-- **Accepted settings are valid** exactly if no restricted option is blank. -/
theorem isValid_iff_of_parse (h : parse args = .ok s) :
    s.IsValid ↔ ∀ name ∈ restricted, given args name ≠ some "--" := by
  obtain ⟨d, hd, hpasses⟩ := exists_draft_of_parse h
  have hcounts := given_ne_of_passes hd hpasses
  obtain rfl := hpasses.eq
  constructor
  · intro hvalid
    obtain ⟨type, -, htype⟩ := hvalid.type_mem
    obtain ⟨fill, -, hfill⟩ := hvalid.fill_mem
    obtain ⟨kernel, -, hkernel⟩ := hvalid.kernel_mem
    obtain ⟨order, -, horder⟩ := hvalid.order_mem
    obtain ⟨level, -, hlevel⟩ := hvalid.logLevel_mem
    simp only [restricted, List.forall_mem_cons]
    refine ⟨hcounts.1, hcounts.2.1, hcounts.2.2, ?_, ?_, ?_, ?_, ?_, nofun⟩
    · exact hd.type.eq_blank_iff.not.mp fun hblank => by cases htype.symm.trans hblank
    · exact hd.fill.eq_blank_iff.not.mp fun hblank => by cases hfill.symm.trans hblank
    · exact hd.kernel.eq_blank_iff.not.mp fun hblank => by cases hkernel.symm.trans hblank
    · exact hd.order.eq_blank_iff.not.mp fun hblank => by cases horder.symm.trans hblank
    · exact hd.logLevel.eq_blank_iff.not.mp fun hblank => by cases hlevel.symm.trans hblank
  · intro hall
    simp only [restricted, List.forall_mem_cons] at hall
    obtain ⟨-, -, -, htype, hfill, hkernel, horder, hlevel, -⟩ := hall
    exact {
      rows_nonneg := hpasses.rows.2
      inner_nonneg := hpasses.inner.2
      rounds_pos := hpasses.rounds.2
      matrices_eq := hpasses.matrices
      type_mem := hd.type.mem_of_ne_blank (by decide) (hd.type.eq_blank_iff.not.mpr htype)
      fill_mem := hd.fill.mem_of_ne_blank (by decide) (hd.fill.eq_blank_iff.not.mpr hfill)
      kernel_mem := hd.kernel.mem_of_ne_blank (by decide) (hd.kernel.eq_blank_iff.not.mpr hkernel)
      order_mem := hd.order.mem_of_ne_blank (by decide) (hd.order.eq_blank_iff.not.mpr horder)
      logLevel_mem := hd.logLevel.mem_of_ne_blank (by decide) (hd.logLevel.eq_blank_iff.not.mpr hlevel) }

/-- **Every command line** ends the program, with code zero for the help and with code two otherwise; or it
is one that a job can start with, exactly if the separator was not given to a restricted option. -/
theorem canStart_iff (args : List String) :
    (∃ stop : Stop, parse args = .error stop ∧ stop.IsExit) ∨
      (CanStart args ↔ ∀ name ∈ restricted, given args name ≠ some "--") := by
  have hyields := yields_parse args
  cases hparse : parse args with
  | error stop =>
      rw [hparse] at hyields
      rcases hyields with hexit | ⟨d, hd, hblank⟩
      · exact .inl ⟨stop, rfl, hexit⟩
      · -- the counts cannot be compared
        obtain ⟨name, hname, hgiven⟩ := exists_given_of_isUncounted hd hblank
        refine .inr (iff_of_false ?_ fun hall => hall name hname hgiven)
        rintro ⟨s, hs, -⟩
        rw [hparse] at hs
        cases hs
  | ok s =>
      right
      rw [← isValid_iff_of_parse hparse]
      constructor
      · rintro ⟨other, hother, hvalid, -⟩
        rw [hparse] at hother
        cases hother
        exact hvalid
      · exact fun hvalid => ⟨s, hparse, hvalid, hvalid.isAccepted⟩

/-- A blank type passes the reading of the command line. -/
theorem not_canStart_blankType :
    ¬((∃ stop : Stop, parse ["--dtype=--"] = .error stop ∧ stop.IsExit) ∨ CanStart ["--dtype=--"]) := by
  have hparse : parse ["--dtype=--"] = .ok
      { Settings.initial with rows := 20, inner := 32, rounds := 1, type := .blank } := by
    decide +kernel
  rintro (⟨stop, hstop, -⟩ | ⟨s, hs, hvalid, -⟩)
  · rw [hparse] at hstop
    cases hstop
  · rw [hparse] at hs
    cases hs
    obtain ⟨type, -, htype⟩ := hvalid.type_mem
    cases htype

end Options

end RowBlock
