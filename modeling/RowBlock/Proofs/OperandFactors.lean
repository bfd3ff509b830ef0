import RowBlock.Program
import RowBlock.Proofs.Outputs
import RowBlock.Proofs.RoundMessages

set_option autoImplicit false

/-! # The operands of a job

However the operands of a job are given, both are matrices of the type that is asked for, and with the
check of their shapes they are the factors of a square product (`comes_operands_done`). Getting them
only reads (`only_operands`), so they are settled by the files (`operandsOf`).
-/

namespace RowBlock

/-! ## The types of operands

Each way to get a matrix ends in a tensor of the type that was asked for. The proofs follow the code
to its last line and look at nothing else on the way. -/

namespace Csv

theorem type_of_read {path : String} {type : IntType} {bytes : List UInt8} {t : Tensor}
    (h : read path type bytes = .ok t) : t.type = .int type := by
  unfold read at h
  cases hrows : (records bytes).mapError CsvError.records with
  | error e =>
      rw [hrows] at h
      cases h
  | ok rows =>
      rw [hrows] at h
      simp only [bind, Except.bind] at h
      split at h
      · cases h
      · split at h
        · cases h
        · split at h
          · cases h
          · split at h
            · split at h
              · cases h
                rfl
              · cases h
            · cases h

end Csv

theorem exists_ok_of_bind {ε α β : Type} {x : Except ε α} {f : α → Except ε β} {b : β}
    (h : x >>= f = .ok b) : ∃ a, x = .ok a ∧ f a = .ok b := by
  cases x with
  | error e => cases h
  | ok a => exact ⟨a, rfl, h⟩

namespace Operands

variable {n m low high seed : Int} {type : IntType} {a b : Tensor}

variable [Memory]

theorem type_of_counting (h : counting type n m = .ok a) : a.type = .int type := by
  unfold counting at h
  obtain ⟨length, -, h⟩ := exists_ok_of_bind h
  obtain ⟨_, -, h⟩ := exists_ok_of_bind h
  dsimp only at h
  split at h
  · cases h
  · split at h
    · cases h
    · obtain ⟨_, -, h⟩ := exists_ok_of_bind h
      cases h
      rfl

theorem type_of_pattern (h : pattern n m type = .ok (a, b)) :
    a.type = .int type ∧ b.type = .int type := by
  unfold pattern at h
  obtain ⟨a', ha, h⟩ := exists_ok_of_bind h
  obtain ⟨b', hb, h⟩ := exists_ok_of_bind h
  cases h
  exact ⟨type_of_counting ha, type_of_counting hb⟩

theorem type_of_random (h : random n m type low high seed = .ok (a, b)) :
    a.type = .int type ∧ b.type = .int type := by
  unfold random at h
  dsimp only at h
  split at h
  · cases h
  · split at h
    · cases h
    · -- whether or not the range is looked at, the cells are drawn in the same way
      split at h
      on_goal 1 => obtain ⟨_, -, h⟩ := exists_ok_of_bind h
      all_goals
        obtain ⟨⟨p, q⟩, -, h⟩ := exists_ok_of_bind h
        dsimp only at h
        split at h
        · cases h
        · cases h
          exact ⟨rfl, rfl⟩

theorem type_of_unbounded (h : unbounded n m type seed = .ok (a, b)) :
    a.type = .int type ∧ b.type = .int type := by
  unfold unbounded at h
  dsimp only at h
  split at h
  · cases h
  · obtain ⟨⟨p, q⟩, -, h⟩ := exists_ok_of_bind h
    dsimp only at h
    split at h
    · split at h
      · cases h
      · split at h
        · cases h
        · cases h
          exact ⟨rfl, rfl⟩
    · cases h
      exact ⟨rfl, rfl⟩

end Operands

namespace Program

variable {s : Settings Int} {type : IntType} {h : History} {a b : Tensor}

/-! ## The operands

Operands are got by reading files and, for a generator without a seed, fresh entropy. Such requests
change nothing, so the operands are a function of the files and of the entropy, and this function is
the process itself, run on a host that has them. -/

theorem only_load (path : String) (type : IntType) :
    (load path type).Only (·.isRead = true) (· ≠ .wrongProduct) := by
  unfold load
  refine (Process.only_request (P := fun r => r.isRead = true) rfl).bind fun _ => ?_
  refine (Process.only_ofExcept _ fun _ _ => nofun).bind fun _ => ?_
  exact Process.only_ofExcept _ fun _ _ => nofun

theorem only_seedOf (setting : Option (Setting Int)) :
    (seedOf setting).Only (·.isRead = true) (· ≠ .wrongProduct) := by
  unfold seedOf
  split
  · trivial
  · trivial
  · exact (Process.only_request (P := fun r => r.isRead = true) rfl).bind fun _ => trivial

theorem only_filledOperands [Memory] (s : Settings Int) (type : IntType) :
    (filledOperands s type).Only (·.isRead = true) (· ≠ .wrongProduct) := by
  unfold filledOperands randomOperands
  split
  · split
    · split
      · exact nofun
      · exact (only_seedOf _).bind fun _ => Process.only_ofExcept _ fun _ _ => nofun
    · exact nofun
    · exact nofun
    · exact (only_seedOf _).bind fun _ => Process.only_ofExcept _ fun _ _ => nofun
  · exact Process.only_ofExcept _ fun _ _ => nofun

theorem lookup_types (type : IntType) : Settings.types.lookup type.name
    = if type ∈ [IntType.int32, .int64] then some type else none := by
  obtain ⟨signed, width⟩ := type
  cases signed <;> cases width <;> decide +kernel

/-- The types of operands are found under their names, and no others are. -/
theorem typeOf_eq_ok_iff {setting : Setting IntType} :
    typeOf setting = .ok type ↔ setting = .value type ∧ type ∈ [IntType.int32, .int64] := by
  cases setting with
  | blank => simp [typeOf]
  | value other =>
      rw [typeOf, lookup_types]
      by_cases hother : other ∈ [IntType.int32, .int64]
      · rw [if_pos hother]
        constructor
        · intro h
          cases h
          exact ⟨rfl, hother⟩
        · rintro ⟨h, -⟩
          cases h
          rfl
      · rw [if_neg hother]
        constructor
        · nofun
        · rintro ⟨h, hmem⟩
          cases h
          exact absurd hmem hother

theorem ne_wrongProduct_of_typeOf {setting : Setting IntType} {e : Error}
    (h : typeOf setting = .error e) : e ≠ .wrongProduct := by
  unfold typeOf at h
  split at h
  · cases h
    exact nofun
  · split at h
    · cases h
    · cases h
      exact nofun

/-- **Getting the operands** only reads. -/
theorem only_operands [Memory] (s : Settings Int) :
    (operands s).Only (·.isRead = true) (· ≠ .wrongProduct) := by
  have hgiven (type : IntType) : (givenOperands s type).Only (·.isRead = true) (· ≠ .wrongProduct) := by
    unfold givenOperands
    split
    · refine (only_load _ _).bind fun _ => ?_
      refine Process.Only.bind ?_ fun _ => trivial
      unfold loadSecond
      split
      · exact only_load _ _
      · exact nofun
    · exact only_filledOperands s type
  unfold operands
  refine (Process.only_ofExcept _ fun _ => ne_wrongProduct_of_typeOf).bind fun _ => ?_
  exact (hgiven _).bind fun ⟨_, _⟩ =>
    (Process.only_ofExcept _ fun _ _ => nofun).bind fun _ => trivial

theorem comes_load_done {path : String} (hpath : (load path type).Comes h (.done a)) :
    a.type = .int type := by
  obtain ⟨_, _, _, -, -, hread⟩ := Process.comes_bind_done hpath
  obtain ⟨bytes, _, _, -, -, htable⟩ := Process.comes_bind_done hread
  exact Csv.type_of_read (Process.comes_ofExcept_done htable).2

variable [Memory]

theorem comes_filledOperands_done (hpath : (filledOperands s type).Comes h (.done (a, b))) :
    a.type = .int type ∧ b.type = .int type := by
  unfold filledOperands randomOperands at hpath
  split at hpath
  · split at hpath
    · split at hpath
      · exact absurd hpath Process.not_comes_failed_done
      · obtain ⟨_, _, _, -, -, hdrawn⟩ := Process.comes_bind_done hpath
        exact Operands.type_of_random (Process.comes_ofExcept_done hdrawn).2
    · exact absurd hpath Process.not_comes_failed_done
    · exact absurd hpath Process.not_comes_failed_done
    · obtain ⟨_, _, _, -, -, hdrawn⟩ := Process.comes_bind_done hpath
      exact Operands.type_of_unbounded (Process.comes_ofExcept_done hdrawn).2
  · exact Operands.type_of_pattern (Process.comes_ofExcept_done hpath).2

theorem comes_givenOperands_done (hpath : (givenOperands s type).Comes h (.done (a, b))) :
    a.type = .int type ∧ b.type = .int type := by
  unfold givenOperands at hpath
  split at hpath
  · obtain ⟨a', _, _, -, hfirst, hrest⟩ := Process.comes_bind_done hpath
    obtain ⟨b', _, _, -, hsecond, hend⟩ := Process.comes_bind_done hrest
    obtain ⟨-, hdone⟩ := Process.comes_done_iff.mp hend
    cases hdone
    refine ⟨comes_load_done hfirst, ?_⟩
    unfold loadSecond at hsecond
    split at hsecond
    · exact comes_load_done hsecond
    · exact absurd hsecond Process.not_comes_failed_done
  · exact comes_filledOperands_done hpath

/-- **The operands of a job** are the factors of a square product. -/
theorem comes_operands_done (hpath : (operands s).Comes h (.done (a, b))) :
    ∃ f : Factors, f.a = a ∧ f.b = b ∧ f.cols = f.rows := by
  unfold operands at hpath
  obtain ⟨type, _, _, -, -, hrest⟩ := Process.comes_bind_done hpath
  obtain ⟨⟨a', b'⟩, _, _, -, hgiven, hrest⟩ := Process.comes_bind_done hrest
  obtain ⟨_, _, _, -, hcheck, hend⟩ := Process.comes_bind_done hrest
  obtain ⟨-, hdone⟩ := Process.comes_done_iff.mp hend
  cases hdone
  obtain ⟨ha, hb⟩ := comes_givenOperands_done hgiven
  obtain ⟨-, hchecked⟩ := Process.comes_ofExcept_done hcheck
  unfold Operands.check at hchecked
  split at hchecked
  · cases hchecked
  · rename_i hranks
    split at hchecked
    · cases hchecked
    · split at hchecked
      · cases hchecked
      · rename_i hshape
        obtain ⟨n, m, hnm⟩ : ∃ n m, a.shape = [n, m] :=
          List.length_eq_two.mp (by simpa [Tensor.rank] using (not_or.mp hranks).1)
        have hrows : a.rows = n := by rw [Tensor.rows, hnm]; rfl
        have hcols : a.cols = m := by rw [Tensor.cols, hnm]; rfl
        rw [hrows, hcols, ne_eq, not_not] at hshape
        exact ⟨⟨type, n, m, n, a, b, ⟨ha, hnm⟩, ⟨hb, hshape⟩⟩, rfl, rfl, rfl⟩

/-- The operands that the settings name where the files and the fresh entropy are these. -/
def operandsOf (s : Settings Int) (files : Files) (entropy : Nat) :
    Host.Progress (Tensor × Tensor) :=
  ((Host.initial 1 [] files entropy).run coordinatorRank (operands s)).1

/-- **The operands that a job gets** are those of what it has read. -/
theorem operandsOf_eq {files : Files} {entropy : Nat}
    (hpath : (operands s).Comes h (.done (a, b))) (hreads : ∀ e ∈ h, e.IsReadOf files entropy) :
    operandsOf s files entropy = .done (a, b) := by
  have hrun : (Host.initial 1 [] files entropy).run coordinatorRank (operands s)
      = (.done (a, b), .initial 1 [] files entropy) :=
    Process.run_of_comes coordinatorRank (only_operands s) hpath hreads
  rw [operandsOf, hrun]

end Program

end RowBlock
