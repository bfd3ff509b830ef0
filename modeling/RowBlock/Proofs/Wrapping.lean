import RowBlock.Cell
import Mathlib.Algebra.BigOperators.Ring.Finset
import Mathlib.Data.Int.ModEq

set_option autoImplicit false

/-! # Arithmetic of wrapped words

`IntType.wrap` picks one value from each residue class modulo `2 ^ width`, so two words wrap
alike exactly when they are congruent (`wrap_eq_wrap_iff`). So wrapping may be done early or late in
a sum of products (`wrap_sum_wrap_mul`). What a signed type has in common with another integer type
is signed (`signed_of_promote`).
-/

namespace RowBlock.IntType

/-! ## Residues

Everything below goes through congruence: a sum or product is congruent to the one of the wrapped
numbers, and congruent numbers wrap alike. No case of width or sign is looked at again. -/

/-- A wrapped word is congruent to the word. -/
theorem wrap_modEq (t : IntType) (x : Int) : t.wrap x ≡ x [ZMOD t.modulus] := by
  unfold wrap
  split
  · exact Int.bmod_emod
  · exact Int.mod_modEq x t.modulus

/-- **Two words wrap alike** exactly when they differ by a multiple of the modulus. -/
theorem wrap_eq_wrap_iff {t : IntType} {x y : Int} :
    t.wrap x = t.wrap y ↔ x ≡ y [ZMOD t.modulus] := by
  constructor
  · intro h
    have hx := t.wrap_modEq x
    rw [h] at hx
    exact hx.symm.trans (t.wrap_modEq y)
  · intro h
    have hmod : x % t.modulus = y % t.modulus := h
    unfold wrap
    rw [Int.bmod_def, Int.bmod_def, hmod]

@[simp]
theorem wrap_wrap (t : IntType) (x : Int) : t.wrap (t.wrap x) = t.wrap x :=
  wrap_eq_wrap_iff.mpr (t.wrap_modEq x)

@[simp]
theorem wrap_zero (t : IntType) : t.wrap 0 = 0 := by
  unfold wrap
  split <;> simp

theorem wrap_add_wrap (t : IntType) (x y : Int) : t.wrap (t.wrap x + t.wrap y) = t.wrap (x + y) :=
  wrap_eq_wrap_iff.mpr ((t.wrap_modEq x).add (t.wrap_modEq y))

/-- A sum of products of wrapped factors, as a sum of products. -/
theorem wrap_sum_wrap_mul (t : IntType) (n : Nat) (f g : Nat → Int) :
    t.wrap (∑ j ∈ Finset.range n, t.wrap (f j) * t.wrap (g j))
      = t.wrap (∑ j ∈ Finset.range n, f j * g j) := by
  apply wrap_eq_wrap_iff.mpr
  -- congruence goes through sums and products, so induction on the number of terms
  induction n with
  | zero => exact Int.ModEq.refl _
  | succ n ih =>
      rw [Finset.sum_range_succ, Finset.sum_range_succ]
      exact ih.add ((t.wrap_modEq (f n)).mul (t.wrap_modEq (g n)))

/-! ## Common types

A common type of integers is one of the eight types again, so these lemmas run through all pairs.
They say what the failures of the kernels depend on: whether a sum can lie beyond all signed words. -/

theorem signed_of_promote {s t u : IntType} (h : s.promote? t = some u) (hs : s.signed = true) :
    u.signed = true := by
  rcases s with ⟨ss, sw⟩
  rcases t with ⟨ts, tw⟩
  simp only at hs
  subst hs
  revert h
  -- a signed type of either kind of width against every other type
  cases ts <;> cases sw <;> cases tw <;> intro h <;>
    simp_all [promote?, Width.bits, int16, int32, int64] <;> subst h <;> simp

/-- The values of every type but `uint64` are signed words. -/
theorem int64_holds_of_ne {t : IntType} (ht : t ≠ uint64) {x : Int} (h : t.Holds x) : int64.Holds x := by
  rcases t with ⟨signed, width⟩
  revert h
  cases signed <;> cases width <;> first
    | exact absurd rfl ht
    | simp only [Holds, least, greatest, int64, Width.bits, if_true, Bool.false_eq_true, if_false]
      omega

theorem int64_holds_of_signed {t : IntType} (ht : t.signed = true) {x : Int} (h : t.Holds x) :
    int64.Holds x :=
  int64_holds_of_ne (by rintro rfl; cases ht) h

end RowBlock.IntType
