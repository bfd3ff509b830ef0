import Mathlib.Algebra.Ring.GeomSum
import Mathlib.Data.Fintype.EquivFin
import Mathlib.Data.Int.ModEq
import Mathlib.RingTheory.Coprime.Lemmas
import Mathlib.Tactic.LinearCombination
import RowBlock.Random.Generator

set_option autoImplicit false

/-! # The period of the generator

The state of a generator is multiplied and increased modulo `2 ^ 128`. The multiplier is one modulo four
and the increment of every seeded generator is odd, so the states come round only after all `2 ^ 128` of
them: after `d` steps a state differs from what it was by an odd multiple of the sum of the first `d`
powers of the multiplier, and `2 ^ e` divides this sum only if it divides `d`
(`two_pow_dvd_of_dvd_sum`). Hence every state is reached from every other one
(`Generator.exists_advance_eq`).
-/

namespace RowBlock.Random

open Finset

/-! ## Sums of powers

A sum of an even number of powers is a sum of half as many times one plus a power, and this factor
is even exactly once, as the number is one modulo four. Each halving of the number of terms
therefore takes away one factor of two and no more, and a sum of an odd number of terms is odd. -/

theorem sum_pow_double (a : Int) (k : Nat) :
    ∑ i ∈ range (k + k), a ^ i = (∑ i ∈ range k, a ^ i) * (1 + a ^ k) := by
  have hupper : ∑ i ∈ range k, a ^ (k + i) = a ^ k * ∑ i ∈ range k, a ^ i := by
    rw [mul_sum]
    exact sum_congr rfl fun i _ => pow_add a k i
  rw [sum_range_add, hupper]
  ring

/-- **A power of two divides a sum of powers** of a number that is one modulo four only if it divides the
number of its terms. -/
theorem two_pow_dvd_of_dvd_sum {a : Int} (ha : a % 4 = 1) {e d : Nat}
    (h : (2 : Int) ^ e ∣ ∑ i ∈ range d, a ^ i) : 2 ^ e ∣ d := by
  have hmod (k : Nat) : a ^ k % 4 = 1 := by
    have hpow : a ^ k ≡ 1 ^ k [ZMOD 4] := Int.ModEq.pow k ha
    rw [one_pow] at hpow
    exact hpow
  -- a sum of twice as many powers is twice an odd multiple of the half sum
  have hdouble (k : Nat) : ∃ q : Int, ∑ i ∈ range (2 * k), a ^ i
      = 2 * ((∑ i ∈ range k, a ^ i) * (2 * q + 1)) := by
    have hfactor : 1 + a ^ k = 2 * (2 * (a ^ k / 4) + 1) := by
      have := hmod k
      omega
    refine ⟨a ^ k / 4, ?_⟩
    rw [two_mul k, sum_pow_double, hfactor]
    ring
  induction e generalizing d with
  | zero => exact one_dvd d
  | succ e ih =>
      rcases Nat.even_or_odd' d with ⟨k, rfl | rfl⟩
      · obtain ⟨q, hq⟩ := hdouble k
        rw [hq, pow_succ, mul_comm ((2 : Int) ^ e)] at h
        have hhalf : (2 : Int) ^ e ∣ (∑ i ∈ range k, a ^ i) * (2 * q + 1) :=
          (mul_dvd_mul_iff_left two_ne_zero).mp h
        have hodd : IsCoprime ((2 : Int) ^ e) (2 * q + 1) := IsCoprime.pow_left ⟨-q, 1, by ring⟩
        have hk : 2 ^ e ∣ k := ih (hodd.dvd_of_dvd_mul_right hhalf)
        rw [pow_succ, mul_comm]
        exact Nat.mul_dvd_mul_left 2 hk
      · -- an odd number of odd powers has an odd sum
        exfalso
        obtain ⟨q, hq⟩ := hdouble k
        have hlast := hmod (2 * k)
        have htwo : (2 : Int) ∣ ∑ i ∈ range (2 * k + 1), a ^ i :=
          (dvd_pow_self 2 (Nat.succ_ne_zero e)).trans h
        rw [sum_range_succ, hq] at htwo
        omega

namespace Generator

/-! ## Steps of the state

The state after some steps is affine in the state before them, with the sum of powers as the
constant. If two of the states were equal, the sum for the steps between them would be divisible by
`2 ^ 128`, and so would their number. That all states are reached is then counting. -/

/-- **The state after some steps**, modulo `2 ^ 128`. -/
theorem iterate_advance_modEq (increment state k : Nat) :
    ((advance increment)^[k] state : Int)
      ≡ state * multiplier ^ k + increment * ∑ i ∈ range k, (multiplier : Int) ^ i [ZMOD 2 ^ 128] := by
  induction k with
  | zero => simp
  | succ k ih =>
      rw [Function.iterate_succ_apply', advance]
      push_cast
      calc ((((advance increment)^[k] state : Int) * multiplier + increment) % 2 ^ 128 : Int)
          ≡ ((advance increment)^[k] state : Int) * multiplier + increment [ZMOD 2 ^ 128] :=
            Int.mod_modEq _ _
        _ ≡ (state * multiplier ^ k + increment * ∑ i ∈ range k, (multiplier : Int) ^ i) * multiplier
              + increment [ZMOD 2 ^ 128] := (ih.mul_right _).add_right _
        _ = state * multiplier ^ (k + 1)
              + increment * ∑ i ∈ range (k + 1), (multiplier : Int) ^ i := by
            rw [geom_sum_succ]
            ring

/-- **The states of a generator do not come round** within `2 ^ 128` steps. -/
theorem iterate_advance_injOn {increment : Nat} (hincrement : increment % 2 = 1) (state : Nat)
    {i j : Nat} (hij : i ≤ j) (hj : j < 2 ^ 128)
    (h : (advance increment)^[i] state = (advance increment)^[j] state) : i = j := by
  obtain ⟨d, rfl⟩ := Nat.exists_eq_add_of_le hij
  set a : Int := ((multiplier : Nat) : Int) with ha
  have haFour : a % 4 = 1 := by rw [ha]; decide
  have haOdd : IsCoprime ((2 : Int) ^ 128) a :=
    IsCoprime.pow_left ⟨-(2 * (a / 4)), 1, by omega⟩
  -- the two states differ by an odd multiple of the sum of `d` powers
  have hclosed : (state * a ^ i + increment * ∑ k ∈ range i, a ^ k : Int)
      ≡ state * a ^ (i + d) + increment * ∑ k ∈ range (i + d), a ^ k [ZMOD 2 ^ 128] := by
    have hsame := (iterate_advance_modEq increment state i).symm
    rw [h] at hsame
    exact hsame.trans (iterate_advance_modEq increment state (i + d))
  have hpower : a ^ d = (a - 1) * ∑ k ∈ range d, a ^ k + 1 := by rw [mul_geom_sum]; ring
  have hupper : ∑ k ∈ range d, a ^ (i + k) = a ^ i * ∑ k ∈ range d, a ^ k := by
    rw [mul_sum]
    exact sum_congr rfl fun k _ => pow_add a i k
  have hdvd : (2 : Int) ^ 128
      ∣ a ^ i * ((state * (a - 1) + increment) * ∑ k ∈ range d, a ^ k) := by
    have hdifference := hclosed.dvd
    rw [sum_range_add, hupper, pow_add, hpower] at hdifference
    convert hdifference using 1
    ring
  have hodd : IsCoprime ((2 : Int) ^ 128) (state * (a - 1) + increment) := by
    refine IsCoprime.pow_left ⟨-(state * (2 * (a / 4)) + increment / 2), 1, ?_⟩
    have hfour : a - 1 = 2 * (2 * (a / 4)) := by omega
    have hinc : (increment : Int) = 2 * (increment / 2) + 1 := by omega
    rw [hfour]
    linear_combination hinc
  have hsum : (2 : Int) ^ 128 ∣ ∑ k ∈ range d, a ^ k :=
    hodd.dvd_of_dvd_mul_left ((haOdd.pow_right (n := i)).dvd_of_dvd_mul_left hdvd)
  have hd : 2 ^ 128 ∣ d := two_pow_dvd_of_dvd_sum haFour hsum
  have hzero : d = 0 := Nat.eq_zero_of_dvd_of_lt hd (by omega)
  rw [hzero, Nat.add_zero]

/-- **Every state is reached** from every other one in at most `2 ^ 128` steps. -/
theorem exists_advance_eq {increment : Nat} (hincrement : increment % 2 = 1) (state : Nat)
    {target : Nat} (htarget : target < 2 ^ 128) :
    ∃ k < 2 ^ 128, (advance increment)^[k + 1] state = target := by
  have hlt (k : Nat) : (advance increment)^[k + 1] state < 2 ^ 128 := by
    rw [Function.iterate_succ_apply']
    exact Nat.mod_lt _ (Nat.two_pow_pos 128)
  let reached (k : Fin (2 ^ 128)) : Fin (2 ^ 128) := ⟨(advance increment)^[k + 1] state, hlt k⟩
  have hinjective : Function.Injective reached := by
    intro i j hij
    have hsame : (advance increment)^[i] (advance increment state)
        = (advance increment)^[j] (advance increment state) := by
      rw [← Function.iterate_succ_apply, ← Function.iterate_succ_apply]
      exact Fin.mk.inj hij
    rcases Nat.le_total i j with hle | hle
    · exact Fin.ext (iterate_advance_injOn hincrement _ hle j.isLt hsame)
    · exact Fin.ext (iterate_advance_injOn hincrement _ hle i.isLt hsame.symm).symm
  obtain ⟨k, hk⟩ := Finite.surjective_of_injective hinjective ⟨target, htarget⟩
  exact ⟨k, k.isLt, Fin.mk.inj hk⟩

end Generator

end RowBlock.Random
