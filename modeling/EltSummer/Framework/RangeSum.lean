import Mathlib.Algebra.BigOperators.Group.Finset.Piecewise
import Mathlib.Algebra.BigOperators.Intervals
import Mathlib.Algebra.Order.BigOperators.Group.Finset
import Mathlib.Data.Int.Basic
import Mathlib.Tactic.Ring

/-!
# Sums over `0 … n - 1` by rearrangement

Two ways to evaluate a sum of integers over a range without a formula for its terms: the
terms are the numbers `0 … n - 1` in some order, or the terms at mirrored places add up to a
constant.  Both are stated with a factor 2, so that no division occurs.

Three lemmas say what becomes of a sum when one term changes.
-/

namespace RangeSum

open Finset

/-- An injective enumeration of `n` numbers below `n` sums to `0 + 1 + … + (n - 1)`. -/
lemma two_mul_sum_of_injOn {n : ℕ} {f : ℕ → ℤ} (hlo : ∀ i < n, 0 ≤ f i)
    (hhi : ∀ i < n, f i < n) (hinj : ∀ i < n, ∀ j < n, f i = f j → i = j) :
    2 * ∑ i ∈ range n, f i = n * (n - 1) := by
  have hinj' : Set.InjOn (fun i => (f i).toNat) (range n) := by
    intro i hi j hj hij
    have hi' := mem_range.mp (mem_coe.mp hi)
    have hj' := mem_range.mp (mem_coe.mp hj)
    refine hinj i hi' j hj' ?_
    have hij' : (f i).toNat = (f j).toNat := hij
    have := hlo i hi'
    have := hlo j hj'
    omega
  have himage : (range n).image (fun i => (f i).toNat) = range n := by
    apply eq_of_subset_of_card_le
    · intro k hk
      obtain ⟨i, hi, rfl⟩ := mem_image.mp hk
      have := hhi i (mem_range.mp hi)
      have := hlo i (mem_range.mp hi)
      exact mem_range.mpr (by omega)
    · rw [card_image_of_injOn hinj']
  have hsum : ∑ i ∈ range n, f i = ∑ k ∈ range n, (k : ℤ) := by
    calc
      ∑ i ∈ range n, f i = ∑ i ∈ range n, ((f i).toNat : ℤ) :=
        sum_congr rfl fun i hi => (Int.toNat_of_nonneg (hlo i (mem_range.mp hi))).symm
      _ = ∑ k ∈ (range n).image (fun i => (f i).toNat), (k : ℤ) := (sum_image hinj').symm
      _ = ∑ k ∈ range n, (k : ℤ) := by rw [himage]
  have hgauss : ∀ m : ℕ, 2 * ∑ k ∈ range m, (k : ℤ) = m * (m - 1) := by
    intro m
    induction m with
    | zero => simp
    | succ m ih =>
        rw [sum_range_succ, mul_add, ih]
        push_cast
        ring
  rw [hsum, hgauss]

/-- If mirrored terms add up to `c`, the sum is half of `n * c`. -/
lemma two_mul_sum_of_mirror {n : ℕ} {f : ℕ → ℤ} {c : ℤ}
    (hmirror : ∀ i < n, f i + f (n - 1 - i) = c) :
    2 * ∑ i ∈ range n, f i = n * c := by
  calc
    2 * ∑ i ∈ range n, f i = ∑ i ∈ range n, f i + ∑ i ∈ range n, f (n - 1 - i) := by
      rw [sum_range_reflect, two_mul]
    _ = ∑ i ∈ range n, (f i + f (n - 1 - i)) := sum_add_distrib.symm
    _ = ∑ _i ∈ range n, c := sum_congr rfl fun i hi => hmirror i (mem_range.mp hi)
    _ = n * c := by simp

/-- Changing one term changes the sum by the difference. -/
lemma sum_update {n i : ℕ} (f : ℕ → ℤ) (hi : i < n) (v : ℤ) :
    ∑ j ∈ range n, Function.update f i v j = ∑ j ∈ range n, f j - f i + v := by
  have hmem : i ∈ range n := mem_range.mpr hi
  rw [sum_update_of_mem hmem, sum_eq_add_sum_sdiff_singleton_of_mem hmem f]
  ring

/-- The same without a difference. -/
lemma sum_update_add {M : Type*} [AddCommMonoid M] {n i : ℕ} (f : ℕ → M) (hi : i < n) (v : M) :
    ∑ j ∈ range n, Function.update f i v j + f i = ∑ j ∈ range n, f j + v := by
  have hmem : i ∈ range n := mem_range.mpr hi
  rw [sum_update_of_mem hmem, sum_eq_add_sum_sdiff_singleton_of_mem hmem f]
  ac_rfl

/-- A term becomes smaller, the others stay. -/
lemma sum_lt_of_one {n i : ℕ} {f g : ℕ → ℕ} (hi : i < n) (hless : g i < f i)
    (hothers : ∀ j ≠ i, g j = f j) : ∑ j ∈ range n, g j < ∑ j ∈ range n, f j := by
  apply sum_lt_sum
  · intro j _
    by_cases hj : j = i
    · exact hj ▸ hless.le
    · exact (hothers j hj).le
  · exact ⟨i, mem_range.mpr hi, hless⟩

end RangeSum
