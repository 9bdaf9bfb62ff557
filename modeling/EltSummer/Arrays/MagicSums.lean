import EltSummer.Arrays.MagicWalk
import EltSummer.Framework.RangeSum
import Mathlib.Algebra.BigOperators.Ring.Finset
import Mathlib.Tactic.LinearCombination

/-!
# The sums of the magic square

With the closed form of `MagicWalk` the law of the square is a matter of sums.  Along a row
or a column both the diagonal and the step of the cells run through `0 … n - 1`, each value
once, because 2 is invertible modulo an odd `n`.  On the two diagonals of the square the
step need not run through all values (when 3 divides `n` it does not), but cells placed
symmetrically about the centre add up to `n * n + 1`, and either diagonal is its own mirror
image.  The second argument covers every odd `n` without a case for 3.
-/

namespace EltSummer
namespace MagicSquare

open Block Finset

/-- The number in row `r` and column `c`, as `main` reads it for printing. -/
def entry (n : ℕ) (a : List ℤ) (r c : ℕ) : ℤ := (load a (r * n + c)).getD 0

/-- Rows, columns and both diagonals of the `n × n` table sum to `n * (n * n + 1) / 2`. -/
structure IsMagic (n : ℕ) (a : List ℤ) : Prop where
  row : ∀ r < n, ∑ c ∈ range n, entry n a r c = n * (n * n + 1) / 2
  column : ∀ c < n, ∑ r ∈ range n, entry n a r c = n * (n * n + 1) / 2
  mainDiagonal : ∑ i ∈ range n, entry n a i i = n * (n * n + 1) / 2
  secondaryDiagonal : ∑ i ∈ range n, entry n a i (n - 1 - i) = n * (n * n + 1) / 2

/-! ## Sums of the closed form -/

variable {h : ℕ}

/-- A line of cells whose diagonals and whose steps each take every value once has the
magic sum. -/
lemma two_mul_sum_numberAt {f g : ℕ → ℤ}
    (hf : ∀ i < 2 * h + 1, 0 ≤ f i ∧ f i < 2 * h + 1)
    (hg : ∀ i < 2 * h + 1, 0 ≤ g i ∧ g i < 2 * h + 1)
    (hd : ∀ i < 2 * h + 1, ∀ j < 2 * h + 1,
      diagonalOf h (f i) (g i) = diagonalOf h (f j) (g j) → i = j)
    (hs : ∀ i < 2 * h + 1, ∀ j < 2 * h + 1,
      stepOf h (f i) (g i) = stepOf h (f j) (g j) → i = j) :
    2 * ∑ i ∈ range (2 * h + 1), numberAt h (f i) (g i) =
      (2 * h + 1) * ((2 * h + 1) * (2 * h + 1) + 1) := by
  have hdiag := RangeSum.two_mul_sum_of_injOn (n := 2 * h + 1)
    (f := fun i => diagonalOf h (f i) (g i))
    (fun i hi => (diagonalOf_bounds (hf i hi).1 (hf i hi).2 (hg i hi).1 (hg i hi).2).1)
    (fun i hi => by
      push_cast
      exact (diagonalOf_bounds (hf i hi).1 (hf i hi).2 (hg i hi).1 (hg i hi).2).2) hd
  have hstep := RangeSum.two_mul_sum_of_injOn (n := 2 * h + 1)
    (f := fun i => stepOf h (f i) (g i))
    (fun i hi => (stepOf_bounds (hf i hi).1 (hf i hi).2 (hg i hi).1 (hg i hi).2).1)
    (fun i hi => by
      push_cast
      exact (stepOf_bounds (hf i hi).1 (hf i hi).2 (hg i hi).1 (hg i hi).2).2) hs
  have hsplit : ∑ i ∈ range (2 * h + 1), numberAt h (f i) (g i) =
      (∑ i ∈ range (2 * h + 1), diagonalOf h (f i) (g i)) * (2 * h + 1) +
        ∑ i ∈ range (2 * h + 1), stepOf h (f i) (g i) + (2 * h + 1) := by
    simp only [numberAt, sum_add_distrib, sum_mul]
    simp
  push_cast at hdiag hstep
  rw [hsplit]
  linear_combination (2 * (h : ℤ) + 1) * hdiag + hstep

lemma two_mul_sum_row {r : ℕ} (hr : r < 2 * h + 1) :
    2 * ∑ c ∈ range (2 * h + 1), numberAt h r c =
      (2 * h + 1) * ((2 * h + 1) * (2 * h + 1) + 1) := by
  refine two_mul_sum_numberAt (f := fun _ => r) (g := fun c => c) ?_ ?_ ?_ ?_
  · intro i _
    omega
  · intro i hi
    omega
  · intro i hi j hj hij
    have hdi := diagonalOf_cases h r i
    have hdj := diagonalOf_cases h r j
    omega
  · intro i hi j hj hij
    have hdi := diagonalOf_cases h r i
    have hdj := diagonalOf_cases h r j
    have hsi := stepOf_cases h r i
    have hsj := stepOf_cases h r j
    omega

lemma two_mul_sum_column {c : ℕ} (hc : c < 2 * h + 1) :
    2 * ∑ r ∈ range (2 * h + 1), numberAt h r c =
      (2 * h + 1) * ((2 * h + 1) * (2 * h + 1) + 1) := by
  refine two_mul_sum_numberAt (f := fun r => r) (g := fun _ => c) ?_ ?_ ?_ ?_
  · intro i hi
    omega
  · intro i _
    omega
  · intro i hi j hj hij
    have hdi := diagonalOf_cases h i c
    have hdj := diagonalOf_cases h j c
    omega
  · intro i hi j hj hij
    have hdi := diagonalOf_cases h i c
    have hdj := diagonalOf_cases h j c
    have hsi := stepOf_cases h i c
    have hsj := stepOf_cases h j c
    omega

/-- Cells symmetric about the centre add up to `n * n + 1`. -/
lemma numberAt_add_mirror {r c : ℤ} (hr : 0 ≤ r) (hrn : r < 2 * h + 1) (hc : 0 ≤ c)
    (hcn : c < 2 * h + 1) :
    numberAt h r c + numberAt h (2 * h - r) (2 * h - c) =
      (2 * h + 1) * (2 * h + 1) + 1 := by
  have hd : diagonalOf h r c + diagonalOf h (2 * h - r) (2 * h - c) = 2 * h := by
    have hdiag := diagonalOf_cases h r c
    have hmirror := diagonalOf_cases h (2 * h - r) (2 * h - c)
    omega
  have hs : stepOf h r c + stepOf h (2 * h - r) (2 * h - c) = 2 * h := by
    have hb := diagonalOf_bounds hr hrn hc hcn
    have hstep := stepOf_cases h r c
    have hmirror := stepOf_cases h (2 * h - r) (2 * h - c)
    omega
  unfold numberAt
  linear_combination (2 * (h : ℤ) + 1) * hd + hs

lemma two_mul_sum_mainDiagonal :
    2 * ∑ i ∈ range (2 * h + 1), numberAt h i i =
      (2 * h + 1) * ((2 * h + 1) * (2 * h + 1) + 1) := by
  have hsum := RangeSum.two_mul_sum_of_mirror (n := 2 * h + 1)
    (f := fun i => numberAt h i i) (c := (2 * h + 1) * (2 * h + 1) + 1) (by
      intro i hi
      have hcast : ((2 * h + 1 - 1 - i : ℕ) : ℤ) = 2 * h - i := by omega
      simp only [hcast]
      exact numberAt_add_mirror (by omega) (by omega) (by omega) (by omega))
  push_cast at hsum
  exact hsum

lemma two_mul_sum_secondaryDiagonal :
    2 * ∑ i ∈ range (2 * h + 1), numberAt h i ((2 * h + 1 - 1 - i : ℕ) : ℤ) =
      (2 * h + 1) * ((2 * h + 1) * (2 * h + 1) + 1) := by
  have hsum := RangeSum.two_mul_sum_of_mirror (n := 2 * h + 1)
    (f := fun i => numberAt h i ((2 * h + 1 - 1 - i : ℕ) : ℤ))
    (c := (2 * h + 1) * (2 * h + 1) + 1) (by
      intro i hi
      have hcast : ((2 * h + 1 - 1 - i : ℕ) : ℤ) = 2 * h - i := by omega
      have hback : ((2 * h + 1 - 1 - (2 * h + 1 - 1 - i) : ℕ) : ℤ) = 2 * h - (2 * h - i) := by
        omega
      simp only [hcast, hback]
      exact numberAt_add_mirror (by omega) (by omega) (by omega) (by omega))
  push_cast at hsum
  exact hsum

/-! ## The law -/

/-- The entries of a line of cells add up to half of what `two_mul_sum_numberAt` says. -/
lemma sum_entry {a : List ℤ} {f g : ℕ → ℕ}
    (hentry : ∀ r c : ℕ, r < 2 * h + 1 → c < 2 * h + 1 →
      entry (2 * h + 1) a r c = numberAt h r c)
    (hf : ∀ i < 2 * h + 1, f i < 2 * h + 1) (hg : ∀ i < 2 * h + 1, g i < 2 * h + 1)
    (hsum : 2 * ∑ i ∈ range (2 * h + 1), numberAt h (f i) (g i) =
      (2 * h + 1) * ((2 * h + 1) * (2 * h + 1) + 1)) :
    ∑ i ∈ range (2 * h + 1), entry (2 * h + 1) a (f i) (g i) =
      ((2 * h + 1 : ℕ) : ℤ) * ((2 * h + 1 : ℕ) * (2 * h + 1 : ℕ) + 1) / 2 := by
  have hsame : ∑ i ∈ range (2 * h + 1), entry (2 * h + 1) a (f i) (g i) =
      ∑ i ∈ range (2 * h + 1), numberAt h (f i) (g i) :=
    sum_congr rfl fun i hi => hentry _ _ (hf i (mem_range.mp hi)) (hg i (mem_range.mp hi))
  push_cast
  omega

/-- A table with the closed form in it is magic. -/
lemma isMagic_of_entry {a : List ℤ} (hentry : ∀ r c : ℕ, r < 2 * h + 1 → c < 2 * h + 1 →
    entry (2 * h + 1) a r c = numberAt h r c) : IsMagic (2 * h + 1) a where
  row r hr := sum_entry (f := fun _ => r) (g := fun c => c) hentry (fun _ _ => hr)
    (fun _ hi => hi) (two_mul_sum_row hr)
  column c hc := sum_entry (f := fun r => r) (g := fun _ => c) hentry (fun _ hi => hi)
    (fun _ _ => hc) (two_mul_sum_column hc)
  mainDiagonal := sum_entry (f := fun i => i) (g := fun i => i) hentry (fun _ hi => hi)
    (fun _ hi => hi) two_mul_sum_mainDiagonal
  secondaryDiagonal := sum_entry (f := fun i => i) (g := fun i => 2 * h + 1 - 1 - i) hentry
    (fun _ hi => hi) (fun _ _ => by omega) two_mul_sum_secondaryDiagonal

/-- **The square is magic.**  For odd `n` the function returns, and in the returned array
every row, every column and both diagonals sum to `n * (n * n + 1) / 2`. -/
theorem createMagicSquare_isMagic (n : ℕ) (hodd : Odd n) :
    ∃ a, (∀ turns, n * n ≤ turns → createMagicSquare n turns = .returned a) ∧
      a.length = n * n ∧ IsMagic n a := by
  obtain ⟨h, rfl⟩ := hodd
  obtain ⟨a, hret, hlen, hcell⟩ := createMagicSquare_closed_form (h := (h : ℤ)) (by omega)
  refine ⟨a, fun turns hturns => ?_, by exact_mod_cast hlen, isMagic_of_entry fun r c hr hc => ?_⟩
  · have hcast : ((2 * h + 1 : ℕ) : ℤ) = 2 * h + 1 := by push_cast; ring
    rw [hcast]
    refine loop_mono ?_ hret nofun
    have : ((2 * (h : ℤ) + 1) * (2 * h + 1)).toNat = (2 * h + 1) * (2 * h + 1) := by
      exact_mod_cast Int.toNat_natCast ((2 * h + 1) * (2 * h + 1))
    omega
  · have := hcell r c (by omega) (by omega) (by omega) (by omega)
    simp only [entry]
    push_cast
    rw [this, Option.getD_some]

theorem createMagicSquare_isMagic_three :
    Odd 3 ∧ ∃ a, (∀ turns, 3 * 3 ≤ turns → createMagicSquare (3 : ℕ) turns = .returned a) ∧
      a.length = 3 * 3 ∧ IsMagic 3 a :=
  ⟨by decide, createMagicSquare_isMagic 3 (by decide)⟩

end MagicSquare
end EltSummer
