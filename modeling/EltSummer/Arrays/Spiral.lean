import EltSummer.Framework.Block
import Mathlib.Tactic.Ring

/-!
# The spiral of `arrays_14June/four.c`

`main` writes 1, 2, 3, ... into an `N` by `N` array, moving a cursor clockwise around the
outermost square whose cells are free.  The square is given by the distances of its sides from
the borders; when its perimeter is finished they are to grow by one, the comment says.  But
`++i_end; ++j_start` stand in front of that test and are executed in every turn.  So when the
cursor comes to the end of the first row, the bottom of the square has come up to it, and the
last branch takes it out of the array (`turn_corner`).

`fills_iff` says for which `N` the spiral comes out: for 1 only.  The array is one block,
addressed by row and column, and each access is checked against both.  It is uninitialised, so
it begins with arbitrary content.  All integers are exact.
-/

namespace EltSummer
namespace Spiral

open Block

/-! ## The program -/

/-- `N`, and what `arr` holds at the start. -/
structure Setup where
  size : ℕ
  pos : 0 < size
  stack : List ℤ
  stackSize : stack.length = size * size

/-- The locals of `main` at the top of its loop. -/
structure Walk where
  arr : List ℤ
  number : ℤ
  i : ℤ
  j : ℤ
  iStart : ℤ
  iEnd : ℤ
  jStart : ℤ
  jEnd : ℤ
  deriving DecidableEq, Repr

/-- `arr[i][j] = number`. -/
def storeCell (n : ℤ) (arr : List ℤ) (i j number : ℤ) : Option (List ℤ) :=
  if 0 ≤ i ∧ i < n ∧ 0 ≤ j ∧ j < n then store arr (i * n + j) number else none

/-- The cursor behind a write. -/
def moveCursor (n : ℤ) (w : Walk) : ℤ × ℤ :=
  -- the upper side, to the right
  if w.i = w.iStart ∧ w.j < n - w.jEnd - 1 then (w.i, w.j + 1)
  -- the right side, down
  else if w.j = n - w.jEnd - 1 ∧ w.i < n - w.iEnd - 1 then (w.i + 1, w.j)
  -- the lower side, to the left
  else if w.i = n - w.iEnd - 1 ∧ w.j > w.jStart then (w.i, w.j - 1)
  -- the left side, up
  else (w.i - 1, w.j)

/-- One turn of the loop. -/
def turn (n : ℤ) (w : Walk) : Option Walk :=
  (storeCell n w.arr w.i w.j w.number).map fun arr =>
    let (i, j) := moveCursor n w
    let iEnd := w.iEnd + 1
    let jStart := w.jStart + 1
    if i = w.iStart + 1 ∧ j = jStart ∧ jStart ≠ n - w.jEnd - 1 then
      ⟨arr, w.number + 1, i, j, w.iStart + 1, iEnd, jStart, w.jEnd + 1⟩
    else ⟨arr, w.number + 1, i, j, w.iStart, iEnd, jStart, w.jEnd⟩

/-- What is known about the loop after a number of turns. -/
inductive Outcome
  | outOfBounds
  | running (w : Walk)
  | finished (arr : List ℤ)
  deriving DecidableEq, Repr

/-- At most `turns` turns of `while (number <= N*N)`. -/
def loop (n : ℤ) : ℕ → Walk → Outcome
  | 0, w => .running w
  | turns + 1, w =>
      if w.number ≤ n * n then
        match turn n w with
        | none => .outOfBounds
        | some w' => loop n turns w'
      else .finished w.arr

/-- The loop of `main`, followed for at most `turns` turns. -/
def main (s : Setup) (turns : ℕ) : Outcome := loop s.size turns ⟨s.stack, 1, 0, 0, 0, 0, 0, 0⟩

/-! ## The spiral -/

/-- The cells of the square of side `m` with its upper left corner at `(o, o)`, clockwise and
inwards from that corner. -/
def clockwise : ℕ → ℕ → List (ℕ × ℕ)
  | 0, _ => []
  | 1, o => [(o, o)]
  | m + 2, o =>
      (List.range (m + 1)).map (fun t => (o, o + t)) ++
        (List.range (m + 1)).map (fun t => (o + t, o + m + 1)) ++
        (List.range (m + 1)).map (fun t => (o + m + 1, o + m + 1 - t)) ++
        (List.range (m + 1)).map (fun t => (o + m + 1 - t, o)) ++ clockwise m (o + 1)

example : clockwise 3 0 =
    [(0, 0), (0, 1), (0, 2), (1, 2), (2, 2), (2, 1), (2, 0), (1, 0), (1, 1)] := by decide

/-- The array holds the spiral: the numbers from 1 up in its order, and each of them in one
cell. -/
structure IsSpiral (n : ℕ) (arr : List ℤ) : Prop where
  order : (clockwise n 0).map (fun c => arr[c.1 * n + c.2]?) =
    (List.range (n * n)).map fun k => some ((k : ℤ) + 1)
  once : ∀ k < n * n, ∃! c : ℕ × ℕ, c.1 < n ∧ c.2 < n ∧ arr[c.1 * n + c.2]? = some ((k : ℤ) + 1)

/-- `main` fills its array: no write leaves it, the loop ends, and the array holds the
spiral. -/
def Fills (s : Setup) : Prop := ∃ turns arr, main s turns = .finished arr ∧ IsSpiral s.size arr

/-! ## The first row -/

lemma loop_of_turn {n : ℤ} {w w' : Walk} (hnumber : w.number ≤ n * n) (h : turn n w = some w')
    (turns : ℕ) : loop n (turns + 1) w = loop n turns w' := by
  rw [loop, if_pos hnumber, h]

/-- In the array a cell can be written. -/
lemma exists_storeCell {n : ℕ} {arr : List ℤ} (hsize : arr.length = n * n) {i j : ℤ} (hi : 0 ≤ i)
    (hin : i < n) (hj : 0 ≤ j) (hjn : j < n) (number : ℤ) :
    ∃ arr', storeCell n arr i j number = some arr' ∧ arr'.length = n * n := by
  have hlen : (arr.length : ℤ) = n * n := by exact_mod_cast hsize
  obtain ⟨arr', hstore, hlen', -, -⟩ := store_flat hlen hi hin hj hjn number
  refine ⟨arr', ?_, hlen'.trans hsize⟩
  rw [storeCell, if_pos ⟨hi, hin, hj, hjn⟩, hstore]

/-- The cursor is in the first row, behind `k` writes. -/
structure InRow (n k : ℕ) (w : Walk) : Prop where
  size : w.arr.length = n * n
  number : w.number = k + 1
  i : w.i = 0
  j : w.j = k
  iStart : w.iStart = 0
  iEnd : w.iEnd = k
  jStart : w.jStart = k
  jEnd : w.jEnd = 0

/-- Up to the end of the row the cursor goes to the right, and the lower side and the left side
of the square come in with it. -/
lemma turn_row {n k : ℕ} {w : Walk} (h : InRow n k w) (hk : k + 1 < n) :
    ∃ w', turn n w = some w' ∧ InRow n (k + 1) w' := by
  obtain ⟨arr, hstore, hsize⟩ := exists_storeCell h.size (i := w.i) (j := w.j) (by rw [h.i])
    (by rw [h.i]; omega) (by rw [h.j]; omega) (by rw [h.j]; omega) w.number
  have hmove : moveCursor n w = (0, (k : ℤ) + 1) := by
    rw [moveCursor, h.i, h.j, h.iStart, h.jEnd, if_pos ⟨rfl, by omega⟩]
  refine ⟨⟨arr, w.number + 1, 0, k + 1, 0, k + 1, k + 1, 0⟩, ?_, ?_⟩
  · simp [turn, hstore, hmove, h.iStart, h.iEnd, h.jStart, h.jEnd]
  · refine ⟨hsize, ?_, rfl, ?_, rfl, ?_, ?_, rfl⟩ <;> simp [h.number]

/-- At the end of the row the right side has length 0 and the lower one as well, and the cursor
goes up. -/
lemma turn_corner {n k : ℕ} {w : Walk} (h : InRow n k w) (hk : k + 1 = n) :
    ∃ w', turn n w = some w' ∧ w'.i = -1 ∧ w'.number = n + 1 := by
  obtain ⟨arr, hstore, -⟩ := exists_storeCell h.size (i := w.i) (j := w.j) (by rw [h.i])
    (by rw [h.i]; omega) (by rw [h.j]; omega) (by rw [h.j]; omega) w.number
  have hmove : moveCursor n w = (-1, (k : ℤ)) := by
    rw [moveCursor, h.i, h.j, h.iStart, h.iEnd, h.jStart, h.jEnd, if_neg (by omega),
      if_neg (by omega), if_neg (by omega)]
    rfl
  refine ⟨⟨arr, w.number + 1, -1, k, 0, k + 1, k + 1, 0⟩, ?_, rfl, ?_⟩
  · simp [turn, hstore, hmove, h.iStart, h.iEnd, h.jStart, h.jEnd]
  · rw [h.number, ← hk]
    push_cast
    ring

/-- Above the array there is nothing to write. -/
lemma turn_outside {n : ℤ} {w : Walk} (h : w.i < 0) : turn n w = none := by
  rw [turn, storeCell, if_neg fun hin => absurd hin.1 (not_le.mpr h), Option.map_none]

/-- The loop up to a cell of the first row. -/
theorem exists_inRow (s : Setup) {k : ℕ} (hk : k < s.size) :
    ∃ w, InRow s.size k w ∧ ∀ turns, main s (k + turns) = loop s.size turns w := by
  induction k with
  | zero =>
      refine ⟨⟨s.stack, 1, 0, 0, 0, 0, 0, 0⟩, ?_, fun turns => by rw [main, zero_add]⟩
      exact ⟨s.stackSize, rfl, rfl, rfl, rfl, rfl, rfl, rfl⟩
  | succ k ih =>
      obtain ⟨w, hrow, hrun⟩ := ih (by omega)
      obtain ⟨w', hturn, hrow'⟩ := turn_row hrow hk
      have hnumber : w.number ≤ (s.size : ℤ) * s.size := by
        rw [hrow.number]
        nlinarith
      refine ⟨w', hrow', fun turns => ?_⟩
      rw [Nat.add_right_comm, Nat.add_assoc, hrun, loop_of_turn hnumber hturn]

/-- Behind the first row the next write leaves the array, if there is one. -/
theorem main_leaves (s : Setup) (hsize : s.size ≠ 1) : main s (s.size + 1) = .outOfBounds := by
  have hpos := s.pos
  obtain ⟨w, hrow, hrun⟩ := exists_inRow s (k := s.size - 1) (by omega)
  obtain ⟨w', hturn, hi, hnumber'⟩ := turn_corner hrow (by omega)
  have htwo : (2 : ℤ) ≤ s.size := by omega
  have hsquare : (2 : ℤ) * s.size ≤ s.size * s.size := by nlinarith
  have hnumber : w.number ≤ (s.size : ℤ) * s.size := by
    rw [hrow.number]
    omega
  have hturns : s.size + 1 = s.size - 1 + 2 := by omega
  rw [hturns, hrun, loop_of_turn hnumber hturn, loop, if_pos (by omega), turn_outside (by omega)]

/-- Once the loop is over, more turns change nothing. -/
lemma loop_mono {n : ℤ} {o : Outcome} {turns turns' : ℕ} (hle : turns ≤ turns') {w : Walk}
    (hover : ∀ w', o ≠ .running w') (h : loop n turns w = o) : loop n turns' w = o := by
  induction turns generalizing turns' w with
  | zero => exact absurd h.symm (hover w)
  | succ turns ih =>
      obtain ⟨turns', rfl⟩ : ∃ k, turns' = k + 1 := ⟨turns' - 1, by omega⟩
      rw [loop] at h ⊢
      split
      · rename_i hnumber
        rw [if_pos hnumber] at h
        cases hturn : turn n w with
        | none => rwa [hturn] at h
        | some w' =>
            rw [hturn] at h
            exact ih (by omega) h
      · rename_i hnumber
        rwa [if_neg hnumber] at h

/-- A loop that leaves the array does not fill it. -/
lemma not_fills_of_leaves {s : Setup} {turns : ℕ} (h : main s turns = .outOfBounds) :
    ¬ Fills s := by
  rintro ⟨turns', arr, hfinished, -⟩
  have hout : main s (max turns turns') = .outOfBounds :=
    loop_mono (le_max_left turns turns') nofun h
  have hin : main s (max turns turns') = .finished arr :=
    loop_mono (le_max_right turns turns') nofun hfinished
  rw [hout] at hin
  cases hin

/-- **For which sizes `main` fills its array with the spiral**: for 1 only. -/
theorem fills_iff (s : Setup) : Fills s ↔ s.size = 1 := by
  constructor
  · intro hfills
    by_contra hsize
    exact not_fills_of_leaves (main_leaves s hsize) hfills
  · intro hsize
    obtain ⟨x, hx⟩ := List.length_eq_one_iff.mp (s.stackSize.trans (by rw [hsize]))
    refine ⟨2, [1], ?_, ?_⟩
    · simp [main, loop, turn, storeCell, store, moveCursor, hsize, hx]
    · rw [hsize]
      refine ⟨by decide, fun k hk => ⟨(0, 0), ?_, ?_⟩⟩
      · obtain rfl : k = 0 := by omega
        simp
      · rintro ⟨r, c⟩ ⟨hr, hc, -⟩
        exact Prod.ext (Nat.lt_one_iff.mp hr) (Nat.lt_one_iff.mp hc)

/-- The size in the source, on an array of zeros. -/
def sizeFive : Setup := ⟨5, by decide, List.replicate 25 0, by decide⟩

/-- The sixth number is written above the array. -/
theorem five_leaves_the_array : ¬ ∀ s : Setup, Fills s := by
  intro hclaim
  exact not_fills_of_leaves (main_leaves sizeFive (by decide)) (hclaim sizeFive)

end Spiral
end EltSummer
