import EltSummer.Framework.Block
import Mathlib.Algebra.Ring.Parity

/-!
# The Siamese magic square of `arrays_14June/four_2.c`

`create_magic_square` allocates `n * n` zeroed cells and walks a cursor `(y, x)` over them:
each turn of its `while (1)` writes the next number at the cursor and then moves one row up
and one column to the right, wrapping at both borders.  A taken cell sends the cursor below
the cell it came from, and the top right corner has a rule of its own.

The array is one block, addressed by `y * n + x` as in the source, and each access is
checked: a turn that reads or writes outside the block has no result.  The loop has no bound
of its own, so `loop` takes a number of turns and reports one of three outcomes, of which
only `returned` is a return of the function.  All integers are exact; the source keeps them
within `int` as long as `n * n + 1` is one.
-/

namespace EltSummer
namespace MagicSquare

open Block

/-- The locals of `create_magic_square` at the top of its loop. -/
structure Walk where
  startingArray : List ℤ
  count : ℤ
  y : ℤ
  x : ℤ
  deriving DecidableEq, Repr

/-- How one turn of the loop ends: at its bottom, or by the `break`. -/
inductive Turn
  | goOn (w : Walk)
  | stop (startingArray : List ℤ)
  deriving DecidableEq, Repr

/-- The corner test `((y == 0) && (x >= n-1)) && (*(starting_array + (n-1)*n + 0) != 0)`.
The cell is read only when the first two conditions hold. -/
def atCorner (n : ℤ) (a : List ℤ) (y x : ℤ) : Option Bool :=
  if y = 0 ∧ x ≥ n - 1 then (load a ((n - 1) * n + 0)).map fun v => decide (v ≠ 0)
  else some false

/-- The `else` branch: up and to the right with wrap-around, and from a taken cell back
below the one the cursor came from.  The retreat does not wrap. -/
def upRight (n : ℤ) (a : List ℤ) (y x : ℤ) : Option (ℤ × ℤ) :=
  let y := if y - 1 < 0 then n - 1 else y - 1
  let x := if x + 1 = n then 0 else x + 1
  (load a (y * n + x)).map fun v => if v ≠ 0 then (y + 2, x - 1) else (y, x)

/-- The cursor after a write at `(y, x)`. -/
def moveCursor (n : ℤ) (a : List ℤ) (y x : ℤ) : Option (ℤ × ℤ) :=
  (atCorner n a y x).bind fun corner =>
    if corner then some (y + 1, x) else upRight n a y x

/-- One turn of the `while (1)`. -/
def turn (n : ℤ) (w : Walk) : Option Turn :=
  (store w.startingArray (w.y * n + w.x) w.count).bind fun a =>
    (moveCursor n a w.y w.x).map fun p =>
      if w.count + 1 = n * n + 1 then .stop a else .goOn ⟨a, w.count + 1, p.1, p.2⟩

/-- What is known about the loop after a number of turns. -/
inductive Outcome
  | outOfBounds
  | running (w : Walk)
  | returned (startingArray : List ℤ)
  deriving DecidableEq, Repr

/-- At most `turns` turns of the loop. -/
def loop (n : ℤ) : ℕ → Walk → Outcome
  | 0, w => .running w
  | turns + 1, w =>
      match turn n w with
      | none => .outOfBounds
      | some (.stop a) => .returned a
      | some (.goOn w') => loop n turns w'

/-- The locals before the loop: `calloc(n*n, sizeof(int))`, `count = 1, y = 0, x = n/2`. -/
def start (n : ℤ) : Walk :=
  ⟨List.replicate (n * n).toNat 0, 1, 0, n.tdiv 2⟩

/-- `create_magic_square(n)`, followed for at most `turns` turns of its loop. -/
def createMagicSquare (n : ℤ) (turns : ℕ) : Outcome :=
  loop n turns (start n)

lemma loop_goOn {n : ℤ} {w w' : Walk} (h : turn n w = some (.goOn w')) (turns : ℕ) :
    loop n (turns + 1) w = loop n turns w' := by
  simp [loop, h]

lemma loop_stop {n : ℤ} {w : Walk} {a : List ℤ} (h : turn n w = some (.stop a)) (turns : ℕ) :
    loop n (turns + 1) w = .returned a := by
  simp [loop, h]

/-- Once the loop is over, more turns change nothing. -/
lemma loop_mono {n : ℤ} {o : Outcome} {turns turns' : ℕ} (hle : turns ≤ turns')
    {w : Walk} (h : loop n turns w = o) (hover : ∀ w', o ≠ .running w') :
    loop n turns' w = o := by
  induction turns generalizing turns' w with
  | zero => exact absurd h.symm (hover w)
  | succ turns ih =>
      obtain ⟨turns', rfl⟩ : ∃ k, turns' = k + 1 := ⟨turns' - 1, by omega⟩
      cases hturn : turn n w with
      | none => simpa [loop, hturn] using h
      | some r =>
          cases r with
          | stop b => simpa [loop, hturn] using h
          | goOn w' =>
              rw [loop_goOn hturn] at h ⊢
              exact ih (by omega) h

example : createMagicSquare 3 9 = .returned [8, 1, 6, 3, 5, 7, 4, 9, 2] := by decide

end MagicSquare
end EltSummer
