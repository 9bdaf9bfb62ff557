import EltSummer.Arrays.MagicSquare
import Mathlib.Tactic.Ring

/-!
# The walk of the magic square in closed form

For odd `n = 2h + 1` the walk splits into `n` diagonals of `n` cells.  The number written
in step `b` of diagonal `q` is `q * n + b + 1`, and it lands at row `2q - b` and column
`h - q + b`, both modulo `n`.  All residues needed are at most one period away from the
range `0 … n - 1`, so `wrap` is a case distinction and the facts about it are linear
(`rowOf_cases`, `colOf_cases`, `diagonalOf_cases`, `stepOf_cases`).

`Reached h q b w` says that the loop is about to write step `b` of diagonal `q`.  One turn
takes it to the next step of the diagonal, or, at the end of a diagonal, to the start of the
next (`turn_of_reached`).  Two places of the source that look unsafe are settled here: the
retreat `y + 2, x - 1` does not wrap because the diagonals whose retreat would leave the
table are the middle one, which ends in the corner and is caught by the corner rule, and the
last one, after which the loop stops.

The outcome is `createMagicSquare_closed_form`: the loop returns after `n * n` turns, and
the returned cell `(r, c)` holds `numberAt h r c`.
-/

namespace EltSummer
namespace MagicSquare

open Block

/-! ## Positions and numbers -/

/-- A residue modulo `n`, for arguments less than one period outside `0 … n - 1`. -/
def wrap (n z : ℤ) : ℤ :=
  if z < 0 then z + n else if n ≤ z then z - n else z

/-- The row of step `b` of diagonal `q`. -/
def rowOf (h q b : ℤ) : ℤ := wrap (2 * h + 1) (2 * q - b)

/-- The column of step `b` of diagonal `q`. -/
def colOf (h q b : ℤ) : ℤ := wrap (2 * h + 1) (h - q + b)

/-- The diagonal through cell `(r, c)`. -/
def diagonalOf (h r c : ℤ) : ℤ := wrap (2 * h + 1) (r + c - h)

/-- The step at which its diagonal meets cell `(r, c)`. -/
def stepOf (h r c : ℤ) : ℤ := wrap (2 * h + 1) (2 * diagonalOf h r c - r)

/-- The number that ends up in cell `(r, c)`. -/
def numberAt (h r c : ℤ) : ℤ := diagonalOf h r c * (2 * h + 1) + stepOf h r c + 1

variable {h q b r c : ℤ}

lemma wrap_cases (n z : ℤ) : (z < 0 ∧ wrap n z = z + n) ∨
    (0 ≤ z ∧ n ≤ z ∧ wrap n z = z - n) ∨ (0 ≤ z ∧ z < n ∧ wrap n z = z) := by
  unfold wrap
  split_ifs <;> omega

/-- What is subtracted and what is left over change places. -/
lemma wrap_sub_eq_iff {n z : ℤ} (hz : 0 ≤ z) (hzn : z < 2 * n) (hr : 0 ≤ r) (hrn : r < n)
    (hb : 0 ≤ b) (hbn : b < n) : wrap n (z - r) = b ↔ r = wrap n (z - b) := by
  have hleft := wrap_cases n (z - r)
  have hright := wrap_cases n (z - b)
  omega

lemma rowOf_cases (h q b : ℤ) : (2 * q < b ∧ rowOf h q b = 2 * q - b + (2 * h + 1)) ∨
    (2 * h + 1 ≤ 2 * q - b ∧ b ≤ 2 * q ∧ rowOf h q b = 2 * q - b - (2 * h + 1)) ∨
    (b ≤ 2 * q ∧ 2 * q - b < 2 * h + 1 ∧ rowOf h q b = 2 * q - b) := by
  have hrow := wrap_cases (2 * h + 1) (2 * q - b)
  unfold rowOf
  omega

lemma colOf_cases (h q b : ℤ) : (h + b < q ∧ colOf h q b = h - q + b + (2 * h + 1)) ∨
    (2 * h + 1 ≤ h - q + b ∧ q ≤ h + b ∧ colOf h q b = h - q + b - (2 * h + 1)) ∨
    (q ≤ h + b ∧ h - q + b < 2 * h + 1 ∧ colOf h q b = h - q + b) := by
  have hcol := wrap_cases (2 * h + 1) (h - q + b)
  unfold colOf
  omega

lemma diagonalOf_cases (h r c : ℤ) :
    (r + c < h ∧ diagonalOf h r c = r + c - h + (2 * h + 1)) ∨
    (2 * h + 1 ≤ r + c - h ∧ h ≤ r + c ∧ diagonalOf h r c = r + c - h - (2 * h + 1)) ∨
    (h ≤ r + c ∧ r + c - h < 2 * h + 1 ∧ diagonalOf h r c = r + c - h) := by
  have hdiag := wrap_cases (2 * h + 1) (r + c - h)
  unfold diagonalOf
  omega

lemma stepOf_cases (h r c : ℤ) :
    (2 * diagonalOf h r c < r ∧ stepOf h r c = 2 * diagonalOf h r c - r + (2 * h + 1)) ∨
    (2 * h + 1 ≤ 2 * diagonalOf h r c - r ∧ r ≤ 2 * diagonalOf h r c ∧
      stepOf h r c = 2 * diagonalOf h r c - r - (2 * h + 1)) ∨
    (r ≤ 2 * diagonalOf h r c ∧ 2 * diagonalOf h r c - r < 2 * h + 1 ∧
      stepOf h r c = 2 * diagonalOf h r c - r) := by
  have hstep := wrap_cases (2 * h + 1) (2 * diagonalOf h r c - r)
  unfold stepOf
  omega

lemma rowOf_bounds (hq : 0 ≤ q) (hqn : q < 2 * h + 1) (hb : 0 ≤ b) (hbn : b < 2 * h + 1) :
    0 ≤ rowOf h q b ∧ rowOf h q b < 2 * h + 1 := by
  have hrow := rowOf_cases h q b
  omega

lemma colOf_bounds (hq : 0 ≤ q) (hqn : q < 2 * h + 1) (hb : 0 ≤ b) (hbn : b < 2 * h + 1) :
    0 ≤ colOf h q b ∧ colOf h q b < 2 * h + 1 := by
  have hcol := colOf_cases h q b
  omega

lemma diagonalOf_bounds (hr : 0 ≤ r) (hrn : r < 2 * h + 1) (hc : 0 ≤ c)
    (hcn : c < 2 * h + 1) : 0 ≤ diagonalOf h r c ∧ diagonalOf h r c < 2 * h + 1 := by
  have hdiag := diagonalOf_cases h r c
  omega

lemma stepOf_bounds (hr : 0 ≤ r) (hrn : r < 2 * h + 1) (hc : 0 ≤ c)
    (hcn : c < 2 * h + 1) : 0 ≤ stepOf h r c ∧ stepOf h r c < 2 * h + 1 := by
  have hd := diagonalOf_bounds hr hrn hc hcn
  have hstep := stepOf_cases h r c
  omega

/-- Step `b` of diagonal `q` is the only step that lands in its cell. -/
lemma cell_eq_iff (hq : 0 ≤ q) (hqn : q < 2 * h + 1) (hb : 0 ≤ b) (hbn : b < 2 * h + 1)
    (hr : 0 ≤ r) (hrn : r < 2 * h + 1) (hc : 0 ≤ c) (hcn : c < 2 * h + 1) :
    (r = rowOf h q b ∧ c = colOf h q b) ↔ (diagonalOf h r c = q ∧ stepOf h r c = b) := by
  have hrow := rowOf_cases h q b
  have hcol := colOf_cases h q b
  have hdiag := diagonalOf_cases h r c
  have hstep : diagonalOf h r c = q → (stepOf h r c = b ↔ r = rowOf h q b) := by
    rintro rfl
    exact wrap_sub_eq_iff (by omega) (by omega) hr hrn hb hbn
  constructor
  · rintro ⟨hr', hc'⟩
    have hd : diagonalOf h r c = q := by omega
    exact ⟨hd, (hstep hd).mpr hr'⟩
  · rintro ⟨hd, hs⟩
    have hr' := (hstep hd).mp hs
    exact ⟨hr', by omega⟩

lemma numberAt_pos (hr : 0 ≤ r) (hrn : r < 2 * h + 1) (hc : 0 ≤ c) (hcn : c < 2 * h + 1) :
    0 < numberAt h r c := by
  have hd := diagonalOf_bounds hr hrn hc hcn
  have hs := stepOf_bounds hr hrn hc hcn
  have := mul_nonneg hd.1 (show 0 ≤ 2 * h + 1 by omega)
  unfold numberAt
  omega

/-! ## The invariant of the walk -/

/-- The cells written before step `b` of diagonal `q` hold their numbers, all others 0. -/
def Filled (h q b : ℤ) (a : List ℤ) : Prop :=
  ∀ r c, 0 ≤ r → r < 2 * h + 1 → 0 ≤ c → c < 2 * h + 1 →
    load a (r * (2 * h + 1) + c) =
      some (if diagonalOf h r c < q ∨ (diagonalOf h r c = q ∧ stepOf h r c < b)
        then numberAt h r c else 0)

/-- The loop is about to write step `b` of diagonal `q`. -/
structure Reached (h q b : ℤ) (w : Walk) : Prop where
  length : (w.startingArray.length : ℤ) = (2 * h + 1) * (2 * h + 1)
  count : w.count = q * (2 * h + 1) + b + 1
  y : w.y = rowOf h q b
  x : w.x = colOf h q b
  filled : Filled h q b w.startingArray

lemma reached_start (hh : 0 ≤ h) : Reached h 0 0 (start (2 * h + 1)) where
  length := by
    have : 0 ≤ (2 * h + 1) * (2 * h + 1) := mul_self_nonneg _
    simp only [start, List.length_replicate]
    omega
  count := by simp [start]
  y := by
    have hrow := rowOf_cases h 0 0
    simp only [start]
    omega
  x := by
    have hdiv : (2 * h + 1).tdiv 2 = h := by
      rw [Int.tdiv_eq_ediv_of_nonneg (by omega)]
      omega
    have hcol := colOf_cases h 0 0
    simp only [start, hdiv]
    omega
  filled := by
    intro r c hr hrn hc hcn
    obtain ⟨hlo, hhi⟩ := flat_bounds hr hrn hc hcn
    have hd := diagonalOf_bounds hr hrn hc hcn
    have hs := stepOf_bounds hr hrn hc hcn
    rw [if_neg (by omega)]
    simp only [start, load, hlo, if_true]
    rw [List.getElem?_replicate, if_pos (by omega)]

/-! ## One turn -/

/-- The write of step `b` puts the number of its cell in place. -/
lemma store_of_filled {a : List ℤ} (hlen : (a.length : ℤ) = (2 * h + 1) * (2 * h + 1))
    (hfill : Filled h q b a)
    (hq : 0 ≤ q) (hqn : q < 2 * h + 1) (hb : 0 ≤ b) (hbn : b < 2 * h + 1) :
    ∃ a', store a (rowOf h q b * (2 * h + 1) + colOf h q b) (q * (2 * h + 1) + b + 1) = some a' ∧
      (a'.length : ℤ) = (2 * h + 1) * (2 * h + 1) ∧ Filled h q (b + 1) a' := by
  obtain ⟨hr0, hrn⟩ := rowOf_bounds hq hqn hb hbn
  obtain ⟨hc0, hcn⟩ := colOf_bounds hq hqn hb hbn
  obtain ⟨a', hstore, hlen', hhit, hmiss⟩ :=
    store_flat hlen hr0 hrn hc0 hcn (q * (2 * h + 1) + b + 1)
  refine ⟨a', hstore, by rw [hlen']; exact hlen, ?_⟩
  intro r c hr hrn' hc hcn'
  have hcell := cell_eq_iff hq hqn hb hbn hr hrn' hc hcn'
  by_cases hhere : r = rowOf h q b ∧ c = colOf h q b
  · obtain ⟨hdq, hsb⟩ := hcell.mp hhere
    rw [hhere.1, hhere.2, hhit, ← hhere.1, ← hhere.2, if_pos (by omega), numberAt, hdq, hsb]
  · have hne : ¬(diagonalOf h r c = q ∧ stepOf h r c = b) := fun hk => hhere (hcell.mpr hk)
    rw [hmiss r c hr hc hcn' (by tauto), hfill r c hr hrn' hc hcn']
    congr 1
    exact if_congr (by omega) rfl rfl

/-- The corner rule fires exactly in the corner, which is the end of the middle diagonal. -/
lemma atCorner_eq {a : List ℤ} (hfill : Filled h q (b + 1) a)
    (hq : 0 ≤ q) (hqn : q < 2 * h + 1) (hb : 0 ≤ b) (hbn : b < 2 * h + 1) :
    atCorner (2 * h + 1) a (rowOf h q b) (colOf h q b) =
      some (decide (q = h ∧ b = 2 * h)) := by
  have hiff : (rowOf h q b = 0 ∧ colOf h q b ≥ 2 * h + 1 - 1) ↔ (q = h ∧ b = 2 * h) := by
    have hrow := rowOf_cases h q b
    have hcol := colOf_cases h q b
    omega
  unfold atCorner
  by_cases hk : q = h ∧ b = 2 * h
  · have hread := hfill (2 * h + 1 - 1) 0 (by omega) (by omega) (by omega) (by omega)
    have hd : diagonalOf h (2 * h + 1 - 1) 0 = h := by
      have hdiag := diagonalOf_cases h (2 * h + 1 - 1) 0
      omega
    have hs : stepOf h (2 * h + 1 - 1) 0 = 0 := by
      have hstep := stepOf_cases h (2 * h + 1 - 1) 0
      omega
    have hpos : numberAt h (2 * h + 1 - 1) 0 ≠ 0 :=
      (numberAt_pos (by omega) (by omega) (by omega) (by omega)).ne'
    rw [if_pos (hiff.mpr hk), hread, hd, hs, if_pos (by omega), Option.map_some,
      decide_eq_true hpos, decide_eq_true hk]
  · rw [if_neg (fun h' => hk (hiff.mp h'))]
    simp [hk]

/-- The `else` branch within a diagonal: the next cell is free and is entered. -/
lemma upRight_within {a : List ℤ} (hfill : Filled h q (b + 1) a)
    (hq : 0 ≤ q) (hqn : q < 2 * h + 1) (hb : 0 ≤ b) (hbn : b + 1 < 2 * h + 1) :
    upRight (2 * h + 1) a (rowOf h q b) (colOf h q b) =
      some (rowOf h q (b + 1), colOf h q (b + 1)) := by
  have hrow : (if rowOf h q b - 1 < 0 then 2 * h + 1 - 1 else rowOf h q b - 1) =
      rowOf h q (b + 1) := by
    have hrow := rowOf_cases h q b
    have hrow' := rowOf_cases h q (b + 1)
    split_ifs <;> omega
  have hcol : (if colOf h q b + 1 = 2 * h + 1 then 0 else colOf h q b + 1) =
      colOf h q (b + 1) := by
    have hcol := colOf_cases h q b
    have hcol' := colOf_cases h q (b + 1)
    split_ifs <;> omega
  obtain ⟨hr0, hrn⟩ := rowOf_bounds (b := b + 1) hq hqn (by omega) (by omega)
  obtain ⟨hc0, hcn⟩ := colOf_bounds (b := b + 1) hq hqn (by omega) (by omega)
  obtain ⟨hd, hs⟩ := (cell_eq_iff hq hqn (by omega) (by omega) hr0 hrn hc0 hcn).mp ⟨rfl, rfl⟩
  simp only [upRight, hrow, hcol]
  rw [hfill _ _ hr0 hrn hc0 hcn, if_neg (by omega)]
  simp

/-- The `else` branch at the end of a diagonal: the cell reached is the start of the same
diagonal, so the cursor retreats. -/
lemma upRight_at_end {a : List ℤ} (hfill : Filled h q (2 * h + 1) a)
    (hq : 0 ≤ q) (hqn : q < 2 * h + 1) :
    upRight (2 * h + 1) a (rowOf h q (2 * h)) (colOf h q (2 * h)) =
      some (rowOf h q 0 + 2, colOf h q 0 - 1) := by
  have hrow : (if rowOf h q (2 * h) - 1 < 0 then 2 * h + 1 - 1 else rowOf h q (2 * h) - 1) =
      rowOf h q 0 := by
    have hrow := rowOf_cases h q (2 * h)
    have hrow' := rowOf_cases h q 0
    split_ifs <;> omega
  have hcol : (if colOf h q (2 * h) + 1 = 2 * h + 1 then 0 else colOf h q (2 * h) + 1) =
      colOf h q 0 := by
    have hcol := colOf_cases h q (2 * h)
    have hcol' := colOf_cases h q 0
    split_ifs <;> omega
  obtain ⟨hr0, hrn⟩ := rowOf_bounds (h := h) (q := q) (b := 0) hq hqn (by omega) (by omega)
  obtain ⟨hc0, hcn⟩ := colOf_bounds (h := h) (q := q) (b := 0) hq hqn (by omega) (by omega)
  obtain ⟨hd, hs⟩ := (cell_eq_iff hq hqn (by omega) (by omega) hr0 hrn hc0 hcn).mp ⟨rfl, rfl⟩
  have hpos := numberAt_pos hr0 hrn hc0 hcn
  simp only [upRight, hrow, hcol]
  rw [hfill _ _ hr0 hrn hc0 hcn, if_pos (by omega)]
  simp
  omega

/-- From the end of a diagonal that is not the last, the cursor goes to the start of the
next one: by the corner rule in the middle of the square, by the retreat elsewhere. -/
lemma moveCursor_at_end {a : List ℤ} (hfill : Filled h q (2 * h + 1) a)
    (hq : 0 ≤ q) (hqn : q < 2 * h + 1) :
    ∃ p, moveCursor (2 * h + 1) a (rowOf h q (2 * h)) (colOf h q (2 * h)) = some p ∧
      (q < 2 * h → p = (rowOf h (q + 1) 0, colOf h (q + 1) 0)) := by
  unfold moveCursor
  rw [atCorner_eq hfill hq hqn (by omega) (by omega)]
  by_cases hmid : q = h
  · refine ⟨(rowOf h q (2 * h) + 1, colOf h q (2 * h)), by simp [hmid], fun hlast => ?_⟩
    have hrow := rowOf_cases h q (2 * h)
    have hrow' := rowOf_cases h (q + 1) 0
    have hcol := colOf_cases h q (2 * h)
    have hcol' := colOf_cases h (q + 1) 0
    refine Prod.ext ?_ ?_
    · show rowOf h q (2 * h) + 1 = rowOf h (q + 1) 0
      omega
    · show colOf h q (2 * h) = colOf h (q + 1) 0
      omega
  · refine ⟨(rowOf h q 0 + 2, colOf h q 0 - 1), ?_, fun hlast => ?_⟩
    · simp [hmid, upRight_at_end hfill hq hqn]
    · have hrow := rowOf_cases h q 0
      have hrow' := rowOf_cases h (q + 1) 0
      have hcol := colOf_cases h q 0
      have hcol' := colOf_cases h (q + 1) 0
      refine Prod.ext ?_ ?_
      · show rowOf h q 0 + 2 = rowOf h (q + 1) 0
        omega
      · show colOf h q 0 - 1 = colOf h (q + 1) 0
        omega

/-- Within a diagonal the cursor goes to its next cell. -/
lemma moveCursor_within {a : List ℤ} (hfill : Filled h q (b + 1) a)
    (hq : 0 ≤ q) (hqn : q < 2 * h + 1) (hb : 0 ≤ b) (hbn : b + 1 < 2 * h + 1) :
    moveCursor (2 * h + 1) a (rowOf h q b) (colOf h q b) =
      some (rowOf h q (b + 1), colOf h q (b + 1)) := by
  unfold moveCursor
  rw [atCorner_eq hfill hq hqn hb (by omega)]
  have hne : ¬(q = h ∧ b = 2 * h) := by omega
  simp [hne, upRight_within hfill hq hqn hb hbn]

/-- **One turn of the loop.**  It goes on to the next step of the diagonal, to the start of
the next diagonal, or, after the last step of the last diagonal, it stops. -/
lemma turn_of_reached {w : Walk} (hw : Reached h q b w)
    (hq : 0 ≤ q) (hqn : q < 2 * h + 1) (hb : 0 ≤ b) (hbn : b < 2 * h + 1) :
    (b < 2 * h ∧ ∃ w', turn (2 * h + 1) w = some (.goOn w') ∧ Reached h q (b + 1) w') ∨
    (b = 2 * h ∧ q < 2 * h ∧
      ∃ w', turn (2 * h + 1) w = some (.goOn w') ∧ Reached h (q + 1) 0 w') ∨
    (b = 2 * h ∧ q = 2 * h ∧ ∃ a, turn (2 * h + 1) w = some (.stop a) ∧
      (a.length : ℤ) = (2 * h + 1) * (2 * h + 1) ∧ Filled h (2 * h) (2 * h + 1) a) := by
  obtain ⟨a, hstore, hlen, hfill⟩ := store_of_filled hw.length hw.filled hq hqn hb hbn
  have hturn : turn (2 * h + 1) w = (moveCursor (2 * h + 1) a (rowOf h q b) (colOf h q b)).map
      fun p => if q * (2 * h + 1) + b + 1 + 1 = (2 * h + 1) * (2 * h + 1) + 1 then .stop a
        else .goOn ⟨a, q * (2 * h + 1) + b + 1 + 1, p.1, p.2⟩ := by
    rw [turn, hw.y, hw.x, hw.count, hstore]
    rfl
  by_cases hend : b < 2 * h
  · -- the count stays below `n * n + 1` because the diagonal is not finished
    have hcount : ¬ q * (2 * h + 1) + b + 1 + 1 = (2 * h + 1) * (2 * h + 1) + 1 := by
      have := (flat_bounds hq hqn (show 0 ≤ b + 1 by omega) (by omega)).2
      omega
    refine Or.inl ⟨hend, ⟨a, q * (2 * h + 1) + b + 1 + 1, rowOf h q (b + 1),
      colOf h q (b + 1)⟩, ?_, ⟨hlen, by ring, rfl, rfl, hfill⟩⟩
    rw [hturn, moveCursor_within hfill hq hqn hb (by omega)]
    simp only [Option.map_some, if_neg hcount]
  · obtain rfl : b = 2 * h := by omega
    obtain ⟨p, hmove, hnext⟩ := moveCursor_at_end hfill hq hqn
    rw [hmove] at hturn
    by_cases hlast : q < 2 * h
    · have hcount : ¬ q * (2 * h + 1) + 2 * h + 1 + 1 = (2 * h + 1) * (2 * h + 1) + 1 := by
        nlinarith
      refine Or.inr (Or.inl ⟨rfl, hlast, ⟨a, q * (2 * h + 1) + 2 * h + 1 + 1,
        rowOf h (q + 1) 0, colOf h (q + 1) 0⟩, ?_, ⟨hlen, by ring, rfl, rfl, ?_⟩⟩)
      · rw [hturn, hnext hlast]
        simp only [Option.map_some, if_neg hcount]
      · intro r c hr hrn hc hcn
        have hs := stepOf_bounds hr hrn hc hcn
        rw [hfill r c hr hrn hc hcn]
        congr 1
        exact if_congr (by omega) rfl rfl
    · obtain rfl : q = 2 * h := by omega
      refine Or.inr (Or.inr ⟨rfl, rfl, a, ?_, hlen, hfill⟩)
      rw [hturn]
      simp only [Option.map_some]
      rw [if_pos (by ring)]

/-! ## The whole walk -/

/-- From step `b` of diagonal `q` the loop returns after the turns that are left. -/
lemma loop_of_reached {turns : ℕ} {w : Walk} (hw : Reached h q b w)
    (hq : 0 ≤ q) (hqn : q < 2 * h + 1) (hb : 0 ≤ b) (hbn : b < 2 * h + 1)
    (hturns : q * (2 * h + 1) + b + turns = (2 * h + 1) * (2 * h + 1)) :
    ∃ a, loop (2 * h + 1) turns w = .returned a ∧
      (a.length : ℤ) = (2 * h + 1) * (2 * h + 1) ∧ Filled h (2 * h) (2 * h + 1) a := by
  induction turns generalizing q b w with
  | zero =>
      have := (flat_bounds hq hqn hb hbn).2
      simp only [Nat.cast_zero] at hturns
      omega
  | succ turns ih =>
      push_cast at hturns
      rcases turn_of_reached hw hq hqn hb hbn with
        ⟨hlt, w', hturn, hw'⟩ | ⟨rfl, hlt, w', hturn, hw'⟩ | ⟨rfl, rfl, a, hturn, hlen, hfill⟩
      · rw [loop_goOn hturn]
        exact ih hw' hq hqn (by omega) (by omega) (by omega)
      · rw [loop_goOn hturn]
        exact ih hw' (by omega) (by omega) (by omega) (by omega) (by linarith)
      · exact ⟨a, loop_stop hturn turns, hlen, hfill⟩

/-- **The square in closed form.**  For odd `n` the function returns after `n * n` turns,
having stayed inside its block, and every cell holds its number. -/
theorem createMagicSquare_closed_form (hh : 0 ≤ h) :
    ∃ a, createMagicSquare (2 * h + 1) ((2 * h + 1) * (2 * h + 1)).toNat = .returned a ∧
      (a.length : ℤ) = (2 * h + 1) * (2 * h + 1) ∧
      ∀ r c, 0 ≤ r → r < 2 * h + 1 → 0 ≤ c → c < 2 * h + 1 →
        load a (r * (2 * h + 1) + c) = some (numberAt h r c) := by
  have hnn : 0 ≤ (2 * h + 1) * (2 * h + 1) := mul_self_nonneg _
  have hturns : 0 * (2 * h + 1) + 0 + (((2 * h + 1) * (2 * h + 1)).toNat : ℤ) =
      (2 * h + 1) * (2 * h + 1) := by
    rw [Int.toNat_of_nonneg hnn]
    ring
  obtain ⟨a, hret, hlen, hfill⟩ := loop_of_reached (reached_start hh) le_rfl (by omega)
    le_rfl (by omega) hturns
  refine ⟨a, hret, hlen, fun r c hr hrn hc hcn => ?_⟩
  have hd := diagonalOf_bounds hr hrn hc hcn
  have hs := stepOf_bounds hr hrn hc hcn
  rw [hfill r c hr hrn hc hcn, if_pos (by omega)]

end MagicSquare
end EltSummer
