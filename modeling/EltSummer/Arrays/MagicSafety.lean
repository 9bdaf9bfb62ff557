import EltSummer.Arrays.MagicWalk

/-!
# Which sizes the walk of the magic square is safe for

For odd `n` every turn writes to a cell of the table that is still 0 and reads inside the
array, the loop stops after `n * n` writes, and each number has one cell
(`createMagicSquare_covers`).

`main` turns away `n = 2` only.  For even `n = 2h` the walk starts in the same way: the
diagonals `0 … h - 1` are filled, each by `n` steps.  Their starting points go down by two
rows each time, and since `n` is even they do not meet row `n - 1`: the retreat from the end
of diagonal `h - 1` leads to row `n`, and the write after the first half of the numbers is
outside the array (`loop_of_even`).  So a size `main` lets through is safe exactly when it is
odd and the source's `n * n + 1` is an `int` (`safe_iff_odd`).
-/

namespace EltSummer
namespace MagicSquare

open Block

/-! ## Odd sizes -/

/-- What is right about the turn of the loop that starts with the locals `w`. -/
structure SoundTurn (n : ℤ) (w : Walk) : Prop where
  row : 0 ≤ w.y ∧ w.y < n
  column : 0 ≤ w.x ∧ w.x < n
  free : load w.startingArray (w.y * n + w.x) = some 0
  inBounds : (turn n w).isSome

variable {h q b : ℤ}

lemma soundTurn_of_reached {w : Walk} (hw : Reached h q b w)
    (hq : 0 ≤ q) (hqn : q < 2 * h + 1) (hb : 0 ≤ b) (hbn : b < 2 * h + 1) :
    SoundTurn (2 * h + 1) w := by
  obtain ⟨hr0, hrn⟩ := rowOf_bounds hq hqn hb hbn
  obtain ⟨hc0, hcn⟩ := colOf_bounds hq hqn hb hbn
  obtain ⟨hd, hs⟩ := (cell_eq_iff hq hqn hb hbn hr0 hrn hc0 hcn).mp ⟨rfl, rfl⟩
  refine ⟨by rw [hw.y]; exact ⟨hr0, hrn⟩, by rw [hw.x]; exact ⟨hc0, hcn⟩, ?_, ?_⟩
  · rw [hw.y, hw.x, hw.filled _ _ hr0 hrn hc0 hcn, if_neg (by omega)]
  · rcases turn_of_reached hw hq hqn hb hbn with
      ⟨-, w', hturn, -⟩ | ⟨-, -, w', hturn, -⟩ | ⟨-, -, a, hturn, -⟩
    · simp [hturn]
    · simp [hturn]
    · simp [hturn]

/-- Before the last write the loop is running, at the step it has reached by then. -/
lemma running_of_reached {turns : ℕ} {w : Walk} (hw : Reached h q b w)
    (hq : 0 ≤ q) (hqn : q < 2 * h + 1) (hb : 0 ≤ b) (hbn : b < 2 * h + 1)
    (hturns : q * (2 * h + 1) + b + turns < (2 * h + 1) * (2 * h + 1)) :
    ∃ w', loop (2 * h + 1) turns w = .running w' ∧ SoundTurn (2 * h + 1) w' := by
  induction turns generalizing q b w with
  | zero => exact ⟨w, rfl, soundTurn_of_reached hw hq hqn hb hbn⟩
  | succ turns ih =>
      push_cast at hturns
      rcases turn_of_reached hw hq hqn hb hbn with
        ⟨hlt, w', hturn, hw'⟩ | ⟨rfl, hlt, w', hturn, hw'⟩ | ⟨rfl, rfl, a, hturn, -⟩
      · rw [loop_goOn hturn]
        exact ih hw' hq hqn (by omega) (by omega) (by omega)
      · rw [loop_goOn hturn]
        exact ih hw' (by omega) (by omega) (by omega) (by omega) (by linarith)
      · -- the last step of the last diagonal leaves no turn
        have : 2 * h * (2 * h + 1) + 2 * h + 1 = (2 * h + 1) * (2 * h + 1) := by ring
        omega

/-- Every number has a cell. -/
lemma exists_numberAt {v : ℤ} (hv : 1 ≤ v) (hvn : v ≤ (2 * h + 1) * (2 * h + 1))
    (hh : 0 ≤ h) : ∃ r c, 0 ≤ r ∧ r < 2 * h + 1 ∧ 0 ≤ c ∧ c < 2 * h + 1 ∧
      numberAt h r c = v := by
  have hn : 0 < 2 * h + 1 := by omega
  have hsplit := Int.mul_ediv_add_emod (v - 1) (2 * h + 1)
  have hb := Int.emod_nonneg (v - 1) hn.ne'
  have hbn := Int.emod_lt_of_pos (v - 1) hn
  have hq : 0 ≤ (v - 1) / (2 * h + 1) := Int.ediv_nonneg (by omega) hn.le
  have hqn : (v - 1) / (2 * h + 1) < 2 * h + 1 :=
    Int.ediv_lt_of_lt_mul hn (by omega)
  generalize (v - 1) / (2 * h + 1) = q at hsplit hq hqn
  generalize (v - 1) % (2 * h + 1) = b at hsplit hb hbn
  obtain ⟨hr0, hrn⟩ := rowOf_bounds hq hqn hb hbn
  obtain ⟨hc0, hcn⟩ := colOf_bounds hq hqn hb hbn
  obtain ⟨hd, hs⟩ := (cell_eq_iff hq hqn hb hbn hr0 hrn hc0 hcn).mp ⟨rfl, rfl⟩
  refine ⟨_, _, hr0, hrn, hc0, hcn, ?_⟩
  rw [numberAt, hd, hs, mul_comm]
  omega

/-- No number has two cells. -/
lemma numberAt_inj {r c r' c' : ℤ} (hr : 0 ≤ r) (hrn : r < 2 * h + 1) (hc : 0 ≤ c)
    (hcn : c < 2 * h + 1) (hr' : 0 ≤ r') (hrn' : r' < 2 * h + 1) (hc' : 0 ≤ c')
    (hcn' : c' < 2 * h + 1) (heq : numberAt h r c = numberAt h r' c') : r = r' ∧ c = c' := by
  have hd := diagonalOf_bounds hr hrn hc hcn
  have hs := stepOf_bounds hr hrn hc hcn
  have hd' := diagonalOf_bounds hr' hrn' hc' hcn'
  have hs' := stepOf_bounds hr' hrn' hc' hcn'
  unfold numberAt at heq
  obtain ⟨hdd, hss⟩ := flat_inj hs.1 hs.2 hs'.1 hs'.2 (show
    diagonalOf h r c * (2 * h + 1) + stepOf h r c =
      diagonalOf h r' c' * (2 * h + 1) + stepOf h r' c' by omega)
  obtain ⟨hrow, hcol⟩ := (cell_eq_iff hd.1 hd.2 hs.1 hs.2 hr hrn hc hcn).mpr ⟨rfl, rfl⟩
  obtain ⟨hrow', hcol'⟩ := (cell_eq_iff hd'.1 hd'.2 hs'.1 hs'.2 hr' hrn' hc' hcn').mpr ⟨rfl, rfl⟩
  rw [hdd, hss] at hrow hcol
  exact ⟨hrow.trans hrow'.symm, hcol.trans hcol'.symm⟩

/-- **The walk covers the square.**  For odd `n` each of the `n * n` turns is sound, the loop
stops after them and not before, and each of the numbers written has exactly one cell. -/
theorem createMagicSquare_covers (n : ℕ) (hodd : Odd n) :
    (∀ k < n * n, ∃ w, createMagicSquare n k = .running w ∧ SoundTurn n w) ∧
      ∃ a, createMagicSquare n (n * n) = .returned a ∧ a.length = n * n ∧
        ∀ v : ℤ, 1 ≤ v → v ≤ n * n → ∃! i : ℕ, a[i]? = some v := by
  obtain ⟨h, rfl⟩ := hodd
  have hcast : ((2 * h + 1 : ℕ) : ℤ) = 2 * h + 1 := by push_cast; ring
  have hh : (0 : ℤ) ≤ h := by omega
  rw [hcast]
  constructor
  · intro k hk
    refine running_of_reached (reached_start hh) le_rfl (by omega) le_rfl (by omega) ?_
    have : (k : ℤ) < ((2 * h + 1) * (2 * h + 1) : ℕ) := by exact_mod_cast hk
    push_cast at this
    omega
  · obtain ⟨a, hret, hlen, hcell⟩ := createMagicSquare_closed_form hh
    have hturns : ((2 * (h : ℤ) + 1) * (2 * h + 1)).toNat = (2 * h + 1) * (2 * h + 1) := by
      exact_mod_cast Int.toNat_natCast ((2 * h + 1) * (2 * h + 1))
    rw [hturns] at hret
    refine ⟨a, hret, by exact_mod_cast hlen, fun v hv hvn => ?_⟩
    obtain ⟨r, c, hr, hrn, hc, hcn, hnumber⟩ := exists_numberAt hv hvn hh
    obtain ⟨hlo, hhi⟩ := flat_bounds hr hrn hc hcn
    refine ⟨(r * (2 * h + 1) + c).toNat, ?_, fun i hi => ?_⟩
    · show a[(r * (2 * (h : ℤ) + 1) + c).toNat]? = some v
      rw [← load_natCast, Int.toNat_of_nonneg hlo, hcell r c hr hrn hc hcn, hnumber]
    · -- any index is the index of a cell, and the cell holds its number
      have hi' : a[i]? = some v := hi
      have hlt : (i : ℤ) < (2 * h + 1) * (2 * h + 1) := by
        have := (List.getElem?_eq_some_iff.mp hi').1
        omega
      have hn : (0 : ℤ) < 2 * h + 1 := by omega
      have hsplit := Int.mul_ediv_add_emod (i : ℤ) (2 * h + 1)
      have hx := Int.emod_nonneg (i : ℤ) hn.ne'
      have hxn := Int.emod_lt_of_pos (i : ℤ) hn
      have hy : 0 ≤ (i : ℤ) / (2 * h + 1) := Int.ediv_nonneg (by omega) hn.le
      have hyn : (i : ℤ) / (2 * h + 1) < 2 * h + 1 := Int.ediv_lt_of_lt_mul hn hlt
      have hload := hcell _ _ hy hyn hx hxn
      rw [show (i : ℤ) / (2 * h + 1) * (2 * h + 1) + (i : ℤ) % (2 * h + 1) = (i : ℤ) by
        rw [mul_comm]; exact hsplit, load_natCast, hi'] at hload
      obtain ⟨hrow, hcol⟩ := numberAt_inj hr hrn hc hcn hy hyn hx hxn
        (hnumber.trans (Option.some.inj hload))
      rw [hrow, hcol, mul_comm, hsplit]
      simp

theorem createMagicSquare_covers_three : Odd 3 ∧
    (∀ k < 3 * 3, ∃ w, createMagicSquare (3 : ℕ) k = .running w ∧ SoundTurn (3 : ℕ) w) ∧
      ∃ a, createMagicSquare (3 : ℕ) (3 * 3) = .returned a ∧ a.length = 3 * 3 ∧
        ∀ v : ℤ, 1 ≤ v → v ≤ (3 : ℕ) * (3 : ℕ) → ∃! i : ℕ, a[i]? = some v :=
  ⟨by decide, createMagicSquare_covers 3 (by decide)⟩

/-! ## Even sizes

For `n = 2h` diagonal `q` is the cells with `r + c = h + q` modulo `n`; its step `b` is at
row `2q - b`.  Only the diagonals below `h` are ever entered. -/

/-- The row of step `b` of diagonal `q`. -/
def evenRowOf (h q b : ℤ) : ℤ := wrap (2 * h) (2 * q - b)

/-- The column of step `b` of diagonal `q`. -/
def evenColOf (h q b : ℤ) : ℤ := wrap (2 * h) (h - q + b)

/-- The diagonal through cell `(r, c)`. -/
def evenDiagonalOf (h r c : ℤ) : ℤ := wrap (2 * h) (r + c - h)

/-- The cell is on a diagonal before `q`, or on diagonal `q` before step `b`. -/
def Before (h q b r c : ℤ) : Prop :=
  evenDiagonalOf h r c < q ∨
    (evenDiagonalOf h r c = q ∧ wrap (2 * h) (2 * q - r) < b)

/-- The loop is about to write step `b` of diagonal `q`, and exactly the cells before it are
taken. -/
structure EvenReached (h q b : ℤ) (w : Walk) : Prop where
  length : (w.startingArray.length : ℤ) = 2 * h * (2 * h)
  count : w.count = q * (2 * h) + b + 1
  y : w.y = evenRowOf h q b
  x : w.x = evenColOf h q b
  taken : ∀ r c, 0 ≤ r → r < 2 * h → 0 ≤ c → c < 2 * h →
    ∃ v, load w.startingArray (r * (2 * h) + c) = some v ∧ (v ≠ 0 ↔ Before h q b r c)

lemma evenRowOf_cases (h q b : ℤ) : (2 * q < b ∧ evenRowOf h q b = 2 * q - b + 2 * h) ∨
    (2 * h ≤ 2 * q - b ∧ b ≤ 2 * q ∧ evenRowOf h q b = 2 * q - b - 2 * h) ∨
    (b ≤ 2 * q ∧ 2 * q - b < 2 * h ∧ evenRowOf h q b = 2 * q - b) := by
  have hrow := wrap_cases (2 * h) (2 * q - b)
  unfold evenRowOf
  omega

lemma evenColOf_cases (h q b : ℤ) : (h + b < q ∧ evenColOf h q b = h - q + b + 2 * h) ∨
    (2 * h ≤ h - q + b ∧ q ≤ h + b ∧ evenColOf h q b = h - q + b - 2 * h) ∨
    (q ≤ h + b ∧ h - q + b < 2 * h ∧ evenColOf h q b = h - q + b) := by
  have hcol := wrap_cases (2 * h) (h - q + b)
  unfold evenColOf
  omega

/-- Step `b` of diagonal `q` is the only step that lands in its cell. -/
lemma even_cell_iff {r c : ℤ} (hq : 0 ≤ q) (hqh : q < h) (hb : 0 ≤ b) (hbn : b < 2 * h)
    (hr : 0 ≤ r) (hrn : r < 2 * h) (hc : 0 ≤ c) (hcn : c < 2 * h) :
    (r = evenRowOf h q b ∧ c = evenColOf h q b) ↔
      (evenDiagonalOf h r c = q ∧ wrap (2 * h) (2 * q - r) = b) := by
  have hrow := evenRowOf_cases h q b
  have hcol := evenColOf_cases h q b
  have hdiag := wrap_cases (2 * h) (r + c - h)
  have hstep : wrap (2 * h) (2 * q - r) = b ↔ r = evenRowOf h q b :=
    wrap_sub_eq_iff (by omega) (by omega) hr hrn hb hbn
  unfold evenDiagonalOf
  rw [hstep]
  constructor
  · rintro ⟨hr', hc'⟩
    exact ⟨by omega, hr'⟩
  · rintro ⟨hd, hr'⟩
    exact ⟨hr', by omega⟩

/-- One step later exactly one more cell is taken. -/
lemma before_succ_iff {r c : ℤ} (hq : 0 ≤ q) (hqh : q < h) (hb : 0 ≤ b) (hbn : b < 2 * h)
    (hr : 0 ≤ r) (hrn : r < 2 * h) (hc : 0 ≤ c) (hcn : c < 2 * h) :
    Before h q (b + 1) r c ↔
      Before h q b r c ∨ (r = evenRowOf h q b ∧ c = evenColOf h q b) := by
  rw [even_cell_iff hq hqh hb hbn hr hrn hc hcn]
  unfold Before
  omega

/-- A finished diagonal is the start of the next. -/
lemma before_next_iff {r c : ℤ} (hq : 0 ≤ q) (hqh : q < h) (hr : 0 ≤ r) (hrn : r < 2 * h) :
    Before h q (2 * h) r c ↔ Before h (q + 1) 0 r c := by
  have hstep := wrap_cases (2 * h) (2 * q - r)
  have hstep' := wrap_cases (2 * h) (2 * (q + 1) - r)
  unfold Before
  omega

lemma evenReached_start (hh : 0 < h) : EvenReached h 0 0 (start (2 * h)) where
  length := by
    have : 0 ≤ 2 * h * (2 * h) := mul_self_nonneg _
    simp only [start, List.length_replicate]
    omega
  count := by simp [start]
  y := by
    have hrow := evenRowOf_cases h 0 0
    simp only [start]
    omega
  x := by
    have hdiv : (2 * h).tdiv 2 = h := by
      rw [Int.tdiv_eq_ediv_of_nonneg (by omega)]
      omega
    have hcol := evenColOf_cases h 0 0
    simp only [start, hdiv]
    omega
  taken := by
    intro r c hr hrn hc hcn
    obtain ⟨hlo, hhi⟩ := flat_bounds hr hrn hc hcn
    have hdiag := wrap_cases (2 * h) (r + c - h)
    have hstep := wrap_cases (2 * h) (2 * 0 - r)
    refine ⟨0, ?_, ?_⟩
    · simp only [start, load, hlo, if_true]
      rw [List.getElem?_replicate, if_pos (by omega)]
    · unfold Before evenDiagonalOf
      simp only [ne_eq, not_true_eq_false, false_iff]
      omega

/-- The write of step `b` takes its cell and no other. -/
lemma even_store {w : Walk} (hw : EvenReached h q b w) (hq : 0 ≤ q) (hqh : q < h) (hb : 0 ≤ b)
    (hbn : b < 2 * h) :
    ∃ a, store w.startingArray (w.y * (2 * h) + w.x) w.count = some a ∧
      (a.length : ℤ) = 2 * h * (2 * h) ∧
      ∀ r c, 0 ≤ r → r < 2 * h → 0 ≤ c → c < 2 * h →
        ∃ v, load a (r * (2 * h) + c) = some v ∧ (v ≠ 0 ↔ Before h q (b + 1) r c) := by
  have hrow := evenRowOf_cases h q b
  have hcol := evenColOf_cases h q b
  obtain ⟨a, hstore, hlen, hhit, hmiss⟩ := store_flat (n := 2 * h) (y := evenRowOf h q b)
    (x := evenColOf h q b) hw.length (by omega) (by omega) (by omega) (by omega) w.count
  refine ⟨a, by rw [hw.y, hw.x, hstore], by rw [hlen, hw.length], ?_⟩
  intro r c hr hrn hc hcn
  rw [before_succ_iff hq hqh hb hbn hr hrn hc hcn]
  by_cases hhere : r = evenRowOf h q b ∧ c = evenColOf h q b
  · refine ⟨w.count, by rw [hhere.1, hhere.2, hhit], iff_of_true ?_ (Or.inr hhere)⟩
    have := mul_nonneg hq (show 0 ≤ 2 * h by omega)
    rw [hw.count]
    omega
  · obtain ⟨v, hload, htaken⟩ := hw.taken r c hr hrn hc hcn
    refine ⟨v, by rw [hmiss r c hr hc hcn (not_and_or.mp hhere), hload], ?_⟩
    rw [htaken, or_iff_left hhere]

section Turn

variable {a : List ℤ} (htaken : ∀ r c, 0 ≤ r → r < 2 * h → 0 ≤ c → c < 2 * h →
  ∃ v, load a (r * (2 * h) + c) = some v ∧ (v ≠ 0 ↔ Before h q (b + 1) r c))

include htaken

/-- The corner rule never fires: when the cursor is in the corner, the cell at the bottom left
is the next one of its diagonal. -/
lemma even_atCorner (hq : 0 ≤ q) (hqh : q < h) (hb : 0 ≤ b) (hbn : b < 2 * h) :
    atCorner (2 * h) a (evenRowOf h q b) (evenColOf h q b) = some false := by
  unfold atCorner
  split
  · rename_i hcorner
    obtain ⟨v, hload, hv⟩ := htaken (2 * h - 1) 0 (by omega) (by omega) le_rfl (by omega)
    have hfree : ¬ Before h q (b + 1) (2 * h - 1) 0 := by
      have hrow := evenRowOf_cases h q b
      have hcol := evenColOf_cases h q b
      have hdiag := wrap_cases (2 * h) (2 * h - 1 + 0 - h)
      have hstep := wrap_cases (2 * h) (2 * q - (2 * h - 1))
      unfold Before evenDiagonalOf
      omega
    rw [hload, Option.map_some]
    simpa using mt hv.mp hfree
  · rfl

/-- Within a diagonal the cursor goes to its next cell. -/
lemma even_within (hq : 0 ≤ q) (hqh : q < h) (hb : 0 ≤ b) (hbn : b + 1 < 2 * h) :
    moveCursor (2 * h) a (evenRowOf h q b) (evenColOf h q b) =
      some (evenRowOf h q (b + 1), evenColOf h q (b + 1)) := by
  have hrow := evenRowOf_cases h q b
  have hrow' := evenRowOf_cases h q (b + 1)
  have hcol := evenColOf_cases h q b
  have hcol' := evenColOf_cases h q (b + 1)
  have hy : (if evenRowOf h q b - 1 < 0 then 2 * h - 1 else evenRowOf h q b - 1) =
      evenRowOf h q (b + 1) := by
    split_ifs <;> omega
  have hx : (if evenColOf h q b + 1 = 2 * h then 0 else evenColOf h q b + 1) =
      evenColOf h q (b + 1) := by
    split_ifs <;> omega
  obtain ⟨v, hload, hv⟩ := htaken (evenRowOf h q (b + 1)) (evenColOf h q (b + 1)) (by omega)
    (by omega) (by omega) (by omega)
  have hfree : ¬ Before h q (b + 1) (evenRowOf h q (b + 1)) (evenColOf h q (b + 1)) := by
    obtain ⟨hd, hs⟩ := (even_cell_iff (r := evenRowOf h q (b + 1)) (c := evenColOf h q (b + 1))
      hq hqh (by omega) hbn (by omega) (by omega) (by omega) (by omega)).mp ⟨rfl, rfl⟩
    unfold Before
    omega
  have hzero : v = 0 := by
    by_contra hne
    exact hfree (hv.mp hne)
  rw [moveCursor, even_atCorner htaken hq hqh hb (by omega)]
  simp only [Option.bind_some, Bool.false_eq_true, if_false, upRight, hy, hx, hload,
    Option.map_some, hzero, ne_eq, not_true_eq_false]

/-- From the end of a diagonal the cursor retreats below the start of the diagonal. -/
lemma even_at_end (hq : 0 ≤ q) (hqh : q < h) (hb : b = 2 * h - 1) :
    moveCursor (2 * h) a (evenRowOf h q b) (evenColOf h q b) =
      some (2 * q + 2, h - q - 1) := by
  have hrow := evenRowOf_cases h q b
  have hcol := evenColOf_cases h q b
  have hy : (if evenRowOf h q b - 1 < 0 then 2 * h - 1 else evenRowOf h q b - 1) = 2 * q := by
    split_ifs <;> omega
  have hx : (if evenColOf h q b + 1 = 2 * h then 0 else evenColOf h q b + 1) = h - q := by
    split_ifs <;> omega
  obtain ⟨v, hload, hv⟩ := htaken (2 * q) (h - q) (by omega) (by omega) (by omega) (by omega)
  have hbusy : Before h q (b + 1) (2 * q) (h - q) := by
    have hdiag := wrap_cases (2 * h) (2 * q + (h - q) - h)
    have hstep := wrap_cases (2 * h) (2 * q - 2 * q)
    unfold Before evenDiagonalOf
    omega
  rw [moveCursor, even_atCorner htaken hq hqh (by omega) (by omega)]
  simp only [Option.bind_some, Bool.false_eq_true, if_false, upRight, hy, hx, hload,
    Option.map_some, if_pos (hv.mpr hbusy)]

end Turn

/-- One turn of the loop, up to the last step of diagonal `h - 1`, which sends the cursor to
row `n`. -/
lemma even_turn {w : Walk} (hw : EvenReached h q b w) (hq : 0 ≤ q) (hqh : q < h) (hb : 0 ≤ b)
    (hbn : b < 2 * h) : ∃ w', turn (2 * h) w = some (.goOn w') ∧
      ((b + 1 < 2 * h ∧ EvenReached h q (b + 1) w') ∨
        (b + 1 = 2 * h ∧ q + 1 < h ∧ EvenReached h (q + 1) 0 w') ∨
        (b + 1 = 2 * h ∧ q + 1 = h ∧ turn (2 * h) w' = none)) := by
  obtain ⟨a, hstore, hlen, htaken⟩ := even_store hw hq hqh hb hbn
  -- the count stays below half of the numbers
  have hcount : ¬ w.count + 1 = 2 * h * (2 * h) + 1 := by
    have hhalf := (flat_bounds hq (show q < 2 * h by omega) hb hbn).2
    have hlast : q * (2 * h) ≤ (h - 1) * (2 * h) :=
      mul_le_mul_of_nonneg_right (by omega) (by omega)
    have hsplit : (h - 1) * (2 * h) + 2 * h = h * (2 * h) := by ring
    have hpos : 0 < h * (2 * h) := mul_pos (by omega) (by omega)
    have hdouble : 2 * h * (2 * h) = h * (2 * h) + h * (2 * h) := by ring
    rw [hw.count]
    omega
  have hturn : turn (2 * h) w =
      (moveCursor (2 * h) a (evenRowOf h q b) (evenColOf h q b)).map fun p =>
        .goOn ⟨a, w.count + 1, p.1, p.2⟩ := by
    rw [turn, hstore, Option.bind_some, hw.y, hw.x]
    simp only [if_neg hcount]
  by_cases hend : b + 1 < 2 * h
  · refine ⟨⟨a, w.count + 1, evenRowOf h q (b + 1), evenColOf h q (b + 1)⟩, ?_, Or.inl ⟨hend, ?_⟩⟩
    · rw [hturn, even_within htaken hq hqh hb hend, Option.map_some]
    · exact ⟨hlen, by rw [hw.count]; ring, rfl, rfl, htaken⟩
  · have hlast : b = 2 * h - 1 := by omega
    refine ⟨⟨a, w.count + 1, 2 * q + 2, h - q - 1⟩, ?_, ?_⟩
    · rw [hturn, even_at_end htaken hq hqh hlast, Option.map_some]
    · by_cases hnext : q + 1 < h
      · refine Or.inr (Or.inl ⟨by omega, hnext, hlen, ?_, ?_, ?_, ?_⟩)
        · rw [hw.count, hlast]
          ring
        · have hrow := evenRowOf_cases h (q + 1) 0
          show 2 * q + 2 = evenRowOf h (q + 1) 0
          omega
        · have hcol := evenColOf_cases h (q + 1) 0
          show h - q - 1 = evenColOf h (q + 1) 0
          omega
        · intro r c hr hrn hc hcn
          have htaken' := htaken r c hr hrn hc hcn
          rwa [show b + 1 = 2 * h by omega, before_next_iff hq hqh hr hrn] at htaken'
      · -- row `n` is behind the array
        refine Or.inr (Or.inr ⟨by omega, by omega, ?_⟩)
        have hout : store a ((2 * q + 2) * (2 * h) + (h - q - 1)) (w.count + 1) = none := by
          rw [show q = h - 1 by omega, ← Option.not_isSome_iff_eq_none, store_isSome_iff, hlen]
          intro hin
          have : (2 * (h - 1) + 2) * (2 * h) + (h - (h - 1) - 1) = 2 * h * (2 * h) := by ring
          omega
        rw [turn, hout, Option.bind_none]

/-- An even walk runs out of the array. -/
lemma loop_of_even {turns : ℕ} {w : Walk} (hw : EvenReached h q b w) (hq : 0 ≤ q) (hqh : q < h)
    (hb : 0 ≤ b) (hbn : b < 2 * h) (hturns : q * (2 * h) + b + turns = h * (2 * h)) :
    loop (2 * h) (turns + 1) w = .outOfBounds := by
  induction turns generalizing q b w with
  | zero =>
      have hlast : q * (2 * h) ≤ (h - 1) * (2 * h) :=
        mul_le_mul_of_nonneg_right (by omega) (by omega)
      have hsplit : (h - 1) * (2 * h) + 2 * h = h * (2 * h) := by ring
      simp only [Nat.cast_zero] at hturns
      omega
  | succ turns ih =>
      push_cast at hturns
      obtain ⟨w', hturn, hnext⟩ := even_turn hw hq hqh hb hbn
      rw [loop_goOn hturn]
      rcases hnext with ⟨hlt, hw'⟩ | ⟨hend, hlt, hw'⟩ | ⟨hend, hlast, hout⟩
      · exact ih hw' hq hqh (by omega) hlt (by omega)
      · exact ih hw' (by omega) hlt le_rfl (by omega) (by linarith)
      · simp [loop, hout]

/-! ## The sizes `main` lets through -/

/-- The largest `int`. -/
def intMax : ℤ := 2 ^ 31 - 1

/-- What `main` makes of `n = atoi(argv[1])`: 2 is turned away. -/
def admits (n : ℤ) : Bool := n ≠ 2

/-- The call of `create_magic_square`.  It computes `n*n` and `n*n+1` in `int`; where these
overflow the behaviour is undefined. -/
def calledWith (n : ℤ) (turns : ℕ) : Option Outcome :=
  if n * n + 1 ≤ intMax then some (createMagicSquare n turns) else none

/-- No access leaves the array, and the loop ends. -/
structure Safe (n : ℤ) : Prop where
  inBounds : ∀ turns, ∃ o, calledWith n turns = some o ∧ o ≠ .outOfBounds
  ends : ∃ turns a, calledWith n turns = some (.returned a)

lemma safe_of_odd {n : ℤ} (hn : 1 ≤ n) (hodd : Odd n) (hint : n * n + 1 ≤ intMax) : Safe n := by
  obtain ⟨h, rfl⟩ := hodd
  obtain ⟨a, hret, -, -⟩ := createMagicSquare_closed_form (h := h) (by omega)
  refine ⟨fun turns => ⟨_, if_pos hint, ?_⟩, _, a, (if_pos hint).trans (congrArg some hret)⟩
  rcases le_total turns ((2 * h + 1) * (2 * h + 1)).toNat with hle | hle
  · -- a loop that has left the array does not return
    intro hout
    have := loop_mono hle hout nofun
    rw [createMagicSquare] at hret
    rw [this] at hret
    simp at hret
  · rw [createMagicSquare, loop_mono hle hret nofun]
    simp

/-- **Which sizes are safe.**  Of the sizes `main` lets through, the odd ones for which
`n * n + 1` is an `int`. -/
theorem safe_iff_odd {n : ℤ} (hn : 1 ≤ n) (hadmits : admits n) :
    Safe n ↔ Odd n ∧ n * n + 1 ≤ intMax := by
  constructor
  · intro hsafe
    obtain ⟨turns, a, hret⟩ := hsafe.ends
    have hint : n * n + 1 ≤ intMax := by
      by_contra hover
      simp [calledWith, hover] at hret
    refine ⟨?_, hint⟩
    by_contra heven
    obtain ⟨h, hh⟩ := (Int.not_odd_iff_even.mp heven)
    obtain rfl : n = 2 * h := by omega
    have hpos : 0 ≤ h * (2 * h) := mul_nonneg (by omega) (by omega)
    obtain ⟨o, ho, hin⟩ := hsafe.inBounds ((h * (2 * h)).toNat + 1)
    have hout : createMagicSquare (2 * h) ((h * (2 * h)).toNat + 1) = .outOfBounds :=
      loop_of_even (evenReached_start (by omega)) le_rfl (by omega) le_rfl (by omega) (by omega)
    rw [calledWith, if_pos hint, hout] at ho
    exact hin (Option.some.inj ho).symm
  · rintro ⟨hodd, hint⟩
    exact safe_of_odd hn hodd hint

theorem safe_iff_odd_three : Safe 3 ↔ Odd (3 : ℤ) ∧ (3 : ℤ) * 3 + 1 ≤ intMax :=
  safe_iff_odd (by decide) (by decide)

/-- `main` lets 4 through; the ninth write is behind the array. -/
theorem four_leaves_the_array : ¬ ∀ n : ℤ, 1 ≤ n → admits n → Safe n := by
  intro hclaim
  obtain ⟨o, ho, hin⟩ := (hclaim 4 (by decide) (by decide)).inBounds 9
  have hout : calledWith 4 9 = some .outOfBounds := by decide +kernel
  exact hin (Option.some.inj (ho.symm.trans hout))

end MagicSquare
end EltSummer
