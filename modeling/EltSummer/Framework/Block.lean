import Mathlib.Data.Int.Basic
import Mathlib.Data.List.Basic
import Mathlib.Tactic.Linarith

/-!
# Blocks of memory with checked access

A block is the list of the cells one allocation owns.  C does not check an index, so the
behaviour of an access outside the block is undefined; here such an access has no result
(`none`), and a program whose model returns `some` on an input has made no such access
there.

* `load`, `store`: one cell, at an index that may be any integer, as pointer arithmetic on
  `int` produces it.
* `writeAt`: a run of cells from an offset on, as `memcpy`, `scanf("%s")` or `fread` store
  them.
* a square table kept in row-major order: its cells are the indices `r * n + c`, distinct
  cells have distinct indices, and a write changes one cell of the table.

The lemmas describe a block after a write by its `getElem?`, inside and outside the cells
written, which is the form every caller reads it back in; `laid` says both at once.
-/

namespace Block

variable {α : Type*}

/-! ## Single cells -/

/-- Reads the cell at `i`. -/
def load (b : List α) (i : ℤ) : Option α :=
  if 0 ≤ i then b[i.toNat]? else none

/-- Writes the cell at `i`. -/
def store (b : List α) (i : ℤ) (v : α) : Option (List α) :=
  if 0 ≤ i ∧ i.toNat < b.length then some (b.set i.toNat v) else none

lemma load_natCast (b : List α) (i : ℕ) : load b (i : ℤ) = b[i]? := by
  simp [load]

lemma store_natCast {b : List α} {i : ℕ} (h : i < b.length) (v : α) :
    store b (i : ℤ) v = some (b.set i v) := by
  simp [store, h]

lemma store_eq_none {b : List α} {i : ℕ} (h : b.length ≤ i) (v : α) : store b (i : ℤ) v = none := by
  simp [store, h]

/-- A block filled from the front, and one cell more. -/
lemma take_set_length {b : List α} {k : ℕ} (h : k < b.length) (v : α) :
    (b.set k v).take (k + 1) = b.take k ++ [v] := by
  rw [List.take_add_one, List.take_set, List.set_eq_of_length_le (by simp)]
  simp [h]

/-- A write succeeds exactly on the indices of the block. -/
lemma store_isSome_iff {b : List α} {i : ℤ} {v : α} :
    (store b i v).isSome ↔ 0 ≤ i ∧ i < b.length := by
  unfold store
  split
  · simp only [Option.isSome_some, true_iff]
    omega
  · simp only [Option.isSome_none, Bool.false_eq_true, false_iff]
    omega

/-! ## Runs of cells -/

/-- Writes `data` to the cells from `off` on. -/
def writeAt (b : List α) (off : ℕ) (data : List α) : Option (List α) :=
  if off + data.length ≤ b.length then
    some (b.take off ++ data ++ b.drop (off + data.length))
  else none

lemma writeAt_eq_some {b b' : List α} {off : ℕ} {data : List α} :
    writeAt b off data = some b' ↔
      off + data.length ≤ b.length ∧
        b' = b.take off ++ data ++ b.drop (off + data.length) := by
  unfold writeAt
  split
  · rename_i h
    simp [h, eq_comm]
  · rename_i h
    simp [h]

lemma writeAt_isSome_iff {b : List α} {off : ℕ} {data : List α} :
    (writeAt b off data).isSome ↔ off + data.length ≤ b.length := by
  unfold writeAt
  split
  · rename_i h
    simp [h]
  · rename_i h
    simp [h]

lemma length_writeAt {b b' : List α} {off : ℕ} {data : List α}
    (h : writeAt b off data = some b') : b'.length = b.length := by
  obtain ⟨hle, rfl⟩ := writeAt_eq_some.mp h
  simp only [List.length_append, List.length_take, List.length_drop]
  omega

/-- A cell that was written holds the data. -/
lemma getElem?_writeAt_of_mem {b b' : List α} {off i : ℕ} {data : List α}
    (h : writeAt b off data = some b') (hlo : off ≤ i) (hhi : i < off + data.length) :
    b'[i]? = data[i - off]? := by
  obtain ⟨hle, rfl⟩ := writeAt_eq_some.mp h
  have htake : (b.take off).length = off := by simp; omega
  rw [List.getElem?_append_left (by simp; omega), List.getElem?_append_right (by omega), htake]

/-- A cell that was not written keeps its content. -/
lemma getElem?_writeAt_of_not_mem {b b' : List α} {off i : ℕ} {data : List α}
    (h : writeAt b off data = some b') (hi : i < off ∨ off + data.length ≤ i) :
    b'[i]? = b[i]? := by
  obtain ⟨hle, rfl⟩ := writeAt_eq_some.mp h
  have htake : (b.take off).length = off := by simp; omega
  rcases hi with hi | hi
  · rw [List.append_assoc, List.getElem?_append_left (by omega), List.getElem?_take_of_lt hi]
  · rw [List.getElem?_append_right (by simp; omega), List.getElem?_drop]
    congr 1
    simp only [List.length_append, htake]
    omega

/-- What is behind the cells written stays as it is. -/
lemma drop_writeAt {b b' : List α} {off k : ℕ} {data : List α}
    (h : writeAt b off data = some b') (hk : off + data.length ≤ k) : b'.drop k = b.drop k := by
  refine List.ext_getElem? fun i => ?_
  rw [List.getElem?_drop, List.getElem?_drop]
  exact getElem?_writeAt_of_not_mem h (Or.inr (by omega))

/-- What a run of cells stored from `off` on puts at `i`. -/
def laid (data : List α) (off i : ℕ) : Option α := if off ≤ i then data[i - off]? else none

@[simp] lemma laid_add (data : List α) (off k : ℕ) : laid data off (off + k) = data[k]? := by
  simp [laid]

lemma laid_eq_none_iff {data : List α} {off i : ℕ} :
    laid data off i = none ↔ i < off ∨ off + data.length ≤ i := by
  unfold laid
  split
  · rw [List.getElem?_eq_none_iff]
    omega
  · simp
    omega

lemma laid_of_lt {data : List α} {off i : ℕ} (h : i < off) : laid data off i = none :=
  laid_eq_none_iff.mpr (Or.inl h)

/-- Every cell after a write: what was laid over it, or what was there. -/
lemma getElem?_writeAt {b b' : List α} {off : ℕ} {data : List α}
    (h : writeAt b off data = some b') (i : ℕ) : b'[i]? = (laid data off i).or b[i]? := by
  by_cases hi : off ≤ i ∧ i < off + data.length
  · rw [getElem?_writeAt_of_mem h hi.1 hi.2, laid, if_pos hi.1,
      List.getElem?_eq_getElem (by omega), Option.some_or]
  · rw [getElem?_writeAt_of_not_mem h (by omega), laid_eq_none_iff.mpr (by omega), Option.none_or]

/-- Two accesses, of which the second asks the same of whatever the first leaves. -/
lemma isSome_bind_iff {β : Type*} {o : Option α} {f : α → Option β} {P : Prop}
    (h : ∀ a, o = some a → ((f a).isSome ↔ P)) : (o.bind f).isSome ↔ o.isSome ∧ P := by
  cases ho : o with
  | none => simp
  | some a => simpa using h a ho

/-! ## Square tables in row-major order -/

variable {n r c y x : ℤ}

/-- A cell of the table lies inside a block of `n * n` cells. -/
lemma flat_bounds (hr : 0 ≤ r) (hrn : r < n) (hc : 0 ≤ c) (hcn : c < n) :
    0 ≤ r * n + c ∧ r * n + c < n * n := by
  constructor
  · nlinarith
  · nlinarith [mul_nonneg (show 0 ≤ n - 1 - r by omega) (show 0 ≤ n by omega)]

/-- Distinct cells have distinct indices. -/
lemma flat_inj (hc : 0 ≤ c) (hcn : c < n) (hx : 0 ≤ x) (hxn : x < n)
    (h : r * n + c = y * n + x) : r = y ∧ c = x := by
  have hn : 0 < n := by omega
  have hrow : ∀ a b : ℤ, 0 ≤ b → b < n → (a * n + b) / n = a := fun a b hb hbn => by
    rw [add_comm, Int.add_mul_ediv_right _ _ (by omega), Int.ediv_eq_zero_of_lt hb hbn, zero_add]
  have hry : r = y := by
    rw [← hrow r c hc hcn, h, hrow y x hx hxn]
  subst hry
  exact ⟨rfl, by omega⟩

/-- A write to cell `(y, x)` of the table succeeds, changes that cell and no other. -/
lemma store_flat {b : List α} (hb : (b.length : ℤ) = n * n)
    (hy : 0 ≤ y) (hyn : y < n) (hx : 0 ≤ x) (hxn : x < n) (v : α) :
    ∃ b', store b (y * n + x) v = some b' ∧ b'.length = b.length ∧
      load b' (y * n + x) = some v ∧
      ∀ r c, 0 ≤ r → 0 ≤ c → c < n → (r ≠ y ∨ c ≠ x) →
        load b' (r * n + c) = load b (r * n + c) := by
  obtain ⟨hlo, hhi⟩ := flat_bounds hy hyn hx hxn
  have hlt : (y * n + x).toNat < b.length := by omega
  refine ⟨b.set (y * n + x).toNat v, by simp [store, hlo, hlt], by simp, ?_, ?_⟩
  · simp [load, hlo, hlt]
  · intro r c hr hc hcn hne
    have hpos : 0 ≤ r * n + c := by nlinarith
    have hidx : (y * n + x).toNat ≠ (r * n + c).toNat := by
      intro heq
      obtain ⟨h1, h2⟩ := flat_inj hc hcn hx hxn (show r * n + c = y * n + x by omega)
      exact hne.elim (· h1) (· h2)
    simp only [load, hpos, if_true, List.getElem?_set_ne hidx]

end Block
