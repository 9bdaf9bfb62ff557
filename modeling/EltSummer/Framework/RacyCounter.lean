import Mathlib.Data.Finset.Card
import Mathlib.Logic.Function.Basic
import Mathlib.Data.Nat.Notation

/-!
# A counter that is counted up without a lock

`x++` is a load and a store.  What the others count between the two is lost with the store, so the
counter may show less than was counted.  But it never shows more, and it shows 0 only if nothing
was counted: a store never stores 0.  `Sound` is the invariant, and `value_le` and
`value_eq_zero_iff` say so for a counter that nobody is at.
-/

namespace RacyCounter

open Function

variable {ι : Type*}

/-- The threads in `inside` have begun `x++` and not ended it; `begun` counts all that have
begun. -/
structure Counter (ι : Type*) where
  value : ℕ
  inside : Finset ι
  loaded : ι → Option ℕ
  begun : ℕ

/-- A counter at 0. -/
def Counter.zero : Counter ι := ⟨0, ∅, fun _ => none, 0⟩

/-- Neither the counter nor what a thread has loaded is ahead of what has been counted. -/
structure Sound (c : Counter ι) : Prop where
  value : c.value + c.inside.card ≤ c.begun
  loaded : ∀ i ∈ c.inside, ∀ v, c.loaded i = some v → v + c.inside.card ≤ c.begun
  counted : c.inside.card < c.begun → 0 < c.value

lemma sound_zero : Sound (Counter.zero : Counter ι) where
  value := le_rfl
  loaded := nofun
  counted := nofun

/-- The counter never shows too much. -/
theorem Sound.value_le {c : Counter ι} (h : Sound c) : c.value ≤ c.begun :=
  (Nat.le_add_right _ _).trans h.value

/-- Once nobody is at the counter, it shows 0 exactly if nothing was counted. -/
theorem Sound.value_eq_zero_iff {c : Counter ι} (h : Sound c) (hout : c.inside = ∅) :
    c.value = 0 ↔ c.begun = 0 := by
  have hcounted := h.counted
  have hle := h.value_le
  rw [hout, Finset.card_empty] at hcounted
  omega

/-! ## Counting -/

variable [DecidableEq ι]

/-- Thread `i` begins `x++`. -/
def Counter.enter (c : Counter ι) (i : ι) : Counter ι :=
  { c with
    inside := insert i c.inside
    loaded := update c.loaded i none
    begun := c.begun + 1 }

/-- Thread `i` loads, or stores what it has loaded plus 1. -/
def Counter.go (c : Counter ι) (i : ι) : Option (Counter ι) :=
  if i ∈ c.inside then
    match c.loaded i with
    | none => some { c with loaded := update c.loaded i (some c.value) }
    | some v => some { c with value := v + 1, inside := c.inside.erase i }
  else none

variable {c c' : Counter ι} {i : ι}

@[simp] lemma enter_inside (c : Counter ι) (i : ι) : (c.enter i).inside = insert i c.inside := rfl

@[simp] lemma enter_begun (c : Counter ι) (i : ι) : (c.enter i).begun = c.begun + 1 := rfl

lemma Sound.enter (h : Sound c) (hi : i ∉ c.inside) : Sound (c.enter i) := by
  have hcard : (c.enter i).inside.card = c.inside.card + 1 := Finset.card_insert_of_notMem hi
  constructor
  · have hvalue := h.value
    rw [hcard, enter_begun]
    show c.value + _ ≤ _
    omega
  · intro j hj v hv
    have hne : j ≠ i := by
      rintro rfl
      simp [Counter.enter] at hv
    have hv' : c.loaded j = some v := by simpa [Counter.enter, hne] using hv
    have hmem : j ∈ c.inside := by simpa [hne] using hj
    have hloaded := h.loaded j hmem v hv'
    rw [hcard, enter_begun]
    omega
  · intro hlt
    rw [hcard, enter_begun] at hlt
    exact h.counted (by omega)

/-- What a thread at the counter does to it. -/
lemma go_cases (hgo : c.go i = some c') :
    i ∈ c.inside ∧ c'.begun = c.begun ∧
      (c.loaded i = none ∧ c' = { c with loaded := update c.loaded i (some c.value) } ∨
        ∃ v, c.loaded i = some v ∧ c' = { c with value := v + 1, inside := c.inside.erase i }) := by
  obtain ⟨hi, hgo⟩ := Option.ite_none_right_eq_some.mp hgo
  cases hv : c.loaded i with
  | none =>
      rw [hv] at hgo
      obtain rfl := Option.some.inj hgo
      exact ⟨hi, rfl, Or.inl ⟨rfl, rfl⟩⟩
  | some v =>
      rw [hv] at hgo
      obtain rfl := Option.some.inj hgo
      exact ⟨hi, rfl, Or.inr ⟨v, rfl, rfl⟩⟩

lemma go_inside_subset (hgo : c.go i = some c') : c'.inside ⊆ c.inside := by
  obtain ⟨-, -, ⟨-, rfl⟩ | ⟨v, -, rfl⟩⟩ := go_cases hgo
  · exact Finset.Subset.refl _
  · exact Finset.erase_subset i c.inside

lemma Sound.go (h : Sound c) (hgo : c.go i = some c') : Sound c' := by
  obtain ⟨hi, -, ⟨-, rfl⟩ | ⟨v, hv, rfl⟩⟩ := go_cases hgo
  · refine { h with loaded := fun j hj w hw => ?_ }
    by_cases hji : j = i
    · obtain rfl : c.value = w := by simpa [hji] using hw
      exact h.value
    · exact h.loaded j hj w (by simpa [hji] using hw)
  · have hcard : (c.inside.erase i).card + 1 = c.inside.card := Finset.card_erase_add_one hi
    have hloaded := h.loaded i hi v hv
    refine ⟨?_, fun j hj w hw => ?_, fun _ => Nat.succ_pos v⟩
    · show v + 1 + (c.inside.erase i).card ≤ c.begun
      omega
    · have hj' := h.loaded j (Finset.mem_of_mem_erase hj) w hw
      show w + (c.inside.erase i).card ≤ c.begun
      omega

/-- How many parts of `x++` thread `i` has left. -/
def Counter.left (c : Counter ι) (i : ι) : ℕ :=
  if i ∈ c.inside then (if (c.loaded i).isSome then 1 else 2) else 0

lemma left_le (c : Counter ι) (i : ι) : c.left i ≤ 2 := by
  unfold Counter.left
  split
  · split <;> omega
  · exact Nat.zero_le 2

lemma left_eq_zero (hi : i ∉ c.inside) : c.left i = 0 := if_neg hi

lemma enter_left_self (c : Counter ι) (i : ι) : (c.enter i).left i = 2 := by
  simp [Counter.left, Counter.enter]

lemma enter_left_of_ne {j : ι} (hj : j ≠ i) : (c.enter i).left j = c.left j := by
  simp [Counter.left, Counter.enter, hj]

/-- One part less, for this thread only. -/
lemma go_left (hgo : c.go i = some c') :
    c'.left i < c.left i ∧ ∀ j ≠ i, c'.left j = c.left j := by
  obtain ⟨hi, -, ⟨hv, rfl⟩ | ⟨v, hv, rfl⟩⟩ := go_cases hgo
  · exact ⟨by simp [Counter.left, hi, hv], fun j hj => by simp [Counter.left, hj]⟩
  · exact ⟨by simp [Counter.left, hi, hv], fun j hj => by simp [Counter.left, hj]⟩

/-- A thread at the counter can go on. -/
lemma exists_go (hi : i ∈ c.inside) : ∃ c', c.go i = some c' := by
  cases hv : c.loaded i with
  | none => exact ⟨_, by rw [Counter.go, if_pos hi, hv]⟩
  | some v => exact ⟨_, by rw [Counter.go, if_pos hi, hv]⟩

end RacyCounter
