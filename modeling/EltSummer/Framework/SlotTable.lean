import Mathlib.Data.Finset.Insert
import Mathlib.Data.Finset.Basic
import Mathlib.Logic.Function.Basic

/-!
# A table of slots that lends resources out

Threads that hand an *index* around instead of the resource itself share a table from
indices to resources, and the table's slots are reused.  The discipline that makes this
sound is a lease on each slot: the slot rests, or it is live at one place, or its resource
has been closed by one closer that is about to clear the entry.

`Table.Ok` is what such a table is for: live entries are open resources, different live
slots have different resources, and every open resource is the entry of a live slot unless
it was given up (`lost`).  Each operation below keeps `Ok`, under the one condition it needs:
only a resting slot may be overwritten or acquired, and an acquired resource is a new one.

A program refines this table by saying where its indices are; the table knows nothing about
threads, queues or descriptors.
-/

namespace SlotTable

/-- The state of a slot: at rest, live at a place, or closed by a closer. -/
inductive Lease (P C : Type*)
  | rest
  | live (p : P)
  | closed (c : C)
  deriving DecidableEq, Repr

/-- Slots with their leases and entries, the open resources, and those given up. -/
structure Table (P C V : Type*) where
  lease : ℕ → Lease P C
  entry : ℕ → V
  openSet : Finset V
  lost : Finset V

variable {P C V : Type*} [DecidableEq V]

namespace Table

/-- Live entries are open and distinct, and every open resource is one of them or lost. -/
structure Ok (t : Table P C V) : Prop where
  entry_open : ∀ i p, t.lease i = .live p → t.entry i ∈ t.openSet
  entry_inj : ∀ i j p q, t.lease i = .live p → t.lease j = .live q →
    t.entry i = t.entry j → i = j
  covered : ∀ v ∈ t.openSet, v ∈ t.lost ∨ ∃ i p, t.lease i = .live p ∧ t.entry i = v

/-- Writes any value into a slot at rest. -/
def overwrite (t : Table P C V) (i : ℕ) (v : V) : Table P C V :=
  { t with entry := Function.update t.entry i v }

/-- Opens a resource and leases the slot for it. -/
def acquire (t : Table P C V) (i : ℕ) (p : P) (v : V) : Table P C V :=
  { t with
    lease := Function.update t.lease i (.live p)
    entry := Function.update t.entry i v
    openSet := insert v t.openSet }

/-- Moves a live slot to another place. -/
def transfer (t : Table P C V) (i : ℕ) (p : P) : Table P C V :=
  { t with lease := Function.update t.lease i (.live p) }

/-- Gives a slot up while its resource is still open. -/
def drop (t : Table P C V) (i : ℕ) : Table P C V :=
  { t with
    lease := Function.update t.lease i .rest
    lost := insert (t.entry i) t.lost }

/-- Closes the resource of a slot. -/
def close (t : Table P C V) (i : ℕ) (c : C) : Table P C V :=
  { t with
    lease := Function.update t.lease i (.closed c)
    openSet := t.openSet.erase (t.entry i) }

/-- Clears the entry of a slot that is not live. -/
def release (t : Table P C V) (i : ℕ) (v : V) : Table P C V :=
  { t with
    lease := Function.update t.lease i .rest
    entry := Function.update t.entry i v }

variable {t : Table P C V} {i : ℕ} {p : P} {v : V} {c : C}

omit [DecidableEq V] in
/-- Reading the lease table after a change at slot `i` is reading it at `i` and elsewhere. -/
lemma update_lease_iff {lease : ℕ → Lease P C} {i : ℕ} {l x : Lease P C} {Q : ℕ → Prop}
    (hat : l = x ↔ Q i) (hoff : ∀ j, j ≠ i → (lease j = x ↔ Q j)) (j : ℕ) :
    Function.update lease i l j = x ↔ Q j := by
  by_cases hj : j = i
  · subst hj
    rw [Function.update_self]
    exact hat
  · rw [Function.update_of_ne hj]
    exact hoff j hj

omit [DecidableEq V] in
lemma Ok.overwrite (h : t.Ok) (hrest : t.lease i = .rest) : (t.overwrite i v).Ok := by
  have hkeep : ∀ j q, t.lease j = .live q → Function.update t.entry i v j = t.entry j := by
    intro j q hj
    refine Function.update_of_ne ?_ _ _
    rintro rfl
    rw [hrest] at hj
    cases hj
  refine ⟨fun j q hj => ?_, fun j k q r hj hk heq => ?_, fun w hw => ?_⟩
  · simp only [Table.overwrite, hkeep j q hj]
    exact h.entry_open j q hj
  · simp only [Table.overwrite, hkeep j q hj, hkeep k r hk] at heq
    exact h.entry_inj j k q r hj hk heq
  · refine (h.covered w hw).imp_right fun ⟨j, q, hj, hjw⟩ => ⟨j, q, hj, ?_⟩
    simp only [Table.overwrite, hkeep j q hj, hjw]

lemma Ok.acquire (h : t.Ok) (hrest : t.lease i = .rest) (hnew : v ∉ t.openSet) :
    (t.acquire i p v).Ok := by
  have hold : ∀ j q, t.lease j = .live q → j ≠ i := by
    rintro j q hj rfl
    rw [hrest] at hj
    cases hj
  have hne : ∀ j q, t.lease j = .live q → t.entry j ≠ v := fun j q hj heq =>
    hnew (heq ▸ h.entry_open j q hj)
  refine ⟨fun j q hj => ?_, fun j k q r hj hk heq => ?_, fun w hw => ?_⟩
  · simp only [Table.acquire, Function.update_apply] at hj ⊢
    split at hj
    · simp [*]
    · rename_i hji
      simp only [if_neg hji]
      exact Finset.mem_insert_of_mem (h.entry_open j q hj)
  · simp only [Table.acquire, Function.update_apply] at hj hk heq
    by_cases hji : j = i <;> by_cases hki : k = i
    · rw [hji, hki]
    · simp only [if_pos hji, if_neg hki] at hk heq
      exact absurd heq.symm (hne k r hk)
    · simp only [if_neg hji, if_pos hki] at hj heq
      exact absurd heq (hne j q hj)
    · simp only [if_neg hji, if_neg hki] at hj hk heq
      exact h.entry_inj j k q r hj hk heq
  · rcases Finset.mem_insert.mp hw with rfl | hw
    · exact Or.inr ⟨i, p, by simp [Table.acquire], by simp [Table.acquire]⟩
    · refine (h.covered w hw).imp_right fun ⟨j, q, hj, hjw⟩ => ⟨j, q, ?_, ?_⟩
      · simpa [Table.acquire, Function.update_of_ne (hold j q hj)] using hj
      · simpa [Table.acquire, Function.update_of_ne (hold j q hj)] using hjw

omit [DecidableEq V] in
lemma Ok.transfer {q : P} (h : t.Ok) (hlive : t.lease i = .live q) : (t.transfer i p).Ok := by
  have hback : ∀ j r, (t.transfer i p).lease j = .live r → ∃ r', t.lease j = .live r' := by
    intro j r hj
    by_cases hji : j = i
    · exact ⟨q, hji ▸ hlive⟩
    · exact ⟨r, by simpa [Table.transfer, Function.update_of_ne hji] using hj⟩
  have hforth : ∀ j r, t.lease j = .live r → ∃ r', (t.transfer i p).lease j = .live r' := by
    intro j r hj
    by_cases hji : j = i
    · exact ⟨p, by simp [Table.transfer, hji]⟩
    · exact ⟨r, by simpa [Table.transfer, Function.update_of_ne hji] using hj⟩
  refine ⟨fun j r hj => ?_, fun j k r r' hj hk heq => ?_, fun w hw => ?_⟩
  · obtain ⟨r', hj'⟩ := hback j r hj
    exact h.entry_open j r' hj'
  · obtain ⟨a, ha⟩ := hback j r hj
    obtain ⟨b, hb⟩ := hback k r' hk
    exact h.entry_inj j k a b ha hb heq
  · refine (h.covered w hw).imp_right fun ⟨j, r, hj, hjw⟩ => ?_
    obtain ⟨r', hj'⟩ := hforth j r hj
    exact ⟨j, r', hj', hjw⟩

omit [DecidableEq V] in
/-- What stays live when slot `i` stops being so. -/
lemma lease_of_update {l : Lease P C} (hl : ∀ p, l ≠ .live p) {j : ℕ} {q : P}
    (hj : Function.update t.lease i l j = .live q) : j ≠ i ∧ t.lease j = .live q := by
  by_cases hji : j = i
  · subst hji
    rw [Function.update_self] at hj
    exact absurd hj (hl q)
  · exact ⟨hji, by rwa [Function.update_of_ne hji] at hj⟩

lemma Ok.drop (h : t.Ok) : (t.drop i).Ok := by
  refine ⟨fun j q hj => ?_, fun j k q r hj hk heq => ?_, fun w hw => ?_⟩
  · exact h.entry_open j q (lease_of_update (by simp) hj).2
  · exact h.entry_inj j k q r (lease_of_update (by simp) hj).2
      (lease_of_update (by simp) hk).2 heq
  · rcases h.covered w hw with hlost | ⟨j, q, hj, rfl⟩
    · exact Or.inl (Finset.mem_insert_of_mem hlost)
    · by_cases hji : j = i
      · exact Or.inl (by simp [Table.drop, hji])
      · exact Or.inr ⟨j, q, by simpa [Table.drop, Function.update_of_ne hji] using hj, rfl⟩

lemma Ok.close (h : t.Ok) (hlive : t.lease i = .live p) : (t.close i c).Ok := by
  refine ⟨fun j q hj => ?_, fun j k q r hj hk heq => ?_, fun w hw => ?_⟩
  · obtain ⟨hji, hj'⟩ := lease_of_update (by simp) hj
    refine Finset.mem_erase.mpr ⟨fun heq => hji ?_, h.entry_open j q hj'⟩
    exact h.entry_inj j i q p hj' hlive heq
  · exact h.entry_inj j k q r (lease_of_update (by simp) hj).2
      (lease_of_update (by simp) hk).2 heq
  · obtain ⟨hne, hw'⟩ := Finset.mem_erase.mp hw
    refine (h.covered w hw').imp_right fun ⟨j, q, hj, hjw⟩ => ⟨j, q, ?_, hjw⟩
    have hji : j ≠ i := by
      rintro rfl
      exact hne hjw.symm
    simpa [Table.close, Function.update_of_ne hji] using hj

omit [DecidableEq V] in
lemma Ok.release (h : t.Ok) (hdead : ∀ p, t.lease i ≠ .live p) : (t.release i v).Ok := by
  have hkeep : ∀ j q, t.lease j = .live q →
      Function.update t.lease i .rest j = .live q ∧ Function.update t.entry i v j = t.entry j := by
    intro j q hj
    have hji : j ≠ i := by
      rintro rfl
      exact hdead q hj
    exact ⟨by rw [Function.update_of_ne hji, hj], Function.update_of_ne hji _ _⟩
  refine ⟨fun j q hj => ?_, fun j k q r hj hk heq => ?_, fun w hw => ?_⟩
  · have hj' := (lease_of_update (by simp) hj).2
    simp only [Table.release, (hkeep j q hj').2]
    exact h.entry_open j q hj'
  · have hj' := (lease_of_update (by simp) hj).2
    have hk' := (lease_of_update (by simp) hk).2
    simp only [Table.release, (hkeep j q hj').2, (hkeep k r hk').2] at heq
    exact h.entry_inj j k q r hj' hk' heq
  · exact (h.covered w hw).imp_right fun ⟨j, q, hj, hjw⟩ =>
      ⟨j, q, (hkeep j q hj).1, by rw [← hjw]; exact (hkeep j q hj).2⟩

end Table

end SlotTable
