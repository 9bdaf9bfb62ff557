import Mathlib.Data.List.Basic
import Mathlib.Tactic.Common

/-!
# Logs

A log is a list that grows at its end.  What holds of every entry of a log and of what stands
before or behind it is kept by an append if it holds of the new entry; the two lemmas say
where an entry of a log that has grown by one stands.
-/

namespace Log

variable {α : Type*} {log before after : List α} {a b : α} {i : ℕ}

lemma getElem?_concat (h : (log ++ [a])[i]? = some b) :
    log[i]? = some b ∨ i = log.length ∧ a = b := by
  rcases Nat.lt_trichotomy i log.length with hi | rfl | hi
  · exact Or.inl (by rwa [List.getElem?_append_left hi] at h)
  · exact Or.inr ⟨rfl, by simpa using h⟩
  · rw [List.getElem?_eq_none (by simp; omega)] at h
    simp at h

lemma split_concat (h : log ++ [a] = before ++ b :: after) :
    (log = before ∧ a = b ∧ after = []) ∨
      ∃ after', after = after' ++ [a] ∧ log = before ++ b :: after' := by
  rcases after.eq_nil_or_concat with rfl | ⟨after', y, rfl⟩
  · obtain ⟨rfl, hb⟩ := List.append_inj' h rfl
    exact Or.inl ⟨rfl, by simpa using hb, rfl⟩
  · rw [List.concat_eq_append, ← List.cons_append, ← List.append_assoc] at h
    obtain ⟨hlog, ha⟩ := List.append_inj' h rfl
    obtain rfl : a = y := by simpa using ha
    exact Or.inr ⟨after', List.concat_eq_append, hlog⟩

end Log
