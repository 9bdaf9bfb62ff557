import Mathlib.Logic.Function.Basic
import Mathlib.Tactic.Common

/-!
# Mutual exclusion by semaphores

A hall has rooms, one semaphore for each, and parties of which each is in one room or in
none.  A party enters a room by a wait that finds the value positive and leaves it by a
post.  From a hall in which every room is free with value 1 or held by one party with value
0 (`Hall.Fair`), such moves never lead to two parties in one room or to a value above 1
(`Hall.Safe`), however they interleave.

An intrusion is what a party does that goes in although its wait has failed.  One of them is
enough: it leads out of every fair hall into an unsafe one (`Hall.Fair.not_safe_of_intrusion`).
What is left afterwards: rooms nobody intrudes on stay fair (`Hall.only` looks at these alone),
and in every room somebody holds the semaphore while its value is 0 (`Hall.Manned`).
-/

namespace Semaphores

variable {P I : Type*} [DecidableEq P] [DecidableEq I]

/-- The values of the semaphores, and where each party is. -/
structure Hall (P I : Type*) where
  value : I → ℕ
  place : P → Option I

namespace Hall

/-- At most one party in a room, and no value above 1. -/
def Safe (h : Hall P I) : Prop :=
  ∀ i, h.value i ≤ 1 ∧ ∀ p q, h.place p = some i → h.place q = some i → p = q

/-- Every room is free with value 1, or one party's with value 0. -/
def Fair (h : Hall P I) : Prop :=
  ∀ i, (h.value i = 1 ∧ ∀ p, h.place p ≠ some i) ∨
    (h.value i = 0 ∧ ∃ p, h.place p = some i ∧ ∀ q, h.place q = some i → q = p)

/-- A move that follows the protocol. -/
inductive Move (h : Hall P I) : Hall P I → Prop
  | stay : Move h h
  | enter {p : P} {i : I} (hvalue : 0 < h.value i) (hout : h.place p = none) :
      Move h ⟨Function.update h.value i (h.value i - 1), Function.update h.place p (some i)⟩
  | leave {p : P} {i : I} (hin : h.place p = some i) :
      Move h ⟨Function.update h.value i (h.value i + 1), Function.update h.place p none⟩

/-- A party goes into a room whose semaphore it has not taken. -/
def Intrusion (h h' : Hall P I) : Prop :=
  ∃ p i, h.value i = 0 ∧ h.place p = none ∧
    h' = ⟨h.value, Function.update h.place p (some i)⟩

/-- A step of a party that stays where it is. -/
lemma Move.stays {h : Hall P I} {p : P} {r : Option I} (hr : r = h.place p) :
    Move h ⟨h.value, Function.update h.place p r⟩ := by
  rw [hr, Function.update_eq_self]
  exact .stay

omit [DecidableEq P] [DecidableEq I] in
lemma Fair.safe {h : Hall P I} (hf : h.Fair) : h.Safe := by
  intro i
  rcases hf i with ⟨hv, hfree⟩ | ⟨hv, p, -, honly⟩
  · exact ⟨Nat.le_of_eq hv, fun p _ hp _ => absurd hp (hfree p)⟩
  · exact ⟨by omega, fun q r hq hr => (honly q hq).trans (honly r hr).symm⟩

/-- **The protocol keeps a hall fair.** -/
theorem Move.fair {h h' : Hall P I} (hm : Move h h') (hf : h.Fair) : h'.Fair := by
  cases hm with
  | stay => exact hf
  | @enter p i hvalue hout =>
      intro j
      by_cases hj : j = i
      · subst hj
        rcases hf j with ⟨hv, hfree⟩ | ⟨hv, -⟩
        · refine Or.inr ⟨by simp [hv], p, by simp, fun q hq => ?_⟩
          by_contra hqp
          exact hfree q ((Function.update_of_ne hqp _ _).symm.trans hq)
        · omega
      · have hsame : ∀ q, Function.update h.place p (some i) q = some j ↔ h.place q = some j := by
          intro q
          by_cases hqp : q = p
          · subst hqp
            simp [hout, Ne.symm hj]
          · rw [Function.update_of_ne hqp]
        simpa [hsame, Function.update_of_ne hj] using hf j
  | @leave p i hin =>
      intro j
      by_cases hj : j = i
      · subst hj
        rcases hf j with ⟨-, hfree⟩ | ⟨hv, q, -, honly⟩
        · exact absurd hin (hfree p)
        · refine Or.inl ⟨by simp [hv], fun r hr => ?_⟩
          by_cases hrp : r = p
          · simp [hrp] at hr
          · have hr' : h.place r = some j := (Function.update_of_ne hrp _ _).symm.trans hr
            exact hrp ((honly r hr').trans (honly p hin).symm)
      · have hsame : ∀ q, Function.update h.place p none q = some j ↔ h.place q = some j := by
          intro q
          by_cases hqp : q = p
          · subst hqp
            simp [hin, Ne.symm hj]
          · rw [Function.update_of_ne hqp]
        simpa [hsame, Function.update_of_ne hj] using hf j

omit [DecidableEq I] in
/-- An intruder meets the party that holds the room. -/
theorem Fair.not_safe_of_intrusion {h h' : Hall P I} (hf : h.Fair) (hi : Intrusion h h') :
    ¬ h'.Safe := by
  obtain ⟨p, i, hvalue, hout, rfl⟩ := hi
  rcases hf i with ⟨hv, -⟩ | ⟨-, q, hq, -⟩
  · omega
  · have hne : q ≠ p := fun hqp => by simp [hqp, hout] at hq
    intro hsafe
    exact hne ((hsafe i).2 q p ((Function.update_of_ne hne _ _).trans hq) (by simp))

/-! ## Some of the rooms -/

/-- A hall with the rooms that `on` names; in the others there is nobody. -/
def only (on : I → Bool) (h : Hall P I) : Hall P I where
  value i := if on i = true then h.value i else 1
  place p := (h.place p).filter on

variable {on : I → Bool} {h h' : Hall P I}

omit [DecidableEq I] in
lemma only_update (h : Hall P I) (value : I → ℕ) (p : P) (r : Option I) :
    Hall.only on ⟨value, Function.update h.place p r⟩ =
      ⟨(Hall.only on ⟨value, h.place⟩).value,
        Function.update (h.only on).place p (r.filter on)⟩ := by
  refine congrArg (Hall.mk _) (funext fun q => ?_)
  by_cases hq : q = p
  · subst hq
    simp
  · simp [only, hq]

omit [DecidableEq P] in
lemma only_value_update (h : Hall P I) (i : I) (v : ℕ) (place : P → Option I) :
    (Hall.only on ⟨Function.update h.value i v, place⟩).value =
      if on i = true then Function.update (h.only on).value i v else (h.only on).value := by
  funext j
  by_cases hj : j = i
  · subst hj
    split <;> simp [only, *]
  · split <;> simp [only, hj]

/-- A move in another room is none in these. -/
lemma Move.only (hm : Move h h') : Move (h.only on) (h'.only on) := by
  cases hm with
  | stay => exact .stay
  | @enter p i hvalue hout =>
      have hout' : (h.only on).place p = none := by simp [Hall.only, hout]
      rw [only_update, only_value_update]
      by_cases hon : on i = true
      · have hsame : (h.only on).value i = h.value i := if_pos hon
        rw [if_pos hon, ← hsame, Option.filter_some, if_pos hon]
        exact .enter (by rwa [hsame]) hout'
      · rw [if_neg hon, Option.filter_some, if_neg hon]
        exact .stays hout'.symm
  | @leave p i hin =>
      rw [only_update, only_value_update, Option.filter_none]
      by_cases hon : on i = true
      · have hsame : (h.only on).value i = h.value i := if_pos hon
        rw [if_pos hon, ← hsame]
        exact .leave (by simp [Hall.only, hin, hon])
      · rw [if_neg hon]
        exact .stays (by simp [Hall.only, hin, Option.filter, hon])

omit [DecidableEq I] in
/-- Somebody who goes into another room is not seen here. -/
lemma only_of_off {p : P} {i : I} (hout : h.place p = none) (hoff : on i = false) :
    Hall.only on ⟨h.value, Function.update h.place p (some i)⟩ = h.only on := by
  have hout' : (h.only on).place p = none := by simp [Hall.only, hout]
  rw [only_update, Option.filter_some, if_neg (by simp [hoff]), ← hout',
    Function.update_eq_self]

omit [DecidableEq P] [DecidableEq I] in
/-- One of these rooms, if they are fair. -/
lemma Fair.of_only (hf : (h.only on).Fair) {i : I} (hon : on i = true) :
    h.value i ≤ 1 ∧ ∀ p q, h.place p = some i → h.place q = some i → p = q := by
  have hplace : ∀ p, h.place p = some i → (h.only on).place p = some i := by
    intro p hp
    simp [only, hp, hon]
  have hvalue : (h.only on).value i = h.value i := if_pos hon
  obtain ⟨hle, hone⟩ := hf.safe i
  exact ⟨hvalue ▸ hle, fun p q hp hq => hone p q (hplace p hp) (hplace q hq)⟩

/-- Where the value is 0 somebody is inside. -/
def Manned (h : Hall P I) : Prop := ∀ i, h.value i = 0 → ∃ p, h.place p = some i

omit [DecidableEq I] in
lemma Manned.enter (hmanned : h.Manned) {p : P} {i : I} (hout : h.place p = none) {j : I}
    (hvalue : j ≠ i → h.value j = 0) : ∃ q, Function.update h.place p (some i) q = some j := by
  by_cases hj : j = i
  · exact ⟨p, by rw [Function.update_self, hj]⟩
  · obtain ⟨q, hq⟩ := hmanned j (hvalue hj)
    have hne : q ≠ p := fun hqp => by simp [hqp, hout] at hq
    exact ⟨q, by rwa [Function.update_of_ne hne]⟩

lemma Move.manned (hm : Move h h') (hmanned : h.Manned) : h'.Manned := by
  cases hm with
  | stay => exact hmanned
  | @enter p i hvalue hout =>
      intro j hj
      exact hmanned.enter hout fun hne => (Function.update_of_ne hne _ _).symm.trans hj
  | @leave p i hin =>
      intro j hj
      have hne : j ≠ i := by
        rintro rfl
        simp at hj
      obtain ⟨q, hq⟩ := hmanned j ((Function.update_of_ne hne _ _).symm.trans hj)
      have hqp : q ≠ p := by
        rintro rfl
        exact hne (Option.some.inj (hq.symm.trans hin))
      exact ⟨q, (Function.update_of_ne hqp _ _).trans hq⟩

omit [DecidableEq I] in
/-- An intruder is inside, too. -/
lemma Intrusion.manned (hi : Intrusion h h') (hmanned : h.Manned) : h'.Manned := by
  obtain ⟨p, i, -, hout, rfl⟩ := hi
  exact fun j hj => hmanned.enter hout fun _ => hj

end Hall

end Semaphores
