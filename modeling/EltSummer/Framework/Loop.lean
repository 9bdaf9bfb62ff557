import Mathlib.Data.Nat.Notation
import Mathlib.Tactic.Common

/-!
# Counted loops with a checked body

`forUpTo n body s` is `for (int i = 0; i < n; i++) body`, with the loop's variables in `s`.
The body may have no result, and then the loop has none.  The recursion is on the bound, so
the last turn is the outermost one and an invariant indexed by the number of finished turns
is carried from `0` to `n` by one induction, done here once.
-/

namespace Loop

variable {β : Type*}

/-- `for (int i = 0; i < n; i++)` over the loop state `s`. -/
def forUpTo : ℕ → (ℕ → β → Option β) → β → Option β
  | 0, _, s => some s
  | n + 1, body, s => (forUpTo n body s).bind (body n)

@[simp] lemma forUpTo_zero (body : ℕ → β → Option β) (s : β) :
    forUpTo 0 body s = some s := rfl

lemma forUpTo_succ (n : ℕ) (body : ℕ → β → Option β) (s : β) :
    forUpTo (n + 1) body s = (forUpTo n body s).bind (body n) := rfl

/-- A loop with a result has had one in every turn. -/
lemma exists_turn {n i : ℕ} {body : ℕ → β → Option β} {s t : β} (h : forUpTo n body s = some t)
    (hi : i < n) : ∃ u v, forUpTo i body s = some u ∧ body i u = some v := by
  induction n generalizing t with
  | zero => omega
  | succ n ih =>
      obtain ⟨u, hu, hlast⟩ := Option.bind_eq_some_iff.mp h
      rcases Nat.lt_succ_iff_lt_or_eq.mp hi with hlt | rfl
      · exact ih hu hlt
      · exact ⟨u, t, hu, hlast⟩

/-- **Loop rule, partial.**  An invariant that each turn preserves holds after the loop. -/
theorem forUpTo_invariant {I : ℕ → β → Prop} {n : ℕ} {body : ℕ → β → Option β} {s t : β}
    (h₀ : I 0 s) (hbody : ∀ i < n, ∀ u v, I i u → body i u = some v → I (i + 1) v)
    (h : forUpTo n body s = some t) : I n t := by
  induction n generalizing t with
  | zero =>
      obtain rfl : s = t := by simpa using h
      exact h₀
  | succ n ih =>
      obtain ⟨u, hu, hlast⟩ := Option.bind_eq_some_iff.mp h
      have hprev : I n u := ih (fun i hi => hbody i (by omega)) hu
      exact hbody n (by omega) u t hprev hlast

/-- **Loop rule, total.**  If under the invariant every turn has a result, so does the loop. -/
theorem forUpTo_total {I : ℕ → β → Prop} {n : ℕ} {body : ℕ → β → Option β} {s : β}
    (h₀ : I 0 s) (hbody : ∀ i < n, ∀ u, I i u → ∃ v, body i u = some v ∧ I (i + 1) v) :
    ∃ t, forUpTo n body s = some t ∧ I n t := by
  induction n with
  | zero => exact ⟨s, rfl, h₀⟩
  | succ n ih =>
      obtain ⟨u, hu, hI⟩ := ih (fun i hi => hbody i (by omega))
      obtain ⟨v, hv, hI'⟩ := hbody n (by omega) u hI
      exact ⟨v, by simp [forUpTo_succ, hu, hv], hI'⟩

/-! ## Loops that select -/

/-- What a loop over `0, …, n - 1` shows that shows `f i` where the test says so. -/
def selected {γ : Type*} (n : ℕ) (test : ℕ → Option Bool) (f : ℕ → Option γ) : List γ :=
  (List.range n).filterMap fun i => if test i = some true then f i else none

/-- A loop that appends `f i` where the test says so.  It has a result exactly when every
test has one and every item to be appended is there. -/
lemma forUpTo_select_iff {γ : Type*} {n : ℕ} {test : ℕ → Option Bool} {f : ℕ → Option γ}
    {out : List γ} :
    forUpTo n (fun i l =>
        (test i).bind fun b => if b then (f i).map fun r => l ++ [r] else some l) [] = some out ↔
      (∀ i < n, test i = some false ∨ test i = some true ∧ (f i).isSome) ∧
        out = selected n test f := by
  induction n generalizing out with
  | zero =>
      simp only [forUpTo_zero, selected, List.range_zero, List.filterMap_nil, Option.some.injEq]
      exact ⟨fun h => ⟨by simp, h.symm⟩, fun h => h.2.symm⟩
  | succ n ih =>
      rw [forUpTo_succ, Option.bind_eq_some_iff]
      simp only [ih, Nat.lt_succ_iff_lt_or_eq, or_imp, forall_and, forall_eq]
      have hlast : selected (n + 1) test f =
          selected n test f ++ (if test n = some true then f n else none).toList := by
        unfold selected
        rw [List.range_succ, List.filterMap_append]
        cases h : (if test n = some true then f n else none) <;> simp [h]
      rw [hlast]
      constructor
      · rintro ⟨l, ⟨hall, rfl⟩, hturn⟩
        obtain ⟨b, hb, hturn⟩ := Option.bind_eq_some_iff.mp hturn
        cases b with
        | false =>
            obtain rfl := Option.some.inj hturn
            exact ⟨⟨hall, Or.inl hb⟩, by simp [hb]⟩
        | true =>
            obtain ⟨r, hr, rfl⟩ := Option.map_eq_some_iff.mp hturn
            exact ⟨⟨hall, Or.inr ⟨hb, by simp [hr]⟩⟩, by simp [hb, hr]⟩
      · rintro ⟨⟨hall, hn⟩, rfl⟩
        refine ⟨_, ⟨hall, rfl⟩, ?_⟩
        rcases hn with hn | ⟨hn, hf⟩
        · simp [hn]
        · obtain ⟨r, hr⟩ := Option.isSome_iff_exists.mp hf
          simp [hn, hr]

/-- A selection that drops nothing of another one keeps the same items. -/
lemma filterMap_inj_of_le {ι γ : Type*} {g f : ι → Option γ} {l : List ι}
    (hsub : ∀ i ∈ l, g i = f i ∨ g i = none) (heq : l.filterMap g = l.filterMap f) :
    ∀ i ∈ l, g i = f i := by
  have hle : ∀ l : List ι, (∀ i ∈ l, g i = f i ∨ g i = none) →
      (l.filterMap g).length ≤ (l.filterMap f).length := by
    intro l
    induction l with
    | nil => simp
    | cons i l ih =>
        intro h
        have hrest := ih fun j hj => h j (List.mem_cons_of_mem i hj)
        rcases h i List.mem_cons_self with hi | hi
        · cases hf : f i <;> simp [hi, hf, hrest]
        · cases hf : f i <;> simp [hi, hf] <;> omega
  induction l with
  | nil => simp
  | cons i l ih =>
      have hrest : ∀ j ∈ l, g j = f j ∨ g j = none := fun j hj => hsub j (List.mem_cons_of_mem i hj)
      have hi : g i = f i := by
        rcases hsub i List.mem_cons_self with hi | hi
        · exact hi
        · cases hf : f i with
          | none => exact hi
          | some r =>
              have hlen := congrArg List.length heq
              have := hle l hrest
              simp only [List.filterMap_cons, hi, hf, List.length_cons] at hlen
              omega
      intro j hj
      rcases List.mem_cons.mp hj with rfl | hj
      · exact hi
      · refine ih hrest ?_ j hj
        cases hf : f i <;> simpa [hi, hf] using heq

end Loop
