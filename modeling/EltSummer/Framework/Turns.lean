import Mathlib.Data.Nat.Notation
import Mathlib.Logic.Relation
import Mathlib.Tactic.Common

/-!
# Loops without a bound, turn by turn

A turn of a `while` loop, the test of its condition included, goes on with a new state, ends the
loop, or has no result where it does what C leaves undefined.  `run turn n s` is what is known of
the loop from `s` after at most `n` turns, and `Ends` and `Fails` say what comes of it in the
end, if anything does.

Turns that go on may be taken off at the front (`Leads.ends_iff`, `Leads.fails_iff`), one by one
or many at once.  A loop that ends has come to its last turn (`ends_iff_leads`), so what holds
there is shown by induction on `Leads`.  Whether a loop ends is shown by a measure
(`ends_of_measure`), or by a set of states that its turns do not leave (`not_ends_of_trap`).
The two together say of a property of states when the loop ends (`ends_iff_forall_leads`).  A loop
that says less of the same turns ends where the other one does (`Ends.map`).
-/

namespace Turns

variable {σ τ : Type*}

/-- How a turn is left. -/
inductive Turn (σ τ : Type*)
  | next (s : σ)
  | stop (t : τ)
  deriving DecidableEq, Repr

/-- The same turn, of states that say less. -/
def Turn.map {σ' τ' : Type*} (f : σ → σ') (g : τ → τ') : Turn σ τ → Turn σ' τ'
  | .next s => .next (f s)
  | .stop t => .stop (g t)

/-- What is known of a loop. -/
inductive Status (σ τ : Type*)
  | undefined
  | running (s : σ)
  | ended (t : τ)
  deriving DecidableEq, Repr

/-- At most `n` turns. -/
def run (turn : σ → Option (Turn σ τ)) : ℕ → σ → Status σ τ
  | 0, s => .running s
  | n + 1, s =>
      match turn s with
      | none => .undefined
      | some (.next s) => run turn n s
      | some (.stop t) => .ended t

/-- The loop ends, with `t`. -/
def Ends (turn : σ → Option (Turn σ τ)) (s : σ) (t : τ) : Prop :=
  ∃ n, run turn n s = .ended t

/-- The loop comes to a turn without a result. -/
def Fails (turn : σ → Option (Turn σ τ)) (s : σ) : Prop := ∃ n, run turn n s = .undefined

/-- Turns that go on lead from one state to another. -/
def Leads (turn : σ → Option (Turn σ τ)) : σ → σ → Prop :=
  Relation.ReflTransGen fun s s' => turn s = some (.next s')

variable {turn : σ → Option (Turn σ τ)} {n m : ℕ} {s s' : σ} {t t' : τ}

lemma run_next (h : turn s = some (.next s')) : run turn (n + 1) s = run turn n s' := by
  rw [run, h]

lemma run_stop (h : turn s = some (.stop t)) : run turn (n + 1) s = .ended t := by
  rw [run, h]

lemma run_undefined (h : turn s = none) : run turn (n + 1) s = .undefined := by
  rw [run, h]

/-- Once a loop is over, more turns change nothing. -/
lemma run_mono {o : Status σ τ} (hle : n ≤ m) (hover : ∀ s', o ≠ .running s')
    (h : run turn n s = o) : run turn m s = o := by
  induction n generalizing m s with
  | zero => exact absurd h.symm (hover s)
  | succ n ih =>
      obtain ⟨m, rfl⟩ : ∃ j, m = j + 1 := ⟨m - 1, by omega⟩
      cases hturn : turn s with
      | none => rwa [run_undefined hturn] at h ⊢
      | some step =>
          cases step with
          | next s' =>
              rw [run_next hturn] at h ⊢
              exact ih (by omega) h
          | stop t => rwa [run_stop hturn] at h ⊢

/-! ## The end of a loop -/

lemma ends_of_stop (h : turn s = some (.stop t)) : Ends turn s t := ⟨1, run_stop h⟩

lemma fails_of_none (h : turn s = none) : Fails turn s := ⟨1, run_undefined h⟩

/-- A turn that goes on may be taken off. -/
lemma exists_run_iff_of_next {o : Status σ τ} (hover : ∀ s', o ≠ .running s')
    (h : turn s = some (.next s')) : (∃ n, run turn n s = o) ↔ ∃ n, run turn n s' = o := by
  constructor
  · rintro ⟨n, hn⟩
    cases n with
    | zero => exact absurd hn.symm (hover s)
    | succ n => exact ⟨n, by rwa [run_next h] at hn⟩
  · rintro ⟨n, hn⟩
    exact ⟨n + 1, by rwa [run_next h]⟩

lemma ends_iff_of_next (h : turn s = some (.next s')) : Ends turn s t ↔ Ends turn s' t :=
  exists_run_iff_of_next nofun h

lemma fails_iff_of_next (h : turn s = some (.next s')) : Fails turn s ↔ Fails turn s' :=
  exists_run_iff_of_next nofun h

lemma Ends.not_fails (h : Ends turn s t) : ¬ Fails turn s := by
  rintro ⟨m, hm⟩
  obtain ⟨n, hn⟩ := h
  have hended := run_mono (Nat.le_max_left n m) nofun hn
  have hfailed := run_mono (Nat.le_max_right n m) nofun hm
  rw [hended] at hfailed
  cases hfailed

lemma Ends.unique (h : Ends turn s t) (h' : Ends turn s t') : t = t' := by
  obtain ⟨n, hn⟩ := h
  obtain ⟨m, hm⟩ := h'
  have hleft := run_mono (Nat.le_max_left n m) nofun hn
  have hright := run_mono (Nat.le_max_right n m) nofun hm
  rw [hleft] at hright
  exact Status.ended.inj hright

/-! ## Turns that go on -/

lemma Leads.refl (s : σ) : Leads turn s s := Relation.ReflTransGen.refl

lemma Leads.step {s'' : σ} (h : Leads turn s s') (hturn : turn s' = some (.next s'')) :
    Leads turn s s'' := Relation.ReflTransGen.tail h hturn

lemma Leads.ends_iff (h : Leads turn s s') : Ends turn s t ↔ Ends turn s' t := by
  induction h with
  | refl => rfl
  | tail _ hturn ih => rw [ih, ends_iff_of_next hturn]

lemma Leads.fails_iff (h : Leads turn s s') : Fails turn s ↔ Fails turn s' := by
  induction h with
  | refl => rfl
  | tail _ hturn ih => rw [ih, fails_iff_of_next hturn]

/-- A loop ends where a turn comes that ends it. -/
lemma ends_iff_leads : Ends turn s t ↔ ∃ s', Leads turn s s' ∧ turn s' = some (.stop t) := by
  constructor
  · rintro ⟨n, hn⟩
    induction n generalizing s with
    | zero => cases hn
    | succ n ih =>
        cases hturn : turn s with
        | none =>
            rw [run_undefined hturn] at hn
            cases hn
        | some step =>
            cases step with
            | next s₁ =>
                rw [run_next hturn] at hn
                obtain ⟨s', hs', hstop⟩ := ih hn
                exact ⟨s', .head hturn hs', hstop⟩
            | stop t₁ =>
                rw [run_stop hturn] at hn
                obtain rfl := Status.ended.inj hn
                exact ⟨s, .refl s, hturn⟩
  · rintro ⟨s', hs', hstop⟩
    exact hs'.ends_iff.mpr (ends_of_stop hstop)

/-! ## Whether a loop ends -/

/-- A loop ends when a measure goes down with each turn it takes. -/
theorem ends_of_measure (μ : σ → ℕ)
    (h : ∀ s', Leads turn s s' → (∃ t, turn s' = some (.stop t)) ∨
      ∃ s'', turn s' = some (.next s'') ∧ μ s'' < μ s') : ∃ t, Ends turn s t := by
  induction hμ : μ s using Nat.strongRecOn generalizing s with
  | ind n ih =>
      rcases h s (.refl s) with ⟨t, ht⟩ | ⟨s', hs', hlt⟩
      · exact ⟨t, ends_of_stop ht⟩
      · obtain ⟨t, ht⟩ := ih (μ s') (hμ ▸ hlt) (fun u hu => h u (.head hs' hu)) rfl
        exact ⟨t, (ends_iff_of_next hs').mpr ht⟩

/-- A loop does not end from where each turn stays in a trap. -/
theorem not_ends_of_trap {trap : σ → Prop} (hs : trap s)
    (h : ∀ s, trap s → ∃ s', turn s = some (.next s') ∧ trap s') : ¬ Ends turn s t := by
  rintro ⟨n, hn⟩
  induction n generalizing s with
  | zero => cases hn
  | succ n ih =>
      obtain ⟨s', hs', htrap⟩ := h s hs
      exact ih htrap (by rwa [run_next hs'] at hn)

/-- Where good states are the ones from which a turn makes progress, and from the others there is
no end, a loop ends exactly if it comes to good states only. -/
theorem ends_iff_forall_leads {good : σ → Prop} (μ : σ → ℕ)
    (hgood : ∀ s', Leads turn s s' → good s' → (∃ t, turn s' = some (.stop t)) ∨
      ∃ s'', turn s' = some (.next s'') ∧ μ s'' < μ s')
    (hbad : ∀ s' t, Leads turn s s' → ¬ good s' → ¬ Ends turn s' t) :
    (∃ t, Ends turn s t) ↔ ∀ s', Leads turn s s' → good s' := by
  constructor
  · rintro ⟨t, ht⟩ s' hs'
    by_contra hno
    exact hbad s' t hs' hno (hs'.ends_iff.mp ht)
  · intro h
    exact ends_of_measure μ fun s' hs' => hgood s' hs' (h s' hs')

/-- What holds at first and is kept by every turn holds wherever they lead. -/
lemma Leads.invariant {I : σ → Prop} (h : Leads turn s s') (hs : I s)
    (hturn : ∀ u u', I u → turn u = some (.next u') → I u') : I s' := by
  induction h with
  | refl => exact hs
  | tail _ hstep ih => exact hturn _ _ ih hstep

/-- A loop ends as the one does whose turns say more. -/
lemma Ends.map {σ' τ' : Type*} {turn' : σ' → Option (Turn σ' τ')} {f : σ → σ'} {g : τ → τ'}
    (h : Ends turn s t) (hturn : ∀ u r, turn u = some r → turn' (f u) = some (r.map f g)) :
    Ends turn' (f s) (g t) := by
  obtain ⟨s', hs', hstop⟩ := ends_iff_leads.mp h
  refine ends_iff_leads.mpr ⟨f s', ?_, hturn _ _ hstop⟩
  exact Relation.ReflTransGen.lift f (fun u _ hu => hturn u _ hu) _ _ hs'

end Turns
