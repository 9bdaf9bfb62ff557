import EltSummer.Framework.Interleaving
import Mathlib.Data.Option.Basic

/-!
# Two machines in step

A machine and an abstract one with the same actions.  Related states take an action both, to
related states, or neither does (`InStep`), as long as the action meets a guard that speaks of
the abstract state only.  Then the same holds of whole schedules (`InStep.exec`), so that what
is shown of the runs of the abstract machine holds of the runs of the other one.
-/

namespace Interleaving

variable {σ τ α : Type*} {step : σ → α → Option σ} {step' : τ → α → Option τ}
  {ok : τ → α → Prop} {R : σ → τ → Prop}

/-- Related states take an action both, to related states, or neither of them takes it. -/
def InStep (step : σ → α → Option σ) (step' : τ → α → Option τ) (ok : τ → α → Prop)
    (R : σ → τ → Prop) : Prop :=
  ∀ s t a, R s t → ok t a → Option.Rel R (step s a) (step' t a)

lemma rel_bind {o : Option σ} {o' : Option τ} {f : σ → Option σ} {g : τ → Option τ}
    (h : Option.Rel R o o') (hf : ∀ s t, o' = some t → R s t → Option.Rel R (f s) (g t)) :
    Option.Rel R (o.bind f) (o'.bind g) := by
  cases h with
  | some hrel => exact hf _ _ rfl hrel
  | none => exact .none

lemma rel_mono {R' : σ → τ → Prop} {o : Option σ} {o' : Option τ} (h : Option.Rel R o o')
    (hmono : ∀ s t, R s t → R' s t) : Option.Rel R' o o' := by
  cases h with
  | some hrel => exact .some (hmono _ _ hrel)
  | none => exact .none

/-- **Whole schedules.**  If each action meets the guard where the abstract machine takes it, the
schedule can be executed by both machines or by neither, and leads to related states. -/
theorem InStep.exec (h : InStep step step' ok R) {as : List α} {s : σ} {t : τ} (hst : R s t)
    (hok : ∀ u a, Takes step' t as u a → ok u a) :
    Option.Rel R (exec step s as) (exec step' t as) := by
  induction as generalizing s t with
  | nil => exact .some hst
  | cons a as ih =>
      have hhead : Takes step' t (a :: as) t a := ⟨[], by simp, rfl⟩
      rw [exec_cons, exec_cons]
      apply rel_bind (h s t a hst (hok t a hhead))
      intro s' t' ht hrel
      exact ih hrel fun u b hlater => hok u b ((takes_cons ht).mpr (Or.inr hlater))

/-- The guard of a schedule, by evaluation. -/
lemma ok_of_guarded [∀ t a, Decidable (ok t a)] {as : List α} {t u : τ} {a : α}
    (h : Guarded step' ok t as = true) (htakes : Takes step' t as u a) : ok u a := by
  induction as generalizing t with
  | nil =>
      obtain ⟨bs, hpre, -⟩ := htakes
      exact absurd (List.prefix_nil.mp hpre) (by simp)
  | cons b as ih =>
      obtain ⟨hok, hrest⟩ := Bool.and_eq_true_iff.mp h
      obtain ⟨t', ht, hrest⟩ := (Option.any_eq_true _ _).mp hrest
      rcases (takes_cons ht).mp htakes with ⟨rfl, rfl⟩ | hlater
      · exact of_decide_eq_true hok
      · exact ih hrest hlater

/-- A machine that takes every action. -/
lemma exec_some (f : σ → α → σ) (s : σ) (as : List α) :
    exec (fun s a => some (f s a)) s as = some (as.foldl f s) := by
  induction as generalizing s with
  | nil => rfl
  | cons a as ih => exact ih (f s a)

/-! ## A schedule in two parts -/

lemma exec_append (step : σ → α → Option σ) (s : σ) (as bs : List α) :
    exec step s (as ++ bs) = (exec step s as).bind fun t => exec step t bs := by
  induction as generalizing s with
  | nil => rfl
  | cons a as ih =>
      rw [List.cons_append, exec_cons, exec_cons, Option.bind_assoc]
      congr 1
      exact funext fun t => ih t

/-- What the second part takes, the whole takes. -/
lemma Takes.append {as bs : List α} {s t u : σ} {a : α} (hexec : exec step s as = some t)
    (h : Takes step t bs u a) : Takes step s (as ++ bs) u a := by
  obtain ⟨cs, hpre, hcs⟩ := h
  refine ⟨as ++ cs, ?_, by rw [exec_append, hexec, Option.bind_some, hcs]⟩
  rw [List.append_assoc]
  exact (List.prefix_append_right_inj as).mpr hpre

/-- From where a schedule comes by, its rest leads to its end. -/
lemma Visits.rest {as : List α} {s t u : σ} (hexec : exec step s as = some t)
    (h : Visits step s as u) : ∃ cs, exec step u cs = some t := by
  obtain ⟨bs, ⟨cs, rfl⟩, hbs⟩ := h
  exact ⟨cs, by rw [exec_append, hbs, Option.bind_some] at hexec; exact hexec⟩

/-- **Run rule for the rest of a schedule.**  What each action of it keeps holds at the end. -/
theorem exec_invariant {I : σ → Prop} {as : List α} {s t : σ} (h₀ : I s)
    (hexec : exec step s as = some t)
    (hstep : ∀ u a u', Takes step s as u a → I u → step u a = some u' → I u') : I t := by
  induction as generalizing s with
  | nil =>
      obtain rfl := Option.some.inj hexec
      exact h₀
  | cons a as ih =>
      obtain ⟨s', hs', hrest⟩ := Option.bind_eq_some_iff.mp hexec
      have hnext := hstep s a s' ((takes_cons hs').mpr (Or.inl ⟨rfl, rfl⟩)) h₀ hs'
      exact ih hnext hrest fun u b u' hlater =>
        hstep u b u' ((takes_cons hs').mpr (Or.inr hlater))

/-- Where the machine comes, the abstract one comes too. -/
lemma InStep.exists_of_exec (h : InStep step step' ok R) {as : List α} {s s' : σ} {t : τ}
    (hst : R s t) (hok : ∀ u a, Takes step' t as u a → ok u a)
    (hexec : Interleaving.exec step s as = some s') :
    ∃ t', Interleaving.exec step' t as = some t' ∧ R s' t' := by
  have hrel := h.exec hst hok
  rw [hexec] at hrel
  cases ht : Interleaving.exec step' t as with
  | none =>
      rw [ht] at hrel
      cases hrel
  | some t' =>
      rw [ht] at hrel
      cases hrel with
      | some hst' => exact ⟨t', rfl, hst'⟩

end Interleaving
