import Mathlib.Logic.Relation
import Mathlib.Data.List.Basic

/-!
# Schedules, guarded reachability and the run rules

A concurrent program is given by a *partial step function* `step : σ → α → Option σ`: an
action names the party that moves and whatever its environment decides for it (the result of
a system call, the content of fresh memory), and `none` says that the action cannot be taken
in that state.  A schedule is a list of actions, so `exec` makes every finite run a closed
term that evaluates.

`Reach step ok s₀ t` is reachability by steps that satisfy `ok` in the state they are taken
from.  The guard is what separates the runs on which a protocol does its work from the runs
that take the branch where it fails; `Anything` is the guard that admits every run.

Three rules carry all the proofs over this layer.

* `Reach.invariant`: a predicate that holds at the start and survives every guarded step
  holds in every state that guarded runs reach.  `Reach.invariant_along` lets the step use
  invariants shown before.
* `exec_safe_iff_guarded`: when the guard is also *necessary*, in the sense that one step
  outside it leads to an unsafe state, safety of a schedule and its being guarded are the
  same thing.
* `rank_of_exec`: where each step that counts lowers a rank, and no step raises it, a schedule
  has no more such steps than the rank it begins with.  `count_of_exec` counts them up.

Nothing here mentions a particular program.
-/

namespace Interleaving

variable {σ α : Type*}

/-! ## Schedules -/

/-- Executes a schedule from `s`; `none` when one of its actions cannot be taken. -/
def exec (step : σ → α → Option σ) (s : σ) : List α → Option σ
  | [] => some s
  | a :: as => (step s a).bind fun t => exec step t as

@[simp] lemma exec_nil (step : σ → α → Option σ) (s : σ) : exec step s [] = some s := rfl

@[simp] lemma exec_cons (step : σ → α → Option σ) (s : σ) (a : α) (as : List α) :
    exec step s (a :: as) = (step s a).bind fun t => exec step t as := rfl

/-- The state a schedule is in after some of its actions. -/
def Visits (step : σ → α → Option σ) (s : σ) (as : List α) (u : σ) : Prop :=
  ∃ bs, bs <+: as ∧ exec step s bs = some u

/-- The schedule takes action `a` in state `u`. -/
def Takes (step : σ → α → Option σ) (s : σ) (as : List α) (u : σ) (a : α) : Prop :=
  ∃ bs, bs ++ [a] <+: as ∧ exec step s bs = some u

lemma Takes.mem {step : σ → α → Option σ} {s u : σ} {a : α} {as : List α}
    (h : Takes step s as u a) : a ∈ as := by
  obtain ⟨bs, hpre, -⟩ := h
  exact hpre.subset (by simp)

lemma visits_cons {step : σ → α → Option σ} {s t u : σ} {a : α} {as : List α}
    (h : step s a = some t) :
    Visits step s (a :: as) u ↔ u = s ∨ Visits step t as u := by
  constructor
  · rintro ⟨bs, hpre, hexec⟩
    cases bs with
    | nil => exact Or.inl (by simpa using hexec.symm)
    | cons b bs =>
        obtain ⟨rfl, hpre'⟩ := List.cons_prefix_cons.mp hpre
        exact Or.inr ⟨bs, hpre', by simpa [h] using hexec⟩
  · rintro (rfl | ⟨bs, hpre, hexec⟩)
    · exact ⟨[], List.nil_prefix, rfl⟩
    · exact ⟨a :: bs, List.cons_prefix_cons.mpr ⟨rfl, hpre⟩, by simpa [h] using hexec⟩

lemma takes_cons {step : σ → α → Option σ} {s t u : σ} {a b : α} {as : List α}
    (h : step s a = some t) :
    Takes step s (a :: as) u b ↔ (u = s ∧ b = a) ∨ Takes step t as u b := by
  constructor
  · rintro ⟨bs, hpre, hexec⟩
    cases bs with
    | nil =>
        obtain ⟨rfl, -⟩ := List.cons_prefix_cons.mp hpre
        exact Or.inl ⟨by simpa using hexec.symm, rfl⟩
    | cons c bs =>
        obtain ⟨rfl, hpre'⟩ := List.cons_prefix_cons.mp hpre
        exact Or.inr ⟨bs, hpre', by simpa [h] using hexec⟩
  · rintro (⟨rfl, rfl⟩ | ⟨bs, hpre, hexec⟩)
    · exact ⟨[], by simp, rfl⟩
    · exact ⟨a :: bs, List.cons_prefix_cons.mpr ⟨rfl, hpre⟩, by simpa [h] using hexec⟩

/-! ## Guarded reachability -/

/-- The guard that admits every step. -/
def Anything : σ → α → Prop := fun _ _ => True

/-- `t` is reached from `s₀` by steps that each satisfy `ok` where they are taken. -/
def Reach (step : σ → α → Option σ) (ok : σ → α → Prop) (s₀ t : σ) : Prop :=
  Relation.ReflTransGen (fun s t => ∃ a, ok s a ∧ step s a = some t) s₀ t

variable {step : σ → α → Option σ} {ok : σ → α → Prop} {s₀ s t : σ}

lemma Reach.refl (step : σ → α → Option σ) (ok : σ → α → Prop) (s : σ) : Reach step ok s s :=
  Relation.ReflTransGen.refl

lemma Reach.tail {a : α} (h : Reach step ok s₀ s) (hok : ok s a) (hs : step s a = some t) :
    Reach step ok s₀ t :=
  Relation.ReflTransGen.tail h ⟨a, hok, hs⟩

/-- Runs under a guard are runs under any weaker one. -/
lemma Reach.weaken {ok' : σ → α → Prop} (h : Reach step ok s₀ t)
    (hweak : ∀ s a, ok s a → ok' s a) : Reach step ok' s₀ t := by
  induction h with
  | refl => exact Reach.refl _ _ _
  | tail _ hlast ih =>
      obtain ⟨a, hok, hs⟩ := hlast
      exact ih.tail (hweak _ a hok) hs

/-- The same where the weaker guard is needed only of the states such runs reach. -/
lemma Reach.weaken_along {ok' : σ → α → Prop} (h : Reach step ok s₀ t)
    (hweak : ∀ s a, Reach step ok s₀ s → ok s a → ok' s a) : Reach step ok' s₀ t := by
  induction h with
  | refl => exact Reach.refl _ _ _
  | tail hbefore hlast ih =>
      obtain ⟨a, hok, hs⟩ := hlast
      exact ih.tail (hweak _ a hbefore hok) hs

/-- **Run rule.**  What holds at the start and survives each guarded step holds in every
state that guarded runs reach. -/
theorem Reach.invariant {I : σ → Prop} (h : Reach step ok s₀ t) (h₀ : I s₀)
    (hstep : ∀ s a t, I s → ok s a → step s a = some t → I t) : I t := by
  induction h with
  | refl => exact h₀
  | tail _ hlast ih =>
      obtain ⟨a, hok, hs⟩ := hlast
      exact hstep _ a _ ih hok hs

/-- The same where the step may use what is already known of the states of such runs. -/
theorem Reach.invariant_along {I : σ → Prop} (h : Reach step ok s₀ t) (h₀ : I s₀)
    (hstep : ∀ s a t, Reach step ok s₀ s → I s → ok s a → step s a = some t → I t) : I t := by
  have hboth : Reach step ok s₀ t ∧ I t :=
    h.invariant (I := fun u => Reach step ok s₀ u ∧ I u) ⟨Reach.refl _ _ _, h₀⟩
      fun s a t hI hok hs => ⟨hI.1.tail hok hs, hstep s a t hI.1 hI.2 hok hs⟩
  exact hboth.2

/-- Executing a schedule stays within what is reachable. -/
lemma Reach.of_exec {as : List α} (h : exec step s as = some t) :
    Reach step Anything s t := by
  induction as generalizing s with
  | nil =>
      obtain rfl : s = t := by simpa using h
      exact Reach.refl _ _ _
  | cons a as ih =>
      obtain ⟨u, hu, hrest⟩ := Option.bind_eq_some_iff.mp h
      exact Relation.ReflTransGen.head ⟨a, trivial, hu⟩ (ih hrest)

/-- The same for a guard, which each step of the schedule has to meet. -/
lemma Reach.of_exec_guarded {as : List α} (h : exec step s as = some t)
    (hok : ∀ u a, Takes step s as u a → ok u a) : Reach step ok s t := by
  induction as generalizing s with
  | nil =>
      obtain rfl : s = t := by simpa using h
      exact Reach.refl _ _ _
  | cons a as ih =>
      obtain ⟨u, hu, hrest⟩ := Option.bind_eq_some_iff.mp h
      have hhead : ok s a := hok s a ((takes_cons hu).mpr (Or.inl ⟨rfl, rfl⟩))
      have htail : ∀ v b, Takes step u as v b → ok v b := fun v b hv =>
        hok v b ((takes_cons hu).mpr (Or.inr hv))
      exact Relation.ReflTransGen.head ⟨a, hhead, hu⟩ (ih hrest htail)

/-- The schedule can be executed and each of its steps meets the guard. -/
def Guarded (step : σ → α → Option σ) (ok : σ → α → Prop) [∀ s a, Decidable (ok s a)] (s : σ) :
    List α → Bool
  | [] => true
  | a :: as => decide (ok s a) && (step s a).any fun t => Guarded step ok t as

/-- A guarded run by evaluation. -/
lemma Reach.of_guarded [∀ s a, Decidable (ok s a)] {as : List α}
    (h : Guarded step ok s as = true) : ∃ t, exec step s as = some t ∧ Reach step ok s t := by
  induction as generalizing s with
  | nil => exact ⟨s, rfl, Reach.refl _ _ _⟩
  | cons a as ih =>
      obtain ⟨hok, hrest⟩ := Bool.and_eq_true_iff.mp h
      obtain ⟨u, hu, hrest⟩ := (Option.any_eq_true _ _).mp hrest
      obtain ⟨t, ht, hreach⟩ := ih hrest
      refine ⟨t, by rw [exec_cons, hu, Option.bind_some, ht], ?_⟩
      exact Relation.ReflTransGen.head ⟨a, of_decide_eq_true hok, hu⟩ hreach

/-- **Exactness rule.**  Suppose `I` is inductive along guarded steps and entails safety,
and a step outside the guard taken from an `I`-state lands in an unsafe state.  Then a
schedule is safe in every state it visits exactly when each of its steps meets the guard. -/
theorem exec_safe_iff_guarded {I Safe : σ → Prop} (hsafe : ∀ s, I s → Safe s)
    (hstep : ∀ s a t, I s → ok s a → step s a = some t → I t)
    (hbad : ∀ s a t, I s → ¬ ok s a → step s a = some t → ¬ Safe t)
    (h₀ : I s) {as : List α} (h : exec step s as = some t) :
    (∀ u, Visits step s as u → Safe u) ↔ ∀ u a, Takes step s as u a → ok u a := by
  induction as generalizing s with
  | nil =>
      constructor
      · rintro - u a ⟨bs, hpre, -⟩
        simp at hpre
      · rintro - u ⟨bs, hpre, hexec⟩
        obtain rfl : bs = [] := List.prefix_nil.mp hpre
        obtain rfl : s = u := by simpa using hexec
        exact hsafe _ h₀
  | cons a as ih =>
      obtain ⟨u, hu, hrest⟩ := Option.bind_eq_some_iff.mp h
      by_cases hok : ok s a
      · have ih' := ih (hstep s a u h₀ hok hu) hrest
        constructor
        · intro hall v b hv
          rcases (takes_cons hu).mp hv with ⟨rfl, rfl⟩ | hv
          · exact hok
          · exact ih'.mp (fun w hw => hall w ((visits_cons hu).mpr (Or.inr hw))) v b hv
        · intro hall v hv
          rcases (visits_cons hu).mp hv with rfl | hv
          · exact hsafe _ h₀
          · exact ih'.mpr
              (fun w b hw => hall w b ((takes_cons hu).mpr (Or.inr hw))) v hv
      · have hvisit : Visits step s (a :: as) u :=
          (visits_cons hu).mpr (Or.inr ⟨[], List.nil_prefix, rfl⟩)
        exact iff_of_false (fun hall => hbad s a u h₀ hok hu (hall u hvisit))
          (fun hall => hok (hall s a ((takes_cons hu).mpr (Or.inl ⟨rfl, rfl⟩))))

/-- **Rank rule.**  Along a schedule whose steps keep `I`, raise the rank nowhere and lower it
where they count, the steps that count are paid from the rank at the start. -/
theorem rank_of_exec {I : σ → Prop} {rank : σ → ℕ} {counts : α → Bool}
    (hstep : ∀ s a t, I s → step s a = some t → I t ∧ rank t + (counts a).toNat ≤ rank s)
    (h₀ : I s) {as : List α} (h : exec step s as = some t) :
    I t ∧ rank t + as.countP counts ≤ rank s := by
  induction as generalizing s with
  | nil =>
      obtain rfl : s = t := by simpa using h
      exact ⟨h₀, by simp⟩
  | cons a as ih =>
      obtain ⟨u, hu, hrest⟩ := Option.bind_eq_some_iff.mp h
      obtain ⟨hIu, hfirst⟩ := hstep s a u h₀ hu
      obtain ⟨hIt, hlater⟩ := ih hIu hrest
      refine ⟨hIt, ?_⟩
      calc
        rank t + (a :: as).countP counts = rank t + as.countP counts + (counts a).toNat := by
          rw [List.countP_cons, ← Nat.add_assoc]
          cases counts a <;> rfl
        _ ≤ rank u + (counts a).toNat := Nat.add_le_add_right hlater _
        _ ≤ rank s := hfirst

/-- The same where every step counts. -/
theorem rank_of_exec_all {I : σ → Prop} {rank : σ → ℕ}
    (hstep : ∀ s a t, I s → step s a = some t → I t ∧ rank t < rank s)
    (h₀ : I s) {as : List α} (h : exec step s as = some t) :
    I t ∧ rank t + as.length ≤ rank s := by
  rw [← List.countP_true]
  exact rank_of_exec hstep h₀ h

/-- **Counting rule.**  What each step raises by one where it counts, and leaves alone where it does
not, is raised by the number of the steps that count. -/
theorem count_of_exec {I : σ → Prop} {f : σ → ℕ} {counts : α → Bool}
    (hstep : ∀ s a t, I s → step s a = some t → I t ∧ f t = f s + (counts a).toNat)
    (h₀ : I s) {as : List α} (h : exec step s as = some t) :
    I t ∧ f t = f s + as.countP counts := by
  induction as generalizing s with
  | nil =>
      obtain rfl : s = t := by simpa using h
      exact ⟨h₀, rfl⟩
  | cons a as ih =>
      obtain ⟨u, hu, hrest⟩ := Option.bind_eq_some_iff.mp h
      obtain ⟨hIu, hfirst⟩ := hstep s a u h₀ hu
      obtain ⟨hIt, hlater⟩ := ih hIu hrest
      refine ⟨hIt, ?_⟩
      calc
        f t = f s + ((counts a).toNat + as.countP counts) := by
          rw [hlater, hfirst, Nat.add_assoc]
        _ = f s + (a :: as).countP counts := by
          rw [List.countP_cons, Nat.add_comm (counts a).toNat]
          cases counts a <;> rfl

end Interleaving
