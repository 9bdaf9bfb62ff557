import EltSummer.Framework.Simulation
import Mathlib.Tactic.Common

/-!
# Ten signals to another process

`signals_15July`: `sig_proccess_one` prints its id, blocks SIGUSR1 and counts ten of them with
`sigwait`; `sig_proccess_two`, which is given the id and the number 10, sends ten, with a pause
of a second behind each.

A signal that is not blocked yet ends the process, and one that finds another pending is merged
with it.  The pause is no synchronisation, so either can happen; and nobody sends again.  The first
process comes to its end exactly in the runs in which neither does (`all_counted_iff`).

The machine takes one statement of a process per step, with the set-up of the signal set in the step
that blocks it.  The id is known from the first line on, or from elsewhere, so the second process
may begin at any time.
-/

namespace EltSummer
namespace Signals

open Interleaving

/-! ## The machine -/

/-- The statement the first process executes next. -/
inductive OnePc
  /-- `printf("%d\n", getpid())`. -/
  | pid
  /-- From `sigemptyset` to `sigprocmask(SIG_BLOCK, &set, NULL)`. -/
  | block
  /-- `while (count < 10)`. -/
  | head
  /-- `sigwait(&set, &sig)` and the line that is printed. -/
  | wait
  /-- Behind `exit(EXIT_SUCCESS)`. -/
  | exited
  /-- Ended by the signal. -/
  | killed
  deriving DecidableEq

structure State where
  one : OnePc
  /-- SIGUSR1 is pending for the first process. -/
  pending : Bool
  count : ℕ
  /-- The numbers in the lines of the first process. -/
  printed : List ℕ
  /-- `i` of the second process. -/
  sent : ℕ

def start : State := ⟨.pid, false, 0, [], 0⟩

inductive Action
  | one
  | two
  deriving DecidableEq

/-- `kill(pid, SIGUSR1)`. -/
def State.kill (s : State) : State :=
  match s.one with
  | .pid | .block => { s with one := .killed }
  | .head | .wait => { s with pending := true }
  | .exited | .killed => s

def oneStep (s : State) : Option State :=
  match s.one with
  | .pid => some { s with one := .block }
  | .block => some { s with one := .head }
  | .head => some { s with one := if s.count < 10 then .wait else .exited }
  | .wait =>
      if s.pending then
        some { s with
          one := .head, pending := false, count := s.count + 1,
          printed := s.printed ++ [s.count + 1] }
      else none
  | .exited | .killed => none

def step (s : State) : Action → Option State
  | .one => oneStep s
  | .two => if s.sent < 10 then some { s.kill with sent := s.sent + 1 } else none

/-! ## What is lost -/

/-- The guard: a signal comes when it is blocked, and none is pending. -/
def Counted (s : State) : Action → Prop
  | .one => True
  | .two => (s.one = .head ∨ s.one = .wait) ∧ s.pending = false

/-- The signals sent so far have been counted, or the last of them is pending. -/
def Whole (s : State) : Prop := s.count + s.pending.toNat = s.sent

structure Sound (s : State) : Prop where
  le : s.count + s.pending.toNat ≤ s.sent
  sent : s.sent ≤ 10
  early : s.one = .pid ∨ s.one = .block → s.count = 0 ∧ s.pending = false
  lines : s.printed = List.range' 1 s.count
  waits : s.one = .wait → s.count < 10
  exited : s.one = .exited → s.count = 10
  killed : s.one = .killed → ¬ Whole s

lemma sound_start : Sound start where
  le := Nat.zero_le _
  sent := Nat.zero_le _
  early _ := ⟨rfl, rfl⟩
  lines := rfl
  waits h := by cases h
  exited h := by cases h
  killed h := by cases h

variable {s s' : State}

lemma Sound.one (h : Sound s) (hstep : oneStep s = some s') :
    Sound s' ∧ (Whole s' ↔ Whole s) := by
  cases hpc : s.one with
  | pid =>
      simp only [oneStep, hpc, Option.some.injEq] at hstep
      subst hstep
      exact ⟨⟨h.le, h.sent, fun _ => h.early (Or.inl hpc), h.lines, by simp, by simp, by simp⟩,
        Iff.rfl⟩
  | block =>
      simp only [oneStep, hpc, Option.some.injEq] at hstep
      subst hstep
      exact ⟨⟨h.le, h.sent, by simp, h.lines, by simp, by simp, by simp⟩, Iff.rfl⟩
  | head =>
      simp only [oneStep, hpc, Option.some.injEq] at hstep
      subst hstep
      have hle := h.le
      have hsent := h.sent
      refine ⟨⟨h.le, h.sent, ?_, h.lines, ?_, ?_, ?_⟩, Iff.rfl⟩
      · intro hone
        dsimp only at hone
        split at hone <;> simp at hone
      · intro hone
        dsimp only at hone ⊢
        split at hone
        · assumption
        · cases hone
      · intro hone
        dsimp only at hone ⊢
        split at hone
        · cases hone
        · omega
      · intro hone
        dsimp only at hone
        split at hone <;> cases hone
  | wait =>
      simp only [oneStep, hpc, Option.ite_none_right_eq_some, Option.some.injEq] at hstep
      obtain ⟨hpending, rfl⟩ := hstep
      have hle := h.le
      rw [hpending] at hle
      refine ⟨⟨by simpa using hle, h.sent, by simp, ?_, by simp, by simp, by simp⟩, ?_⟩
      · dsimp only
        rw [h.lines, List.range'_1_concat, Nat.add_comm]
      · simp [Whole, hpending]
  | exited => simp [oneStep, hpc] at hstep
  | killed => simp [oneStep, hpc] at hstep

/-- Whoever is not counting loses what is sent. -/
lemma Sound.lost (h : Sound s) {one : OnePc} (hsent : s.sent < 10)
    (hone : one = .killed) (hout : ¬ (s.one = .head ∨ s.one = .wait)) :
    Sound { s with one := one, sent := s.sent + 1 } ∧
      (Whole { s with one := one, sent := s.sent + 1 } ↔ Whole s ∧ Counted s .two) := by
  subst hone
  have hle := h.le
  have hnot : ¬ Whole { s with one := OnePc.killed, sent := s.sent + 1 } := by
    unfold Whole
    dsimp only
    omega
  refine ⟨⟨?_, hsent, by simp, h.lines, by simp, by simp, fun _ => hnot⟩, ?_⟩
  · dsimp only
    omega
  · exact iff_of_false hnot fun hcounted => hout hcounted.2.1

lemma Sound.two (h : Sound s) (hsent : s.sent < 10) :
    Sound { s.kill with sent := s.sent + 1 } ∧
      (Whole { s.kill with sent := s.sent + 1 } ↔ Whole s ∧ Counted s .two) := by
  have hle := h.le
  have hwaits := h.waits
  have hcounting (hin : s.one = .head ∨ s.one = .wait) :
      Sound { s with pending := true, sent := s.sent + 1 } ∧
        (Whole { s with pending := true, sent := s.sent + 1 } ↔ Whole s ∧ Counted s .two) := by
    have hbefore : s.one ≠ .pid ∧ s.one ≠ .block ∧ s.one ≠ .exited ∧ s.one ≠ .killed := by
      rcases hin with hin | hin <;> simp [hin]
    refine ⟨⟨?_, hsent, by simp [hbefore], h.lines, hwaits, by simp [hbefore],
      by simp [hbefore]⟩, ?_⟩
    · have := Bool.toNat_le s.pending
      simp only [Bool.toNat_true]
      omega
    · unfold Whole Counted
      cases hpending : s.pending with
      | false => simp [hin]
      | true =>
          rw [hpending, Bool.toNat_true] at hle
          simp only [Bool.toNat_true, Bool.true_eq_false, and_false, iff_false]
          omega
  unfold State.kill
  cases hpc : s.one with
  | pid => exact h.lost hsent rfl (by simp [hpc])
  | block => exact h.lost hsent rfl (by simp [hpc])
  | head => simpa only [hpc] using hcounting (Or.inl hpc)
  | wait => simpa only [hpc] using hcounting (Or.inr hpc)
  | exited =>
      have := h.exited hpc
      omega
  | killed => simpa only [hpc] using h.lost hsent hpc (by simp [hpc])

lemma Sound.step {a : Action} (h : Sound s) (hstep : Signals.step s a = some s') :
    Sound s' ∧ (Whole s' ↔ Whole s ∧ Counted s a) := by
  cases a with
  | one =>
      obtain ⟨hs', hwhole⟩ := h.one hstep
      exact ⟨hs', hwhole.trans (and_iff_left (show Counted s .one from trivial)).symm⟩
  | two =>
      obtain ⟨hsent, hstep⟩ := Option.ite_none_right_eq_some.mp hstep
      obtain rfl := Option.some.inj hstep
      exact h.two hsent

/-- What is lost stays lost. -/
lemma whole_of_exec {as : List Action} {t : State} (h : Sound s) (hexec : exec step s as = some t)
    (ht : Whole t) : Whole s := by
  by_contra hs
  have hboth : Sound t ∧ ¬ Whole t := by
    refine exec_invariant (I := fun u => Sound u ∧ ¬ Whole u) ⟨h, hs⟩ hexec ?_
    rintro u a v - ⟨hu, hlost⟩ hstep
    obtain ⟨hv, hwhole⟩ := hu.step hstep
    exact ⟨hv, fun hall => hlost (hwhole.mp hall).1⟩
  exact hboth.2 ht

/-! ## Runs -/

lemma sound_of_reach (h : Reach step Anything start s) : Sound s :=
  h.invariant sound_start fun _ _ _ hu _ hstep => (hu.step hstep).1

/-- Where a run can go on no more, all ten signals have been sent. -/
lemma whole_iff_exited (h : Sound s) (hend : ∀ a, step s a = none) :
    (s.one = .exited ∨ s.one = .killed ∨ s.one = .wait ∧ s.count < 10) ∧
      (Whole s ↔ s.one = .exited) := by
  have hsent : s.sent = 10 := by
    have hle := h.sent
    by_contra hne
    have htwo := hend .two
    rw [step, if_pos (by omega)] at htwo
    cases htwo
  have hone := hend .one
  rw [step] at hone
  cases hpc : s.one with
  | pid => simp [oneStep, hpc] at hone
  | block => simp [oneStep, hpc] at hone
  | head => simp [oneStep, hpc] at hone
  | wait =>
      have hcount := h.waits hpc
      have hpending : s.pending = false := by simpa [oneStep, hpc] using hone
      refine ⟨Or.inr (Or.inr ⟨rfl, hcount⟩), iff_of_false ?_ (by simp)⟩
      rw [Whole, hpending, hsent, Bool.toNat_false]
      omega
  | exited =>
      have hcount := h.exited hpc
      have hle := h.le
      refine ⟨Or.inl rfl, iff_of_true ?_ rfl⟩
      rw [Whole]
      omega
  | killed => exact ⟨Or.inr (Or.inl rfl), iff_of_false (h.killed hpc) (by simp)⟩

/-- **When the first process comes to its end.**  In a run that can go on no more it has exited,
with its ten lines, exactly if each signal came when it was blocked and none was pending; otherwise
it was ended by a signal or waits for ever. -/
theorem all_counted_iff {acts : List Action} {t : State} (hexec : exec step start acts = some t)
    (hend : ∀ a, step t a = none) :
    (t.one = .exited ↔ ∀ u a, Takes step start acts u a → Counted u a) ∧
      (t.one = .exited → t.printed = List.range' 1 10) ∧
      (t.one = .exited ∨ t.one = .killed ∨ t.one = .wait ∧ t.count < 10) := by
  have hsound := sound_of_reach (Reach.of_exec hexec)
  obtain ⟨hstops, hwhole⟩ := whole_iff_exited hsound hend
  refine ⟨?_, fun hpc => ?_, hstops⟩
  · have hsafe : (∀ u, Visits step start acts u → Whole u) ↔
        ∀ u a, Takes step start acts u a → Counted u a := by
      apply exec_safe_iff_guarded (I := fun u => Sound u ∧ Whole u) (fun _ hu => hu.2) ?_ ?_
        ⟨sound_start, rfl⟩ hexec
      · rintro u a v ⟨hu, hall⟩ hok hstep
        obtain ⟨hv, hiff⟩ := hu.step hstep
        exact ⟨hv, hiff.mpr ⟨hall, hok⟩⟩
      · rintro u a v ⟨hu, -⟩ hbad hstep hall
        exact hbad ((hu.step hstep).2.mp hall).2
    rw [← hwhole, ← hsafe]
    constructor
    · intro ht u hu
      obtain ⟨cs, hcs⟩ := hu.rest hexec
      obtain ⟨bs, -, hbs⟩ := hu
      exact whole_of_exec (sound_of_reach (Reach.of_exec hbs)) hcs ht
    · exact fun hall => hall t ⟨acts, List.prefix_rfl, hexec⟩
  · rw [hsound.lines, hsound.exited hpc]

/-- The second process sends its signals before the first has counted one of them. -/
theorem all_counted_iff_burst : ∃ t, exec step start
      (List.replicate 3 .one ++ List.replicate 10 .two ++ List.replicate 2 .one) = some t ∧
    t.one ≠ .exited ∧ ¬ ∀ u a, Takes step start
      (List.replicate 3 .one ++ List.replicate 10 .two ++ List.replicate 2 .one) u a →
        Counted u a := by
  obtain ⟨t, ht, hwaits, hend⟩ : ∃ t, exec step start
      (List.replicate 3 .one ++ List.replicate 10 .two ++ List.replicate 2 .one) = some t ∧
      t.one = .wait ∧ (step t .one = none ∧ step t .two = none) := ⟨_, rfl, rfl, rfl, rfl⟩
  have hstops : ∀ a, step t a = none := by
    intro a
    cases a with
    | one => exact hend.1
    | two => exact hend.2
  have hnot : t.one ≠ .exited := by
    rw [hwaits]
    decide
  exact ⟨t, ht, hnot, fun hall => hnot ((all_counted_iff ht hstops).1.mpr hall)⟩

end Signals
end EltSummer
