import EltSummer.Framework.Processes

/-!
# The tree of processes

`fork_exec_cominterpret_8July/fork_tree.c` makes six processes, (1) → (2), (3), (2) → (4) and
(3) → (5), (6), each of which prints its number, its parent and itself.  `fork_1.c` makes two,
and so does `start_comm` of the command interpreter, whose child becomes another program.

Without failures the tree is the one that is drawn at the head of the file, in any order of the
steps (`forkTree_prints`).  With failures, (1) and (3) exit when their second `fork` fails, and
leave the first child behind; every other failure is safe (`forkTree_noOrphans_iff`).

A line goes out when it is printed, as it does on a terminal.  The messages of failures and the
exit statuses, which nobody reads, are left out.
-/

namespace EltSummer
namespace ForkExec

open Interleaving Processes

/-- `fork_tree.c`.  The variables are named by the process they are for: `ret_2` is 2. -/
def forkTree : Code ℕ :=
  .say 1 <|
  .fork 2
    (.say 2 <|
      .fork 4
        (.say 4 .exit)
        (.waitpid 4 .exit)
        .exit)
    (.fork 3
      (.say 3 <|
        .fork 5
          (.say 5 .exit)
          (.fork 6
            (.say 6 .exit)
            (.waitpid 5 <| .waitpid 6 .exit)
            .exit)
          .exit)
      (.waitpid 2 <| .waitpid 3 .exit)
      .exit)
    .exit

/-- `fork_1.c`.  The parent prints before it waits. -/
def fork1 : Code ℕ :=
  .fork 0
    (.say 1 .exit)
    (.say 0 <| .waitpid 0 .exit)
    .exit

/-- `start_comm`, called `n` times.  A child that `execvp` does not make another program exits
too, and the interpreter exits where a `fork` fails. -/
def startComms : ℕ → Code ℕ
  | 0 => .exit
  | n + 1 => .fork n (.say n .exit) (.waitpid n (startComms n)) .exit

lemma tidy_startComms (mayFail : ℕ → Bool) (n : ℕ) : tidy mayFail [] (startComms n) = true := by
  induction n with
  | zero => rfl
  | succ n ih => simp [startComms, tidy, ih]

/-- No process of `fork_1.c` and of the interpreter is left by its parent, whatever fails. -/
theorem noOrphans_of_fork1_or_startComms {code : Code ℕ}
    (hcode : code = fork1 ∨ ∃ n, code = startComms n) {s : System ℕ}
    (h : Reach step Anything (boot code) s) : NoOrphans s := by
  have hall : Reach step (Fails fun _ => true) (boot code) s :=
    h.weaken fun _ _ _ _ _ _ _ _ _ => rfl
  apply noOrphans_of_tidy ?_ hall
  rcases hcode with rfl | ⟨n, rfl⟩
  · decide
  · exact tidy_startComms _ n

/-- The interpreter starts a program and waits for it, and cannot start the next one. -/
def failingSecond : List Action :=
  [⟨0, true⟩, ⟨1, true⟩, ⟨1, true⟩, ⟨0, true⟩, ⟨0, false⟩, ⟨0, true⟩]

theorem noOrphans_of_fork1_or_startComms_failingSecond : ∃ s,
    exec step (boot (startComms 2)) failingSecond = some s ∧ s.count = 2 ∧
      (s.proc 0).status = .zombie ∧ (s.proc 1).status = .reaped ∧ NoOrphans s := by
  have hrun : (exec step (boot (startComms 2)) failingSecond).map (fun s =>
      (s.count, (s.proc 0).status, (s.proc 1).status)) = some (2, .zombie, .reaped) := by
    decide +kernel
  obtain ⟨s, hs, hsummary⟩ := Option.map_eq_some_iff.mp hrun
  simp only [Prod.mk.injEq] at hsummary
  exact ⟨s, hs, hsummary.1, hsummary.2.1, hsummary.2.2,
    noOrphans_of_fork1_or_startComms (Or.inr ⟨2, rfl⟩) (Reach.of_exec hs)⟩

/-! ## The tree -/

/-- **The tree of processes.**  If no `fork` fails, a run takes no more steps than the program
has, and until some process can go on no more the six lines are printed: each by the process of
its number, with the process above it as its parent. -/
theorem forkTree_prints {acts : List Action} (hok : ∀ a ∈ acts, a.ok = true) {s : System ℕ}
    (hexec : exec step (boot forkTree) acts = some s) :
    acts.length ≤ forkTree.size ∧
      ((∃ p s', step s ⟨p, true⟩ = some s') ∨
        (s.printed.map Line.key).Perm
            [([], 1), ([2], 2), ([2, 4], 4), ([3], 3), ([3, 5], 5), ([3, 6], 6)] ∧
          (∀ l ∈ s.printed, l.Signed s) ∧
          ∀ p q, (s.proc q).parent = some p →
            ∃ ret, (s.proc q).path = (s.proc p).path ++ [ret]) := by
  refine ⟨length_le_of_exec hexec, ?_⟩
  by_cases hend : ∀ p, (s.proc p).status.isRunning = false
  · have hprinted := printed_of_exec (by decide) hok hexec hend
    refine Or.inr ⟨hprinted.1.trans ?_, hprinted.2⟩
    decide
  · have hformed : Formed s := (Reach.of_exec hexec).invariant (formed_boot forkTree)
      fun _ _ _ hs _ hstep => hs.step hstep
    push Not at hend
    obtain ⟨p, hp⟩ := hend
    cases hstatus : (s.proc p).status with
    | running code => exact Or.inl (exists_step hformed hstatus)
    | zombie =>
        rw [hstatus] at hp
        exact absurd rfl hp
    | reaped =>
        rw [hstatus] at hp
        exact absurd rfl hp

/-- The six processes take turns. -/
def wholeTree : List Action :=
  [0, 0, 0, 2, 1, 2, 1, 2, 5, 4, 3, 3, 2, 4, 1, 5, 2, 1, 0, 2, 0, 0].map fun p => ⟨p, true⟩

/-- At the end of `wholeTree` all of them have exited. -/
theorem forkTree_prints_wholeTree : ∃ s, exec step (boot forkTree) wholeTree = some s ∧
    s.printed.map Line.text = [1, 3, 2, 6, 4, 5] ∧
    (s.printed.map Line.key).Perm
      [([], 1), ([2], 2), ([2, 4], 4), ([3], 3), ([3, 5], 5), ([3, 6], 6)] ∧
    ∀ l ∈ s.printed, l.Signed s := by
  have hrun : (exec step (boot forkTree) wholeTree).map (fun s => (s.printed.map Line.text,
      (List.range s.count).all fun p => !(s.proc p).status.isRunning)) =
      some ([1, 3, 2, 6, 4, 5], true) := by
    decide +kernel
  obtain ⟨s, hs, hsummary⟩ := Option.map_eq_some_iff.mp hrun
  obtain ⟨hprinted, hend⟩ := Prod.mk.inj hsummary
  have hformed : Formed s := (Reach.of_exec hs).invariant (formed_boot forkTree)
    fun _ _ _ hs _ hstep => hs.step hstep
  have hstopped := hformed.step_eq_none (by simpa using hend)
  rcases (forkTree_prints (by simp [wholeTree]) hs).2 with ⟨p, s', hgo⟩ | ⟨hlines, hsigned, -⟩
  · rw [hstopped] at hgo
    cases hgo
  · exact ⟨s, hs, hprinted, hlines, hsigned⟩

/-- (2) is left behind when (3) cannot be made. -/
lemma orphan_of_third {mayFail : ℕ → Bool} (hfail : mayFail 3 = true) :
    ∃ s, Reach step (Fails mayFail) (boot forkTree) s ∧ ¬ NoOrphans s := by
  have hforked := ((Reach.refl step (Fails mayFail) (boot forkTree)).tail (a := ⟨0, true⟩)
    nofun rfl).tail (a := ⟨0, true⟩) nofun rfl
  have hfailed := hforked.tail (a := ⟨0, false⟩)
    (fun _ _ _ _ _ hcode => by cases hcode; exact hfail) rfl
  refine ⟨_, hfailed.tail (a := ⟨0, true⟩) nofun rfl, fun h => ?_⟩
  have horphan := h 0 1 rfl nofun
  cases horphan

/-- (5) is left behind when (6) cannot be made. -/
lemma orphan_of_sixth {mayFail : ℕ → Bool} (hfail : mayFail 6 = true) :
    ∃ s, Reach step (Fails mayFail) (boot forkTree) s ∧ ¬ NoOrphans s := by
  have hforked := (((((Reach.refl step (Fails mayFail) (boot forkTree)).tail (a := ⟨0, true⟩)
    nofun rfl).tail (a := ⟨0, true⟩) nofun rfl).tail (a := ⟨0, true⟩) nofun rfl).tail
      (a := ⟨2, true⟩) nofun rfl).tail (a := ⟨2, true⟩) nofun rfl
  have hfailed := hforked.tail (a := ⟨2, false⟩)
    (fun _ _ _ _ _ hcode => by cases hcode; exact hfail) rfl
  refine ⟨_, hfailed.tail (a := ⟨2, true⟩) nofun rfl, fun h => ?_⟩
  have horphan := h 2 3 rfl nofun
  cases horphan

/-- **When a process may be left behind**: exactly when one of the forks of (3) and (6), which
are the second ones of their parents, may fail. -/
theorem forkTree_noOrphans_iff (mayFail : ℕ → Bool) :
    (∀ s, Reach step (Fails mayFail) (boot forkTree) s → NoOrphans s) ↔
      mayFail 3 = false ∧ mayFail 6 = false := by
  constructor
  · intro h
    constructor
    · by_contra hfail
      obtain ⟨s, hreach, horphan⟩ := orphan_of_third ((Bool.not_eq_false _).mp hfail)
      exact horphan (h s hreach)
    · by_contra hfail
      obtain ⟨s, hreach, horphan⟩ := orphan_of_sixth ((Bool.not_eq_false _).mp hfail)
      exact horphan (h s hreach)
  · rintro ⟨h3, h6⟩ s hreach
    apply noOrphans_of_tidy ?_ hreach
    simp [forkTree, tidy, h3, h6]

end ForkExec
end EltSummer
