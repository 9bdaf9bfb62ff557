import EltSummer.Framework.RangeSum
import EltSummer.ShmemChat.Commands

/-!
# What a broadcast leaves in order

A broadcast whose `sem_trywait` fails goes in all the same, and its `sem_post` counts the
semaphore up.  The broadcast loop goes through the segments to the clients; the ones they write to
are not touched by it, and there exclusion holds in every run.

Nor is a semaphore ever lost: where the value is 0 somebody is inside, and what stands between a
wait and its post goes on by itself.  So a thread that waits for its client does not wait for ever
by the server's doing, and once `stop_threads` is set each thread is at its end after the rest of
one round (`threads_exit`).
-/

namespace EltSummer
namespace ShmemChat
namespace Exclusion

open Interleaving Semaphores Finset

variable {cfg : Config} {s s' : State}

/-! ## How a server thread goes on -/

/-- The statement behind a statement, with `stop` for `stop_threads == 1`. -/
inductive ServerPc.Next (n : ℕ) (stop : Bool) : ServerPc → ServerPc → Prop
  | round (hgoes : stop = false) : Next n stop .head .waitIn
  | exit (hstop : stop = true) : Next n stop .head .exited
  | enter : Next n stop .waitIn .copyIn
  | copy : Next n stop .copyIn .zeroIn
  | zero : Next n stop .zeroIn .postIn
  | leave : Next n stop .postIn .handle
  | broadcast : Next n stop .handle (.forTest 1)
  | quiet : Next n stop .handle .clear
  | segment {i : ℕ} (hi : i < n * 2) : Next n stop (.forTest i) (.trywait i)
  | through {i : ℕ} : Next n stop (.forTest i) .clear
  | goIn {i : ℕ} : Next n stop (.trywait i) (.write i)
  | write {i : ℕ} : Next n stop (.write i) (.post i)
  | post {i : ℕ} : Next n stop (.post i) (.forTest (i + 2))
  | clear : Next n stop .clear .head

open ServerPc (Next)

lemma next_serverStep {k : ℕ} (h : serverStep cfg s k (s.server k) = some s') :
    Next cfg.maxClients s.stopThreads (s.server k).pc (s'.server k).pc := by
  cases hpc : (s.server k).pc with
  | head =>
      simp only [serverStep, hpc, Option.some.injEq] at h
      subst h
      simp only [State.setServer, Function.update_self]
      cases hstop : s.stopThreads with
      | true => exact .exit rfl
      | false => exact .round rfl
  | waitIn =>
      simp only [serverStep, hpc, Option.ite_none_right_eq_some, Option.some.injEq] at h
      obtain ⟨-, rfl⟩ := h
      simpa [State.setServer] using .enter
  | handle =>
      simp only [serverStep, hpc, Option.some.injEq, handleStep] at h
      subst h
      split
      · simpa [State.setServer] using .broadcast
      · simpa [State.setServer] using .quiet
  | forTest i =>
      simp only [serverStep, hpc, Option.some.injEq] at h
      subst h
      simp only [State.setServer, Function.update_self]
      split
      · rename_i hi
        exact .segment hi
      · exact .through
  | trywait i =>
      simp only [serverStep, hpc] at h
      split at h
      · obtain rfl := Option.some.inj h
        simpa [State.setServer] using .goIn
      · obtain rfl := Option.some.inj h
        simpa [State.setServer] using .goIn
  | write i =>
      simp only [serverStep, hpc] at h
      split at h
      · obtain rfl := Option.some.inj h
        simpa [State.setServer] using .write
      · obtain rfl := Option.some.inj h
        simpa [State.setServer] using .write
  | exited => simp [serverStep, hpc] at h
  | copyIn =>
      simp only [serverStep, hpc, Option.some.injEq] at h
      subst h
      simpa [State.setServer] using .copy
  | zeroIn =>
      simp only [serverStep, hpc, Option.some.injEq] at h
      subst h
      simpa [State.setServer] using .zero
  | postIn =>
      simp only [serverStep, hpc, Option.some.injEq] at h
      subst h
      simpa [State.setServer] using .leave
  | post i =>
      simp only [serverStep, hpc, Option.some.injEq] at h
      subst h
      simpa [State.setServer] using .post
  | clear =>
      simp only [serverStep, hpc, Option.some.injEq] at h
      subst h
      simpa [State.setServer] using .clear

/-- A step of the server, not of a client. -/
def ofServer : Action → Bool
  | .server _ => true
  | _ => false

/-- A step is one of a server thread below `max_clients`, or leaves them all where they are. -/
lemma server_of_step {a : Action} (h : step cfg s a = some s') :
    (∃ k < cfg.maxClients, a = .server k ∧ (∀ j ≠ k, s'.server j = s.server j) ∧
      Next cfg.maxClients s.stopThreads (s.server k).pc (s'.server k).pc) ∨
      ofServer a = false ∧ s'.server = s.server := by
  cases a with
  | server k =>
      obtain ⟨hk, h⟩ := Option.ite_none_right_eq_some.mp h
      obtain ⟨t, hserver⟩ := serverStep_server h
      refine Or.inl ⟨k, hk, rfl, fun j hj => ?_, next_serverStep h⟩
      rw [hserver, Function.update_of_ne hj]
  | main c => exact Or.inr ⟨rfl, mainStep_server h⟩
  | send c => exact Or.inr ⟨rfl, sendStep_server h⟩
  | receive c => exact Or.inr ⟨rfl, receiveStep_server h⟩
  | type c word =>
      obtain ⟨-, h⟩ := Option.ite_none_left_eq_some.mp h
      obtain rfl := Option.some.inj h
      exact Or.inr ⟨rfl, rfl⟩
  | interrupt c =>
      obtain rfl := Option.some.inj h
      exact Or.inr ⟨rfl, rfl⟩
  | stop =>
      obtain rfl := Option.some.inj h
      exact Or.inr ⟨rfl, rfl⟩

/-- The variable of the broadcast loop. -/
def ServerPc.index : ServerPc → Option ℕ
  | .forTest i | .trywait i | .write i | .post i => some i
  | _ => none

lemma ServerPc.Next.odd {n : ℕ} {stop : Bool} {pc pc' : ServerPc} (h : Next n stop pc pc')
    (hodd : ∀ i, pc.index = some i → i % 2 = 1) : ∀ i, pc'.index = some i → i % 2 = 1 := by
  cases h with
  | broadcast =>
      rintro i ⟨⟩
      rfl
  | segment hi => exact hodd
  | goIn => exact hodd
  | write => exact hodd
  | @post j =>
      rintro i ⟨⟩
      have := hodd j rfl
      omega
  | _ =>
      intro i hi
      cases hi

/-- The broadcast loops are at segments to clients, and there are `max_clients` threads. -/
structure Placed (cfg : Config) (s : State) : Prop where
  odd : ∀ k i, (s.server k).pc.index = some i → i % 2 = 1
  idle : ∀ k, cfg.maxClients ≤ k → (s.server k).pc = .head

lemma Placed.step {a : Action} (ht : Placed cfg s) (h : step cfg s a = some s') :
    Placed cfg s' := by
  rcases server_of_step h with ⟨k, hk, -, hothers, hnext⟩ | ⟨-, hserver⟩
  · constructor
    · intro j
      by_cases hj : j = k
      · rw [hj]
        exact hnext.odd (ht.odd k)
      · rw [hothers j hj]
        exact ht.odd j
    · intro j hj
      rw [hothers j (by omega)]
      exact ht.idle j hj
  · exact ⟨by rw [hserver]; exact ht.odd, by rw [hserver]; exact ht.idle⟩

lemma placed_of_reach {ok : State → Action → Prop} (h : Reach (step cfg) ok init s) :
    Placed cfg s := by
  refine h.invariant ⟨fun k i hi => ?_, fun k hk => rfl⟩ fun u a v hu _ hstep => hu.step hstep
  cases hi

/-! ## The segments clients write to -/

/-- The number of a segment a server thread receives from. -/
def incoming (i : ℕ) : Bool := i % 2 == 0

lemma hall_of_intrusion {k i : ℕ} (h : serverStep cfg s k (s.server k) = some s')
    (hpc : (s.server k).pc = .trywait i) (hvalue : s.sems i = 0) :
    s'.hall cfg = ⟨(s.hall cfg).value,
      Function.update (s.hall cfg).place (.server k) (some i)⟩ := by
  simp only [serverStep, hpc, hvalue, Nat.lt_irrefl, if_false, Option.some.injEq] at h
  subst h
  exact hall_setServer rfl rfl k _

/-- Where the broadcast does not come, every step follows the protocol. -/
lemma hall_step_incoming {a : Action} (hplaced : Placed cfg s) (h : step cfg s a = some s') :
    ((s.hall cfg).only incoming).Move ((s'.hall cfg).only incoming) := by
  by_cases hok : TrywaitSucceeds s a
  · exact (hall_step h hok).only
  cases a with
  | server k =>
      obtain ⟨i, hi⟩ := not_forall.mp hok
      obtain ⟨hpc, hvalue⟩ := Classical.not_imp.mp hi
      have hodd := hplaced.odd k i (by rw [hpc]; rfl)
      rw [hall_of_intrusion (Option.ite_none_right_eq_some.mp h).2 hpc (by omega),
        Hall.only_of_off (by simp [hpc]) (by simp [incoming, hodd])]
      exact .stay
  | _ => exact absurd trivial hok

lemma fair_incoming {ok : State → Action → Prop} (h : Reach (step cfg) ok init s) :
    ((s.hall cfg).only incoming).Fair := by
  refine h.invariant_along (I := fun u => ((u.hall cfg).only incoming).Fair) ?_
    fun u a v hu hfair _ hstep => (hall_step_incoming (placed_of_reach hu) hstep).fair hfair
  refine fun i => Or.inl ⟨?_, fun p => ?_⟩
  · simp only [Hall.only]
    split
    · rfl
    · rfl
  · cases p <;> simp [Hall.only, State.hall, init]

lemma manned_of_reach {ok : State → Action → Prop} (h : Reach (step cfg) ok init s) :
    (s.hall cfg).Manned := by
  refine h.invariant (I := fun u => (u.hall cfg).Manned) ?_ fun u a v hmanned _ hstep => ?_
  · intro i hi
    cases hi
  · by_cases hok : TrywaitSucceeds u a
    · exact (hall_step hstep hok).manned hmanned
    · exact (intrusion_step hstep hok).manned hmanned

/-! ## Who is inside can go on -/

/-- The step of a party. -/
def Party.action : Party → Action
  | .server k => .server k
  | .main c => .main c
  | .send c => .send c
  | .receive c => .receive c

lemma exists_step_of_inside (hplaced : Placed cfg s) {p : Party} {i : ℕ}
    (hin : (s.hall cfg).place p = some i) : ∃ s', step cfg s p.action = some s' := by
  cases p with
  | server k =>
      have hk : k < cfg.maxClients := by
        by_contra hk
        rw [place_server, hplaced.idle k (not_lt.mp hk)] at hin
        cases hin
      simp only [Party.action, step, if_pos hk, serverStep]
      rw [place_server] at hin
      cases hpc : (s.server k).pc with
      | write j =>
          dsimp only
          split
          · exact ⟨_, rfl⟩
          · exact ⟨_, rfl⟩
      | copyIn => exact ⟨_, rfl⟩
      | zeroIn => exact ⟨_, rfl⟩
      | postIn => exact ⟨_, rfl⟩
      | post j => exact ⟨_, rfl⟩
      | _ => simp [hpc] at hin
  | main c =>
      simp only [Party.action, step, mainStep]
      rw [place_main] at hin
      cases hpc : (s.client c).mainPc <;> simp [hpc] at hin <;> exact ⟨_, rfl⟩
  | send c =>
      simp only [Party.action, step, sendStep]
      rw [place_send] at hin
      cases hpc : (s.client c).sendPc <;> simp [hpc] at hin <;> exact ⟨_, rfl⟩
  | receive c =>
      simp only [Party.action, step, receiveStep]
      rw [place_receive] at hin
      cases hpc : (s.client c).receivePc with
      | check =>
          dsimp only
          split
          · exact ⟨_, rfl⟩
          · exact ⟨_, rfl⟩
      | copy => exact ⟨_, rfl⟩
      | post => exact ⟨_, rfl⟩
      | _ => simp [hpc] at hin

/-- A party is in a critical section of segment `i`, and its next statement can be executed. -/
def GoesOnInside (cfg : Config) (s : State) (i : ℕ) : Prop :=
  ∃ p, (s.hall cfg).place p = some i ∧ ∃ s', step cfg s (Party.action p) = some s'

lemma goesOnInside_of_reach {ok : State → Action → Prop} (h : Reach (step cfg) ok init s) {i : ℕ}
    (hvalue : s.sems i = 0) : GoesOnInside cfg s i := by
  obtain ⟨p, hp⟩ := manned_of_reach h i hvalue
  exact ⟨p, hp, exists_step_of_inside (placed_of_reach h) hp⟩

/-- **What every run keeps**, whatever the broadcasts do: exclusion and values of at most 1 in the
segments clients write to; and in no segment the value is 0 unless somebody is inside who can go
on. -/
theorem incoming_exclusive (h : Reach (step cfg) Anything init s) :
    (∀ k, s.sems (2 * k) ≤ 1 ∧ ∀ p q, (s.hall cfg).place p = some (2 * k) →
      (s.hall cfg).place q = some (2 * k) → p = q) ∧
    ∀ i, s.sems i = 0 → GoesOnInside cfg s i := by
  refine ⟨fun k => (fair_incoming h).of_only ?_, fun i hvalue => goesOnInside_of_reach h hvalue⟩
  simp [incoming]

/-- After the broadcast that writes where the receive thread is reading. -/
theorem incoming_exclusive_crossing :
    ∃ s, exec (step twoClients) init crossingBroadcast = some s ∧
      (∀ k, s.sems (2 * k) ≤ 1) ∧ GoesOnInside twoClients s 3 := by
  have hrun : ((exec (step twoClients) init crossingBroadcast).map fun s => s.sems 3) =
      some 0 := by
    decide +kernel
  obtain ⟨s, hs, hvalue⟩ := Option.map_eq_some_iff.mp hrun
  obtain ⟨hsafe, hinside⟩ := incoming_exclusive (Reach.of_exec hs)
  exact ⟨s, hs, fun k => (hsafe k).1, hinside 3 hvalue⟩

/-! ## The end of the server -/

/-- The most steps a server thread takes to its end once `stop_threads` is set. -/
def ServerPc.toEnd (n : ℕ) : ServerPc → ℕ
  | .exited => 0
  | .head => 1
  | .clear => 2
  | .forTest i => 3 + 4 * ((2 * n + 1 - i) / 2)
  | .post i => 4 + 4 * ((2 * n - 1 - i) / 2)
  | .write i => 5 + 4 * ((2 * n - 1 - i) / 2)
  | .trywait i => 6 + 4 * ((2 * n - 1 - i) / 2)
  | .handle => 4 + 4 * n
  | .postIn => 5 + 4 * n
  | .zeroIn => 6 + 4 * n
  | .copyIn => 7 + 4 * n
  | .waitIn => 8 + 4 * n

lemma ServerPc.toEnd_le (n : ℕ) (pc : ServerPc) : pc.toEnd n ≤ 8 + 4 * n := by
  cases pc <;> simp only [ServerPc.toEnd] <;> omega

lemma ServerPc.Next.toEnd {n : ℕ} {pc pc' : ServerPc} (h : Next n true pc pc') :
    pc'.toEnd n < pc.toEnd n := by
  cases h with
  | round hgoes => cases hgoes
  | _ => simp only [ServerPc.toEnd]; omega

/-- What the server's threads have to do yet. -/
def State.toEnd (cfg : Config) (s : State) : ℕ :=
  ∑ k ∈ range cfg.maxClients, (s.server k).pc.toEnd cfg.maxClients

lemma State.toEnd_le (s : State) :
    s.toEnd cfg ≤ cfg.maxClients * (4 * cfg.maxClients + 8) := by
  calc
    s.toEnd cfg ≤ ∑ _k ∈ range cfg.maxClients, (8 + 4 * cfg.maxClients) :=
      sum_le_sum fun k _ => ServerPc.toEnd_le _ _
    _ = cfg.maxClients * (4 * cfg.maxClients + 8) := by
      rw [sum_const_nat fun _ _ => rfl, card_range, Nat.add_comm]

lemma serverStep_stopThreads {k : ℕ} (h : serverStep cfg s k (s.server k) = some s') :
    s'.stopThreads = s.stopThreads := by
  cases hpc : (s.server k).pc with
  | waitIn =>
      simp only [serverStep, hpc, Option.ite_none_right_eq_some, Option.some.injEq] at h
      obtain ⟨-, rfl⟩ := h
      rfl
  | trywait i | write i =>
      simp only [serverStep, hpc] at h
      split at h <;> obtain rfl := Option.some.inj h <;> rfl
  | handle =>
      simp only [serverStep, hpc, Option.some.injEq, handleStep] at h
      subst h
      split <;> rfl
  | exited => simp [serverStep, hpc] at h
  | _ =>
      simp only [serverStep, hpc, Option.some.injEq] at h
      subst h
      rfl

lemma mainStep_stopThreads {c : ℕ} {t : Client} (h : mainStep cfg s c t = some s') :
    s'.stopThreads = s.stopThreads := by
  cases hpc : t.mainPc with
  | waitConnect | waitDisconnect =>
      simp only [mainStep, hpc, Option.ite_none_right_eq_some, Option.some.injEq] at h
      obtain ⟨-, rfl⟩ := h
      rfl
  | ended => simp [mainStep, hpc] at h
  | _ =>
      simp only [mainStep, hpc, Option.some.injEq] at h
      subst h
      rfl

lemma sendStep_stopThreads {c : ℕ} {t : Client} (h : sendStep cfg s c t = some s') :
    s'.stopThreads = s.stopThreads := by
  cases hpc : t.sendPc with
  | trywait =>
      simp only [sendStep, hpc] at h
      split at h <;> obtain rfl := Option.some.inj h <;> rfl
  | exited => simp [sendStep, hpc] at h
  | _ =>
      simp only [sendStep, hpc, Option.some.injEq] at h
      subst h
      rfl

lemma receiveStep_stopThreads {c : ℕ} {t : Client} (h : receiveStep cfg s c t = some s') :
    s'.stopThreads = s.stopThreads := by
  cases hpc : t.receivePc with
  | trywait | check =>
      simp only [receiveStep, hpc] at h
      split at h <;> obtain rfl := Option.some.inj h <;> rfl
  | exited => simp [receiveStep, hpc] at h
  | _ =>
      simp only [receiveStep, hpc, Option.some.injEq] at h
      subst h
      rfl

/-- `stop_threads` of the server is not taken back. -/
lemma stopThreads_of_step {a : Action} (hstop : s.stopThreads = true)
    (h : step cfg s a = some s') : s'.stopThreads = true := by
  cases a with
  | server k => rw [serverStep_stopThreads (Option.ite_none_right_eq_some.mp h).2, hstop]
  | main c => rw [mainStep_stopThreads h, hstop]
  | send c => rw [sendStep_stopThreads h, hstop]
  | receive c => rw [receiveStep_stopThreads h, hstop]
  | type c word =>
      obtain ⟨-, h⟩ := Option.ite_none_left_eq_some.mp h
      obtain rfl := Option.some.inj h
      exact hstop
  | interrupt c =>
      obtain rfl := Option.some.inj h
      exact hstop
  | stop =>
      obtain rfl := Option.some.inj h
      rfl

lemma toEnd_step {a : Action} (hstop : s.stopThreads = true) (h : step cfg s a = some s') :
    s'.toEnd cfg + (ofServer a).toNat ≤ s.toEnd cfg := by
  rcases server_of_step h with ⟨k, hk, rfl, hothers, hnext⟩ | ⟨hclient, hserver⟩
  · rw [hstop] at hnext
    apply RangeSum.sum_lt_of_one hk hnext.toEnd
    intro j hj
    rw [hothers j hj]
  · rw [hclient, State.toEnd, State.toEnd, hserver]
    exact le_rfl

/-- A server thread that has not exited can go on, or waits for its client. -/
lemma exists_step_or_waits {k : ℕ} (hk : k < cfg.maxClients)
    (hruns : (s.server k).pc ≠ .exited) :
    (∃ s', step cfg s (.server k) = some s') ∨
      (s.server k).pc = .waitIn ∧ s.sems (2 * k) = 0 := by
  simp only [step, if_pos hk, serverStep]
  cases hpc : (s.server k).pc with
  | exited => exact absurd hpc hruns
  | waitIn =>
      by_cases hvalue : 0 < s.sems (2 * k)
      · exact Or.inl ⟨_, if_pos hvalue⟩
      · exact Or.inr ⟨rfl, by omega⟩
  | trywait i | write i =>
      apply Or.inl
      dsimp only
      split <;> exact ⟨_, rfl⟩
  | _ => exact Or.inl ⟨_, rfl⟩

/-- **The end of the server's threads.**  Once `stop_threads` is set they take a bounded number of
steps, in any order and whatever the clients do.  Until one of them has exited it can go on, or it
waits in `sem_wait` while somebody is in its segment who can. -/
theorem threads_exit (h : Reach (step cfg) Anything init s) (hstop : s.stopThreads = true)
    {acts : List Action} {t : State} (hexec : exec (step cfg) s acts = some t) :
    acts.countP ofServer ≤ cfg.maxClients * (4 * cfg.maxClients + 8) ∧
      ∀ k < cfg.maxClients, (t.server k).pc = .exited ∨
        (∃ t', step cfg t (.server k) = some t') ∨
        (t.server k).pc = .waitIn ∧ GoesOnInside cfg t (2 * k) := by
  refine ⟨?_, fun k hk => ?_⟩
  · have hcount : t.stopThreads = true ∧ t.toEnd cfg + acts.countP ofServer ≤ s.toEnd cfg := by
      refine rank_of_exec (I := fun u => u.stopThreads = true) ?_ hstop hexec
      intro u a v hustop hstep
      exact ⟨stopThreads_of_step hustop hstep, toEnd_step hustop hstep⟩
    have hbound : s.toEnd cfg ≤ cfg.maxClients * (4 * cfg.maxClients + 8) := s.toEnd_le
    omega
  · by_cases hruns : (t.server k).pc = .exited
    · exact Or.inl hruns
    rcases exists_step_or_waits hk hruns with hgoes | ⟨hwaits, hvalue⟩
    · exact Or.inr (Or.inl hgoes)
    · have hreach := h.trans (Reach.of_exec hexec)
      exact Or.inr (Or.inr ⟨hwaits, goesOnInside_of_reach hreach hvalue⟩)

/-- The server is stopped while client 0 is writing its connect message. -/
theorem threads_exit_connecting : ∃ s t,
    exec (step twoClients) init [.server 0, .main 0, .stop] = some s ∧
      exec (step twoClients) s [.server 1] = some t ∧
      ∀ k < 2, (t.server k).pc = .exited ∨
        (∃ t', step twoClients t (.server k) = some t') ∨
        (t.server k).pc = .waitIn ∧ GoesOnInside twoClients t (2 * k) := by
  obtain ⟨s, hs, hstop, t, ht⟩ : ∃ s, exec (step twoClients) init
      [.server 0, .main 0, .stop] = some s ∧ s.stopThreads = true ∧
      ∃ t, exec (step twoClients) s [.server 1] = some t := ⟨_, rfl, rfl, _, rfl⟩
  exact ⟨s, t, hs, ht, (threads_exit (Reach.of_exec hs) hstop ht).2⟩

end Exclusion
end ShmemChat
end EltSummer
