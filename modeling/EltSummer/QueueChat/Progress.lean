import EltSummer.Framework.RangeSum
import EltSummer.QueueChat.Framing

/-!
# How the chat server stops

Behind its main loop the server sets `stop_threads` and joins its threads.  A thread takes no
notice of that before it is back at the head of its loop: it may have to send a message to every
other slot first, and each of these queues has a mutex that the other threads take, too.

A thread holds one mutex at a time, and with its buffer in order there is nothing between the lock
and the unlock that does not go on.  So some thread can go on until they have all exited
(`exists_threadStep`), whatever the clients do, and each step of a thread brings it nearer to its
end (`Pc.left`).

The buffers are in order if the stack the threads start on is zeroed; with bytes behind the first
message that are no text, the machine has no step for a thread.
-/

namespace EltSummer
namespace QueueChat

open Finset Interleaving PosixQueue CString

variable {cfg : Config} {s s' : State}

/-! ## What is in a buffer -/

/-- The texts of service messages are process ids. -/
lemma Desk.Move.pidText {k : ℕ} {d d' : Desk} (hmove : d.Move k d')
    (h : ∀ m ∈ d.sent, m.prio = prioServiceMsg → ∃ pid : Pid, m.text = decimal pid.val) :
    ∀ m ∈ d'.sent, m.prio = prioServiceMsg → ∃ pid : Pid, m.text = decimal pid.val := by
  have hconcat : ∀ {x : Msg}, (x.prio = prioServiceMsg → ∃ pid : Pid, x.text = decimal pid.val) →
      ∀ m ∈ d.sent ++ [x], m.prio = prioServiceMsg → ∃ pid : Pid, m.text = decimal pid.val := by
    intro x hx m hm
    rcases List.mem_append.mp hm with hm | hm
    · exact h m hm
    · rwa [List.mem_singleton.mp hm]
  cases hmove with
  | stay => exact h
  | @start pid hclient => exact hconcat fun _ => ⟨pid, rfl⟩
  | say hclient =>
      apply hconcat
      intro hprio
      exact absurd (show prioRegularMsg = prioServiceMsg from hprio) (by decide)
  | @quit earlier x hclient hx => exact hconcat fun _ => ⟨x.pid, rfl⟩
  | quitFull hclient => exact h
  | leave => exact h

lemma pidText_of_reach {ok : State → Action → Prop} (h : Reach (step cfg) ok (init cfg) s) (k : ℕ) :
    ∀ m ∈ s.sent k, m.prio = prioServiceMsg → ∃ pid : Pid, m.text = decimal pid.val :=
  h.invariant
    (I := fun u => ∀ m ∈ (u.desk k).sent, m.prio = prioServiceMsg →
      ∃ pid : Pid, m.text = decimal pid.val)
    (by simp [State.desk, init]) fun _ _ _ hI _ hstep => (desk_move hstep k).pidText hI

lemma bufferBefore_zeros (hstack : ∀ k, cfg.stack k = List.replicate qSize 0) (k : ℕ)
    (log : List Msg) : bufferBefore cfg k log = List.replicate qSize 0 := by
  unfold bufferBefore
  split
  · exact hstack k
  · rfl

/-- A thread that has a message has its text in its buffer. -/
lemma readable_of_reach (hstack : ∀ k, cfg.stack k = List.replicate qSize 0)
    {ok : State → Action → Prop} (h : Reach (step cfg) ok (init cfg) s) {k : ℕ}
    (hpc : (s.thread k).pc.holds ∨ (s.thread k).pc.past) :
    stringAt (s.thread k).msgBuff 0 = some (s.thread k).got.text ∧
      (s.thread k).got ∈ s.sent k ∧ (s.thread k).prio = (s.thread k).got.prio := by
  obtain ⟨hkept, hfaithful⟩ := faithful_of_reach h
  have hread (log : List Msg)
      (hbuff : (s.thread k).msgBuff = received (bufferBefore cfg k log) (s.thread k).got.text)
      (hsent : (s.thread k).got ∈ s.sent k) :
      stringAt (s.thread k).msgBuff 0 = some (s.thread k).got.text := by
    rw [hbuff, bufferBefore_zeros hstack]
    apply stringAt_received ((hkept.recorded k).noNul _ hsent)
    rw [List.getElem?_replicate, if_pos (fits_of_reach h k _ hsent)]
  rcases hpc with hpc | hpc
  · obtain ⟨hbuff, hprio⟩ := (hfaithful k).holds hpc
    have hsent : (s.thread k).got ∈ s.sent k := by
      apply (hkept.perPriority k).mem_sent
      have hhand : (s.lane k).inHand = [(s.thread k).got] := by
        rw [State.lane, Thread.inHand, if_pos hpc]
      rw [Lane.flow, hhand]
      simp
    exact ⟨hread _ hbuff hsent, hsent, hprio⟩
  · obtain ⟨before, hlog, hbuff, hprio⟩ := (hfaithful k).past hpc
    have hsent : (s.thread k).got ∈ s.sent k := hkept.sent_of_handled (by simp [hlog])
    exact ⟨hread _ hbuff hsent, hsent, hprio⟩

/-! ## Who holds a mutex -/

/-- The mutex of another slot's queue that a thread has locked. -/
def Pc.lent : Pc → Option ℕ
  | .send i | .release i => some i
  | _ => none

/-- A mutex of an odd queue is locked by a thread that sends there. -/
def Lent (cfg : Config) (s : State) : Prop :=
  ∀ i, i % 2 = 1 → s.mutexQues i = true → ∃ k < cfg.maxClients, (s.thread k).pc.lent = some i

lemma lent_init (cfg : Config) : Lent cfg (init cfg) := by
  intro i _ h
  cases h

/-- A step of thread `k`, with what it holds before and afterwards. -/
lemma Lent.thread (h : Lent cfg s) {k : ℕ} {t : Thread} {u : State} (hk : k < cfg.maxClients)
    (hthread : u.thread = s.thread)
    (hmutex : ∀ i, i % 2 = 1 → u.mutexQues i = true → t.pc.lent = some i ∨
      s.mutexQues i = true ∧ (s.thread k).pc.lent ≠ some i) : Lent cfg (u.setThread k t) := by
  intro i hi hlocked
  rcases hmutex i hi hlocked with ht | ⟨hbefore, hother⟩
  · exact ⟨k, hk, by rwa [setThread_thread, if_pos rfl]⟩
  · obtain ⟨j, hj, hlent⟩ := h i hi hbefore
    have hne : j ≠ k := by
      rintro rfl
      exact hother hlent
    exact ⟨j, hj, by rwa [setThread_thread, if_neg hne, hthread]⟩

/-- A step that keeps what the thread holds. -/
lemma Lent.keeps (h : Lent cfg s) {k : ℕ} {t : Thread} {u : State} (hk : k < cfg.maxClients)
    (hthread : u.thread = s.thread) (hmutex : u.mutexQues = s.mutexQues)
    (hlent : (s.thread k).pc.lent = t.pc.lent) : Lent cfg (u.setThread k t) := by
  apply h.thread hk hthread
  intro i _ hlocked
  rw [hmutex] at hlocked
  by_cases ht : t.pc.lent = some i
  · exact Or.inl ht
  · exact Or.inr ⟨hlocked, by rwa [hlent]⟩

lemma Control.lent {k : ℕ} {pc : Pc} {mutex : ℕ → Bool}
    (hc : Control cfg s k (s.thread k).pc mutex pc) {i : ℕ} (hi : i % 2 = 1)
    (hlocked : mutex i = true) :
    pc.lent = some i ∨ s.mutexQues i = true ∧ (s.thread k).pc.lent ≠ some i := by
  have hown : i ≠ 2 * k := by omega
  generalize (s.thread k).pc = pc₀ at hc
  cases hc with
  | acquire hm =>
      rw [Function.update_of_ne hown] at hlocked
      exact Or.inr ⟨hlocked, by simp [Pc.lent]⟩
  | retry =>
      rw [Function.update_of_ne hown] at hlocked
      exact Or.inr ⟨hlocked, by simp [Pc.lent]⟩
  | unlock =>
      rw [Function.update_of_ne hown] at hlocked
      exact Or.inr ⟨hlocked, by simp [Pc.lent]⟩
  | @lock j hm =>
      by_cases hij : i = j
      · exact Or.inl (congrArg some hij.symm)
      · rw [Function.update_of_ne hij] at hlocked
        exact Or.inr ⟨hlocked, by simp [Pc.lent]⟩
  | @release j =>
      have hij : i ≠ j := by
        rintro rfl
        rw [Function.update_self] at hlocked
        cases hlocked
      rw [Function.update_of_ne hij] at hlocked
      exact Or.inr ⟨hlocked, by simpa [Pc.lent] using hij.symm⟩
  | _ => exact Or.inr ⟨hlocked, by simp [Pc.lent]⟩

lemma lt_of_threadStep {k : ℕ} (h : step cfg s (.thread k) = some s') : k < cfg.maxClients :=
  (Option.ite_none_right_eq_some.mp h).1

lemma lent_step {a : Action} (h : Lent cfg s) (hstep : step cfg s a = some s') : Lent cfg s' := by
  have hk {k : ℕ} (ha : a = .thread k) : k < cfg.maxClients := lt_of_threadStep (ha ▸ hstep)
  cases moves_of_step hstep with
  | control hc => exact h.thread (hk rfl) rfl fun i hi hlocked => hc.lent hi hlocked
  | receive hpc hq => exact h.keeps (hk rfl) rfl rfl (by rw [hpc]; rfl)
  | service hpc hprio hu =>
      obtain ⟨info, count, rfl⟩ := service_frame hu
      exact h.keeps (hk rfl) rfl rfl (by rw [hpc]; rfl)
  | regular hpc hprio htext => exact h.keeps (hk rfl) rfl rfl (by rw [hpc]; rfl)
  | other hpc hservice hregular => exact h.keeps (hk rfl) rfl rfl (by rw [hpc]; rfl)
  | loopEnd hpc hi => exact h.keeps (hk rfl) rfl rfl (by rw [hpc]; rfl)
  | cast hpc htext hq => exact h.keeps (hk rfl) rfl rfl (by rw [hpc]; rfl)
  | castFull hpc htext hq => exact h.keeps (hk rfl) rfl rfl (by rw [hpc]; rfl)
  | clear hpc => exact h.keeps (hk rfl) rfl rfl (by rw [hpc]; rfl)
  | stop => exact h
  | start _ _ => exact h
  | say _ _ => exact h
  | quit _ _ _ => exact h
  | quitFull _ => exact h
  | leave _ => exact h
  | take _ => exact h
  | nothing _ => exact h

lemma lent_of_reach {ok : State → Action → Prop} (h : Reach (step cfg) ok (init cfg) s) :
    Lent cfg s :=
  h.invariant (lent_init cfg) fun _ _ _ hI _ hstep => lent_step hI hstep

/-! ## Some thread can go on -/

section

variable (hstack : ∀ k, cfg.stack k = List.replicate qSize 0) {ok : State → Action → Prop}
  (h : Reach (step cfg) ok (init cfg) s)

include hstack h

/-- The tests of `prio` have a result. -/
lemma exists_handleStep {k : ℕ} (hpc : (s.thread k).pc = .handle) :
    ∃ s', handleStep s k (s.thread k) = some s' := by
  obtain ⟨htext, hsent, hprio⟩ := readable_of_reach hstack h (Or.inl (by rw [hpc]; rfl))
  unfold handleStep
  dsimp only
  split
  · rename_i hservice
    obtain ⟨pid, hpid⟩ := pidText_of_reach h k _ hsent (hprio ▸ hservice)
    rw [hpid] at htext
    unfold State.service
    rw [atoi_of_stringAt htext]
    split
    · exact ⟨_, rfl⟩
    split
    · exact ⟨_, rfl⟩
    · exact ⟨_, rfl⟩
  split
  · exact ⟨_, by rw [htext, Option.map_some]⟩
  · exact ⟨_, rfl⟩

/-- A thread that has not exited can go on, or waits for a mutex. -/
lemma exists_step_or_waits {k : ℕ} (hk : k < cfg.maxClients)
    (hruns : (s.thread k).pc ≠ .exited) :
    (∃ s', step cfg s (.thread k) = some s') ∨
      ∃ i, (s.thread k).pc = .lock i ∧ s.mutexQues i = true := by
  simp only [step, if_pos hk, threadStep]
  cases hpc : (s.thread k).pc with
  | exited => exact absurd hpc hruns
  | trylock =>
      dsimp only
      split
      · exact Or.inl ⟨_, rfl⟩
      · exact Or.inl ⟨_, rfl⟩
  | receive =>
      dsimp only
      split
      · exact Or.inl ⟨_, rfl⟩
      · exact Or.inl ⟨_, rfl⟩
  | handle => exact Or.inl (exists_handleStep hstack h hpc)
  | forTest i =>
      dsimp only
      split
      · exact Or.inl ⟨_, rfl⟩
      · exact Or.inl ⟨_, rfl⟩
  | lock i =>
      dsimp only
      split
      · rename_i hlocked
        exact Or.inr ⟨i, rfl, hlocked⟩
      · exact Or.inl ⟨_, rfl⟩
  | send i =>
      obtain ⟨htext, -⟩ := readable_of_reach hstack h (Or.inr (by rw [hpc]; rfl))
      apply Or.inl
      dsimp only
      rw [sendStep, htext]
      exact ⟨_, rfl⟩
  | _ => exact Or.inl ⟨_, rfl⟩

/-- Until they have all exited, some thread can go on: the one that waits for a mutex, or the one
that has locked it. -/
lemma exists_threadStep {k : ℕ} (hk : k < cfg.maxClients) (hruns : (s.thread k).pc ≠ .exited) :
    ∃ j < cfg.maxClients, ∃ s', step cfg s (.thread j) = some s' := by
  rcases exists_step_or_waits hstack h hk hruns with ⟨s', hs'⟩ | ⟨i, hpc, hlocked⟩
  · exact ⟨k, hk, s', hs'⟩
  obtain ⟨hkept, -⟩ := faithful_of_reach h
  have hodd := hkept.locked.odd k i (by rw [hpc]; rfl)
  obtain ⟨j, hj, hlent⟩ := lent_of_reach h i hodd hlocked
  have hholder : (s.thread j).pc = .send i ∨ (s.thread j).pc = .release i := by
    cases hpc' : (s.thread j).pc <;> simp [hpc', Pc.lent] at hlent <;> simp [hlent]
  refine ⟨j, hj, ?_⟩
  rcases exists_step_or_waits hstack h hj (by rcases hholder with h' | h' <;> simp [h']) with
    hgoes | ⟨l, hwaits, -⟩
  · exact hgoes
  · rcases hholder with h' | h'
    · cases h'.symm.trans hwaits
    · cases h'.symm.trans hwaits

end

/-! ## How far a thread has to go -/

/-- The most steps a thread takes to its end once `stop_threads` is set. -/
def Pc.left (n : ℕ) : Pc → ℕ
  | .exited => 0
  | .head => 1
  | .clear | .retry => 2
  | .forTest i => 3 + 2 * (2 * n + 1 - i)
  | .release i => 4 + 2 * (2 * n + 1 - (i + 2))
  | .send i => 5 + 2 * (2 * n + 1 - (i + 2))
  | .lock i => 6 + 2 * (2 * n + 1 - (i + 2))
  | .handle => 4 + 4 * n
  | .unlock => 5 + 4 * n
  | .receive => 6 + 4 * n
  | .trylock => 7 + 4 * n

lemma Pc.left_le (n : ℕ) (pc : Pc) : pc.left n ≤ 7 + 4 * n := by
  cases pc <;> simp only [Pc.left] <;> omega

/-- What the server's threads have to do yet. -/
def State.left (cfg : Config) (s : State) : ℕ :=
  ∑ k ∈ range cfg.maxClients, (s.thread k).pc.left cfg.maxClients

/-- A step of thread `k` brings it nearer to its end, and leaves the other threads alone. -/
structure Nearer (cfg : Config) (s : State) (k : ℕ) (s' : State) : Prop where
  stopped : s'.stopThreads = true
  left : (s'.thread k).pc.left cfg.maxClients < (s.thread k).pc.left cfg.maxClients
  others : ∀ j ≠ k, s'.thread j = s.thread j

lemma nearer_setThread {k : ℕ} {t : Thread} {u : State} (hstop : u.stopThreads = true)
    (hthread : u.thread = s.thread)
    (hleft : t.pc.left cfg.maxClients < (s.thread k).pc.left cfg.maxClients) :
    Nearer cfg s k (u.setThread k t) := by
  refine ⟨hstop, by rwa [setThread_thread, if_pos rfl], fun j hj => ?_⟩
  rw [setThread_thread, if_neg hj, hthread]

lemma nearer_handleStep {k : ℕ} (hstop : s.stopThreads = true)
    (hpc : (s.thread k).pc = .handle) (h : handleStep s k (s.thread k) = some s') :
    Nearer cfg s k s' := by
  have hleft : (s.thread k).pc.left cfg.maxClients = 4 + 4 * cfg.maxClients := by rw [hpc]; rfl
  unfold handleStep at h
  dsimp only at h
  split at h
  · obtain ⟨u, hu, rfl⟩ := Option.map_eq_some_iff.mp h
    obtain ⟨info, count, rfl⟩ := service_frame hu
    exact nearer_setThread hstop rfl (by rw [hleft]; simp only [Pc.left]; omega)
  split at h
  · obtain ⟨text, -, rfl⟩ := Option.map_eq_some_iff.mp h
    exact nearer_setThread hstop rfl (by rw [hleft]; simp only [Pc.left]; omega)
  · obtain rfl := Option.some.inj h
    exact nearer_setThread hstop rfl (by rw [hleft]; simp only [Pc.left]; omega)

lemma nearer_threadStep {k : ℕ} (hlocked : Locked s) (hstop : s.stopThreads = true)
    (h : threadStep cfg s k (s.thread k) = some s') : Nearer cfg s k s' := by
  unfold threadStep at h
  cases hpc : (s.thread k).pc with
  | exited => simp [hpc] at h
  | head =>
      simp only [hpc, hstop, if_true, Option.some.injEq] at h
      subst h
      exact nearer_setThread hstop rfl (by simp [hpc, Pc.left])
  | trylock =>
      simp only [hpc] at h
      split at h
      · obtain rfl := Option.some.inj h
        exact nearer_setThread hstop rfl (by simp [hpc, Pc.left])
      · obtain rfl := Option.some.inj h
        exact nearer_setThread hstop rfl (by simp [hpc, Pc.left])
  | receive =>
      simp only [hpc] at h
      split at h
      · obtain rfl := Option.some.inj h
        exact nearer_setThread hstop rfl (by simp only [hpc, Pc.left]; omega)
      · obtain rfl := Option.some.inj h
        exact nearer_setThread hstop rfl (by simp [hpc, Pc.left])
  | handle => exact nearer_handleStep hstop hpc (by simpa only [hpc] using h)
  | forTest i =>
      have hodd := hlocked.odd k i (by rw [hpc]; rfl)
      simp only [hpc] at h
      split at h
      · obtain rfl := Option.some.inj h
        apply nearer_setThread hstop rfl
        rw [hpc]
        split
        · simp only [Pc.left]
          omega
        · simp only [Pc.left]
          omega
      · obtain rfl := Option.some.inj h
        exact nearer_setThread hstop rfl (by simp only [hpc, Pc.left]; omega)
  | lock i =>
      simp only [hpc] at h
      split at h
      · cases h
      · obtain rfl := Option.some.inj h
        exact nearer_setThread hstop rfl (by simp [hpc, Pc.left])
  | send i =>
      simp only [hpc, sendStep] at h
      obtain ⟨text, -, rfl⟩ := Option.map_eq_some_iff.mp h
      split
      · exact nearer_setThread hstop rfl (by simp [hpc, Pc.left])
      · exact nearer_setThread hstop rfl (by simp [hpc, Pc.left])
  | _ =>
      simp only [hpc, Option.some.injEq] at h
      subst h
      exact nearer_setThread hstop rfl (by simp only [hpc, Pc.left]; omega)

/-! ## The end of the server -/

/-- A step of the server, not of a client. -/
def Action.isThread : Action → Bool
  | .thread _ => true
  | _ => false

lemma Nearer.sum {k : ℕ} (h : Nearer cfg s k s') (hk : k < cfg.maxClients) :
    s'.left cfg + 1 ≤ s.left cfg := by
  apply RangeSum.sum_lt_of_one hk h.left
  intro j hj
  rw [h.others j hj]

/-- `stop_threads` is not taken back. -/
lemma stopThreads_of_step {a : Action} (hstop : s.stopThreads = true)
    (hstep : step cfg s a = some s') : s'.stopThreads = true := by
  cases moves_of_step hstep with
  | service hpc hprio hu =>
      obtain ⟨info, count, rfl⟩ := service_frame hu
      exact hstop
  | stop => rfl
  | _ => exact hstop

lemma left_step {a : Action} (hlocked : Locked s) (hstop : s.stopThreads = true)
    (hstep : step cfg s a = some s') : s'.left cfg + a.isThread.toNat ≤ s.left cfg := by
  by_cases ha : ∃ k, a = .thread k
  · obtain ⟨k, rfl⟩ := ha
    obtain ⟨hk, hthread⟩ := Option.ite_none_right_eq_some.mp hstep
    exact (nearer_threadStep hlocked hstop hthread).sum hk
  · obtain ⟨hthread, -⟩ := client_frame hstep fun k hk => ha ⟨k, hk⟩
    have hclient : a.isThread = false := by
      cases a with
      | thread k => exact absurd ⟨k, rfl⟩ ha
      | _ => rfl
    rw [hclient, State.left, State.left, hthread]
    exact le_rfl

lemma State.left_le (s : State) : s.left cfg ≤ cfg.maxClients * (4 * cfg.maxClients + 7) := by
  calc
    s.left cfg ≤ ∑ _k ∈ range cfg.maxClients, (7 + 4 * cfg.maxClients) :=
      sum_le_sum fun k _ => Pc.left_le _ _
    _ = cfg.maxClients * (4 * cfg.maxClients + 7) := by
      rw [sum_const_nat fun _ _ => rfl, card_range, Nat.add_comm]

/-- **The end of the server.**  Once `stop_threads` is set, in any order of the steps and whatever
the clients do: the threads take a bounded number of steps, until all have exited some thread
can go on, and then no mutex is locked. -/
theorem server_stops (hstack : ∀ k, cfg.stack k = List.replicate qSize 0)
    (h : Reach (step cfg) Anything (init cfg) s) (hstop : s.stopThreads = true)
    {acts : List Action} {t : State} (hexec : exec (step cfg) s acts = some t) :
    acts.countP Action.isThread ≤ cfg.maxClients * (4 * cfg.maxClients + 7) ∧
      ((∃ k < cfg.maxClients, ∃ t', step cfg t (.thread k) = some t') ∨
        ∀ k < cfg.maxClients, (t.thread k).pc = .exited ∧
          t.mutexQues (2 * k) = false ∧ t.mutexQues (2 * k + 1) = false) := by
  have hreach : Reach (step cfg) Anything (init cfg) t := h.trans (Reach.of_exec hexec)
  have hlocked := (faithful_of_reach hreach).1.locked
  refine ⟨?_, ?_⟩
  · have hcount : (Locked t ∧ t.stopThreads = true) ∧
        t.left cfg + acts.countP Action.isThread ≤ s.left cfg := by
      refine rank_of_exec (I := fun u => Locked u ∧ u.stopThreads = true) ?_
        ⟨(faithful_of_reach h).1.locked, hstop⟩ hexec
      rintro u a v ⟨hlocked, hustop⟩ hstep
      exact ⟨⟨locked_step hlocked hstep, stopThreads_of_step hustop hstep⟩,
        left_step hlocked hustop hstep⟩
    have hbound : s.left cfg ≤ _ := s.left_le
    omega
  by_cases hall : ∀ k < cfg.maxClients, (t.thread k).pc = .exited
  · refine Or.inr fun k hk => ⟨hall k hk, ?_, ?_⟩
    · rw [hlocked.own k, hall k hk]
      rfl
    · by_contra hlent
      obtain ⟨j, hj, hholds⟩ := lent_of_reach hreach (2 * k + 1) (by omega)
        ((Bool.not_eq_false _).mp hlent)
      rw [hall j hj] at hholds
      cases hholds
  · obtain ⟨k, hk⟩ := not_forall.mp hall
    obtain ⟨hk, hruns⟩ := Classical.not_imp.mp hk
    exact Or.inl (exists_threadStep hstack hreach hk hruns)

/-- The server is stopped while it sends a text on. -/
theorem server_stops_first_text : ∃ s t,
    exec (step twoClients) (init twoClients) (firstText ++ [.stop]) = some s ∧
      exec (step twoClients) s [.thread 0] = some t ∧
      ((∃ k < 2, ∃ t', step twoClients t (.thread k) = some t') ∨
        ∀ k < 2, (t.thread k).pc = .exited ∧
          t.mutexQues (2 * k) = false ∧ t.mutexQues (2 * k + 1) = false) := by
  have hrun : ((exec (step twoClients) (init twoClients) (firstText ++ [.stop])).bind fun s =>
      if s.stopThreads = true then exec (step twoClients) s [.thread 0] else none).isSome =
        true := by
    decide +kernel
  obtain ⟨t, ht⟩ := Option.isSome_iff_exists.mp hrun
  obtain ⟨s, hs, ht⟩ := Option.bind_eq_some_iff.mp ht
  obtain ⟨hstop, ht⟩ := Option.ite_none_right_eq_some.mp ht
  exact ⟨s, t, hs, ht, (server_stops (fun _ => rfl) (Reach.of_exec hs) hstop ht).2⟩

end QueueChat
end EltSummer
