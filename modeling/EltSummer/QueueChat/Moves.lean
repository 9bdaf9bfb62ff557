import EltSummer.QueueChat.Machine

/-!
# What the steps of the chat do

`moves_of_step` takes the step function apart, once: a step is a control step of a server
thread, which touches nothing but its program counter and the mutexes, or one of the moves
that do something.

The mutex of an even queue is locked by its own thread only, so `trylock` never fails
(`Locked`).  That makes each slot's queue a lane from the client's sends to the thread's
handling (`lane_move`).
-/

namespace EltSummer
namespace QueueChat

open Interleaving PosixQueue CString

variable {cfg : Config} {s s' : State}

/-! ## The moves -/

/-- A control step of server thread `k`. -/
inductive Control (cfg : Config) (s : State) (k : ℕ) : Pc → (ℕ → Bool) → Pc → Prop
  | stopped : Control cfg s k .head s.mutexQues .exited
  | enter : Control cfg s k .head s.mutexQues .trylock
  | busy (h : s.mutexQues (2 * k) = true) : Control cfg s k .trylock s.mutexQues .handle
  | acquire (h : s.mutexQues (2 * k) = false) :
      Control cfg s k .trylock (Function.update s.mutexQues (2 * k) true) .receive
  | empty : Control cfg s k .receive s.mutexQues .retry
  | retry : Control cfg s k .retry (Function.update s.mutexQues (2 * k) false) .head
  | unlock : Control cfg s k .unlock (Function.update s.mutexQues (2 * k) false) .handle
  | toLock {i} (hi : i < cfg.maxClients * 2) (hown : i ≠ 2 * k + 1) :
      Control cfg s k (.forTest i) s.mutexQues (.lock i)
  | skip {i} (hi : i < cfg.maxClients * 2) (hown : i = 2 * k + 1) :
      Control cfg s k (.forTest i) s.mutexQues (.forTest (i + 2))
  | lock {i} (h : s.mutexQues i = false) :
      Control cfg s k (.lock i) (Function.update s.mutexQues i true) (.send i)
  | release {i} :
      Control cfg s k (.release i) (Function.update s.mutexQues i false) (.forTest (i + 2))

/-- What a broadcast puts into a queue. -/
def Thread.copy (t : Thread) (text : List UInt8) : Msg :=
  { t.got with prio := prioRegularMsg, text := text }

/-- The locals behind a send to queue `i`. -/
def Thread.visit (t : Thread) (s : State) (i : ℕ) : Thread :=
  { t with
    pc := .release i
    visits := t.visits ++ [(i / 2, decide ((s.clientsInfo (i / 2)).flagConnect = 1))] }

/-- What a step can do. -/
inductive Moves (cfg : Config) (s : State) : Action → State → Prop
  | control {k pc mutex} (h : Control cfg s k (s.thread k).pc mutex pc) :
      Moves cfg s (.thread k)
        ({ s with mutexQues := mutex }.setThread k { s.thread k with pc := pc })
  | receive {k m q} (hpc : (s.thread k).pc = .receive)
      (hq : (s.ques (2 * k)).receive = some (m, q)) :
      Moves cfg s (.thread k) ((s.setQueue (2 * k) q).setThread k { s.thread k with
        pc := .unlock, msgBuff := received (s.thread k).msgBuff m.text, prio := m.prio,
        got := m })
  | service {k u} (hpc : (s.thread k).pc = .handle) (hprio : (s.thread k).prio = prioServiceMsg)
      (hu : (s.markHandled k (s.thread k).got).service k (s.thread k).msgBuff = some u) :
      Moves cfg s (.thread k) (u.setThread k { s.thread k with pc := .clear })
  | regular {k text} (hpc : (s.thread k).pc = .handle)
      (hprio : (s.thread k).prio = prioRegularMsg)
      (htext : stringAt (s.thread k).msgBuff 0 = some text) :
      Moves cfg s (.thread k) ((s.markHandled k (s.thread k).got).setThread k { s.thread k with
        pc := .forTest 1, visits := [] })
  | other {k} (hpc : (s.thread k).pc = .handle) (hservice : (s.thread k).prio ≠ prioServiceMsg)
      (hregular : (s.thread k).prio ≠ prioRegularMsg) :
      Moves cfg s (.thread k)
        ((s.markHandled k (s.thread k).got).setThread k { s.thread k with pc := .clear })
  | loopEnd {k i} (hpc : (s.thread k).pc = .forTest i) (hi : ¬ i < cfg.maxClients * 2) :
      Moves cfg s (.thread k) (s.setThread k { s.thread k with pc := .clear })
  | cast {k i text q} (hpc : (s.thread k).pc = .send i)
      (htext : stringAt (s.thread k).msgBuff 0 = some text)
      (hq : (s.ques i).send ((s.thread k).copy text) = some q) :
      Moves cfg s (.thread k) ((s.setQueue i q).setThread k ((s.thread k).visit s i))
  | castFull {k i text} (hpc : (s.thread k).pc = .send i)
      (htext : stringAt (s.thread k).msgBuff 0 = some text)
      (hq : (s.ques i).send ((s.thread k).copy text) = none) :
      Moves cfg s (.thread k) (s.setThread k ((s.thread k).visit s i))
  | clear {k} (hpc : (s.thread k).pc = .clear) :
      Moves cfg s (.thread k) (s.setThread k { s.thread k with
        pc := .head, msgBuff := List.replicate qSize 0 })
  | stop : Moves cfg s .stop { s with stopThreads := true }
  | start {k pid q} (hclient : s.client k = .out)
      (hq : (s.ques (2 * k)).send
        (pidMsg k (s.sent k).length (s.sessions k).length pid .start) = some q) :
      Moves cfg s (.start k pid) { s.setQueue (2 * k) q with
        sent := Function.update s.sent k
          (s.sent k ++ [pidMsg k (s.sent k).length (s.sessions k).length pid .start])
        client := Function.update s.client k .running
        sessions := Function.update s.sessions k (s.sessions k ++ [⟨pid, false⟩]) }
  | say {k text q} (hclient : s.client k ≠ .out)
      (hq : (s.ques (2 * k)).send
        (chatMsg k (s.sent k).length ((s.sessions k).length - 1) text) = some q) :
      Moves cfg s (.say k text) { s.setQueue (2 * k) q with
        sent := Function.update s.sent k
          (s.sent k ++ [chatMsg k (s.sent k).length ((s.sessions k).length - 1) text]) }
  | quit {k earlier x q} (hclient : s.client k = .running) (hx : s.sessions k = earlier ++ [x])
      (hq : (s.ques (2 * k)).send
        (pidMsg k (s.sent k).length earlier.length x.pid .farewell) = some q) :
      Moves cfg s (.quit k) { s.setQueue (2 * k) q with
        sent := Function.update s.sent k
          (s.sent k ++ [pidMsg k (s.sent k).length earlier.length x.pid .farewell])
        client := Function.update s.client k .leaving
        sessions := Function.update s.sessions k (earlier ++ [⟨x.pid, true⟩]) }
  | quitFull {k} (hclient : s.client k = .running) :
      Moves cfg s (.quit k) { s with client := Function.update s.client k .leaving }
  | leave {k a} (ha : ∀ l, a ≠ .thread l) :
      Moves cfg s a { s with client := Function.update s.client k .out }
  | take {k m q} (hq : (s.ques (2 * k + 1)).receive = some (m, q)) :
      Moves cfg s (.take k) { s.setQueue (2 * k + 1) q with
        taken := Function.update s.taken k (s.taken k ++ [m]) }
  | nothing {a} (ha : ∀ l, a ≠ .thread l) : Moves cfg s a s

lemma moves_of_threadStep {k : ℕ} (h : threadStep cfg s k (s.thread k) = some s') :
    Moves cfg s (.thread k) s' := by
  have control : ∀ {pc mutex}, Control cfg s k (s.thread k).pc mutex pc →
      some ({ s with mutexQues := mutex }.setThread k { s.thread k with pc := pc }) = some s' →
      Moves cfg s (.thread k) s' := fun hc he => Option.some.inj he ▸ .control hc
  cases hpc : (s.thread k).pc with
  | head =>
      simp only [threadStep, hpc] at h
      refine control (hpc ▸ ?_) h
      split
      · exact .stopped
      · exact .enter
  | trylock =>
      simp only [threadStep, hpc] at h
      split at h
      · rename_i hm
        exact control (hpc ▸ .busy hm) h
      · rename_i hm
        exact control (hpc ▸ .acquire (by simpa using hm)) h
  | receive =>
      simp only [threadStep, hpc] at h
      split at h
      · exact control (hpc ▸ .empty) h
      · rename_i hq
        obtain rfl := Option.some.inj h
        exact .receive hpc hq
  | retry =>
      simp only [threadStep, hpc] at h
      exact control (hpc ▸ .retry) h
  | unlock =>
      simp only [threadStep, hpc] at h
      exact control (hpc ▸ .unlock) h
  | handle =>
      simp only [threadStep, hpc, handleStep] at h
      split at h
      · rename_i hprio
        obtain ⟨u, hu, rfl⟩ := Option.map_eq_some_iff.mp h
        exact .service hpc hprio hu
      · rename_i hservice
        split at h
        · rename_i hprio
          obtain ⟨text, htext, rfl⟩ := Option.map_eq_some_iff.mp h
          exact .regular hpc hprio htext
        · rename_i hregular
          obtain rfl := Option.some.inj h
          exact .other hpc hservice hregular
  | forTest i =>
      simp only [threadStep, hpc] at h
      split at h
      · rename_i hi
        refine control (hpc ▸ ?_) h
        by_cases hown : i = 2 * k + 1
        · rw [if_neg (not_not.mpr hown)]
          exact .skip hi hown
        · rw [if_pos hown]
          exact .toLock hi hown
      · rename_i hi
        obtain rfl := Option.some.inj h
        exact .loopEnd hpc hi
  | lock i =>
      simp only [threadStep, hpc] at h
      split at h
      · simp at h
      · rename_i hm
        exact control (hpc ▸ .lock (by simpa using hm)) h
  | send i =>
      simp only [threadStep, hpc, sendStep] at h
      obtain ⟨text, htext, rfl⟩ := Option.map_eq_some_iff.mp h
      split
      · rename_i hq
        exact .cast hpc htext hq
      · rename_i hq
        exact .castFull hpc htext hq
  | release i =>
      simp only [threadStep, hpc] at h
      exact control (hpc ▸ .release) h
  | clear =>
      simp only [threadStep, hpc, Option.some.injEq] at h
      subst h
      exact .clear hpc
  | exited => simp [threadStep, hpc] at h

/-- Every step is one of the moves. -/
theorem moves_of_step {a : Action} (h : step cfg s a = some s') : Moves cfg s a s' := by
  cases a with
  | thread k =>
      simp only [step, Option.ite_none_right_eq_some] at h
      exact moves_of_threadStep h.2
  | stop =>
      obtain rfl := Option.some.inj h
      exact .stop
  | start k pid =>
      simp only [step, Option.ite_none_right_eq_some, Option.some.injEq] at h
      obtain ⟨⟨-, hclient⟩, rfl⟩ := h
      unfold startStep
      cases hq : (s.ques (2 * k)).send
          (pidMsg k (s.sent k).length (s.sessions k).length pid .start) with
      | none =>
          rw [State.post, hq]
          exact .nothing nofun
      | some q =>
          rw [State.post, hq]
          exact .start hclient hq
  | say k text =>
      simp only [step, Option.ite_none_right_eq_some, Option.some.injEq] at h
      obtain ⟨⟨-, hclient⟩, rfl⟩ := h
      unfold sayStep
      cases hq : (s.ques (2 * k)).send
          (chatMsg k (s.sent k).length ((s.sessions k).length - 1) text) with
      | none =>
          rw [State.post, hq]
          exact .nothing nofun
      | some q =>
          rw [State.post, hq]
          exact .say hclient hq
  | quit k =>
      simp only [step, Option.ite_none_right_eq_some] at h
      obtain ⟨⟨-, hclient⟩, h⟩ := h
      obtain ⟨x, hx, rfl⟩ := Option.map_eq_some_iff.mp h
      have hsessions : s.sessions k = (s.sessions k).dropLast ++ [x] :=
        (List.dropLast_append_getLast? x hx).symm
      unfold quitStep
      cases hq : (s.ques (2 * k)).send
          (pidMsg k (s.sent k).length (s.sessions k).dropLast.length x.pid .farewell) with
      | none =>
          rw [State.post, hq]
          exact .quitFull hclient
      | some q =>
          rw [State.post, hq]
          exact .quit hclient hsessions hq
  | finish k =>
      simp only [step, Option.ite_none_right_eq_some, Option.some.injEq] at h
      obtain ⟨-, rfl⟩ := h
      exact .leave nofun
  | kill k =>
      simp only [step, Option.ite_none_right_eq_some, Option.some.injEq] at h
      obtain ⟨-, rfl⟩ := h
      exact .leave nofun
  | take k =>
      simp only [step, Option.ite_none_right_eq_some, Option.some.injEq] at h
      obtain ⟨-, rfl⟩ := h
      unfold takeStep
      split
      · rename_i hq
        exact .take hq
      · exact .nothing nofun

/-! ## Mutexes -/

/-- The thread has locked the mutex of its own queue. -/
def Pc.ownsMutex : Pc → Bool
  | .receive | .retry | .unlock => true
  | _ => false

/-- The loop variable of the broadcast. -/
def Pc.index : Pc → Option ℕ
  | .forTest i | .lock i | .send i | .release i => some i
  | _ => none

/-- A thread is the only one to lock its own mutex, and the broadcast runs over the odd
queues. -/
structure Locked (s : State) : Prop where
  own : ∀ k, s.mutexQues (2 * k) = (s.thread k).pc.ownsMutex
  odd : ∀ k i, (s.thread k).pc.index = some i → i % 2 = 1

@[simp] lemma setThread_thread (k : ℕ) (t : Thread) (j : ℕ) :
    (s.setThread k t).thread j = if j = k then t else s.thread j :=
  Function.update_apply s.thread k t j

lemma locked_init (cfg : Config) : Locked (init cfg) := by
  refine ⟨fun k => rfl, fun k i h => ?_⟩
  simp [init, Pc.index] at h

/-- A step of thread `k` that leaves the other even mutexes alone. -/
lemma Locked.thread (h : Locked s) {k : ℕ} {t : Thread} {u : State}
    (hthread : u.thread = s.thread)
    (hmutex : ∀ j ≠ k, u.mutexQues (2 * j) = s.mutexQues (2 * j))
    (hown : u.mutexQues (2 * k) = t.pc.ownsMutex)
    (hodd : ∀ i, t.pc.index = some i → i % 2 = 1) : Locked (u.setThread k t) := by
  refine ⟨fun j => ?_, fun j i hi => ?_⟩
  · rw [setThread_thread]
    split
    · rename_i hj
      exact hj ▸ hown
    · rename_i hj
      rw [hthread]
      exact (hmutex j hj).trans (h.own j)
  · rw [setThread_thread] at hi
    split at hi
    · exact hodd i hi
    · rw [hthread] at hi
      exact h.odd j i hi

/-- A control step keeps the loop variable odd and accounts for the mutex. -/
lemma Control.locked {k : ℕ} {pc : Pc} {mutex : ℕ → Bool} (h : Locked s)
    (hc : Control cfg s k (s.thread k).pc mutex pc) :
    (∀ j ≠ k, mutex (2 * j) = s.mutexQues (2 * j)) ∧ mutex (2 * k) = pc.ownsMutex ∧
      ∀ i, pc.index = some i → i % 2 = 1 := by
  have hown := h.own k
  have hodd := h.odd k
  generalize (s.thread k).pc = pc₀ at hc hown hodd
  cases hc with
  | stopped => exact ⟨fun _ _ => rfl, hown, nofun⟩
  | enter => exact ⟨fun _ _ => rfl, hown, nofun⟩
  | busy hm => exact ⟨fun _ _ => rfl, hown, nofun⟩
  | acquire hm =>
      exact ⟨fun j hj => Function.update_of_ne (by omega) _ _, by simp [Pc.ownsMutex], nofun⟩
  | empty => exact ⟨fun _ _ => rfl, hown, nofun⟩
  | retry =>
      exact ⟨fun j hj => Function.update_of_ne (by omega) _ _, by simp [Pc.ownsMutex], nofun⟩
  | unlock =>
      exact ⟨fun j hj => Function.update_of_ne (by omega) _ _, by simp [Pc.ownsMutex], nofun⟩
  | toLock hi hne => exact ⟨fun _ _ => rfl, hown, fun _ h => hodd _ h⟩
  | @skip i hi hne =>
      refine ⟨fun _ _ => rfl, hown, fun i' hi' => ?_⟩
      obtain rfl := Option.some.inj hi'
      have := hodd i rfl
      omega
  | @lock i hm =>
      have := hodd i rfl
      exact ⟨fun j _ => Function.update_of_ne (by omega) _ _,
        (Function.update_of_ne (by omega) _ _).trans hown, fun _ h => hodd _ h⟩
  | @release i =>
      have := hodd i rfl
      refine ⟨fun j _ => Function.update_of_ne (by omega) _ _,
        (Function.update_of_ne (by omega) _ _).trans hown, fun i' hi' => ?_⟩
      obtain rfl := Option.some.inj hi'
      omega

/-- `service` leaves everything but the record and the count alone. -/
lemma service_frame {k : ℕ} {buff : List UInt8} {u : State}
    (h : s.service k buff = some u) : ∃ info count,
      u = { s with clientsInfo := info, clientsConnectedCount := count } := by
  unfold State.service at h
  split at h
  · obtain ⟨pid, -, rfl⟩ := Option.map_eq_some_iff.mp h
    exact ⟨_, _, rfl⟩
  · split at h
    · exact ⟨_, _, (Option.some.inj h).symm⟩
    · exact ⟨_, _, (Option.some.inj h).symm⟩

theorem locked_step {a : Action} (h : Locked s) (hstep : step cfg s a = some s') :
    Locked s' := by
  cases moves_of_step hstep with
  | control hc =>
      obtain ⟨hmutex, hown, hodd⟩ := hc.locked h
      exact h.thread rfl hmutex hown hodd
  | receive hpc hq =>
      exact h.thread rfl (fun _ _ => rfl) ((h.own _).trans (by rw [hpc]; rfl)) nofun
  | service hpc hprio hu =>
      obtain ⟨info, count, rfl⟩ := service_frame hu
      exact h.thread rfl (fun _ _ => rfl) ((h.own _).trans (by rw [hpc]; rfl)) nofun
  | regular hpc hprio htext =>
      refine h.thread rfl (fun _ _ => rfl) ((h.own _).trans (by rw [hpc]; rfl)) fun i hi => ?_
      obtain rfl := Option.some.inj hi
      rfl
  | other hpc hservice hregular =>
      exact h.thread rfl (fun _ _ => rfl) ((h.own _).trans (by rw [hpc]; rfl)) nofun
  | loopEnd hpc hi =>
      exact h.thread rfl (fun _ _ => rfl) ((h.own _).trans (by rw [hpc]; rfl)) nofun
  | cast hpc htext hq =>
      exact h.thread rfl (fun _ _ => rfl) ((h.own _).trans (by rw [hpc]; rfl))
        fun i hi => h.odd _ i (by rw [hpc]; exact hi)
  | castFull hpc htext hq =>
      exact h.thread rfl (fun _ _ => rfl) ((h.own _).trans (by rw [hpc]; rfl))
        fun i hi => h.odd _ i (by rw [hpc]; exact hi)
  | clear hpc =>
      exact h.thread rfl (fun _ _ => rfl) ((h.own _).trans (by rw [hpc]; rfl)) nofun
  | stop => exact ⟨h.own, h.odd⟩
  | start _ _ => exact ⟨h.own, h.odd⟩
  | say _ _ => exact ⟨h.own, h.odd⟩
  | quit _ _ _ => exact ⟨h.own, h.odd⟩
  | quitFull _ => exact ⟨h.own, h.odd⟩
  | leave _ => exact ⟨h.own, h.odd⟩
  | take _ => exact ⟨h.own, h.odd⟩
  | nothing _ => exact h

/-! ## A slot's lane -/

/-- The thread has taken a message and not looked at it yet. -/
def Pc.holds : Pc → Bool
  | .unlock | .handle => true
  | _ => false

/-- The message a thread has taken and not handled. -/
def Thread.inHand (t : Thread) : List Msg := if t.pc.holds then [t.got] else []

/-- The queue of slot `k` from its client to its thread. -/
def State.lane (s : State) (k : ℕ) : Lane Msg.prio maxMsg :=
  ⟨s.sent k, s.ques (2 * k), (s.thread k).inHand, s.handled k⟩

/-- With the mutexes as they are, a control step takes nothing and handles nothing. -/
lemma Control.holds {k : ℕ} {pc : Pc} {mutex : ℕ → Bool} (h : Locked s)
    (hc : Control cfg s k (s.thread k).pc mutex pc) : pc.holds = (s.thread k).pc.holds := by
  have hown := h.own k
  generalize (s.thread k).pc = pc₀ at hc hown
  cases hc with
  | busy hm => simp [hm, Pc.ownsMutex] at hown
  | _ => rfl

lemma setThread_lane (u : State) (k : ℕ) (t : Thread) (j : ℕ) :
    (u.setThread k t).lane j =
      if j = k then ⟨u.sent k, u.ques (2 * k), t.inHand, u.handled k⟩ else u.lane j := by
  by_cases hj : j = k
  · rw [if_pos hj, hj, State.lane, setThread_thread, if_pos rfl]
    rfl
  · rw [if_neg hj, State.lane, setThread_thread, if_neg hj]
    rfl

/-- A step of thread `k` that leaves the queues of the clients and the logs alone. -/
lemma lane_stay {u : State} {k : ℕ} {t : Thread} (j : ℕ) (hsent : u.sent = s.sent)
    (hques : ∀ i, u.ques (2 * i) = s.ques (2 * i)) (hthread : u.thread = s.thread)
    (hhandled : u.handled = s.handled) (hhand : t.inHand = (s.thread k).inHand) :
    (s.lane j).Move ((u.setThread k t).lane j) := by
  have hlane : u.lane j = s.lane j := by
    simp only [State.lane, hsent, hques, hthread, hhandled]
  have : (u.setThread k t).lane j = s.lane j := by
    rw [setThread_lane]
    split
    · rename_i hj
      rw [hhand, hsent, hques, hhandled, hj]
      rfl
    · exact hlane
  exact this ▸ .stay

/-- Handling moves the message in hand to the log. -/
lemma lane_handle {u : State} {k : ℕ} {t : Thread} (j : ℕ) (hpc : (s.thread k).pc = .handle)
    (hsent : u.sent = s.sent) (hques : u.ques = s.ques) (hthread : u.thread = s.thread)
    (hhandled : u.handled = (s.markHandled k (s.thread k).got).handled)
    (ht : t.pc.holds = false) : (s.lane j).Move ((u.setThread k t).lane j) := by
  have hhand : (s.lane k).inHand = [(s.thread k).got] := by
    simp [State.lane, Thread.inHand, hpc, Pc.holds]
  rw [setThread_lane]
  by_cases hj : j = k
  · rw [if_pos hj, hj, hsent, hques, hhandled, Thread.inHand, ht, State.markHandled]
    simp only [Function.update_self]
    exact .handle hhand
  · rw [if_neg hj]
    have : u.lane j = s.lane j := by
      simp [State.lane, hsent, hques, hthread, hhandled, State.markHandled, hj]
    exact this ▸ .stay

/-- A client's send. -/
lemma lane_send {u : State} {k : ℕ} {m : Msg} {q : Queue Msg.prio maxMsg} (j : ℕ)
    (hq : (s.ques (2 * k)).send m = some q)
    (hsent : u.sent = Function.update s.sent k (s.sent k ++ [m]))
    (hques : u.ques = Function.update s.ques (2 * k) q) (hthread : u.thread = s.thread)
    (hhandled : u.handled = s.handled) : (s.lane j).Move (u.lane j) := by
  by_cases hj : j = k
  · have : u.lane j = { s.lane k with sent := (s.lane k).sent ++ [m], queue := q } := by
      simp [State.lane, hj, hsent, hques, hthread, hhandled]
    rw [this, hj]
    exact .send hq
  · have : u.lane j = s.lane j := by
      simp [State.lane, hj, hsent, hques, hthread, hhandled]
    exact this ▸ .stay

/-- **Every step is a move of each lane.** -/
theorem lane_move {a : Action} (h : Locked s) (hstep : step cfg s a = some s') (j : ℕ) :
    (s.lane j).Move (s'.lane j) := by
  cases moves_of_step hstep with
  | control hc =>
      exact lane_stay j rfl (fun _ => rfl) rfl rfl (by rw [Thread.inHand, hc.holds h]; rfl)
  | @receive k m q hpc hq =>
      have hhand : (s.lane k).inHand = [] := by
        simp [State.lane, Thread.inHand, hpc, Pc.holds]
      rw [setThread_lane]
      by_cases hj : j = k
      · rw [if_pos hj, hj]
        simp only [State.setQueue, Function.update_self]
        exact .receive hq hhand
      · rw [if_neg hj]
        have : (s.setQueue (2 * k) q).lane j = s.lane j := by
          simp [State.lane, State.setQueue, hj]
        exact this ▸ .stay
  | service hpc hprio hu =>
      obtain ⟨info, count, rfl⟩ := service_frame hu
      exact lane_handle j hpc rfl rfl rfl rfl rfl
  | regular hpc hprio htext => exact lane_handle j hpc rfl rfl rfl rfl rfl
  | other hpc hservice hregular => exact lane_handle j hpc rfl rfl rfl rfl rfl
  | loopEnd hpc hi =>
      exact lane_stay j rfl (fun _ => rfl) rfl rfl (by simp [Thread.inHand, hpc, Pc.holds])
  | @cast k i text q hpc htext hq =>
      have hodd : i % 2 = 1 := h.odd k i (by rw [hpc]; rfl)
      refine lane_stay j rfl (fun i' => ?_) rfl rfl
        (by simp [Thread.inHand, Thread.visit, hpc, Pc.holds])
      exact Function.update_of_ne (by omega) _ _
  | castFull hpc htext hq =>
      exact lane_stay j rfl (fun _ => rfl) rfl rfl
        (by simp [Thread.inHand, Thread.visit, hpc, Pc.holds])
  | clear hpc =>
      exact lane_stay j rfl (fun _ => rfl) rfl rfl (by simp [Thread.inHand, hpc, Pc.holds])
  | stop => exact .stay
  | start hclient hq => exact lane_send j hq rfl rfl rfl rfl
  | say hclient hq => exact lane_send j hq rfl rfl rfl rfl
  | quit hclient hx hq => exact lane_send j hq rfl rfl rfl rfl
  | quitFull _ => exact .stay
  | leave _ => exact .stay
  | @take k m q hq =>
      have : 2 * j ≠ 2 * k + 1 := by omega
      have hlane : ({ s.setQueue (2 * k + 1) q with
          taken := Function.update s.taken k (s.taken k ++ [m]) } : State).lane j =
          s.lane j := by
        simp [State.lane, State.setQueue, this]
      exact hlane ▸ .stay
  | nothing _ => exact .stay

/-! ## A slot's desk -/

/-- What the processes of a slot have sent, and where the present one stands. -/
structure Desk where
  sent : List Msg
  sessions : List Session
  client : Client

/-- What a process does at its desk. -/
inductive Desk.Move (k : ℕ) (d : Desk) : Desk → Prop
  | stay : Desk.Move k d d
  | start {pid} (h : d.client = .out) :
      Desk.Move k d ⟨d.sent ++ [pidMsg k d.sent.length d.sessions.length pid .start],
        d.sessions ++ [⟨pid, false⟩], .running⟩
  | say {text} (h : d.client ≠ .out) :
      Desk.Move k d { d with
        sent := d.sent ++ [chatMsg k d.sent.length (d.sessions.length - 1) text] }
  | quit {earlier x} (h : d.client = .running) (hx : d.sessions = earlier ++ [x]) :
      Desk.Move k d ⟨d.sent ++ [pidMsg k d.sent.length earlier.length x.pid .farewell],
        earlier ++ [⟨x.pid, true⟩], .leaving⟩
  | quitFull (h : d.client = .running) : Desk.Move k d { d with client := .leaving }
  | leave : Desk.Move k d { d with client := .out }

def State.desk (s : State) (k : ℕ) : Desk := ⟨s.sent k, s.sessions k, s.client k⟩

/-- **Every step is a move at each desk.** -/
theorem desk_move {a : Action} (hstep : step cfg s a = some s') (j : ℕ) :
    (s.desk j).Move j (s'.desk j) := by
  cases moves_of_step hstep with
  | service hpc hprio hu =>
      obtain ⟨info, count, rfl⟩ := service_frame hu
      exact .stay
  | @start k pid q hclient hq =>
      by_cases hj : j = k
      · subst hj
        simpa [State.desk, State.setQueue] using Desk.Move.start (d := s.desk j) hclient
      · simpa [State.desk, State.setQueue, hj] using Desk.Move.stay (d := s.desk j)
  | @say k text q hclient hq =>
      by_cases hj : j = k
      · subst hj
        simpa [State.desk, State.setQueue] using Desk.Move.say (d := s.desk j) hclient
      · simpa [State.desk, State.setQueue, hj] using Desk.Move.stay (d := s.desk j)
  | @quit k earlier x q hclient hx hq =>
      by_cases hj : j = k
      · subst hj
        simpa [State.desk, State.setQueue] using Desk.Move.quit (d := s.desk j) hclient hx
      · simpa [State.desk, State.setQueue, hj] using Desk.Move.stay (d := s.desk j)
  | @quitFull k hclient =>
      by_cases hj : j = k
      · subst hj
        simpa [State.desk] using Desk.Move.quitFull (d := s.desk j) hclient
      · simpa [State.desk, hj] using Desk.Move.stay (d := s.desk j)
  | @leave k a ha =>
      by_cases hj : j = k
      · subst hj
        simpa [State.desk] using Desk.Move.leave (d := s.desk j)
      · simpa [State.desk, hj] using Desk.Move.stay (d := s.desk j)
  | _ => exact .stay

end QueueChat
end EltSummer
