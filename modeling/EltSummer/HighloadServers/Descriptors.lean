import EltSummer.HighloadServers.SlotFlight

/-!
# Descriptors of the producer-consumer server

Two laws about the life of an accepted descriptor, each with the run on which the server
breaks it and the guard under which it holds.

* A worker closes the descriptor it served, once, and nobody overwrites an entry while a
  worker still works for it (`SafeStep`).  The table is reused after
  `start_alloc_size - 1` accepts whether or not the slots are free: with a table of two
  slots the second client already takes the first one's place
  (`reuse_closes_foreign_descriptor`).  With every reused slot at rest the law holds
  (`safeStep_of_slotAtRest`).
* Every open connection is with `main`, in the queue or with a worker (`Accounted`).  The
  queue takes ten messages and the result of `mq_send` is ignored, so the eleventh waiting
  client is forgotten (`eleventh_connection_lost`).  With room at every send, and reused
  slots at rest, the law holds (`accounted_of_room`).
-/

namespace EltSummer
namespace ProducerConsumer

open Interleaving SlotTable

/-! ## Closing what was served -/

/-- What the next step must respect. -/
structure SafeStep (s : State) (a : Action) : Prop where
  /-- A worker closes exactly the descriptor it received from and answered. -/
  closesServed : ∀ w interrupted, a = .worker w interrupted → (s.worker w).pc = .close →
    s.clientsFd (s.worker w).cliFdNoFromQue = (s.worker w).received ∧
      s.clientsFd (s.worker w).cliFdNoFromQue = (s.worker w).answered
  /-- What it closes is an open connection: no descriptor is closed twice. -/
  closesOpen : ∀ w interrupted, a = .worker w interrupted → (s.worker w).pc = .close →
    s.clientsFd (s.worker w).cliFdNoFromQue ∈ s.conns
  /-- `accept` does not overwrite an entry a worker still works for. -/
  keepsEntries : ∀ fd, a = .accept fd → ∀ w, ¬ (s.worker w).WorksFor s.count

/-- **Descriptors are closed by those who served them**, once each, in every run in which
`accept` stores into slots at rest only. -/
theorem safeStep_of_slotAtRest (cfg : Config) {s : State} {a : Action}
    (h : Reach (step cfg) SlotAtRest init s) (hok : SlotAtRest s a) : SafeStep s a := by
  have hinv := inv_of_reach h
  refine ⟨fun w _ _ hpc => ?_, fun w _ _ hpc => ?_, ?_⟩
  · have hc := hinv.consistent w
    have hfd := hc.clientFd (by simp [hpc])
    have hrec := hc.received (by simp [hpc])
    have hans := hc.answered hpc
    exact ⟨by rw [hrec, hfd], by rw [hans, hfd]⟩
  · obtain ⟨t, htr, hok'⟩ := hinv.leases
    have := hok'.entry_open _ _ (htr.serving hpc)
    rwa [htr.entry, htr.openSet] at this
  · rintro fd rfl
    exact hok.2

/-- The turn of `main` that accepts descriptor `fd`. -/
def acceptTurn (fd : ℕ) : List Action :=
  [.head, .select true, .accept (some fd), .mqSend, .bump, .wrap]

/-- A table of two slots has one that is used.  Client 5 is served and closed in it, client 6 is
accepted into it, and the worker goes as far as its `close`. -/
def reusedSlotRun : List Action :=
  acceptTurn 5 ++ List.replicate 11 (.worker 0 false) ++ acceptTurn 6 ++
    List.replicate 7 (.worker 0 false)

/-- The worker closes client 6 in the slot that client 5 had. -/
theorem safeStep_reused_slot : ∃ s, exec (step ⟨2, 1⟩) init reusedSlotRun = some s ∧
    (s.worker 0).pc = .close ∧ s.clientsFd (s.worker 0).cliFdNoFromQue = 6 ∧
      SafeStep s (.worker 0 false) := by
  have hguarded : Guarded (step ⟨2, 1⟩) (CreatedAtRest ⟨2, 1⟩) init reusedSlotRun = true := by
    decide +kernel
  have hrun : (exec (step ⟨2, 1⟩) init reusedSlotRun).map (fun s => ((s.worker 0).pc,
      s.clientsFd (s.worker 0).cliFdNoFromQue)) = some (.close, 6) := by
    decide +kernel
  obtain ⟨s, hs, hreach⟩ := Reach.of_guarded hguarded
  rw [hs, Option.map_some, Option.some.injEq, Prod.mk.injEq] at hrun
  refine ⟨s, hs, hrun.1, hrun.2, safeStep_of_slotAtRest ⟨2, 1⟩ ?_ trivial⟩
  exact hreach.weaken_along fun _ _ h hok => slotAtRest_of_created h hok

/-- Two accepts into a table of two slots, with one worker in between: client 5 is accepted,
received from, and its entry overwritten by client 6 before the worker closes it. -/
def reuseRun : List Action :=
  acceptTurn 5 ++ List.replicate 6 (.worker 0 false) ++
    [.head, .select true, .accept (some 6)] ++
    [.worker 0 false]

/-- After `reuseRun` the worker is about to close descriptor 6, having served 5. -/
theorem reuse_closes_foreign_descriptor :
    ¬ ∀ (cfg : Config) (s : State) (a : Action), 2 ≤ cfg.startAllocSize →
      Reach (step cfg) Anything init s → (step cfg s a).isSome → SafeStep s a := by
  intro hclaim
  have hrun : (exec (step ⟨2, 1⟩) init reuseRun).map (fun s => ((s.worker 0).pc,
      (s.worker 0).received, s.clientsFd (s.worker 0).cliFdNoFromQue,
      (step ⟨2, 1⟩ s (.worker 0 false)).isSome)) = some (.close, 5, 6, true) := by
    decide +kernel
  obtain ⟨s, hs, hsummary⟩ := Option.map_eq_some_iff.mp hrun
  simp only [Prod.mk.injEq] at hsummary
  obtain ⟨hpc, hrec, hentry, henabled⟩ := hsummary
  have hsafe := hclaim ⟨2, 1⟩ s (.worker 0 false) le_rfl (Reach.of_exec hs) henabled
  have := (hsafe.closesServed 0 false rfl hpc).1
  rw [hentry, hrec] at this
  simp at this

/-! ## No connection forgotten -/

/-- `main` is processing the connection in its current turn. -/
def InTurn (s : State) (c : ℤ) : Prop :=
  ((s.mainPc = .mqSend ∨ s.mainPc = .bump) ∧ s.clientsFd s.count = c) ∨
    (s.mainPc = .wrap ∧ s.clientsFd (s.count - 1) = c)

/-- Every open connection is being processed by `main`, named by a message in the queue, or
held by a worker. -/
def Accounted (s : State) : Prop :=
  ∀ c ∈ s.conns, InTurn s c ∨ (∃ i ∈ s.que, s.clientsFd i = c) ∨
    ∃ w i, (s.worker w).Serves i ∧ s.clientsFd i = c

/-- The guard: `accept` stores into slots at rest and `mq_send` finds room. -/
def RoomAndRest (s : State) (a : Action) : Prop :=
  SlotAtRest s a ∧ (a = .mqSend → s.que.length < maxMsg)

/-- Only a send to a full queue gives a connection up. -/
lemma lost_step {cfg : Config} {s s' : State} {a : Action} (h : step cfg s a = some s')
    (hroom : a = .mqSend → s.que.length < maxMsg) : s'.lost = s.lost := by
  cases a with
  | keyboard =>
      obtain rfl := Option.some.inj h
      rfl
  | worker w interrupted =>
      simp only [step, Option.ite_none_right_eq_some] at h
      obtain ⟨-, h⟩ := h
      cases hpc : (s.worker w).pc with
      | receive =>
          simp only [workerStep, hpc] at h
          split at h
          · obtain rfl := Option.some.inj h
            rfl
          · obtain rfl := Option.some.inj h
            rfl
      | fill =>
          simp only [workerStep, hpc, Option.ite_none_right_eq_some, Option.some.injEq] at h
          obtain ⟨-, rfl⟩ := h
          rfl
      | exited => simp [workerStep, hpc] at h
      | _ =>
          simp only [workerStep, hpc, Option.some.injEq] at h
          subst h
          rfl
  | mqSend =>
      cases hpc : s.mainPc <;> simp only [step, mainStep, hpc, reduceCtorEq] at h
      rw [if_pos (hroom rfl)] at h
      obtain rfl := Option.some.inj h
      rfl
  | head =>
      cases hpc : s.mainPc <;> simp only [step, mainStep, hpc, reduceCtorEq] at h
      split at h <;> (obtain rfl := Option.some.inj h; rfl)
  | select ready =>
      cases hpc : s.mainPc <;> simp only [step, mainStep, hpc, reduceCtorEq] at h
      obtain rfl := Option.some.inj h
      rfl
  | accept fd =>
      cases hpc : s.mainPc <;> simp only [step, mainStep, hpc, reduceCtorEq] at h
      cases fd <;> simp only [acceptStep, Option.ite_none_right_eq_some] at h <;>
        (obtain rfl := Option.some.inj h.2; rfl)
  | bump =>
      cases hpc : s.mainPc <;> simp only [step, mainStep, hpc, reduceCtorEq] at h
      obtain rfl := Option.some.inj h
      rfl
  | wrap =>
      cases hpc : s.mainPc <;> simp only [step, mainStep, hpc, reduceCtorEq] at h
      obtain rfl := Option.some.inj h
      rfl

/-- **No connection is forgotten** in a run in which every `mq_send` finds room and `accept`
stores into slots at rest only. -/
theorem accounted_of_room (cfg : Config) {s : State}
    (h : Reach (step cfg) RoomAndRest init s) : Accounted s := by
  obtain ⟨⟨t, htr, hok⟩, -, -, -⟩ := inv_of_reach (h.weaken fun _ _ hok => hok.1)
  have hlost : s.lost = ∅ := h.invariant (I := fun u => u.lost = ∅) rfl
    fun _ _ _ hI hok hstep => (lost_step hstep hok.2).trans hI
  intro c hc
  rcases hok.covered c (htr.openSet ▸ hc) with hgone | ⟨i, p, hlive, hentry⟩
  · rw [htr.lost, hlost] at hgone
    simp at hgone
  · rw [htr.entry] at hentry
    cases p with
    | main =>
        obtain ⟨hpc, rfl⟩ := (htr.main i).mp hlive
        exact Or.inl (Or.inl ⟨Or.inl hpc, hentry⟩)
    | queue => exact Or.inr (Or.inl ⟨i, (htr.queue i).mp hlive, hentry⟩)
    | worker w => exact Or.inr (Or.inr ⟨w, i, (htr.worker i w).mp hlive, hentry⟩)

theorem accounted_of_room_one_client :
    ∃ s, exec (step ⟨50, 1⟩) init ((acceptTurn 5).take 4) = some s ∧ Accounted s := by
  refine ⟨_, rfl, accounted_of_room ⟨50, 1⟩ ?_⟩
  refine (((((Reach.refl _ _ _).tail (a := .head) ⟨trivial, nofun⟩ rfl).tail
    (a := .select true) ⟨trivial, nofun⟩ rfl).tail (a := .accept (some 5))
      ⟨⟨?_, fun w => ?_⟩, nofun⟩ rfl).tail (a := .mqSend) ⟨trivial, fun _ => ?_⟩ rfl)
  · simp [init, maxMsg]
  · simp [init]
  · simp [init, Worker.WorksFor]

/-- Eleven clients connect before a worker gets to run. -/
def elevenClients : List Action := ((List.range 11).map fun k => acceptTurn (5 + k)).flatten

/-- On a schedule of `main` alone no worker has moved. -/
lemma worker_exec_main {cfg : Config} {s s' : State} {as : List Action}
    (h : exec (step cfg) s as = some s') (hmain : ∀ w b, .worker w b ∉ as) :
    s'.worker = s.worker := by
  have hreach : Reach (step cfg) (fun _ a => ∀ w b, a ≠ .worker w b) s s' :=
    Reach.of_exec_guarded h fun u a hu w b hab => hmain w b (hab ▸ hu.mem)
  refine hreach.invariant (I := fun u => u.worker = s.worker) rfl fun u a t hI hok hstep => ?_
  cases a with
  | worker w b => exact absurd rfl (hok w b)
  | keyboard =>
      obtain rfl := Option.some.inj hstep
      exact hI
  | _ => exact (frame_mainStep hstep).1.trans hI

/-- After `elevenClients` the queue holds ten indices, and the connection with descriptor 15
is nowhere. -/
theorem eleventh_connection_lost :
    ¬ ∀ (cfg : Config) (s : State), 2 ≤ cfg.startAllocSize →
      Reach (step cfg) Anything init s → Accounted s := by
  intro hclaim
  have hrun : (exec (step ⟨50, 1⟩) init elevenClients).map (fun s => (s.mainPc,
      decide (15 ∈ s.conns), s.que.map s.clientsFd)) =
      some (.head, true, [5, 6, 7, 8, 9, 10, 11, 12, 13, 14]) := by
    decide +kernel
  obtain ⟨s, hs, hsummary⟩ := Option.map_eq_some_iff.mp hrun
  have hworkers : s.worker = init.worker :=
    worker_exec_main hs (by simp [elevenClients, acceptTurn])
  simp only [Prod.mk.injEq] at hsummary
  obtain ⟨hpc, hconn, hque⟩ := hsummary
  rcases hclaim ⟨50, 1⟩ s (by decide) (Reach.of_exec hs) 15 (of_decide_eq_true hconn) with
    hturn | ⟨i, hi, hentry⟩ | ⟨w, i, hserves, -⟩
  · simp [InTurn, hpc] at hturn
  · have : (15 : ℤ) ∈ s.que.map s.clientsFd := hentry ▸ List.mem_map_of_mem hi
    rw [hque] at this
    simp at this
  · rw [hworkers] at hserves
    simp [init, Worker.Serves, Worker.WorksFor] at hserves

end ProducerConsumer
end EltSummer
