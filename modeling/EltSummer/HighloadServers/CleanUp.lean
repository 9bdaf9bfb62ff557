import EltSummer.HighloadServers.Descriptors

/-!
# What the producer-consumer server leaves open

Behind `EXIT:` `main` joins the workers, closes the queue, closes what the table still holds and
closes the server socket.  A client that waits in the queue at that moment is closed without an
answer; a client that is being served is waited for.  In the runs in which no connection is
forgotten this closes every connection, and nothing else (`cleanUp_openFds`).
-/

namespace EltSummer
namespace ProducerConsumer

open Interleaving SlotTable

/-- `if (clients_fd[i] != 0) close(clients_fd[i])`. -/
def State.closeEntry (s : State) (i : ℕ) : State :=
  if s.clientsFd i ≠ 0 then s.closeFd (s.clientsFd i) else s

/-- `main` behind the joins: the queue is descriptor 4, the server socket 3. -/
def cleanUp (cfg : Config) (s : State) : State :=
  ((List.range cfg.startAllocSize).foldl State.closeEntry (s.closeFd 4)).closeFd 3

variable {cfg : Config} {s s' : State}

lemma mem_foldl_closeEntry (is : List ℕ) (s : State) (fd : ℤ) :
    fd ∈ (is.foldl State.closeEntry s).openFds ↔
      fd ∈ s.openFds ∧ ∀ i ∈ is, s.clientsFd i = fd → fd = 0 := by
  induction is generalizing s with
  | nil => simp
  | cons i is ih =>
      have hentries : (s.closeEntry i).clientsFd = s.clientsFd := by
        unfold State.closeEntry
        split <;> rfl
      rw [List.foldl_cons, ih, hentries, List.forall_mem_cons, ← and_assoc]
      apply and_congr_left
      intro _
      unfold State.closeEntry
      split
      · rename_i hne
        simp only [State.closeFd, Finset.mem_erase]
        constructor
        · rintro ⟨hfd, hopen⟩
          exact ⟨hopen, fun heq => absurd heq.symm hfd⟩
        · rintro ⟨hopen, heq⟩
          exact ⟨fun hfd => hne (hfd ▸ heq hfd.symm), hopen⟩
      · rename_i hzero
        have hz : s.clientsFd i = 0 := not_not.mp hzero
        exact ⟨fun hopen => ⟨hopen, fun heq => heq.symm.trans hz⟩, And.left⟩

/-! ## What is in the table -/

/-- The descriptors that are open from the start. -/
def ownFds : Finset ℤ := {0, 1, 2, 3, 4}

/-- The entries and the descriptors of a run in which no connection is forgotten. -/
structure Settled (cfg : Config) (s : State) : Prop where
  openFds : ∀ fd, fd ∈ s.openFds ↔ fd ∈ ownFds ∨ fd ∈ s.conns
  disjoint : ∀ fd ∈ s.conns, fd ∉ ownFds
  queued : ∀ i ∈ s.que, i < cfg.startAllocSize
  sending : s.mainPc = .mqSend → s.count < cfg.startAllocSize
  resting : ∀ i, AtRest s i → ¬ (s.mainPc = .mqSend ∧ s.count = i) →
    s.clientsFd i = 0 ∨ s.clientsFd i = -1
  absent : ∀ w, cfg.threads ≤ w → (s.worker w).pc = .head

lemma settled_init (cfg : Config) : Settled cfg init := by
  constructor
  · simp [init, ownFds]
  · simp [init]
  · simp [init]
  · simp [init]
  · exact fun _ _ _ => Or.inl rfl
  · exact fun _ _ => rfl

/-- A step that moves no entry and no index. -/
lemma Settled.quiet (h : Settled cfg s) (hopen : s'.openFds = s.openFds)
    (hconns : s'.conns = s.conns) (htable : s'.clientsFd = s.clientsFd) (hque : s'.que = s.que)
    (hsending : ∀ i, (s'.mainPc = .mqSend ∧ s'.count = i) ↔ (s.mainPc = .mqSend ∧ s.count = i))
    (hworks : ∀ w i, (s.worker w).WorksFor i → (s'.worker w).WorksFor i)
    (habsent : ∀ w, cfg.threads ≤ w → (s'.worker w).pc = .head) : Settled cfg s' where
  openFds fd := by
    rw [hopen, hconns]
    exact h.openFds fd
  disjoint := by
    rw [hconns]
    exact h.disjoint
  queued := by
    rw [hque]
    exact h.queued
  sending hpc := by
    obtain ⟨hpc', hcount⟩ := (hsending s'.count).mp ⟨hpc, rfl⟩
    exact hcount ▸ h.sending hpc'
  resting i hrest hnot := by
    rw [htable]
    refine h.resting i ⟨hque ▸ hrest.1, fun w hw => hrest.2 w (hworks w i hw)⟩ ?_
    exact fun hold => hnot ((hsending i).mpr hold)
  absent := habsent

/-- A step of `main` away from `mq_send`. -/
lemma Settled.control (h : Settled cfg s) (hpc : s.mainPc ≠ .mqSend) (hpc' : s'.mainPc ≠ .mqSend)
    (hopen : s'.openFds = s.openFds) (hconns : s'.conns = s.conns)
    (htable : s'.clientsFd = s.clientsFd) (hque : s'.que = s.que)
    (hworker : s'.worker = s.worker) : Settled cfg s' :=
  h.quiet hopen hconns htable hque (fun i => by simp [hpc, hpc']) (by simp [hworker])
    (by rw [hworker]; exact h.absent)

lemma Settled.accepts (h : Settled cfg s) (hpc : s.mainPc = .accept) {fd : ℕ}
    (hlt : s.count < cfg.startAllocSize) (hfd : (fd : ℤ) ∉ s.openFds) :
    Settled cfg { s with
      mainPc := .mqSend
      clientsFd := Function.update s.clientsFd s.count fd
      openFds := insert (fd : ℤ) s.openFds
      conns := insert (fd : ℤ) s.conns } := by
  constructor
  · intro c
    show c ∈ insert (fd : ℤ) s.openFds ↔ c ∈ ownFds ∨ c ∈ insert (fd : ℤ) s.conns
    rw [Finset.mem_insert, Finset.mem_insert, h.openFds c]
    exact or_left_comm
  · intro c hc
    rcases Finset.mem_insert.mp hc with rfl | hc
    · exact fun hown => hfd ((h.openFds _).mpr (Or.inl hown))
    · exact h.disjoint c hc
  · exact h.queued
  · exact fun _ => hlt
  · intro i hrest hnot
    have hi : i ≠ s.count := fun heq => hnot ⟨rfl, heq.symm⟩
    show Function.update s.clientsFd s.count (fd : ℤ) i = 0 ∨
      Function.update s.clientsFd s.count (fd : ℤ) i = -1
    rw [Function.update_of_ne hi]
    exact h.resting i hrest (by simp [hpc])
  · exact h.absent

lemma Settled.sends (h : Settled cfg s) (hpc : s.mainPc = .mqSend) :
    Settled cfg { s with mainPc := .bump, que := s.que ++ [s.count] } := by
  refine ⟨h.openFds, h.disjoint, ?_, nofun, ?_, h.absent⟩
  · intro i hi
    rcases List.mem_append.mp hi with hi | hi
    · exact h.queued i hi
    · rw [List.mem_singleton.mp hi]
      exact h.sending hpc
  · intro i hrest _
    have hold : i ∉ s.que ∧ i ≠ s.count := by simpa using hrest.1
    exact h.resting i ⟨hold.1, hrest.2⟩ fun hsend => hold.2 hsend.2.symm

lemma Settled.mainStep {a : Action} (h : Settled cfg s) (hroom : RoomAndRest s a)
    (hstep : mainStep cfg s s.mainPc a = some s') : Settled cfg s' := by
  cases hpc : s.mainPc with
  | head =>
      cases a <;> simp only [ProducerConsumer.mainStep, hpc, reduceCtorEq] at hstep
      split at hstep
      · obtain rfl := Option.some.inj hstep
        exact h.control (by simp [hpc]) (by simp) rfl rfl rfl rfl rfl
      · obtain rfl := Option.some.inj hstep
        exact h.control (by simp [hpc]) (by simp) rfl rfl rfl rfl rfl
  | select =>
      cases a <;>
        simp only [ProducerConsumer.mainStep, hpc, reduceCtorEq, Option.some.injEq] at hstep
      rename_i ready
      subst hstep
      exact h.control (by simp [hpc]) (by cases ready <;> simp) rfl rfl rfl rfl rfl
  | accept =>
      cases a <;> simp only [ProducerConsumer.mainStep, hpc, reduceCtorEq] at hstep
      rename_i fd
      cases fd with
      | none =>
          simp only [acceptStep, Option.ite_none_right_eq_some, Option.some.injEq] at hstep
          obtain ⟨-, rfl⟩ := hstep
          refine ⟨h.openFds, h.disjoint, h.queued, by simp, ?_, h.absent⟩
          intro i hrest _
          show Function.update s.clientsFd s.count (-1) i = 0 ∨
            Function.update s.clientsFd s.count (-1) i = -1
          by_cases hi : i = s.count
          · exact Or.inr (by simp [hi])
          · rw [Function.update_of_ne hi]
            exact h.resting i hrest (by simp [hpc])
      | some fd =>
          simp only [acceptStep, Option.ite_none_right_eq_some, Option.some.injEq] at hstep
          obtain ⟨⟨hlt, hfd⟩, rfl⟩ := hstep
          exact h.accepts hpc hlt hfd
  | mqSend =>
      cases a <;> simp only [ProducerConsumer.mainStep, hpc, reduceCtorEq] at hstep
      rw [if_pos (hroom.2 rfl)] at hstep
      obtain rfl := Option.some.inj hstep
      exact h.sends hpc
  | bump =>
      cases a <;>
        simp only [ProducerConsumer.mainStep, hpc, reduceCtorEq, Option.some.injEq] at hstep
      subst hstep
      exact h.control (by simp [hpc]) (by simp) rfl rfl rfl rfl rfl
  | wrap =>
      cases a <;>
        simp only [ProducerConsumer.mainStep, hpc, reduceCtorEq, Option.some.injEq] at hstep
      subst hstep
      exact h.control (by simp [hpc]) (by simp) rfl rfl rfl rfl rfl
  | stopped => cases a <;> simp [ProducerConsumer.mainStep, hpc] at hstep

/-- A worker goes on, and holds what it held. -/
lemma Settled.setWorker (h : Settled cfg s) {w : ℕ} {k : Worker} (hw : w < cfg.threads)
    (hworks : ∀ i, (s.worker w).WorksFor i → k.WorksFor i) : Settled cfg (s.setWorker w k) := by
  refine h.quiet rfl rfl rfl rfl (fun _ => Iff.rfl) ?_ ?_
  · intro v i hv
    rw [setWorker_worker]
    split
    · rename_i heq
      exact hworks i (heq ▸ hv)
    · exact hv
  · intro v hv
    rw [setWorker_worker, if_neg (by omega)]
    exact h.absent v hv

/-- A slot that rests behind a worker's step rested before, if the worker did not work for it. -/
lemma AtRest.of_setWorker {w i : ℕ} {k : Worker} (hrest : AtRest (s.setWorker w k) i)
    (hworks : ¬ (s.worker w).WorksFor i) : AtRest s i := by
  refine ⟨hrest.1, fun v hv => ?_⟩
  by_cases heq : v = w
  · exact hworks (heq ▸ hv)
  · have hother := hrest.2 v
    rw [setWorker_worker, if_neg heq] at hother
    exact hother hv

lemma Settled.receives (h : Settled cfg s) {w : ℕ} (hw : w < cfg.threads)
    (hpc : (s.worker w).pc = .receive) {i : ℕ} {rest : List ℕ} (hque : s.que = i :: rest) :
    Settled cfg ({ s with que := rest }.setWorker w
      { s.worker w with pc := .fill, cliFdNoFromQue := i }) := by
  refine ⟨h.openFds, h.disjoint, ?_, h.sending, ?_, ?_⟩
  · intro j hj
    apply h.queued j
    rw [hque]
    exact List.mem_cons_of_mem _ hj
  · intro j hrest hnot
    have hji : j ≠ i := by
      rintro rfl
      apply hrest.2 w
      rw [setWorker_worker, if_pos rfl]
      simp [Worker.WorksFor]
    have hout : j ∉ s.que := by
      rw [hque]
      exact fun hj => (List.mem_cons.mp hj).elim hji hrest.1
    have hrest' := hrest.of_setWorker (s := { s with que := rest })
      (by simp [Worker.WorksFor, hpc])
    exact h.resting j ⟨hout, hrest'.2⟩ hnot
  · intro v hv
    rw [setWorker_worker, if_neg (by omega)]
    exact h.absent v hv

/-- The worker closes a connection. -/
lemma Settled.closes (h : Settled cfg s) {c : ℤ} (hc : c ∈ s.conns) :
    Settled cfg (s.closeFd c) := by
  refine ⟨?_, ?_, h.queued, h.sending, h.resting, h.absent⟩
  · intro d
    show d ∈ s.openFds.erase c ↔ d ∈ ownFds ∨ d ∈ s.conns.erase c
    rw [Finset.mem_erase, Finset.mem_erase, h.openFds d]
    constructor
    · rintro ⟨hne, hown | hd⟩
      · exact Or.inl hown
      · exact Or.inr ⟨hne, hd⟩
    · rintro (hown | ⟨hne, hd⟩)
      · exact ⟨fun heq => h.disjoint c hc (heq ▸ hown), Or.inl hown⟩
      · exact ⟨hne, Or.inr hd⟩
  · exact fun d hd => h.disjoint d (Finset.mem_of_mem_erase hd)

lemma Settled.zeroes (h : Settled cfg s) {w : ℕ} (hw : w < cfg.threads) :
    Settled cfg (State.setWorker
      { s with clientsFd := Function.update s.clientsFd (s.worker w).cliFdNoFromQue 0 } w
      { s.worker w with pc := .clear }) := by
  refine ⟨h.openFds, h.disjoint, h.queued, h.sending, ?_, ?_⟩
  · intro i hrest hnot
    show Function.update s.clientsFd (s.worker w).cliFdNoFromQue 0 i = 0 ∨
      Function.update s.clientsFd (s.worker w).cliFdNoFromQue 0 i = -1
    by_cases hi : i = (s.worker w).cliFdNoFromQue
    · exact Or.inl (by simp [hi])
    · rw [Function.update_of_ne hi]
      refine h.resting i ?_ hnot
      have hrest' := hrest.of_setWorker fun hworks => hi hworks.1.symm
      exact ⟨hrest'.1, hrest'.2⟩
  · intro v hv
    rw [setWorker_worker, if_neg (by omega)]
    exact h.absent v hv

lemma Settled.workerStep {w : ℕ} {interrupted : Bool} (h : Settled cfg s) (hinv : Inv s)
    (hw : w < cfg.threads) (hstep : workerStep cfg s w (s.worker w) interrupted = some s') :
    Settled cfg s' := by
  cases hpc : (s.worker w).pc with
  | head =>
      simp only [ProducerConsumer.workerStep, hpc, Option.some.injEq] at hstep
      subst hstep
      exact h.setWorker hw (by simp [Worker.WorksFor, hpc])
  | receive =>
      simp only [ProducerConsumer.workerStep, hpc] at hstep
      split at hstep
      · rename_i i rest hque
        obtain rfl := Option.some.inj hstep
        exact h.receives hw hpc hque
      · obtain rfl := Option.some.inj hstep
        exact h.setWorker hw (by simp [Worker.WorksFor, hpc])
  | fill =>
      simp only [ProducerConsumer.workerStep, hpc, Option.ite_none_right_eq_some,
        Option.some.injEq] at hstep
      obtain ⟨-, rfl⟩ := hstep
      exact h.setWorker hw (by simp [Worker.WorksFor, hpc])
  | check =>
      simp only [ProducerConsumer.workerStep, hpc, (hinv.consistent w).flag hpc,
        Option.some.injEq] at hstep
      subst hstep
      exact h.setWorker hw (by simp [Worker.WorksFor, hpc])
  | close =>
      simp only [ProducerConsumer.workerStep, hpc, Option.some.injEq] at hstep
      subst hstep
      obtain ⟨t, htr, hok⟩ := hinv.leases
      have hopen := hok.entry_open _ _ (htr.serving hpc)
      rw [htr.entry, htr.openSet] at hopen
      refine (h.closes hopen).setWorker hw fun i hworks => ?_
      have hsame : (s.worker w).WorksFor i := hworks
      exact ⟨hsame.1, by simp⟩
  | zero =>
      simp only [ProducerConsumer.workerStep, hpc, Option.some.injEq] at hstep
      subst hstep
      exact h.zeroes hw
  | exited => simp [ProducerConsumer.workerStep, hpc] at hstep
  | _ =>
      simp only [ProducerConsumer.workerStep, hpc, Option.some.injEq] at hstep
      subst hstep
      exact h.setWorker hw (by simp [Worker.WorksFor, hpc])

lemma Settled.step {a : Action} (h : Settled cfg s) (hinv : Inv s) (hroom : RoomAndRest s a)
    (hstep : ProducerConsumer.step cfg s a = some s') : Settled cfg s' := by
  cases a with
  | keyboard =>
      obtain rfl := Option.some.inj hstep
      exact h.quiet rfl rfl rfl rfl (fun _ => Iff.rfl) (fun _ _ => id) h.absent
  | worker w interrupted =>
      obtain ⟨hw, hstep⟩ := Option.ite_none_right_eq_some.mp hstep
      exact h.workerStep hinv hw hstep
  | _ => exact h.mainStep hroom hstep

lemma settled_of_reach (h : Reach (step cfg) RoomAndRest init s) : Settled cfg s := by
  refine h.invariant_along (settled_init cfg) fun u a u' hu hI hroom hstep => ?_
  exact hI.step (inv_of_reach (hu.weaken fun _ _ hok => hok.1)) hroom hstep

/-! ## The end -/

/-- **What the clean-up closes.**  When `main` has left its loop and joined all workers, in a run
in which every `mq_send` finds room and `accept` stores into slots at rest only, the descriptors
that are open behind the clean-up are the standard streams: the queue, the server socket and every
connection are closed, and no other descriptor is. -/
theorem cleanUp_openFds (cfg : Config) {s : State} (h : Reach (step cfg) RoomAndRest init s)
    (hstopped : s.mainPc = .stopped) (hjoined : ∀ w < cfg.threads, (s.worker w).pc = .exited) :
    (cleanUp cfg s).openFds = {0, 1, 2} := by
  have hsettled := settled_of_reach h
  obtain ⟨⟨t, htr, hok⟩, -, -, -⟩ := inv_of_reach (h.weaken fun _ _ hok => hok.1)
  have hlost : s.lost = ∅ := h.invariant (I := fun u => u.lost = ∅) rfl
    fun _ _ _ hI hok hstep => (lost_step hstep hok.2).trans hI
  have hidle : ∀ w i, ¬ (s.worker w).WorksFor i := by
    intro w i hworks
    rcases lt_or_ge w cfg.threads with hw | hw
    · simp [Worker.WorksFor, hjoined w hw] at hworks
    · simp [Worker.WorksFor, hsettled.absent w hw] at hworks
  -- a connection that is still open waits in the queue
  have hconn : ∀ c ∈ s.conns, ∃ i < cfg.startAllocSize, s.clientsFd i = c := by
    intro c hc
    rcases hok.covered c (htr.openSet ▸ hc) with hgone | ⟨i, p, hlive, hentry⟩
    · rw [htr.lost, hlost] at hgone
      cases hgone
    · rw [htr.entry] at hentry
      refine ⟨i, ?_, hentry⟩
      cases p with
      | main =>
          have hpc := ((htr.main i).mp hlive).1
          rw [hstopped] at hpc
          cases hpc
      | queue => exact hsettled.queued i ((htr.queue i).mp hlive)
      | worker w => exact absurd ((htr.worker i w).mp hlive).1 (hidle w i)
  -- and what is closed is one
  have hentries : ∀ i, s.clientsFd i = 0 ∨ s.clientsFd i = -1 ∨ s.clientsFd i ∈ s.conns := by
    intro i
    by_cases hi : i ∈ s.que
    · have hopen := hok.entry_open i _ ((htr.queue i).mpr hi)
      rw [htr.entry, htr.openSet] at hopen
      exact Or.inr (Or.inr hopen)
    · exact (hsettled.resting i ⟨hi, fun w => hidle w i⟩ (by simp [hstopped])).imp_right Or.inl
  ext c
  have hclosed : c ∈ (cleanUp cfg s).openFds ↔ c ≠ 3 ∧ (c ≠ 4 ∧ c ∈ s.openFds) ∧
      ∀ i < cfg.startAllocSize, s.clientsFd i = c → c = 0 := by
    unfold cleanUp State.closeFd
    rw [Finset.mem_erase, mem_foldl_closeEntry, Finset.mem_erase]
    simp only [List.mem_range]
  rw [hclosed, hsettled.openFds c]
  constructor
  · rintro ⟨h3, ⟨h4, hown | hc⟩, hzero⟩
    · simp only [ownFds, Finset.mem_insert, Finset.mem_singleton] at hown ⊢
      tauto
    · obtain ⟨i, hi, hentry⟩ := hconn c hc
      have hdisjoint := hsettled.disjoint c hc
      rw [hzero i hi hentry] at hdisjoint
      exact absurd (by decide) hdisjoint
  · intro hc
    have hown : c ∈ ownFds ∧ c ≠ 3 ∧ c ≠ 4 ∧ c ≠ -1 := by
      simp only [ownFds, Finset.mem_insert, Finset.mem_singleton] at hc ⊢
      omega
    refine ⟨hown.2.1, ⟨hown.2.2.1, Or.inl hown.1⟩, fun i _ hentry => ?_⟩
    rcases hentries i with hz | hm | hopen
    · exact hentry.symm.trans hz
    · exact absurd (hentry.symm.trans hm) hown.2.2.2
    · rw [hentry] at hopen
      exact absurd hown.1 (hsettled.disjoint c hopen)

lemma roomAndRest_of_control {a : Action} (hrest : SlotAtRest s a) (hne : a ≠ .mqSend) :
    RoomAndRest s a :=
  ⟨hrest, fun heq => absurd heq hne⟩

/-- A client is in the queue, and no worker has moved. -/
lemma exists_waiting : ∃ s, Reach (step ⟨50, 1⟩) RoomAndRest init s ∧ s.mainPc = .head ∧
    s.worker = init.worker ∧ s.que = [0] := by
  have hready := ((Reach.refl (step ⟨50, 1⟩) RoomAndRest init).tail (a := Action.head)
    (roomAndRest_of_control trivial (by simp)) rfl).tail (a := Action.select true)
      (roomAndRest_of_control trivial (by simp)) rfl
  have haccepted := hready.tail (a := Action.accept (some 5)) (roomAndRest_of_control
    ⟨by simp [init], fun w => by simp [init, Worker.WorksFor]⟩ (by simp)) rfl
  have hsent := haccepted.tail (a := Action.mqSend) ⟨trivial, fun _ => by simp [init, maxMsg]⟩ rfl
  have hback := (hsent.tail (a := Action.bump) (roomAndRest_of_control trivial (by simp)) rfl).tail
    (a := Action.wrap) (roomAndRest_of_control trivial (by simp)) rfl
  exact ⟨_, hback, rfl, rfl, rfl⟩

/-- The exit line comes while a client waits in the queue. -/
theorem cleanUp_openFds_waiting : ∃ s, Reach (step ⟨50, 1⟩) RoomAndRest init s ∧ s.que = [0] ∧
    (cleanUp ⟨50, 1⟩ s).openFds = {0, 1, 2} := by
  obtain ⟨s, hs, hpc, hworker, hque⟩ := exists_waiting
  have hleft : Reach (step ⟨50, 1⟩) RoomAndRest init
      { s with mainWhileVar := false, mainPc := .stopped, stopThreads := true } := by
    have hkey : Reach (step ⟨50, 1⟩) RoomAndRest init { s with mainWhileVar := false } :=
      hs.tail (a := Action.keyboard) (roomAndRest_of_control trivial (by simp)) rfl
    refine hkey.tail (a := Action.head) (roomAndRest_of_control trivial (by simp)) ?_
    simp [step, mainStep, hpc]
  have hexited := hleft.tail (a := Action.worker 0 false) (roomAndRest_of_control trivial (by simp))
    (show _ = some (State.setWorker
      { s with mainWhileVar := false, mainPc := .stopped, stopThreads := true } 0
        { s.worker 0 with pc := .exited }) by simp [step, workerStep, hworker, init])
  refine ⟨_, hexited, hque, cleanUp_openFds ⟨50, 1⟩ hexited rfl ?_⟩
  intro w hw
  obtain rfl : w = 0 := Nat.lt_one_iff.mp hw
  rw [setWorker_worker, if_pos rfl]

end ProducerConsumer
end EltSummer
