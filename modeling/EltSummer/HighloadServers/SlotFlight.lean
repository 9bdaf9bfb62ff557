import EltSummer.Framework.SlotTable
import EltSummer.HighloadServers.ProducerConsumer

/-!
# Table slots in flight

The unit of ownership of the producer-consumer server is the index of a table slot.  From
its `accept` on an index is in flight at one place at a time: with `main` until it is sent,
in the queue, with the worker that received it.  `Tracks` reads a lease table
(`SlotTable.Table`) off the server's state in this way, and `Inv` says that some table
tracks the state and is sound, and that each worker's own copy of the descriptor is the
entry's.

Every statement of every thread is one operation of the lease table or none, so the
invariant survives them all, on the one condition the table puts: `accept` stores into a
slot at rest (`SlotAtRest`).  The server does not check that; it sleeps for three seconds
and hopes.
-/

namespace EltSummer
namespace ProducerConsumer

open Interleaving SlotTable

/-! ## The invariant -/

/-- The places an index can be live in. -/
inductive Place
  | main
  | queue
  | worker (w : ℕ)
  deriving DecidableEq, Repr

/-- The lease table read off a state. -/
structure Tracks (s : State) (t : Table Place ℕ ℤ) : Prop where
  main : ∀ i, t.lease i = .live .main ↔ s.mainPc = .mqSend ∧ s.count = i
  queue : ∀ i, t.lease i = .live .queue ↔ i ∈ s.que
  worker : ∀ i w, t.lease i = .live (.worker w) ↔ (s.worker w).Serves i
  closed : ∀ i w, t.lease i = .closed w ↔ (s.worker w).Closed i
  entry : t.entry = s.clientsFd
  openSet : t.openSet = s.conns
  lost : t.lost = s.lost

/-- A worker's copies of the descriptor agree with the entry it looked up. -/
structure Worker.Consistent (table : ℕ → ℤ) (k : Worker) : Prop where
  clientFd : k.pc ∈ [WorkerPc.mark, .check, .recv, .send, .close] →
    k.clientFd = table k.cliFdNoFromQue
  flag : k.pc = .check → k.flagConnect = 1
  received : k.pc ∈ [WorkerPc.send, .close] → k.received = k.clientFd
  answered : k.pc = .close → k.answered = k.clientFd

/-- The invariant of the slots in flight. -/
structure Inv (s : State) : Prop where
  leases : ∃ t, Tracks s t ∧ t.Ok
  nodup : s.que.Nodup
  subset : s.conns ⊆ s.openFds
  consistent : ∀ w, (s.worker w).Consistent s.clientsFd

/-- The guard: `accept` stores into a slot at rest. -/
def SlotAtRest (s : State) : Action → Prop
  | .accept _ => AtRest s s.count
  | _ => True

lemma inv_init : Inv init where
  leases := by
    refine ⟨⟨fun _ => .rest, fun _ => 0, ∅, ∅⟩, ⟨?_, ?_, ?_, ?_, rfl, rfl, rfl⟩, ⟨?_, ?_, ?_⟩⟩
    all_goals simp [init, Worker.Serves, Worker.WorksFor, Worker.Closed]
  nodup := List.nodup_nil
  subset := by simp [init]
  consistent w := by constructor <;> simp [init]

/-- The lease of a slot at rest, when `main` is not about to send. -/
lemma Tracks.rest {s : State} {t : Table Place ℕ ℤ} {i : ℕ} (h : Tracks s t)
    (hrest : AtRest s i) (hpc : s.mainPc ≠ .mqSend) : t.lease i = .rest := by
  cases hl : t.lease i with
  | rest => rfl
  | live p =>
      cases p with
      | main => exact absurd ((h.main i).mp hl).1 hpc
      | queue => exact absurd ((h.queue i).mp hl) hrest.1
      | worker w =>
          exact absurd (Worker.worksFor_iff.mpr (Or.inl ((h.worker i w).mp hl))) (hrest.2 w)
  | closed w =>
      exact absurd (Worker.worksFor_iff.mpr (Or.inr ((h.closed i w).mp hl))) (hrest.2 w)

/-! ## Steps that move no slot -/

/-- A step that leaves the places, the table and the descriptors alone. -/
lemma Inv.transport {s s' : State} (h : Inv s) (hque : s'.que = s.que)
    (hmain : ∀ i, (s'.mainPc = .mqSend ∧ s'.count = i) ↔ (s.mainPc = .mqSend ∧ s.count = i))
    (hserves : ∀ w i, (s'.worker w).Serves i ↔ (s.worker w).Serves i)
    (hclosed : ∀ w i, (s'.worker w).Closed i ↔ (s.worker w).Closed i)
    (htable : s'.clientsFd = s.clientsFd) (hopen : s'.openFds = s.openFds)
    (hconns : s'.conns = s.conns) (hlost : s'.lost = s.lost)
    (hworkers : ∀ w, (s'.worker w).Consistent s.clientsFd) : Inv s' where
  leases := by
    obtain ⟨t, htr, hok⟩ := h.leases
    exact ⟨t, {
      main := fun i => (htr.main i).trans (hmain i).symm
      queue := fun i => by rw [hque]; exact htr.queue i
      worker := fun i w => (htr.worker i w).trans (hserves w i).symm
      closed := fun i w => (htr.closed i w).trans (hclosed w i).symm
      entry := htr.entry.trans htable.symm
      openSet := htr.openSet.trans hconns.symm
      lost := htr.lost.trans hlost.symm }, hok⟩
  nodup := hque ▸ h.nodup
  subset := by rw [hconns, hopen]; exact h.subset
  consistent w := by rw [htable]; exact hworkers w

/-- A step of `main` away from `mq_send`. -/
lemma Inv.control {s s' : State} (h : Inv s) (hpc : s.mainPc ≠ .mqSend)
    (hpc' : s'.mainPc ≠ .mqSend) (hque : s'.que = s.que) (hworker : s'.worker = s.worker)
    (htable : s'.clientsFd = s.clientsFd) (hopen : s'.openFds = s.openFds)
    (hconns : s'.conns = s.conns) (hlost : s'.lost = s.lost) : Inv s' :=
  h.transport hque (fun i => by simp [hpc, hpc']) (by simp [hworker]) (by simp [hworker])
    htable hopen hconns hlost (by simpa [hworker] using h.consistent)

lemma setWorker_worker (s : State) (w : ℕ) (k : Worker) (v : ℕ) :
    (s.setWorker w k).worker v = if v = w then k else s.worker v := by
  simp [State.setWorker, Function.update_apply]

/-- A worker's step within its own locals. -/
lemma Inv.setWorker {s : State} (h : Inv s) {w : ℕ} {k : Worker}
    (hserves : ∀ i, k.Serves i ↔ (s.worker w).Serves i)
    (hclosed : ∀ i, k.Closed i ↔ (s.worker w).Closed i)
    (hok : k.Consistent s.clientsFd) : Inv (s.setWorker w k) := by
  refine h.transport rfl (fun _ => Iff.rfl) ?_ ?_ rfl rfl rfl rfl ?_
  · intro v i
    rw [setWorker_worker]
    split
    · rename_i hv
      rw [hv, hserves]
    · exact Iff.rfl
  · intro v i
    rw [setWorker_worker]
    split
    · rename_i hv
      rw [hv, hclosed]
    · exact Iff.rfl
  · intro v
    rw [setWorker_worker]
    split
    · exact hok
    · exact h.consistent v

/-! ## Steps of `main` that move a slot -/

section Main

variable {s : State}

/-- A worker stays consistent when an entry changes that it does not work for. -/
lemma Worker.Consistent.update {table : ℕ → ℤ} {k : Worker} {i : ℕ} {v : ℤ}
    (h : k.Consistent table) (hrest : ¬ k.WorksFor i) :
    k.Consistent (Function.update table i v) := by
  refine ⟨fun hpc => ?_, h.flag, h.received, h.answered⟩
  rw [h.clientFd hpc, Function.update_of_ne]
  rintro rfl
  refine hrest ⟨rfl, ?_⟩
  simp only [List.mem_cons] at hpc ⊢
  tauto

/-- A slot that no worker has moves to a lease that is no worker's. -/
lemma Tracks.workers {t : Table Place ℕ ℤ} (htr : Tracks s t) {i : ℕ} {l : Lease Place ℕ}
    (hold : ∀ w, t.lease i ≠ .live (.worker w) ∧ t.lease i ≠ .closed w)
    (hnew : ∀ w, l ≠ .live (.worker w) ∧ l ≠ .closed w) :
    (∀ j w, Function.update t.lease i l j = .live (.worker w) ↔ (s.worker w).Serves j) ∧
      ∀ j w, Function.update t.lease i l j = .closed w ↔ (s.worker w).Closed j := by
  constructor
  · intro j w
    have hat : l = .live (.worker w) ↔ (s.worker w).Serves i := by
      rw [← htr.worker]
      exact iff_of_false (hnew w).1 (hold w).1
    exact Table.update_lease_iff hat (fun j _ => htr.worker j w) j
  · intro j w
    have hat : l = .closed w ↔ (s.worker w).Closed i := by
      rw [← htr.closed]
      exact iff_of_false (hnew w).2 (hold w).2
    exact Table.update_lease_iff hat (fun j _ => htr.closed j w) j

/-- A failed `accept` writes -1 into a slot at rest. -/
lemma Inv.acceptFails (h : Inv s) (hpc : s.mainPc = .accept) (hrest : AtRest s s.count) :
    Inv { s with mainPc := .head, clientsFd := Function.update s.clientsFd s.count (-1) } := by
  obtain ⟨t, htr, hok⟩ := h.leases
  have hslot := htr.rest hrest (by simp [hpc])
  refine ⟨⟨t.overwrite s.count (-1), ?_, hok.overwrite hslot⟩, h.nodup, h.subset,
    fun w => (h.consistent w).update (hrest.2 w)⟩
  exact {
    main := fun i => by simpa [Table.overwrite, hpc] using htr.main i
    queue := htr.queue
    worker := htr.worker
    closed := htr.closed
    entry := by simp [Table.overwrite, htr.entry]
    openSet := htr.openSet
    lost := htr.lost }

/-- A successful `accept` leases the slot to `main`. -/
lemma Inv.accepts (h : Inv s) (hpc : s.mainPc = .accept) (hrest : AtRest s s.count) {fd : ℤ}
    (hfd : fd ∉ s.openFds) :
    Inv { s with
      mainPc := .mqSend
      clientsFd := Function.update s.clientsFd s.count fd
      openFds := insert fd s.openFds
      conns := insert fd s.conns } := by
  obtain ⟨t, htr, hok⟩ := h.leases
  have hslot := htr.rest hrest (by simp [hpc])
  have hnew : fd ∉ t.openSet := fun hin => hfd (h.subset (htr.openSet ▸ hin))
  have hworkers := htr.workers (i := s.count) (l := .live .main) (by simp [hslot]) (by simp)
  refine ⟨⟨t.acquire s.count .main fd, ?_, hok.acquire hslot hnew⟩, h.nodup,
    Finset.insert_subset_insert _ h.subset, fun w => (h.consistent w).update (hrest.2 w)⟩
  exact {
    main := Table.update_lease_iff (by simp) fun i hi => by
      simp [htr.main, hpc, Ne.symm hi]
    queue := Table.update_lease_iff (by simp [hrest.1]) fun i _ => htr.queue i
    worker := hworkers.1
    closed := hworkers.2
    entry := by simp [Table.acquire, htr.entry]
    openSet := by simp [Table.acquire, htr.openSet]
    lost := htr.lost }

/-- `mq_send` with room moves the slot into the queue. -/
lemma Inv.sends (h : Inv s) (hpc : s.mainPc = .mqSend) :
    Inv { s with mainPc := .bump, que := s.que ++ [s.count] } := by
  obtain ⟨t, htr, hok⟩ := h.leases
  have hslot : t.lease s.count = .live .main := (htr.main _).mpr ⟨hpc, rfl⟩
  have hout : s.count ∉ s.que := fun hin => by
    have := (htr.queue _).mpr hin
    simp [hslot] at this
  have hworkers := htr.workers (i := s.count) (l := .live .queue) (by simp [hslot]) (by simp)
  refine ⟨⟨t.transfer s.count .queue, ?_, hok.transfer hslot⟩,
    h.nodup.append (List.nodup_singleton _) (by simpa using hout), h.subset, h.consistent⟩
  exact {
    main := Table.update_lease_iff (by simp) fun i hi => by
      simp [htr.main, hpc, Ne.symm hi]
    queue := Table.update_lease_iff (by simp) fun i hi => by simp [htr.queue, hi]
    worker := hworkers.1
    closed := hworkers.2
    entry := htr.entry
    openSet := htr.openSet
    lost := htr.lost }

/-- `mq_send` on a full queue loses the slot's connection. -/
lemma Inv.drops (h : Inv s) (hpc : s.mainPc = .mqSend) :
    Inv { s with mainPc := .bump, lost := insert (s.clientsFd s.count) s.lost } := by
  obtain ⟨t, htr, hok⟩ := h.leases
  have hslot : t.lease s.count = .live .main := (htr.main _).mpr ⟨hpc, rfl⟩
  have hworkers := htr.workers (i := s.count) (l := .rest) (by simp [hslot]) (by simp)
  refine ⟨⟨t.drop s.count, ?_, hok.drop⟩, h.nodup, h.subset, h.consistent⟩
  exact {
    main := Table.update_lease_iff (by simp) fun i hi => by
      simp [htr.main, hpc, Ne.symm hi]
    queue := Table.update_lease_iff (by simpa [hslot] using htr.queue s.count)
      fun i _ => htr.queue i
    worker := hworkers.1
    closed := hworkers.2
    entry := htr.entry
    openSet := htr.openSet
    lost := by simp [Table.drop, htr.lost, htr.entry] }

end Main

/-! ## Steps of a worker that move a slot -/

/-- A step of worker `w` that changes the lease of slot `i`, which was queued or its own,
to something of its own: the table follows if the worker's locals do. -/
lemma Tracks.worker_moves {s s' : State} {t t' : Table Place ℕ ℤ} {w i : ℕ} {k : Worker}
    {l : Lease Place ℕ} (htr : Tracks s t) (hlease : t'.lease = Function.update t.lease i l)
    (hold : t.lease i = .live .queue ∨ t.lease i = .live (.worker w) ∨ t.lease i = .closed w)
    (hnew : l = .live (.worker w) ∨ l = .closed w ∨ l = .rest)
    (hserves : l = .live (.worker w) ↔ k.Serves i) (hclosed : l = .closed w ↔ k.Closed i)
    (helse : ∀ j, j ≠ i → (k.Serves j ↔ (s.worker w).Serves j) ∧
      (k.Closed j ↔ (s.worker w).Closed j))
    (hworker : s'.worker = Function.update s.worker w k)
    (hpc : s'.mainPc = s.mainPc) (hcount : s'.count = s.count)
    (hque : ∀ j, j ∈ s'.que ↔ j ∈ s.que ∧ j ≠ i)
    (hentry : t'.entry = s'.clientsFd) (hopen : t'.openSet = s'.conns)
    (hlost : t'.lost = s'.lost) : Tracks s' t' where
  main := by
    rw [hlease, hpc, hcount]
    refine Table.update_lease_iff ?_ fun j _ => htr.main j
    have := htr.main i
    rcases hold with h | h | h <;> rcases hnew with rfl | rfl | rfl <;> simpa [h] using this
  queue := by
    rw [hlease]
    refine Table.update_lease_iff ?_ fun j hj => by simp [htr.queue, hque, hj]
    rcases hnew with rfl | rfl | rfl <;> simp [hque]
  worker j v := by
    rw [hlease, hworker]
    by_cases hv : v = w
    · subst hv
      rw [Function.update_self]
      exact Table.update_lease_iff hserves (fun j hj =>
        (htr.worker j v).trans (helse j hj).1.symm) j
    · rw [Function.update_of_ne hv]
      refine Table.update_lease_iff ?_ (fun j _ => htr.worker j v) j
      have := htr.worker i v
      rcases hold with h | h | h <;> rcases hnew with rfl | rfl | rfl <;>
        simpa [h, Ne.symm hv] using this
  closed j v := by
    rw [hlease, hworker]
    by_cases hv : v = w
    · subst hv
      rw [Function.update_self]
      exact Table.update_lease_iff hclosed (fun j hj =>
        (htr.closed j v).trans (helse j hj).2.symm) j
    · rw [Function.update_of_ne hv]
      refine Table.update_lease_iff ?_ (fun j _ => htr.closed j v) j
      have := htr.closed i v
      rcases hold with h | h | h <;> rcases hnew with rfl | rfl | rfl <;>
        simpa [h, Ne.symm hv] using this
  entry := hentry
  openSet := hopen
  lost := hlost

section Workers

variable {s : State} {w : ℕ}

/-- The other workers stay consistent, and worker `w` is when it has looked nothing up. -/
lemma consistent_setWorker {table : ℕ → ℤ} {k : Worker}
    (h : ∀ v, v ≠ w → (s.worker v).Consistent table) (hk : k.Consistent table) (v : ℕ) :
    ((s.setWorker w k).worker v).Consistent table := by
  rw [setWorker_worker]
  split
  · exact hk
  · rename_i hv
    exact h v hv

/-- `mq_receive` moves the head of the queue to the worker. -/
lemma Inv.receives (h : Inv s) (hpc : (s.worker w).pc = .receive) {i : ℕ} {rest : List ℕ}
    (hque : s.que = i :: rest) :
    Inv ({ s with que := rest }.setWorker w
      { s.worker w with pc := .fill, cliFdNoFromQue := i }) := by
  obtain ⟨t, htr, hok⟩ := h.leases
  have hslot : t.lease i = .live .queue := (htr.queue i).mpr (by simp [hque])
  obtain ⟨hout, hnodup⟩ := List.nodup_cons.mp (hque ▸ h.nodup)
  refine ⟨⟨t.transfer i (.worker w), ?_, hok.transfer hslot⟩, hnodup, h.subset,
    consistent_setWorker (fun v _ => h.consistent v) (by constructor <;> simp)⟩
  refine htr.worker_moves rfl (Or.inl hslot) (Or.inl rfl) ?_ ?_ ?_ rfl rfl rfl ?_ htr.entry
    htr.openSet htr.lost
  · simp [Worker.Serves, Worker.WorksFor]
  · simp [Worker.Closed]
  · intro j hj
    simp [Worker.Serves, Worker.WorksFor, Worker.Closed, hpc, Ne.symm hj]
  · intro j
    simp only [State.setWorker, hque, List.mem_cons]
    constructor
    · intro hj
      exact ⟨Or.inr hj, fun heq => hout (heq ▸ hj)⟩
    · rintro ⟨hj, hne⟩
      exact hj.resolve_left hne

/-- At `close` the worker's slot is live with it. -/
lemma Tracks.serving {t : Table Place ℕ ℤ} (htr : Tracks s t) (hpc : (s.worker w).pc = .close) :
    t.lease (s.worker w).cliFdNoFromQue = .live (.worker w) :=
  (htr.worker _ _).mpr (by simp [Worker.Serves, Worker.WorksFor, hpc])

/-- A slot of the worker is not queued. -/
lemma Tracks.not_queued {t : Table Place ℕ ℤ} {i : ℕ} (htr : Tracks s t)
    (hslot : t.lease i ≠ .live .queue) (j : ℕ) : j ∈ s.que ↔ j ∈ s.que ∧ j ≠ i :=
  ⟨fun hj => ⟨hj, fun heq => hslot ((htr.queue i).mpr (heq ▸ hj))⟩, And.left⟩

/-- `close` closes the slot's descriptor and nothing else. -/
lemma Inv.closes (h : Inv s) (hpc : (s.worker w).pc = .close) :
    Inv ((s.closeFd (s.clientsFd (s.worker w).cliFdNoFromQue)).setWorker w
      { s.worker w with pc := .zero }) := by
  obtain ⟨t, htr, hok⟩ := h.leases
  have hslot := htr.serving hpc
  refine ⟨⟨t.close (s.worker w).cliFdNoFromQue w, ?_, hok.close hslot⟩, h.nodup,
    Finset.erase_subset_erase _ h.subset,
    consistent_setWorker (fun v _ => h.consistent v) (by constructor <;> simp)⟩
  refine htr.worker_moves rfl (Or.inr (Or.inl hslot)) (Or.inr (Or.inl rfl)) ?_ ?_ ?_ rfl rfl rfl
    (htr.not_queued (by simp [hslot])) htr.entry ?_ htr.lost
  · simp [Worker.Serves]
  · simp [Worker.Closed]
  · intro j hj
    simp [Worker.Serves, Worker.WorksFor, Worker.Closed, Ne.symm hj]
  · simp [Table.close, htr.openSet, htr.entry, State.setWorker, State.closeFd]

/-- The entry of a closed slot is cleared.  No other worker works for that slot. -/
lemma Inv.zeroes (h : Inv s) (hpc : (s.worker w).pc = .zero) :
    Inv (State.setWorker
      { s with clientsFd := Function.update s.clientsFd (s.worker w).cliFdNoFromQue 0 } w
      { s.worker w with pc := .clear }) := by
  obtain ⟨t, htr, hok⟩ := h.leases
  have hslot : t.lease (s.worker w).cliFdNoFromQue = .closed w :=
    (htr.closed _ _).mpr ⟨rfl, hpc⟩
  have hothers : ∀ v, v ≠ w → ¬ (s.worker v).WorksFor (s.worker w).cliFdNoFromQue := by
    intro v hv hworks
    rcases Worker.worksFor_iff.mp hworks with hs | hc
    · have := (htr.worker _ _).mpr hs
      rw [hslot] at this
      cases this
    · have := (htr.closed _ _).mpr hc
      rw [hslot] at this
      cases this
      exact hv rfl
  refine ⟨⟨t.release (s.worker w).cliFdNoFromQue 0, ?_, hok.release (by simp [hslot])⟩,
    h.nodup, h.subset,
    consistent_setWorker (fun v hv => (h.consistent v).update (hothers v hv))
      (by constructor <;> simp)⟩
  refine htr.worker_moves rfl (Or.inr (Or.inr hslot)) (Or.inr (Or.inr rfl)) ?_ ?_ ?_ rfl rfl rfl
    (htr.not_queued (by simp [hslot])) ?_ htr.openSet htr.lost
  · simp [Worker.Serves, Worker.WorksFor]
  · simp [Worker.Closed]
  · intro j hj
    simp [Worker.Serves, Worker.WorksFor, Worker.Closed, hpc, Ne.symm hj]
  · simp [Table.release, htr.entry, State.setWorker]

end Workers

/-! ## Every step -/

lemma inv_mainStep {cfg : Config} {s s' : State} {a : Action} (h : Inv s)
    (hok : SlotAtRest s a) (hstep : mainStep cfg s s.mainPc a = some s') : Inv s' := by
  cases hpc : s.mainPc with
  | head =>
      cases a <;> simp only [mainStep, hpc, reduceCtorEq] at hstep
      split at hstep
      · obtain rfl := Option.some.inj hstep
        exact h.control (by simp [hpc]) (by simp) rfl rfl rfl rfl rfl rfl
      · obtain rfl := Option.some.inj hstep
        exact h.control (by simp [hpc]) (by simp) rfl rfl rfl rfl rfl rfl
  | select =>
      cases a <;> simp only [mainStep, hpc, reduceCtorEq, Option.some.injEq] at hstep
      rename_i ready
      subst hstep
      refine h.control (by simp [hpc]) ?_ rfl rfl rfl rfl rfl rfl
      cases ready <;> simp
  | accept =>
      cases a <;> simp only [mainStep, hpc, reduceCtorEq] at hstep
      rename_i fd
      cases fd with
      | none =>
          simp only [acceptStep, Option.ite_none_right_eq_some, Option.some.injEq] at hstep
          obtain ⟨-, rfl⟩ := hstep
          exact h.acceptFails hpc hok
      | some fd =>
          simp only [acceptStep, Option.ite_none_right_eq_some, Option.some.injEq] at hstep
          obtain ⟨⟨-, hfd⟩, rfl⟩ := hstep
          exact h.accepts hpc hok hfd
  | mqSend =>
      cases a <;> simp only [mainStep, hpc, reduceCtorEq] at hstep
      split at hstep
      · obtain rfl := Option.some.inj hstep
        exact h.sends hpc
      · obtain rfl := Option.some.inj hstep
        exact h.drops hpc
  | bump =>
      cases a <;> simp only [mainStep, hpc, reduceCtorEq, Option.some.injEq] at hstep
      subst hstep
      exact h.control (by simp [hpc]) (by simp) rfl rfl rfl rfl rfl rfl
  | wrap =>
      cases a <;> simp only [mainStep, hpc, reduceCtorEq, Option.some.injEq] at hstep
      subst hstep
      exact h.control (by simp [hpc]) (by simp) rfl rfl rfl rfl rfl rfl
  | stopped => cases a <;> simp [mainStep, hpc] at hstep

lemma inv_workerStep {cfg : Config} {s s' : State} {w : ℕ} {interrupted : Bool} (h : Inv s)
    (hstep : workerStep cfg s w (s.worker w) interrupted = some s') : Inv s' := by
  have hc := h.consistent w
  cases hpc : (s.worker w).pc with
  | head =>
      simp only [workerStep, hpc, Option.some.injEq] at hstep
      subst hstep
      refine h.setWorker ?_ ?_ ?_
      · cases s.stopThreads <;> simp [Worker.Serves, Worker.WorksFor, hpc]
      · cases s.stopThreads <;> simp [Worker.Closed, hpc]
      · constructor <;> cases s.stopThreads <;> simp
  | receive =>
      simp only [workerStep, hpc] at hstep
      split at hstep
      · rename_i i rest hque
        obtain rfl := Option.some.inj hstep
        exact h.receives hpc hque
      · obtain rfl := Option.some.inj hstep
        refine h.setWorker ?_ ?_ ?_
        · simp [Worker.Serves, Worker.WorksFor, hpc]
        · simp [Worker.Closed, hpc]
        · constructor <;> simp
  | fill =>
      simp only [workerStep, hpc, Option.ite_none_right_eq_some, Option.some.injEq] at hstep
      obtain ⟨-, rfl⟩ := hstep
      refine h.setWorker ?_ ?_ ?_
      · simp [Worker.Serves, Worker.WorksFor, hpc]
      · simp [Worker.Closed, hpc]
      · constructor <;> simp
  | mark =>
      simp only [workerStep, hpc, Option.some.injEq] at hstep
      subst hstep
      refine h.setWorker ?_ ?_ ⟨fun _ => hc.clientFd (by simp [hpc]), by simp, by simp, by simp⟩
      · simp [Worker.Serves, Worker.WorksFor, hpc]
      · simp [Worker.Closed, hpc]
  | check =>
      simp only [workerStep, hpc, hc.flag hpc, Option.some.injEq, if_true] at hstep
      subst hstep
      refine h.setWorker ?_ ?_ ⟨fun _ => hc.clientFd (by simp [hpc]), by simp, by simp, by simp⟩
      · simp [Worker.Serves, Worker.WorksFor, hpc]
      · simp [Worker.Closed, hpc]
  | recv =>
      simp only [workerStep, hpc, Option.some.injEq] at hstep
      subst hstep
      refine h.setWorker ?_ ?_ ⟨fun _ => hc.clientFd (by simp [hpc]), by simp, by simp, by simp⟩
      · simp [Worker.Serves, Worker.WorksFor, hpc]
      · simp [Worker.Closed, hpc]
  | send =>
      simp only [workerStep, hpc, Option.some.injEq] at hstep
      subst hstep
      refine h.setWorker ?_ ?_ ⟨fun _ => hc.clientFd (by simp [hpc]), by simp,
        fun _ => hc.received (by simp [hpc]), by simp⟩
      · simp [Worker.Serves, Worker.WorksFor, hpc]
      · simp [Worker.Closed, hpc]
  | close =>
      simp only [workerStep, hpc, Option.some.injEq] at hstep
      subst hstep
      exact h.closes hpc
  | zero =>
      simp only [workerStep, hpc, Option.some.injEq] at hstep
      subst hstep
      exact h.zeroes hpc
  | clear =>
      simp only [workerStep, hpc, Option.some.injEq] at hstep
      subst hstep
      refine h.setWorker ?_ ?_ ?_
      · simp [Worker.Serves, Worker.WorksFor, hpc]
      · simp [Worker.Closed, hpc]
      · constructor <;> simp
  | unmark =>
      simp only [workerStep, hpc, Option.some.injEq] at hstep
      subst hstep
      refine h.setWorker ?_ ?_ ?_
      · simp [Worker.Serves, Worker.WorksFor, hpc]
      · simp [Worker.Closed, hpc]
      · constructor <;> simp
  | exited => simp [workerStep, hpc] at hstep

/-- **Step lemma.**  Every statement of every thread keeps the invariant, when `accept`
stores into slots at rest. -/
theorem inv_step {cfg : Config} {s s' : State} {a : Action} (h : Inv s) (hok : SlotAtRest s a)
    (hstep : step cfg s a = some s') : Inv s' := by
  cases a with
  | keyboard =>
      obtain rfl := Option.some.inj hstep
      exact h.transport rfl (fun _ => Iff.rfl) (fun _ _ => Iff.rfl) (fun _ _ => Iff.rfl)
        rfl rfl rfl rfl h.consistent
  | worker w interrupted =>
      simp only [step, Option.ite_none_right_eq_some] at hstep
      exact inv_workerStep h hstep.2
  | head => exact inv_mainStep h hok hstep
  | select ready => exact inv_mainStep h hok hstep
  | accept fd => exact inv_mainStep h hok hstep
  | mqSend => exact inv_mainStep h hok hstep
  | bump => exact inv_mainStep h hok hstep
  | wrap => exact inv_mainStep h hok hstep

/-- **Run lemma.**  The invariant holds in every state that such runs reach. -/
theorem inv_of_reach {cfg : Config} {s : State} (h : Reach (step cfg) SlotAtRest init s) :
    Inv s :=
  h.invariant inv_init fun _ _ _ hI hok hstep => inv_step hI hok hstep

/-! ## The workers that were created -/

/-- A worker writes its own locals only. -/
lemma workerStep_other {cfg : Config} {s s' : State} {w v : ℕ} {interrupted : Bool}
    (h : workerStep cfg s w (s.worker w) interrupted = some s') (hv : v ≠ w) :
    s'.worker v = s.worker v := by
  cases hpc : (s.worker w).pc with
  | receive =>
      simp only [workerStep, hpc] at h
      split at h <;>
        (obtain rfl := Option.some.inj h; rw [setWorker_worker, if_neg hv])
  | fill =>
      simp only [workerStep, hpc, Option.ite_none_right_eq_some, Option.some.injEq] at h
      obtain ⟨-, rfl⟩ := h
      rw [setWorker_worker, if_neg hv]
  | exited => simp [workerStep, hpc] at h
  | _ =>
      simp only [workerStep, hpc, Option.some.injEq] at h
      subst h
      exact (setWorker_worker _ _ _ _).trans (if_neg hv)

/-- A worker that was not created does nothing. -/
lemma worker_of_not_created {cfg : Config} {ok : State → Action → Prop} {s : State} {w : ℕ}
    (h : Reach (step cfg) ok init s) (hw : cfg.threads ≤ w) : s.worker w = init.worker w := by
  refine h.invariant (I := fun u => u.worker w = init.worker w) rfl fun u a t hI _ hstep => ?_
  cases a with
  | worker v interrupted =>
      simp only [step, Option.ite_none_right_eq_some] at hstep
      obtain ⟨hv, hstep⟩ := hstep
      rw [workerStep_other hstep (by omega)]
      exact hI
  | keyboard =>
      obtain rfl := Option.some.inj hstep
      exact hI
  | _ => rw [(frame_mainStep hstep).1, hI]

/-- The guard on the workers that were created, which can be evaluated. -/
def CreatedAtRest (cfg : Config) (s : State) : Action → Prop
  | .accept _ => s.count ∉ s.que ∧ ∀ w < cfg.threads, ¬ (s.worker w).WorksFor s.count
  | _ => True

instance (k : Worker) (i : ℕ) : Decidable (k.WorksFor i) := inferInstanceAs (Decidable (_ ∧ _))

instance (cfg : Config) (s : State) : ∀ a, Decidable (CreatedAtRest cfg s a)
  | .accept _ => inferInstanceAs (Decidable (_ ∧ ∀ w < cfg.threads, ¬ _))
  | .keyboard | .head | .select _ | .mqSend | .bump | .wrap | .worker _ _ => .isTrue trivial

/-- The other workers hold no slot. -/
lemma slotAtRest_of_created {cfg : Config} {ok : State → Action → Prop} {s : State} {a : Action}
    (h : Reach (step cfg) ok init s) (hok : CreatedAtRest cfg s a) : SlotAtRest s a := by
  cases a with
  | accept fd =>
      refine ⟨hok.1, fun w => ?_⟩
      by_cases hw : w < cfg.threads
      · exact hok.2 w hw
      · rw [worker_of_not_created h (not_lt.mp hw)]
        simp [init, Worker.WorksFor]
  | _ => trivial

end ProducerConsumer
end EltSummer
