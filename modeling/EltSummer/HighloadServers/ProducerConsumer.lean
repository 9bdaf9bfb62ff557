import EltSummer.Framework.Interleaving
import Mathlib.Data.Finset.Basic
import Mathlib.Data.Finset.Insert
import Mathlib.Logic.Function.Basic

/-!
# The producer-consumer TCP server

`sockets_highload_services_27July/server_consumer_producer_scheme.c`: `main` accepts
connections, stores each descriptor in the shared table `clients_fd` at index `count`, and
sends `count` through a message queue; a pool of workers (`func_thread_client`) receives
indices, looks the descriptor up, serves it, closes `clients_fd[index]` and zeroes the
entry.  The table is used cyclically.

The machine takes one statement on shared data per step and lets `main` and the workers
interleave freely; `sleep(3)` at the wrap-around is a delay and so restricts nothing.  What
the environment decides is part of the action: the result of `select` and `accept`, an
interrupted `mq_receive`, the exit line at the keyboard.  The kernel is modelled as far as
descriptors go: `accept` returns one that is not open, `close` closes one that is.

An index travels as its decimal text; decoding gives back the index that was sent
(`spelled_of_exec`), so the queue carries the indices.  The workers' printing, the client
addresses and the thread that counts connected clients touch nothing modelled here.

`conns`, `lost`, `received` and `answered` are ghosts: the open descriptors that came from
`accept`, those whose index `mq_send` did not take, and the descriptors a worker last
received from and last answered.
-/

namespace EltSummer
namespace ProducerConsumer

open Interleaving

/-! ## The machine -/

/-- `start_alloc_size` and the number of worker threads that were created. -/
structure Config where
  startAllocSize : ℕ
  threads : ℕ

/-- `MAX_MSG`. -/
def maxMsg : ℕ := 10

/-- The statement `main` executes next. -/
inductive MainPc
  /-- `while (main_while_var)`. -/
  | head
  /-- `select(...)`. -/
  | select
  /-- `clients_fd[count] = accept(...)`. -/
  | accept
  /-- `mq_send(que, "count", ...)`. -/
  | mqSend
  /-- `count++`. -/
  | bump
  /-- `if (count == start_alloc_size - 1) count = 0`. -/
  | wrap
  /-- Behind `EXIT:`, with `stop_threads` set. -/
  | stopped
  deriving DecidableEq, Repr

/-- The statement a worker executes next. -/
inductive WorkerPc
  /-- `while (stop_threads != 1)`. -/
  | head
  /-- `mq_receive(que, ...)`. -/
  | receive
  /-- `thread_arg->client_fd = clients_fd[cli_fd_no_from_que]`. -/
  | fill
  /-- `thread_arg->flag_connect = 1`. -/
  | mark
  /-- `if (thread_arg->flag_connect == 1)`. -/
  | check
  /-- `recv(thread_arg->client_fd, ...)`. -/
  | recv
  /-- `send(thread_arg->client_fd, ...)`. -/
  | send
  /-- `close(clients_fd[cli_fd_no_from_que])`. -/
  | close
  /-- `clients_fd[cli_fd_no_from_que] = 0`. -/
  | zero
  /-- `thread_arg->client_fd = 0`. -/
  | clear
  /-- `thread_arg->flag_connect = 0`. -/
  | unmark
  /-- `pthread_exit`. -/
  | exited
  deriving DecidableEq, Repr

/-- A worker: its locals, its cell of `args`, and the ghosts. -/
structure Worker where
  pc : WorkerPc
  cliFdNoFromQue : ℕ
  clientFd : ℤ
  flagConnect : ℕ
  received : ℤ
  answered : ℤ
  deriving DecidableEq, Repr

structure State where
  mainPc : MainPc
  count : ℕ
  clientsFd : ℕ → ℤ
  que : List ℕ
  worker : ℕ → Worker
  mainWhileVar : Bool
  stopThreads : Bool
  openFds : Finset ℤ
  conns : Finset ℤ
  lost : Finset ℤ

/-- Standard streams, the server socket and the queue are open; the queue is empty. -/
def init : State where
  mainPc := .head
  count := 0
  clientsFd := fun _ => 0
  que := []
  worker := fun _ => ⟨.head, 0, 0, 0, 0, 0⟩
  mainWhileVar := true
  stopThreads := false
  openFds := {0, 1, 2, 3, 4}
  conns := ∅
  lost := ∅

/-- `close(fd)`.  On a number that is no open descriptor it fails and changes nothing. -/
def State.closeFd (s : State) (fd : ℤ) : State :=
  { s with openFds := s.openFds.erase fd, conns := s.conns.erase fd }

/-- Worker `w` with new locals. -/
def State.setWorker (s : State) (w : ℕ) (k : Worker) : State :=
  { s with worker := Function.update s.worker w k }

/-- A step of the machine.  `accept none` is the failure -1. -/
inductive Action
  | keyboard
  | head
  | select (ready : Bool)
  | accept (fd : Option ℕ)
  | mqSend
  | bump
  | wrap
  | worker (w : ℕ) (interrupted : Bool)
  deriving DecidableEq, Repr

/-- `clients_fd[count] = accept(...)`, with `count` checked against the table. -/
def acceptStep (cfg : Config) (s : State) : Option ℕ → Option State
  | none =>
      if s.count < cfg.startAllocSize then
        some { s with mainPc := .head, clientsFd := Function.update s.clientsFd s.count (-1) }
      else none
  | some fd =>
      if s.count < cfg.startAllocSize ∧ (fd : ℤ) ∉ s.openFds then
        some { s with
          mainPc := .mqSend
          clientsFd := Function.update s.clientsFd s.count fd
          openFds := insert (fd : ℤ) s.openFds
          conns := insert (fd : ℤ) s.conns }
      else none

/-- One statement of `main`. -/
def mainStep (cfg : Config) (s : State) : MainPc → Action → Option State
  | .head, .head =>
      if s.mainWhileVar then some { s with mainPc := .select }
      else some { s with mainPc := .stopped, stopThreads := true }
  | .select, .select ready => some { s with mainPc := if ready then .accept else .head }
  | .accept, .accept fd => acceptStep cfg s fd
  | .mqSend, .mqSend =>
      -- the queue is non-blocking and the result of `mq_send` is not looked at
      if s.que.length < maxMsg then
        some { s with mainPc := .bump, que := s.que ++ [s.count] }
      else some { s with mainPc := .bump, lost := insert (s.clientsFd s.count) s.lost }
  | .bump, .bump => some { s with mainPc := .wrap, count := s.count + 1 }
  | .wrap, .wrap =>
      some { s with
        mainPc := .head
        count := if s.count + 1 = cfg.startAllocSize then 0 else s.count }
  | _, _ => none

/-- One statement of worker `w`, whose locals are `k`. -/
def workerStep (cfg : Config) (s : State) (w : ℕ) (k : Worker) (interrupted : Bool) :
    Option State :=
  match k.pc with
  | .head =>
      some (s.setWorker w { k with pc := if s.stopThreads then .exited else .receive })
  | .receive =>
      match s.que, interrupted with
      | i :: rest, false =>
          some ({ s with que := rest }.setWorker w { k with pc := .fill, cliFdNoFromQue := i })
      | _, _ => some (s.setWorker w { k with pc := .head })
  | .fill =>
      if k.cliFdNoFromQue < cfg.startAllocSize then
        some (s.setWorker w { k with pc := .mark, clientFd := s.clientsFd k.cliFdNoFromQue })
      else none
  | .mark => some (s.setWorker w { k with pc := .check, flagConnect := 1 })
  | .check =>
      some (s.setWorker w { k with pc := if k.flagConnect = 1 then .recv else .head })
  | .recv => some (s.setWorker w { k with pc := .send, received := k.clientFd })
  | .send => some (s.setWorker w { k with pc := .close, answered := k.clientFd })
  | .close =>
      some ((s.closeFd (s.clientsFd k.cliFdNoFromQue)).setWorker w { k with pc := .zero })
  | .zero =>
      some ({ s with clientsFd := Function.update s.clientsFd k.cliFdNoFromQue 0 }.setWorker w
        { k with pc := .clear })
  | .clear => some (s.setWorker w { k with pc := .unmark, clientFd := 0 })
  | .unmark => some (s.setWorker w { k with pc := .head, flagConnect := 0 })
  | .exited => none

/-- One step of the machine. -/
def step (cfg : Config) (s : State) : Action → Option State
  | .keyboard => some { s with mainWhileVar := false }
  | .worker w interrupted =>
      if w < cfg.threads then workerStep cfg s w (s.worker w) interrupted else none
  | a => mainStep cfg s s.mainPc a

/-- A statement of `main` leaves the workers alone, and the queue where it is not `mq_send`; it
comes to `mq_send` with an index of the table. -/
lemma frame_mainStep {cfg : Config} {s s' : State} {pc : MainPc} {a : Action}
    (h : mainStep cfg s pc a = some s') : s'.worker = s.worker ∧ (a ≠ .mqSend → s'.que = s.que) ∧
      (s'.mainPc = .mqSend → s'.count < cfg.startAllocSize) := by
  cases pc <;> cases a <;> simp only [mainStep, reduceCtorEq, Option.some.injEq] at h
  case head.head =>
    split at h
    · obtain rfl := Option.some.inj h
      exact ⟨rfl, fun _ => rfl, nofun⟩
    · obtain rfl := Option.some.inj h
      exact ⟨rfl, fun _ => rfl, nofun⟩
  case select.select ready =>
    subst h
    cases ready <;> exact ⟨rfl, fun _ => rfl, nofun⟩
  case accept.accept fd =>
    cases fd with
    | none =>
        obtain ⟨-, h⟩ := Option.ite_none_right_eq_some.mp h
        obtain rfl := Option.some.inj h
        exact ⟨rfl, fun _ => rfl, nofun⟩
    | some fd =>
        obtain ⟨⟨hlt, -⟩, h⟩ := Option.ite_none_right_eq_some.mp h
        obtain rfl := Option.some.inj h
        exact ⟨rfl, fun _ => rfl, fun _ => hlt⟩
  case mqSend.mqSend =>
    split at h
    · obtain rfl := Option.some.inj h
      exact ⟨rfl, fun hno => absurd rfl hno, nofun⟩
    · obtain rfl := Option.some.inj h
      exact ⟨rfl, fun hno => absurd rfl hno, nofun⟩
  all_goals
    subst h
    exact ⟨rfl, fun _ => rfl, nofun⟩

/-! ## Where an index is in flight -/

/-- The worker has received index `i` and has not yet zeroed its entry. -/
def Worker.WorksFor (k : Worker) (i : ℕ) : Prop :=
  k.cliFdNoFromQue = i ∧
    k.pc ∈ [WorkerPc.fill, .mark, .check, .recv, .send, .close, .zero]

/-- The worker has received index `i` and has not yet closed its descriptor. -/
def Worker.Serves (k : Worker) (i : ℕ) : Prop := k.WorksFor i ∧ k.pc ≠ .zero

/-- The worker has closed the descriptor of index `i` and is about to zero its entry. -/
def Worker.Closed (k : Worker) (i : ℕ) : Prop := k.cliFdNoFromQue = i ∧ k.pc = .zero

/-- No message naming `i` is queued and no worker works for `i`. -/
def AtRest (s : State) (i : ℕ) : Prop :=
  i ∉ s.que ∧ ∀ w, ¬ (s.worker w).WorksFor i

lemma Worker.worksFor_iff {k : Worker} {i : ℕ} :
    k.WorksFor i ↔ k.Serves i ∨ k.Closed i := by
  unfold Worker.Serves Worker.Closed Worker.WorksFor
  by_cases hz : k.pc = .zero
  · simp [hz]
  · simp [hz]

end ProducerConsumer
end EltSummer
