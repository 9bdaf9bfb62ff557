import EltSummer.Framework.Interleaving
import Mathlib.Data.Finset.Basic
import Mathlib.Data.Finset.Insert
import Mathlib.Data.Int.Notation
import Mathlib.Logic.Function.Basic
import Mathlib.Tactic.Simps.Basic

/-!
# The thread-pool TCP server

`sockets_highload_services_27July/server_thread_pull_scheme.c`: a pool of `start_alloc_size`
workers is created at the start.  `main` keeps the descriptors of its clients in `clients_fd`
and hands each of them to a worker through the worker's cell of `args`; the cell's `flag` says
whether the worker has a client.  At the head of every turn `main` zeroes the entries whose
worker is idle again, and behind the loop it closes every entry that is not zero.

The machine takes one statement on shared data per step and lets `main`, the workers and the
thread that waits for the exit line interleave freely.  `clients_fd` is `main`'s alone, so
the search for a zero entry is one step.  What the environment decides is part of the
action: the results of `listen`, `accept` and `send`, the lines typed, CTRL-C at any moment.
A call that blocks is one whose thread takes no step: `accept` without a client and `recv`
from a silent one may wait for ever, and when they return is not said.  Which workers could
be created is a parameter; the join of one that was not fails and goes on.  `sleep(1)` is a
delay and so restricts nothing.  The kernel is modelled as far as descriptors go: `accept`
returns one that is not open, `close` closes one that is.

What is received is printed only, and `clients_connected_count` is printed only; neither is
part of the machine.  Nor are `struct_count`, which is the cell's own index, `error_flag`,
which chooses the exit status, and the set-up calls before the loop, whose failure leaves no
client behind.

`log` and a worker's `replies` are ghosts: what was accepted, handed over and closed, and
what was sent to whom.
-/

namespace EltSummer
namespace ThreadPool

open Interleaving Function

/-! ## Data -/

/-- `start_alloc_size`, which is a positive constant, and which workers `pthread_create` has
created. -/
structure Config where
  startAllocSize : ℕ
  size_pos : 0 < startAllocSize
  created : ℕ → Bool

/-- `BUFF_SIZE`. -/
def buffSize : ℕ := 128

/-- `SERVER_MSG`. -/
def serverMsg : List UInt8 :=
  "HELLO! I'AM SERVER! 'pull of threads'".toList.map fun c => c.val.toUInt8

/-- `strncpy(buff_output, SERVER_MSG, sizeof(buff_output))`, which pads with zeros. -/
def serverReply : List UInt8 :=
  serverMsg ++ List.replicate (buffSize - serverMsg.length) 0

/-- The statement `main` executes next. -/
inductive MainPc
  /-- `while (main_while_var)`. -/
  | head
  /-- In the release scan: `i < start_alloc_size` and `pthread_mutex_lock(&ml[i])`. -/
  | scanLock (i : ℕ)
  /-- The test of cell `i` and `clients_fd[args[i].client_fd_no] = 0`. -/
  | scanBody (i : ℕ)
  /-- `pthread_mutex_unlock(&ml[i])` and `i++`. -/
  | scanUnlock (i : ℕ)
  /-- `listen(...)`. -/
  | listen
  /-- The search for a zero entry of `clients_fd`. -/
  | search
  /-- `clients_fd[clients_fd_no] = accept(...)` and the test for -1. -/
  | accept
  /-- In the search for a worker: `i < start_alloc_size` and `pthread_mutex_lock(&ml[i])`. -/
  | findLock (i : ℕ)
  /-- `if (args[i].flag == 0)`. -/
  | findTest (i : ℕ)
  /-- `args[i].client_fd = clients_fd[clients_fd_no]`. -/
  | setFd (i : ℕ)
  /-- `args[i].client_fd_no = clients_fd_no`. -/
  | setFdNo (i : ℕ)
  /-- `args[i].flag = 1`. -/
  | setFlag (i : ℕ)
  /-- `pthread_mutex_unlock(&ml[i]); break`. -/
  | foundUnlock (i : ℕ)
  /-- `pthread_mutex_unlock(&ml[i])` and `i++`. -/
  | findUnlock (i : ℕ)
  /-- `count++; clients_fd_no = 0` and the test of `count`. -/
  | bump
  /-- `EXIT: stop_threads = 1`. -/
  | exit
  /-- `pthread_join(threads_clients[i], NULL)`. -/
  | join (i : ℕ)
  /-- `pthread_join(thread_shutdown, NULL)`. -/
  | joinShutdown
  /-- In the clean-up: `close(clients_fd[i])` when the entry is not zero. -/
  | cleanup (i : ℕ)
  /-- The end of `main`. -/
  | ended
  deriving DecidableEq, Repr

/-- The statement a worker executes next. -/
inductive WorkerPc
  /-- `while (stop_threads != 1)`. -/
  | head
  /-- `if (arg_thread->flag == 1)`. -/
  | test
  /-- `recv(arg_thread->client_fd, ...)`. -/
  | recv
  /-- `send(arg_thread->client_fd, buff_output, ...)` and the test of its result. -/
  | send
  /-- The inner `while (stop_threads != 1)`. -/
  | inner
  /-- `pthread_mutex_lock(&ml[arg_thread->struct_count])`. -/
  | lock
  /-- `arg_thread->flag = 0`. -/
  | clearFlag
  /-- `close(arg_thread->client_fd)`. -/
  | close
  /-- `pthread_mutex_unlock(...); break`. -/
  | unlock
  /-- `pthread_exit`. -/
  | exited
  deriving DecidableEq, Repr

/-- `struct pthread_args`. -/
structure Cell where
  clientFd : ℤ
  clientFdNo : ℕ
  flag : ℕ
  deriving DecidableEq, Repr

/-- A worker: its program counter, `buff_output`, and the replies it has sent. -/
structure Worker where
  pc : WorkerPc
  buffOutput : List UInt8
  replies : List (ℤ × List UInt8)
  deriving DecidableEq

/-- What has happened: a descriptor was accepted, handed over in a cell, or closed, by a
worker or by the clean-up. -/
inductive Event
  | accept (fd : ℤ)
  | hand (cell : ℕ) (fd : ℤ)
  | close (worker : Option ℕ) (fd : ℤ)
  deriving DecidableEq, Repr

structure State where
  mainPc : MainPc
  count : ℕ
  clientsFdNo : ℕ
  clientsFd : ℕ → ℤ
  args : ℕ → Cell
  ml : ℕ → Bool
  worker : ℕ → Worker
  shutdownExited : Bool
  mainWhileVar : Bool
  stopThreads : Bool
  openFds : Finset ℤ
  log : List Event

/-- The standard streams and the server socket are open, the pool is created. -/
def init : State where
  mainPc := .head
  count := 0
  clientsFdNo := 0
  clientsFd := fun _ => 0
  args := fun _ => ⟨0, 0, 0⟩
  ml := fun _ => false
  worker := fun _ => ⟨.head, serverReply, []⟩
  shutdownExited := false
  mainWhileVar := true
  stopThreads := false
  openFds := {0, 1, 2, 3}
  log := []

/-! ## The machine -/

/-- A step of the machine.  `accept none` is the failure -1; `line true` is the exit line;
`worker w ok` says whether the worker's `send` succeeds. -/
inductive Action
  | main
  | listen (ok : Bool)
  | accept (fd : Option ℕ)
  | worker (w : ℕ) (ok : Bool)
  | line (exit : Bool)
  | interrupt
  deriving DecidableEq, Repr

/-- The first zero among the first `n` entries. -/
def firstFree (clientsFd : ℕ → ℤ) (n : ℕ) : Option ℕ :=
  (List.range n).find? fun i => clientsFd i = 0

@[simps] def State.goto (s : State) (pc : MainPc) : State := { s with mainPc := pc }

@[simps] def State.setMl (s : State) (i : ℕ) (locked : Bool) : State :=
  { s with ml := update s.ml i locked }

@[simps] def State.setEntry (s : State) (i : ℕ) (fd : ℤ) : State :=
  { s with clientsFd := update s.clientsFd i fd }

@[simps] def State.setCell (s : State) (i : ℕ) (c : Cell) : State :=
  { s with args := update s.args i c }

@[simps] def State.setWorker (s : State) (w : ℕ) (k : Worker) : State :=
  { s with worker := update s.worker w k }

@[simps] def State.record (s : State) (e : Event) : State := { s with log := s.log ++ [e] }

/-- `close(fd)`.  On a number that is no open descriptor it fails and changes nothing. -/
@[simps] def State.closeFd (s : State) (worker : Option ℕ) (fd : ℤ) : State :=
  { s with openFds := s.openFds.erase fd, log := s.log ++ [.close worker fd] }

/-- `clients_fd[clients_fd_no] = accept(...)`, with the index checked against the table. -/
def acceptStep (cfg : Config) (s : State) (fd : Option ℕ) : Option State :=
  if s.clientsFdNo < cfg.startAllocSize then
    match fd with
    | none => some ((s.setEntry s.clientsFdNo (-1)).goto .bump)
    | some fd =>
        if (fd : ℤ) ∈ s.openFds then none
        else some (({ s with openFds := insert (fd : ℤ) s.openFds }.setEntry s.clientsFdNo fd
          |>.record (.accept fd)).goto (.findLock 0))
  else none

/-- One statement of `main`. -/
def mainStep (cfg : Config) (s : State) : MainPc → Action → Option State
  | .head, .main => some (s.goto (if s.mainWhileVar then .scanLock 0 else .exit))
  | .scanLock i, .main =>
      if i < cfg.startAllocSize then
        if s.ml i then none else some ((s.setMl i true).goto (.scanBody i))
      else some (s.goto .listen)
  | .scanBody i, .main =>
      if (s.args i).flag = 0 ∧ (s.args i).clientFd ≠ 0 then
        if (s.args i).clientFdNo < cfg.startAllocSize then
          some ((s.setEntry (s.args i).clientFdNo 0).goto (.scanUnlock i))
        else none
      else some (s.goto (.scanUnlock i))
  | .scanUnlock i, .main => some ((s.setMl i false).goto (.scanLock (i + 1)))
  | .listen, .listen ok => some (s.goto (if ok then .search else .bump))
  | .search, .main =>
      -- without a zero entry `clients_fd_no` stays as it is
      some ({ s with
        clientsFdNo := (firstFree s.clientsFd cfg.startAllocSize).getD s.clientsFdNo }.goto .accept)
  | .accept, .accept fd => acceptStep cfg s fd
  | .findLock i, .main =>
      if i < cfg.startAllocSize then
        if s.ml i then none else some ((s.setMl i true).goto (.findTest i))
      else some (s.goto .bump)
  | .findTest i, .main => some (s.goto (if (s.args i).flag = 0 then .setFd i else .findUnlock i))
  | .setFd i, .main =>
      some ((s.setCell i { s.args i with clientFd := s.clientsFd s.clientsFdNo }).goto (.setFdNo i))
  | .setFdNo i, .main =>
      some ((s.setCell i { s.args i with clientFdNo := s.clientsFdNo }).goto (.setFlag i))
  | .setFlag i, .main =>
      some (((s.setCell i { s.args i with flag := 1 }).record
        (.hand i (s.args i).clientFd)).goto (.foundUnlock i))
  | .foundUnlock i, .main => some ((s.setMl i false).goto .bump)
  | .findUnlock i, .main => some ((s.setMl i false).goto (.findLock (i + 1)))
  | .bump, .main =>
      some ({ s with count := s.count + 1, clientsFdNo := 0 }.goto
        (if s.count + 1 = cfg.startAllocSize then .exit else .head))
  | .exit, .main => some ({ s with stopThreads := true }.goto (.join 0))
  | .join i, .main =>
      if i < cfg.startAllocSize then
        if (s.worker i).pc = .exited ∨ cfg.created i = false then some (s.goto (.join (i + 1)))
        else none
      else some (s.goto .joinShutdown)
  | .joinShutdown, .main => if s.shutdownExited then some (s.goto (.cleanup 0)) else none
  | .cleanup i, .main =>
      if i < cfg.startAllocSize then
        some ((if s.clientsFd i ≠ 0 then s.closeFd none (s.clientsFd i) else s).goto
          (.cleanup (i + 1)))
      else some (s.goto .ended)
  | _, _ => none

/-- One statement of worker `w`. -/
def workerStep (s : State) (w : ℕ) (ok : Bool) : Option State :=
  let k := s.worker w
  match k.pc with
  | .head => some (s.setWorker w { k with pc := if s.stopThreads then .exited else .test })
  | .test => some (s.setWorker w { k with pc := if (s.args w).flag = 1 then .recv else .head })
  | .recv => some (s.setWorker w { k with pc := .send })
  | .send =>
      if ok then
        some (s.setWorker w ⟨.inner, List.replicate buffSize 0,
          k.replies ++ [((s.args w).clientFd, k.buffOutput)]⟩)
      else some (s.setWorker w { k with pc := .head })
  | .inner => some (s.setWorker w { k with pc := if s.stopThreads then .head else .lock })
  | .lock =>
      if s.ml w then none else some ((s.setMl w true).setWorker w { k with pc := .clearFlag })
  | .clearFlag =>
      some ((s.setCell w { s.args w with flag := 0 }).setWorker w { k with pc := .close })
  | .close =>
      some ((s.closeFd (some w) (s.args w).clientFd).setWorker w { k with pc := .unlock })
  | .unlock => some ((s.setMl w false).setWorker w { k with pc := .head })
  | .exited => none

/-- A line typed for `func_thread_shutdown_server`. -/
def lineStep (s : State) (exit : Bool) : Option State :=
  if s.shutdownExited then none
  else if exit then some { s with mainWhileVar := false, shutdownExited := true }
  else some { s with shutdownExited := s.stopThreads }

/-- One step of the machine. -/
def step (cfg : Config) (s : State) : Action → Option State
  | .worker w ok =>
      if w < cfg.startAllocSize ∧ cfg.created w then workerStep s w ok else none
  | .line exit => lineStep s exit
  | .interrupt => some { s with mainWhileVar := false, stopThreads := true }
  | a => mainStep cfg s s.mainPc a

/-! ## What a step can do -/

variable {cfg : Config} {s s' : State}

/-- A control step of `main`: it touches nothing but the program counter and the mutexes. -/
inductive Control (cfg : Config) (s : State) : MainPc → (ℕ → Bool) → MainPc → Prop
  | enter : Control cfg s .head s.ml (.scanLock 0)
  | leave : Control cfg s .head s.ml .exit
  | scanLock {i} (hi : i < cfg.startAllocSize) (hml : s.ml i = false) :
      Control cfg s (.scanLock i) (update s.ml i true) (.scanBody i)
  | scanned {i} : Control cfg s (.scanLock i) s.ml .listen
  | scanKeep {i} : Control cfg s (.scanBody i) s.ml (.scanUnlock i)
  | scanUnlock {i} : Control cfg s (.scanUnlock i) (update s.ml i false) (.scanLock (i + 1))
  | findLock {i} (hi : i < cfg.startAllocSize) (hml : s.ml i = false) :
      Control cfg s (.findLock i) (update s.ml i true) (.findTest i)
  | findNone {i} (hi : ¬ i < cfg.startAllocSize) : Control cfg s (.findLock i) s.ml .bump
  | idle {i} (hflag : (s.args i).flag = 0) : Control cfg s (.findTest i) s.ml (.setFd i)
  | busy {i} (hflag : (s.args i).flag ≠ 0) : Control cfg s (.findTest i) s.ml (.findUnlock i)
  | foundUnlock {i} : Control cfg s (.foundUnlock i) (update s.ml i false) .bump
  | findUnlock {i} : Control cfg s (.findUnlock i) (update s.ml i false) (.findLock (i + 1))
  | join {i} (hi : i < cfg.startAllocSize)
      (hexit : (s.worker i).pc = .exited ∨ cfg.created i = false) :
      Control cfg s (.join i) s.ml (.join (i + 1))
  | joined {i} (hi : ¬ i < cfg.startAllocSize) : Control cfg s (.join i) s.ml .joinShutdown
  | joinShutdown : Control cfg s .joinShutdown s.ml (.cleanup 0)
  | cleanKeep {i} (hzero : s.clientsFd i = 0) :
      Control cfg s (.cleanup i) s.ml (.cleanup (i + 1))
  | cleaned {i} (hi : ¬ i < cfg.startAllocSize) : Control cfg s (.cleanup i) s.ml .ended

/-- A control step of a worker. -/
inductive WorkerControl (s : State) (w : ℕ) : WorkerPc → (ℕ → Bool) → WorkerPc → Prop
  | stopped (hstop : s.stopThreads = true) : WorkerControl s w .head s.ml .exited
  | enter : WorkerControl s w .head s.ml .test
  | called (hflag : (s.args w).flag = 1) : WorkerControl s w .test s.ml .recv
  | idle : WorkerControl s w .test s.ml .head
  | recv : WorkerControl s w .recv s.ml .send
  | sendFails : WorkerControl s w .send s.ml .head
  | quits : WorkerControl s w .inner s.ml .head
  | finish : WorkerControl s w .inner s.ml .lock
  | lock (hml : s.ml w = false) : WorkerControl s w .lock (update s.ml w true) .clearFlag
  | unlock : WorkerControl s w .unlock (update s.ml w false) .head

/-- What a step can do. -/
inductive Moves (cfg : Config) (s : State) : Action → State → Prop
  | control {ml pc} (h : Control cfg s s.mainPc ml pc) :
      Moves cfg s .main ({ s with ml := ml }.goto pc)
  | zero {i} (hpc : s.mainPc = .scanBody i) (hflag : (s.args i).flag = 0)
      (hfd : (s.args i).clientFd ≠ 0) (hno : (s.args i).clientFdNo < cfg.startAllocSize) :
      Moves cfg s .main ((s.setEntry (s.args i).clientFdNo 0).goto (.scanUnlock i))
  | listen {ok pc} (hpc : s.mainPc = .listen) (hpc' : pc = .search ∨ pc = .bump) :
      Moves cfg s (.listen ok) (s.goto pc)
  | search (hpc : s.mainPc = .search) :
      Moves cfg s .main ({ s with
        clientsFdNo := (firstFree s.clientsFd cfg.startAllocSize).getD s.clientsFdNo }.goto .accept)
  | acceptFails (hpc : s.mainPc = .accept) (hno : s.clientsFdNo < cfg.startAllocSize) :
      Moves cfg s (.accept none) ((s.setEntry s.clientsFdNo (-1)).goto .bump)
  | accepts {fd : ℕ} (hpc : s.mainPc = .accept) (hno : s.clientsFdNo < cfg.startAllocSize)
      (hfd : (fd : ℤ) ∉ s.openFds) :
      Moves cfg s (.accept (some fd))
        (({ s with openFds := insert (fd : ℤ) s.openFds }.setEntry s.clientsFdNo fd
          |>.record (.accept fd)).goto (.findLock 0))
  | setFd {i} (hpc : s.mainPc = .setFd i) :
      Moves cfg s .main ((s.setCell i { s.args i with
        clientFd := s.clientsFd s.clientsFdNo }).goto (.setFdNo i))
  | setFdNo {i} (hpc : s.mainPc = .setFdNo i) :
      Moves cfg s .main ((s.setCell i { s.args i with
        clientFdNo := s.clientsFdNo }).goto (.setFlag i))
  | setFlag {i} (hpc : s.mainPc = .setFlag i) :
      Moves cfg s .main (((s.setCell i { s.args i with flag := 1 }).record
        (.hand i (s.args i).clientFd)).goto (.foundUnlock i))
  | bump {pc} (hpc : s.mainPc = .bump)
      (hpc' : s.count + 1 = cfg.startAllocSize ∧ pc = .exit ∨
        s.count + 1 ≠ cfg.startAllocSize ∧ pc = .head) :
      Moves cfg s .main ({ s with count := s.count + 1, clientsFdNo := 0 }.goto pc)
  | exit (hpc : s.mainPc = .exit) :
      Moves cfg s .main ({ s with stopThreads := true }.goto (.join 0))
  | clean {i} (hpc : s.mainPc = .cleanup i) (hi : i < cfg.startAllocSize)
      (hfd : s.clientsFd i ≠ 0) :
      Moves cfg s .main ((s.closeFd none (s.clientsFd i)).goto (.cleanup (i + 1)))
  | worker {w ok ml pc} (hw : w < cfg.startAllocSize ∧ cfg.created w = true)
      (h : WorkerControl s w (s.worker w).pc ml pc) :
      Moves cfg s (.worker w ok) ({ s with ml := ml }.setWorker w { s.worker w with pc := pc })
  | sends {w ok} (hpc : (s.worker w).pc = .send) :
      Moves cfg s (.worker w ok) (s.setWorker w ⟨.inner, List.replicate buffSize 0,
        (s.worker w).replies ++ [((s.args w).clientFd, (s.worker w).buffOutput)]⟩)
  | clearFlag {w ok} (hpc : (s.worker w).pc = .clearFlag) :
      Moves cfg s (.worker w ok) ((s.setCell w { s.args w with flag := 0 }).setWorker w
        { s.worker w with pc := .close })
  | close {w ok} (hpc : (s.worker w).pc = .close) :
      Moves cfg s (.worker w ok) ((s.closeFd (some w) (s.args w).clientFd).setWorker w
        { s.worker w with pc := .unlock })
  | signal {a run stop ended} (ha : a ≠ .main) :
      Moves cfg s a { s with mainWhileVar := run, stopThreads := stop, shutdownExited := ended }

lemma moves_of_main (h : mainStep cfg s s.mainPc .main = some s') : Moves cfg s .main s' := by
  have hctl : ∀ {ml pc}, Control cfg s s.mainPc ml pc →
      Moves cfg s .main ({ s with ml := ml }.goto pc) := .control
  cases hpc : s.mainPc with
  | head =>
      simp only [mainStep, hpc, Option.some.injEq] at h hctl
      subst h
      cases s.mainWhileVar with
      | false => exact hctl .leave
      | true => exact hctl .enter
  | scanLock i =>
      simp only [mainStep, hpc] at h hctl
      split at h
      · rename_i hi
        cases hml : s.ml i with
        | true => simp [hml] at h
        | false =>
            simp only [hml, Bool.false_eq_true, if_false, Option.some.injEq] at h
            subst h
            exact hctl (.scanLock hi hml)
      · obtain rfl := Option.some.inj h
        exact hctl .scanned
  | scanBody i =>
      simp only [mainStep, hpc] at h hctl
      split at h
      · rename_i hidle
        obtain ⟨hno, h⟩ := Option.ite_none_right_eq_some.mp h
        obtain rfl := Option.some.inj h
        exact .zero hpc hidle.1 hidle.2 hno
      · obtain rfl := Option.some.inj h
        exact hctl .scanKeep
  | scanUnlock i =>
      simp only [mainStep, hpc, Option.some.injEq] at h hctl
      subst h
      exact hctl .scanUnlock
  | listen => simp [mainStep, hpc] at h
  | search =>
      simp only [mainStep, hpc, Option.some.injEq] at h
      subst h
      exact .search hpc
  | accept => simp [mainStep, hpc] at h
  | findLock i =>
      simp only [mainStep, hpc] at h hctl
      split at h
      · rename_i hi
        cases hml : s.ml i with
        | true => simp [hml] at h
        | false =>
            simp only [hml, Bool.false_eq_true, if_false, Option.some.injEq] at h
            subst h
            exact hctl (.findLock hi hml)
      · rename_i hi
        obtain rfl := Option.some.inj h
        exact hctl (.findNone hi)
  | findTest i =>
      simp only [mainStep, hpc, Option.some.injEq] at h hctl
      subst h
      by_cases hflag : (s.args i).flag = 0
      · rw [if_pos hflag]
        exact hctl (.idle hflag)
      · rw [if_neg hflag]
        exact hctl (.busy hflag)
  | setFd i =>
      simp only [mainStep, hpc, Option.some.injEq] at h
      subst h
      exact .setFd hpc
  | setFdNo i =>
      simp only [mainStep, hpc, Option.some.injEq] at h
      subst h
      exact .setFdNo hpc
  | setFlag i =>
      simp only [mainStep, hpc, Option.some.injEq] at h
      subst h
      exact .setFlag hpc
  | foundUnlock i =>
      simp only [mainStep, hpc, Option.some.injEq] at h hctl
      subst h
      exact hctl .foundUnlock
  | findUnlock i =>
      simp only [mainStep, hpc, Option.some.injEq] at h hctl
      subst h
      exact hctl .findUnlock
  | bump =>
      simp only [mainStep, hpc, Option.some.injEq] at h
      subst h
      refine .bump hpc ?_
      by_cases hlast : s.count + 1 = cfg.startAllocSize
      · exact Or.inl ⟨hlast, if_pos hlast⟩
      · exact Or.inr ⟨hlast, if_neg hlast⟩
  | exit =>
      simp only [mainStep, hpc, Option.some.injEq] at h
      subst h
      exact .exit hpc
  | join i =>
      simp only [mainStep, hpc] at h hctl
      split at h
      · rename_i hi
        obtain ⟨hexit, h⟩ := Option.ite_none_right_eq_some.mp h
        obtain rfl := Option.some.inj h
        exact hctl (.join hi hexit)
      · rename_i hi
        obtain rfl := Option.some.inj h
        exact hctl (.joined hi)
  | joinShutdown =>
      simp only [mainStep, hpc, Option.ite_none_right_eq_some] at h hctl
      obtain rfl := Option.some.inj h.2
      exact hctl .joinShutdown
  | cleanup i =>
      simp only [mainStep, hpc] at h hctl
      split at h
      · rename_i hi
        obtain rfl := Option.some.inj h
        by_cases hfd : s.clientsFd i = 0
        · rw [if_neg (not_not.mpr hfd)]
          exact hctl (.cleanKeep hfd)
        · rw [if_pos hfd]
          exact .clean hpc hi hfd
      · rename_i hi
        obtain rfl := Option.some.inj h
        exact hctl (.cleaned hi)
  | ended => simp [mainStep, hpc] at h

lemma moves_of_worker {w : ℕ} {ok : Bool} (hw : w < cfg.startAllocSize ∧ cfg.created w = true)
    (h : workerStep s w ok = some s') : Moves cfg s (.worker w ok) s' := by
  have hctl : ∀ {ml pc}, WorkerControl s w (s.worker w).pc ml pc →
      Moves cfg s (.worker w ok) ({ s with ml := ml }.setWorker w { s.worker w with pc := pc }) :=
    .worker hw
  cases hpc : (s.worker w).pc with
  | head =>
      simp only [workerStep, hpc, Option.some.injEq] at h hctl
      subst h
      cases hstop : s.stopThreads with
      | false => exact hctl .enter
      | true => exact hctl (.stopped hstop)
  | test =>
      simp only [workerStep, hpc, Option.some.injEq] at h hctl
      subst h
      by_cases hflag : (s.args w).flag = 1
      · rw [if_pos hflag]
        exact hctl (.called hflag)
      · rw [if_neg hflag]
        exact hctl .idle
  | recv =>
      simp only [workerStep, hpc, Option.some.injEq] at h hctl
      subst h
      exact hctl .recv
  | send =>
      simp only [workerStep, hpc] at h hctl
      cases ok with
      | false =>
          obtain rfl := Option.some.inj h
          exact hctl .sendFails
      | true =>
          obtain rfl := Option.some.inj h
          exact .sends hpc
  | inner =>
      simp only [workerStep, hpc, Option.some.injEq] at h hctl
      subst h
      cases s.stopThreads with
      | false => exact hctl .finish
      | true => exact hctl .quits
  | lock =>
      simp only [workerStep, hpc] at h hctl
      cases hml : s.ml w with
      | true => simp [hml] at h
      | false =>
          simp only [hml, Bool.false_eq_true, if_false, Option.some.injEq] at h
          subst h
          exact hctl (.lock hml)
  | clearFlag =>
      simp only [workerStep, hpc, Option.some.injEq] at h
      subst h
      exact .clearFlag hpc
  | close =>
      simp only [workerStep, hpc, Option.some.injEq] at h
      subst h
      exact .close hpc
  | unlock =>
      simp only [workerStep, hpc, Option.some.injEq] at h hctl
      subst h
      exact hctl .unlock
  | exited => simp [workerStep, hpc] at h

/-- Every step is one of the moves. -/
theorem moves_of_step {a : Action} (h : step cfg s a = some s') : Moves cfg s a s' := by
  cases a with
  | main => exact moves_of_main h
  | listen ok =>
      cases hpc : s.mainPc with
      | listen =>
          simp only [step, mainStep, hpc, Option.some.injEq] at h
          subst h
          cases ok with
          | false => exact .listen hpc (Or.inr rfl)
          | true => exact .listen hpc (Or.inl rfl)
      | _ => simp [step, mainStep, hpc] at h
  | accept fd =>
      cases hpc : s.mainPc with
      | accept =>
          simp only [step, mainStep, hpc, acceptStep, Option.ite_none_right_eq_some] at h
          obtain ⟨hno, h⟩ := h
          cases fd with
          | none =>
              obtain rfl := Option.some.inj h
              exact .acceptFails hpc hno
          | some fd =>
              obtain ⟨hfd, h⟩ := Option.ite_none_left_eq_some.mp h
              obtain rfl := Option.some.inj h
              exact .accepts hpc hno hfd
      | _ => simp [step, mainStep, hpc] at h
  | worker w ok =>
      obtain ⟨hw, h⟩ := Option.ite_none_right_eq_some.mp h
      exact moves_of_worker hw h
  | line exit =>
      simp only [step, lineStep] at h
      obtain ⟨-, h⟩ := Option.ite_none_left_eq_some.mp h
      split at h
      · obtain rfl := Option.some.inj h
        exact .signal nofun
      · obtain rfl := Option.some.inj h
        exact .signal nofun
  | interrupt =>
      obtain rfl := Option.some.inj h
      exact .signal nofun

end ThreadPool
end EltSummer
