import EltSummer.Framework.Decimal
import EltSummer.Framework.Interleaving
import EltSummer.Framework.PosixQueue
import Mathlib.Logic.Function.Basic

/-!
# The message-queue chat

`msg_queues_18July/chat_with_common_room_queues/working_version`.  The server owns two
queues for each of its `MAX_CLIENTS` slots: `ques[2k]` carries what client `k` sends,
`ques[2k+1]` what it receives.  One server thread per slot (`func_thread_client`) takes the
messages of its client one by one; a service message connects or disconnects the client, a
regular one is sent on to every other slot.

The machine takes one statement of a server thread per step; the library calls on queues and
mutexes are atomic.  A client process takes part through its calls on the queues: the start
message, the regular messages of its send thread, the message on an orderly exit, what its
receive thread takes.  What text the send thread composes, and when a process ends and how,
is left open; one process uses a slot at a time.

A server thread's buffer and `prio` are uninitialised when it starts, so both begin with
arbitrary content.  Where the source would read past the buffer, or convert a number that is
no `int`, the machine has no step.

`clients_connected_count` is counted by all threads without a lock; the machine counts each
`++` and `--` as one step.

Ghosts: a message knows its slot, its number among the messages sent there, its session and
what it is for; a thread knows the message it took last and which slots its broadcast has
come to; `sessions`, `sent`, `handled` and `taken` record what has happened.
-/

namespace EltSummer
namespace QueueChat

open Interleaving PosixQueue CString

/-! ## Data -/

/-- `MAX_MSG`. -/
def maxMsg : ℕ := 10

/-- `Q_SIZE`. -/
def qSize : ℕ := 256

/-- `MAX_CLIENTS`, and what `msg_buff` and `prio` hold when the threads start. -/
structure Config where
  maxClients : ℕ
  stack : ℕ → List UInt8
  stackSize : ∀ k, (stack k).length = qSize
  stackPrio : ℕ → ℕ

/-- `PRIO_SERVICE_MSG`. -/
def prioServiceMsg : ℕ := 1

/-- `PRIO_REGULAR_MSG`. -/
def prioRegularMsg : ℕ := 2

/-- A process id. -/
structure Pid where
  val : ℕ
  pos : 0 < val
  isInt : val < 2 ^ 31
  deriving DecidableEq

/-- A text the send thread sends: a C string that fits its buffer. -/
structure Text where
  bytes : List UInt8
  nonempty : bytes ≠ []
  fits : bytes.length < qSize
  noNul : 0 ∉ bytes
  deriving DecidableEq

/-- What a message is for. -/
inductive Purpose
  | start
  | chat
  | farewell
  deriving DecidableEq

/-- A message in a queue. -/
structure Msg where
  prio : ℕ
  text : List UInt8
  slot : ℕ
  no : ℕ
  session : ℕ
  purpose : Purpose
  deriving DecidableEq

/-- `struct clients_info`. -/
structure ClientInfo where
  clientPid : ℤ
  flagConnect : ℕ
  deriving DecidableEq

/-- A process that connected at a slot, and whether its farewell went into the queue. -/
structure Session where
  pid : Pid
  goodbye : Bool

/-- Where the process of a slot stands. -/
inductive Client
  /-- There is none. -/
  | out
  /-- In the main loop, threads running. -/
  | running
  /-- Behind the farewell; the threads run until they are joined. -/
  | leaving
  deriving DecidableEq

/-- The statement a server thread executes next. -/
inductive Pc
  /-- `while (stop_threads != 1)`. -/
  | head
  /-- `if (pthread_mutex_trylock(&mutex_ques[num_que_in]) == 0)`. -/
  | trylock
  /-- `mq_res = mq_receive(...)` and the test of `mq_res`. -/
  | receive
  /-- `pthread_mutex_unlock(...); continue`. -/
  | retry
  /-- `pthread_mutex_unlock(...)` behind a success. -/
  | unlock
  /-- The tests of `prio` and what they guard, up to the broadcast loop. -/
  | handle
  /-- `i < MAX_CLIENTS * 2` and `i != num_que_in + 1`. -/
  | forTest (i : ℕ)
  /-- `pthread_mutex_lock(&mutex_ques[i])`. -/
  | lock (i : ℕ)
  /-- `mq_send(ques[i], ...)`. -/
  | send (i : ℕ)
  /-- `pthread_mutex_unlock(&mutex_ques[i])` and `i += 2`. -/
  | release (i : ℕ)
  /-- `memset(msg_buff, 0, Q_SIZE)`. -/
  | clear
  /-- `pthread_exit`. -/
  | exited
  deriving DecidableEq

/-- A server thread: its locals and the ghosts. -/
structure Thread where
  pc : Pc
  msgBuff : List UInt8
  prio : ℕ
  got : Msg
  visits : List (ℕ × Bool)

structure State where
  stopThreads : Bool
  mutexQues : ℕ → Bool
  ques : ℕ → Queue Msg.prio maxMsg
  clientsInfo : ℕ → ClientInfo
  clientsConnectedCount : ℤ
  thread : ℕ → Thread
  client : ℕ → Client
  sessions : ℕ → List Session
  sent : ℕ → List Msg
  handled : ℕ → List Msg
  taken : ℕ → List Msg

/-- The server's threads have been created; the queues are new. -/
def init (cfg : Config) : State where
  stopThreads := false
  mutexQues := fun _ => false
  ques := fun _ => Queue.empty _ _
  clientsInfo := fun _ => ⟨0, 0⟩
  clientsConnectedCount := 0
  thread := fun k => ⟨.head, cfg.stack k, cfg.stackPrio k, ⟨0, [], 0, 0, 0, .chat⟩, []⟩
  client := fun _ => .out
  sessions := fun _ => []
  sent := fun _ => []
  handled := fun _ => []
  taken := fun _ => []

/-! ## The server thread -/

/-- `mq_receive` into a buffer: the payload, without a terminator. -/
def received (buff text : List UInt8) : List UInt8 := text ++ buff.drop text.length

def State.setThread (s : State) (k : ℕ) (t : Thread) : State :=
  { s with thread := Function.update s.thread k t }

def State.setMutex (s : State) (i : ℕ) (locked : Bool) : State :=
  { s with mutexQues := Function.update s.mutexQues i locked }

def State.setQueue (s : State) (i : ℕ) (q : Queue Msg.prio maxMsg) : State :=
  { s with ques := Function.update s.ques i q }

/-- A service message: connect when disconnected, disconnect when connected. -/
def State.service (s : State) (k : ℕ) (buff : List UInt8) : Option State :=
  if (s.clientsInfo k).flagConnect = 0 then
    (atoi buff).map fun pid => { s with
      clientsInfo := Function.update s.clientsInfo k ⟨pid, 1⟩
      clientsConnectedCount := s.clientsConnectedCount + 1 }
  else if (s.clientsInfo k).flagConnect = 1 then
    some { s with
      clientsInfo := Function.update s.clientsInfo k ⟨0, 0⟩
      clientsConnectedCount := s.clientsConnectedCount - 1 }
  else some s

/-- The message in the buffer counts as handled. -/
def State.markHandled (s : State) (k : ℕ) (m : Msg) : State :=
  { s with handled := Function.update s.handled k (s.handled k ++ [m]) }

/-- The tests of `prio`. -/
def handleStep (s : State) (k : ℕ) (t : Thread) : Option State :=
  let s := s.markHandled k t.got
  if t.prio = prioServiceMsg then
    (s.service k t.msgBuff).map fun s => s.setThread k { t with pc := .clear }
  else if t.prio = prioRegularMsg then
    -- `printf` reads the text
    (stringAt t.msgBuff 0).map fun _ =>
      s.setThread k { t with pc := .forTest 1, visits := [] }
  else some (s.setThread k { t with pc := .clear })

/-- `mq_send(ques[i], msg_buff, strlen(msg_buff), PRIO_REGULAR_MSG)`, its result ignored. -/
def sendStep (s : State) (k : ℕ) (t : Thread) (i : ℕ) : Option State :=
  (stringAt t.msgBuff 0).map fun text =>
    let t := { t with
      pc := .release i
      visits := t.visits ++ [(i / 2, decide ((s.clientsInfo (i / 2)).flagConnect = 1))] }
    match (s.ques i).send { t.got with prio := prioRegularMsg, text := text } with
    | some q => (s.setQueue i q).setThread k t
    | none => s.setThread k t

/-- One statement of server thread `k`, whose locals are `t`. -/
def threadStep (cfg : Config) (s : State) (k : ℕ) (t : Thread) : Option State :=
  match t.pc with
  | .head =>
      some (s.setThread k { t with pc := if s.stopThreads then .exited else .trylock })
  | .trylock =>
      if s.mutexQues (2 * k) then some (s.setThread k { t with pc := .handle })
      else some ((s.setMutex (2 * k) true).setThread k { t with pc := .receive })
  | .receive =>
      match (s.ques (2 * k)).receive with
      | none => some (s.setThread k { t with pc := .retry })
      | some (m, q) =>
          some ((s.setQueue (2 * k) q).setThread k { t with
            pc := .unlock, msgBuff := received t.msgBuff m.text, prio := m.prio, got := m })
  | .retry => some ((s.setMutex (2 * k) false).setThread k { t with pc := .head })
  | .unlock => some ((s.setMutex (2 * k) false).setThread k { t with pc := .handle })
  | .handle => handleStep s k t
  | .forTest i =>
      if i < cfg.maxClients * 2 then
        some (s.setThread k { t with pc := if i ≠ 2 * k + 1 then .lock i else .forTest (i + 2) })
      else some (s.setThread k { t with pc := .clear })
  | .lock i =>
      if s.mutexQues i then none
      else some ((s.setMutex i true).setThread k { t with pc := .send i })
  | .send i => sendStep s k t i
  | .release i =>
      some ((s.setMutex i false).setThread k { t with pc := .forTest (i + 2) })
  | .clear =>
      some (s.setThread k { t with pc := .head, msgBuff := List.replicate qSize 0 })
  | .exited => none

/-! ## The clients -/

/-- A step of the machine. -/
inductive Action
  /-- Server thread `k` executes its next statement. -/
  | thread (k : ℕ)
  /-- `stop_threads = 1` behind the server's main loop. -/
  | stop
  /-- A process starts at slot `k` and sends its pid. -/
  | start (k : ℕ) (pid : Pid)
  /-- The send thread of slot `k` sends a text. -/
  | say (k : ℕ) (text : Text)
  /-- The process of slot `k` leaves its main loop and sends its pid again. -/
  | quit (k : ℕ)
  /-- The process of slot `k` has joined its threads and ends. -/
  | finish (k : ℕ)
  /-- The process of slot `k` is killed. -/
  | kill (k : ℕ)
  /-- The receive thread of slot `k` takes a message. -/
  | take (k : ℕ)
  deriving DecidableEq

/-- `mq_send(que_out, ...)` by the process of slot `k`; `none` when the queue is full. -/
def State.post (s : State) (k : ℕ) (m : Msg) : Option State :=
  ((s.ques (2 * k)).send m).map fun q =>
    { s.setQueue (2 * k) q with sent := Function.update s.sent k (s.sent k ++ [m]) }

/-- The pid's text as a service message: number `no` of slot `k`, in session `σ`. -/
def pidMsg (k no σ : ℕ) (pid : Pid) (p : Purpose) : Msg :=
  ⟨prioServiceMsg, decimal pid.val, k, no, σ, p⟩

/-- A text as a regular message. -/
def chatMsg (k no σ : ℕ) (text : Text) : Msg := ⟨prioRegularMsg, text.bytes, k, no, σ, .chat⟩

/-- `main` up to the creation of the threads.  When the start message is refused the process
ends. -/
def startStep (s : State) (k : ℕ) (pid : Pid) : State :=
  match s.post k (pidMsg k (s.sent k).length (s.sessions k).length pid .start) with
  | some s' => { s' with
      client := Function.update s.client k .running
      sessions := Function.update s.sessions k (s.sessions k ++ [⟨pid, false⟩]) }
  | none => s

/-- A turn of `func_thread_send` with a text to send.  When it is refused the thread keeps
the text. -/
def sayStep (s : State) (k : ℕ) (text : Text) : State :=
  (s.post k (chatMsg k (s.sent k).length ((s.sessions k).length - 1) text)).getD s

/-- `main` behind its loop.  When the message is refused, `main` says so and goes on. -/
def quitStep (s : State) (k : ℕ) (x : Session) (earlier : List Session) : State :=
  match s.post k (pidMsg k (s.sent k).length earlier.length x.pid .farewell) with
  | some s' => { s' with
      client := Function.update s.client k .leaving
      sessions := Function.update s.sessions k (earlier ++ [⟨x.pid, true⟩]) }
  | none => { s with client := Function.update s.client k .leaving }

/-- A turn of `func_thread_receive`. -/
def takeStep (s : State) (k : ℕ) : State :=
  match (s.ques (2 * k + 1)).receive with
  | some (m, q) =>
      { s.setQueue (2 * k + 1) q with taken := Function.update s.taken k (s.taken k ++ [m]) }
  | none => s

/-- One step of the machine. -/
def step (cfg : Config) (s : State) : Action → Option State
  | .thread k => if k < cfg.maxClients then threadStep cfg s k (s.thread k) else none
  | .stop => some { s with stopThreads := true }
  | .start k pid =>
      if k < cfg.maxClients ∧ s.client k = .out then some (startStep s k pid) else none
  | .say k text =>
      if k < cfg.maxClients ∧ s.client k ≠ .out then some (sayStep s k text) else none
  | .quit k =>
      if k < cfg.maxClients ∧ s.client k = .running then
        (s.sessions k).getLast?.map fun x => quitStep s k x (s.sessions k).dropLast
      else none
  | .finish k =>
      if k < cfg.maxClients ∧ s.client k = .leaving then
        some { s with client := Function.update s.client k .out }
      else none
  | .kill k =>
      if k < cfg.maxClients ∧ s.client k ≠ .out then
        some { s with client := Function.update s.client k .out }
      else none
  | .take k =>
      if k < cfg.maxClients ∧ s.client k ≠ .out then some (takeStep s k) else none

end QueueChat
end EltSummer
