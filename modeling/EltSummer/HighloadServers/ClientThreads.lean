import EltSummer.Framework.RacyCounter
import EltSummer.HighloadServers.ClientSession
import EltSummer.HighloadServers.EchoServer
import EltSummer.HighloadServers.ThreadPerClient

/-!
# The threads of the one-thread-per-client servers

`sockets_highload_services_27July/server_one_thread_for_one_client_tcp.c` and its UDP sibling, all
threads at once.  `main` stores what arrives and hands it over as in `ThreadPerClient`; a client's
thread finds its client through the pointer it was given, whenever it comes to run, and the memory
behind the pointer is `main`'s.  When the loop of `main` has ended, `stop_threads` ends the threads,
`main` joins them and frees the arrays.  `error_flag` and `clients_connected_count` are counted up
by several threads without a lock.

The two servers differ in what `Worker` has.  A thread with a connection of its own receives before
it answers, ends its loop in the first turn (`ClientSession.loop_recv_cons`) and closes; a thread
without one goes round until `stop_threads` is 1, and counts an answer that could not be sent as an
error.

Every call's result is part of the action.  A word of more than one byte overruns `buff_exit` and
has no result.  What is printed on the way and what is received are left out; a join of a thread
that runs waits for it, and a join of one that could not be created fails.  The counters are natural
numbers: each turn adds at most two to either, far from the end of `int`.
-/

namespace EltSummer
namespace ClientThreads

open Block CString Interleaving RacyCounter Function
open ThreadPerClient (Server Config Create created)
open EchoServer (ShutdownPc exitBuffMsg)

/-! ## The two servers -/

/-- `BUFF_SIZE`. -/
def buffSize : ℕ := 128

/-- Whom a call is about: a connection, or an address for `sendto`. -/
inductive Peer
  | descriptor (fd : ℤ)
  | address (addrClient : ThreadPerClient.SockaddrIn) (addrClientSize : ℕ)
  deriving DecidableEq

/-- What the threads of a server do. -/
structure Worker (srv : Server) where
  /-- Each thread has a connection of its own. -/
  connected : Bool
  /-- `SERVER_MSG`. -/
  serverMsg : List UInt8
  noNul : 0 ∉ serverMsg
  fits : serverMsg.length < buffSize
  /-- Whom an arrival comes from. -/
  arrived : srv.Entry → Peer
  /-- Whom a thread finds through its argument, with the arrays indexed by `count`. -/
  peer : List srv.Entry → srv.Arg → Option Peer
  found : ∀ clients i e, clients[i]? = some e → peer clients (srv.prepare i e) = some (arrived e)

/-- The TCP server: `clients_fd[*arg_count]`. -/
def tcp : Worker ThreadPerClient.tcp where
  connected := true
  serverMsg := ClientSession.serverMsg
  noNul := by decide
  fits := by decide
  arrived := fun e => .descriptor e.clientFd
  peer := fun (clients : List ThreadPerClient.TcpEntry) (argCount : ℕ) =>
    clients[argCount]?.map fun e => .descriptor e.clientFd
  found := by
    intro clients i e he
    exact (Option.map_eq_some_iff (f := fun e => Peer.descriptor e.clientFd)).mpr ⟨e, he, rfl⟩

/-- The UDP server: `arg_thread->addr_client` and `arg_thread->addr_client_size`. -/
def udp : Worker ThreadPerClient.udp where
  connected := false
  serverMsg :=
    "HELLO! I'AM SERVER! 'one thread for one client (udp)'".toList.map fun c => c.val.toUInt8
  noNul := by decide
  fits := by decide
  arrived := fun e => .address e.addrClient e.addrClientSize
  peer := fun _ argThread => some (.address argThread.addrClient argThread.addrClientSize)
  found := fun _ _ _ _ => rfl

/-! ## The machine -/

/-- The statement `main` executes next. -/
inductive MainPc
  | createShutdown
  /-- `while (main_while_var)`. -/
  | head
  /-- `listen` and `accept`, or `recvfrom`. -/
  | call
  /-- The argument of the next thread. -/
  | prepare
  | create
  /-- `stop_threads = 1`. -/
  | stop
  | join (i : ℕ)
  | joinShutdown
  /-- `free` of the arrays and `close(server_fd)`. -/
  | free
  /-- `clients_connected_count` is printed and `error_flag` tested. -/
  | report
  | exited (success : Bool)
  deriving DecidableEq

/-- The statement `func_thread_client` executes next. -/
inductive ClientPc
  | absent
  | recv
  | send
  /-- `while (stop_threads != 1)`. -/
  | head
  | turn
  | close
  | exited
  deriving DecidableEq

def ClientPc.running (pc : ClientPc) : Bool := pc ≠ .absent && pc ≠ .exited

/-- The calls a client's thread makes. -/
inductive Call
  | recv
  | send (buffOutput : List UInt8)
  | close
  deriving DecidableEq

/-- A call of thread `thread`, and whom it was about. -/
structure Contact where
  thread : ℕ
  call : Call
  peer : Peer
  deriving DecidableEq

/-- Who counts: `main` is `none`, the thread of cell `k` is `some k`. -/
abbrev Counting : Type := Counter (Option ℕ)

structure State (srv : Server) where
  mem : ThreadPerClient.State srv
  freed : Bool
  mainPc : MainPc
  client : ℕ → ClientPc
  shutdown : ShutdownPc
  mainWhileVar : Bool
  stopThreads : Bool
  errorFlag : Counting
  clientsConnectedCount : Counting
  /-- `clients_connected_count` as it is printed. -/
  printed : Option ℕ
  /-- The connections that are open, each with the turn that accepted it. -/
  opened : List (ℕ × Peer)
  /-- The turns of the loop that are done. -/
  turns : List (ThreadPerClient.Turn srv)
  /-- What the call of this turn has brought. -/
  brought : Option srv.Call
  contacts : List Contact

variable {srv : Server}

/-- Behind the four calls of `calloc`. -/
def start (srv : Server) (cfg : Config) : State srv where
  mem := ThreadPerClient.init srv cfg
  freed := false
  mainPc := .createShutdown
  client _ := .absent
  shutdown := .absent
  mainWhileVar := true
  stopThreads := false
  errorFlag := Counter.zero
  clientsConnectedCount := Counter.zero
  printed := none
  opened := []
  turns := []
  brought := none
  contacts := []

/-- What a call of `main` returns. -/
inductive Outcome (srv : Server)
  | ok
  | failed
  | refused (r : srv.Refusal)
  | called (c : srv.Call)
  | created (create : Create)

/-- What a call of a client's thread returns; `fresh` is what is in `buff_output` before it is
written. -/
inductive Result
  | ok
  | send (fresh : List UInt8) (sent : Bool)

inductive Action (srv : Server)
  | main (outcome : Outcome srv)
  | client (k : ℕ) (result : Result)
  /-- `none` is the end of the input. -/
  | shutdown (word : Option (List UInt8))
  /-- The next part of an `x++` that this thread has begun. -/
  | count (thread : Option ℕ)

/-- `error_flag++`, begun by this thread. -/
def State.countError (s : State srv) (thread : Option ℕ) : State srv :=
  { s with errorFlag := s.errorFlag.enter thread }

/-- `clients_connected_count++`, begun by this thread. -/
def State.countConnected (s : State srv) (thread : Option ℕ) : State srv :=
  { s with clientsConnectedCount := s.clientsConnectedCount.enter thread }

/-- The thread is inside an `x++`. -/
def State.counts (s : State srv) (thread : Option ℕ) : Bool :=
  thread ∈ s.errorFlag.inside || thread ∈ s.clientsConnectedCount.inside

/-- The end of a turn of `main`: `count++`, and the test whether the arrays are full. -/
def State.endTurn (s : State srv) (cfg : Config) (turn : ThreadPerClient.Turn srv)
    (mem : ThreadPerClient.State srv) : State srv :=
  { s with
    mem := mem.bump
    turns := s.turns ++ [turn]
    brought := none
    mainPc := if mem.bump.count = cfg.startAllocSize - 1 then .stop else .head }

/-- What `accept` has returned is open; it was not open before. -/
def Worker.opens (w : Worker srv) (s : State srv) (c : srv.Call) : Option (List (ℕ × Peer)) :=
  if w.connected then
    let p := w.arrived (srv.entry c)
    if p ∈ s.opened.map Prod.snd then none else some (s.opened ++ [(s.turns.length, p)])
  else some s.opened

/-- One statement of `main`. -/
def mainStep (cfg : Config) (w : Worker srv) (s : State srv) : Outcome srv → Option (State srv)
  | .ok =>
      match s.mainPc with
      | .createShutdown => some { s with shutdown := .head, mainPc := .head }
      | .head => some { s with mainPc := if s.mainWhileVar then .call else .stop }
      | .prepare => s.mem.storeArg.map fun mem => { s with mem := mem, mainPc := .create }
      | .stop => some { s with stopThreads := true, mainPc := .join 0 }
      | .join i =>
          if i < s.mem.countThreads then
            if (s.client i).running then none
            else (load s.mem.threadsClients i).map fun _ => { s with mainPc := .join (i + 1) }
          else some { s with mainPc := .joinShutdown }
      | .joinShutdown =>
          if s.shutdown = .exited then some { s with mainPc := .free } else none
      | .free => some { s with freed := true, mainPc := .report }
      | .report =>
          some { s with
            printed := some s.clientsConnectedCount.value
            mainPc := .exited (s.errorFlag.value = 0) }
      | _ => none
  | .failed =>
      match s.mainPc with
      | .createShutdown => some ({ s with mainPc := .stop }.countError none)
      | .joinShutdown =>
          if s.shutdown = .absent then some ({ s with mainPc := .free }.countError none) else none
      | _ => none
  | .refused r =>
      match s.mainPc with
      | .call => some ((s.endTurn cfg (.refused r) s.mem).countError none)
      | _ => none
  | .called c =>
      match s.mainPc with
      | .call =>
          (s.mem.storeEntry (srv.entry c)).bind fun mem =>
            if srv.failed c then
              some ((s.endTurn cfg (.called c (.fails 0)) mem).countError none)
            else (w.opens s c).map fun opened =>
              { s with mem := mem, opened := opened, brought := some c, mainPc := .prepare }
      | _ => none
  | .created create =>
      match s.mainPc with
      | .create =>
          s.brought.bind fun c => (s.mem.pthreadCreate create).map fun mem =>
            let s' := s.endTurn cfg (.called c create) mem
            match create with
            | .fails _ => s'.countError none
            | .succeeds _ =>
                { s' with
                  client := update s.client s.mem.countThreads
                    (if w.connected then .recv else .send) }
      | _ => none

/-- Whom thread `k` finds through its pointer; there is nothing behind it once the arrays are
freed. -/
def State.peer (s : State srv) (w : Worker srv) (k : ℕ) : Option Peer :=
  if s.freed then none else (load s.mem.args k).bind (w.peer s.mem.clients)

/-- Thread `k` behind a call. -/
def State.contact (s : State srv) (k : ℕ) (call : Call) (p : Peer) (pc : ClientPc) : State srv :=
  { s with
    client := update s.client k pc
    contacts := s.contacts ++ [⟨k, call, p⟩] }

/-- One statement of a client's thread.  Each call looks up its peer again. -/
def clientStep (w : Worker srv) (s : State srv) (k : ℕ) : Result → Option (State srv)
  | .ok =>
      match s.client k with
      | .recv => (s.peer w k).map fun p => s.contact k .recv p .send
      | .head =>
          some { s with
            client := update s.client k
              (if !s.stopThreads then .turn else if w.connected then .close else .exited) }
      | .turn =>
          if w.connected then (s.peer w k).map fun p => s.contact k .recv p .close
          else some { s with client := update s.client k .head }
      | .close =>
          (s.peer w k).map fun p =>
            { s.contact k .close p .exited with opened := s.opened.filter fun o => o.2 ≠ p }
      | _ => none
  | .send fresh sent =>
      if s.client k = .send ∧ fresh.length = buffSize then
        (s.peer w k).bind fun p =>
          (strncpy fresh (w.serverMsg ++ [0]) buffSize).map fun buffOutput =>
            let s' := s.contact k (.send buffOutput) p .head
            if sent then s'.countConnected (some k)
            else if w.connected then s' else s'.countError (some k)
      else none

/-- One statement of `func_thread_shutdown_server`. -/
def shutdownStep (s : State srv) (word : Option (List UInt8)) : Option (State srv) :=
  match s.shutdown with
  | .head => some { s with shutdown := if s.stopThreads then .exited else .scan }
  | .scan =>
      match word with
      | none => some { s with shutdown := .head }
      | some w =>
          if w.length = 1 then
            if w = exitBuffMsg then some { s with mainWhileVar := false, shutdown := .exited }
            else some { s with shutdown := .head }
          else none
  | _ => none

/-- The next part of an `x++`. -/
def countStep (s : State srv) (thread : Option ℕ) : Option (State srv) :=
  if thread ∈ s.errorFlag.inside then
    (s.errorFlag.go thread).map fun errorFlag => { s with errorFlag := errorFlag }
  else (s.clientsConnectedCount.go thread).map fun clientsConnectedCount =>
    { s with clientsConnectedCount := clientsConnectedCount }

/-- `main` has exited, and the process with it. -/
def MainPc.ended : MainPc → Bool
  | .exited _ => true
  | _ => false

/-- One step of the machine.  Once `main` has exited there is none; a thread inside an `x++` ends
it first. -/
def step (cfg : Config) (w : Worker srv) (s : State srv) (a : Action srv) : Option (State srv) :=
  if s.mainPc.ended then none
  else match a with
    | .main outcome => if s.counts none then none else mainStep cfg w s outcome
    | .client k result => if s.counts (some k) then none else clientStep w s k result
    | .shutdown word => shutdownStep s word
    | .count thread => countStep s thread

/-! ## What a step can do -/

/-- The answer to every client. -/
def Worker.answer (w : Worker srv) : List UInt8 :=
  w.serverMsg ++ List.replicate (buffSize - w.serverMsg.length) 0

/-- Where a client's thread goes next, and what it calls on the way. -/
inductive Worker.Next (w : Worker srv) : ClientPc → List Call → ClientPc → Prop
  | recv : w.Next .recv [.recv] .send
  | send : w.Next .send [.send w.answer] .head
  | stay : w.Next .head [] .turn
  | leave : w.Next .head [] (if w.connected then .close else .exited)
  | ends (h : w.connected = true) : w.Next .turn [.recv] .close
  | sleeps (h : w.connected = false) : w.Next .turn [] .head
  | close : w.Next .close [.close] .exited

/-- The call has failed and makes the thread count an error. -/
def Result.fails (w : Worker srv) : Result → Bool
  | .send _ sent => !sent && !w.connected
  | .ok => false

/-- The answer has been sent. -/
def Result.sent : Result → Bool
  | .send _ sent => sent
  | .ok => false

/-- What a statement of thread `k` does. -/
structure ClientMove (w : Worker srv) (s s' : State srv) (k : ℕ) (r : Result) (calls : List Call)
    (pc : ClientPc) : Prop where
  next : w.Next (s.client k) calls pc
  client : s'.client = update s.client k pc
  contacts : ∃ new, s'.contacts = s.contacts ++ new ∧ new.map Contact.call = calls ∧
    ∀ m ∈ new, m.thread = k ∧ s.peer w k = some m.peer
  opened : s'.opened = s.opened ∧ calls ≠ [.close] ∨
    calls = [.close] ∧ ∃ p, s.peer w k = some p ∧ s'.opened = s.opened.filter fun o => o.2 ≠ p
  errorFlag : s'.errorFlag =
    if r.fails w then s.errorFlag.enter (some k) else s.errorFlag
  clientsConnectedCount : s'.clientsConnectedCount =
    if r.sent then s.clientsConnectedCount.enter (some k) else s.clientsConnectedCount
  counts : (r.fails w || r.sent) = true → s.client k = .send
  mem : s'.mem = s.mem
  freed : s'.freed = s.freed
  mainPc : s'.mainPc = s.mainPc
  turns : s'.turns = s.turns
  brought : s'.brought = s.brought
  shutdown : s'.shutdown = s.shutdown
  stopThreads : s'.stopThreads = s.stopThreads
  stops : s.stopThreads = true → s.client k = .head → pc ≠ .turn

variable {cfg : Config} {w : Worker srv} {s s' : State srv} {k : ℕ}

lemma strncpy_answer (w : Worker srv) {fresh : List UInt8} (hlen : fresh.length = buffSize) :
    strncpy fresh (w.serverMsg ++ [0]) buffSize = some w.answer := by
  rw [← hlen, strncpy_whole w.noNul (hlen ▸ w.fits), hlen]
  rfl

/-- A statement with a call. -/
lemma ClientMove.of_contact {call : Call} {p : Peer} {pc : ClientPc}
    (hnext : w.Next (s.client k) [call] pc) (hp : s.peer w k = some p) (hcall : call ≠ .close) :
    ClientMove w s (s.contact k call p pc) k .ok [call] pc where
  next := hnext
  client := rfl
  contacts := ⟨[⟨k, call, p⟩], rfl, rfl, fun m hm => by simp_all⟩
  opened := Or.inl ⟨rfl, by simpa using hcall⟩
  errorFlag := rfl
  clientsConnectedCount := rfl
  counts := nofun
  mem := rfl
  freed := rfl
  mainPc := rfl
  turns := rfl
  brought := rfl
  shutdown := rfl
  stopThreads := rfl
  stops := by
    rintro - hpc rfl
    rw [hpc] at hnext
    cases hnext

/-- A statement without one. -/
lemma ClientMove.of_silent {pc : ClientPc} (hnext : w.Next (s.client k) [] pc)
    (hstops : s.stopThreads = true → s.client k = .head → pc ≠ .turn) :
    ClientMove w s { s with client := update s.client k pc } k .ok [] pc where
  next := hnext
  client := rfl
  contacts := ⟨[], by simp, rfl, nofun⟩
  opened := Or.inl ⟨rfl, nofun⟩
  errorFlag := rfl
  clientsConnectedCount := rfl
  counts := nofun
  mem := rfl
  freed := rfl
  mainPc := rfl
  turns := rfl
  brought := rfl
  shutdown := rfl
  stopThreads := rfl
  stops := hstops

lemma clientMove_of_ok (h : clientStep w s k .ok = some s') :
    ∃ calls pc, ClientMove w s s' k .ok calls pc := by
  cases hpc : s.client k with
  | recv =>
      simp only [clientStep, hpc] at h
      obtain ⟨p, hp, rfl⟩ := Option.map_eq_some_iff.mp h
      exact ⟨_, _, .of_contact (hpc ▸ .recv) hp nofun⟩
  | head =>
      simp only [clientStep, hpc, Option.some.injEq] at h
      subst h
      refine ⟨_, _, .of_silent ?_ fun hstop _ => ?_⟩
      · rw [hpc]
        cases s.stopThreads
        · exact .stay
        · exact .leave
      · rw [hstop]
        cases w.connected <;> nofun
  | turn =>
      simp only [clientStep, hpc] at h
      split at h
      · rename_i hconn
        obtain ⟨p, hp, rfl⟩ := Option.map_eq_some_iff.mp h
        exact ⟨_, _, .of_contact (hpc ▸ .ends hconn) hp nofun⟩
      · rename_i hconn
        obtain rfl := Option.some.inj h
        exact ⟨_, _, .of_silent (hpc ▸ .sleeps ((Bool.not_eq_true _).mp hconn)) nofun⟩
  | close =>
      simp only [clientStep, hpc] at h
      obtain ⟨p, hp, rfl⟩ := Option.map_eq_some_iff.mp h
      refine ⟨[.close], .exited, hpc ▸ .close, rfl, ⟨[⟨k, .close, p⟩], rfl, rfl, fun m hm => ?_⟩,
        Or.inr ⟨rfl, p, hp, rfl⟩, rfl, rfl, nofun, rfl, rfl, rfl, rfl, rfl, rfl, rfl, nofun⟩
      obtain rfl := List.mem_singleton.mp hm
      exact ⟨rfl, hp⟩
  | _ => simp [clientStep, hpc] at h

/-- **What a client's thread can do.** -/
lemma clientMove_of_step {r : Result} (h : clientStep w s k r = some s') :
    ∃ calls pc, ClientMove w s s' k r calls pc := by
  cases r with
  | ok => exact clientMove_of_ok h
  | send fresh sent =>
      obtain ⟨⟨hpc, hlen⟩, h⟩ := Option.ite_none_right_eq_some.mp h
      obtain ⟨p, hp, h⟩ := Option.bind_eq_some_iff.mp h
      rw [strncpy_answer w hlen, Option.map_some] at h
      obtain rfl := Option.some.inj h
      refine ⟨[.send w.answer], .head, ?_⟩
      have hnext : w.Next (s.client k) [.send w.answer] .head := hpc ▸ .send
      have hmove := ClientMove.of_contact hnext hp (by simp)
      cases sent with
      | true => exact { hmove with counts := fun _ => hpc, clientsConnectedCount := rfl }
      | false =>
          cases hconn : w.connected with
          | true =>
              rw [if_neg Bool.false_ne_true, if_pos rfl]
              exact { hmove with
                counts := fun _ => hpc
                errorFlag := by simp [Result.fails, hconn, State.contact] }
          | false =>
              rw [if_neg Bool.false_ne_true, if_neg Bool.false_ne_true]
              exact { hmove with
                counts := fun _ => hpc
                errorFlag := by simp [Result.fails, hconn, State.contact, State.countError] }

/-- The turns of the loop, up to `count++`. -/
def MainPc.inLoop : MainPc → Bool
  | .createShutdown => true
  | .head => true
  | .call => true
  | .prepare => true
  | .create => true
  | _ => false

/-- The call of a turn has brought something that is not handed over yet. -/
def MainPc.holds : MainPc → Bool
  | .prepare => true
  | .create => true
  | _ => false

/-- Every client's thread is joined. -/
def MainPc.joined : MainPc → Bool
  | .joinShutdown => true
  | .free => true
  | .report => true
  | .exited _ => true
  | _ => false

/-- The call has failed and makes `main` count an error. -/
def Outcome.fails : Outcome srv → Bool
  | .ok => false
  | .failed => true
  | .refused _ => true
  | .called c => srv.failed c
  | .created (.fails _) => true
  | .created (.succeeds _) => false

/-- Where `main` goes next when it hands nothing over. -/
inductive Advance (s : State srv) : MainPc → MainPc → Prop
  | created : Advance s .createShutdown .head
  | notCreated : Advance s .createShutdown .stop
  | goesOn : Advance s .head .call
  | leaves : Advance s .head .stop
  | stops : Advance s .stop (.join 0)
  | joins {i : ℕ} (hi : i < s.mem.countThreads) (hdone : (s.client i).running = false) :
      Advance s (.join i) (.join (i + 1))
  | joinsAll {i : ℕ} (hi : s.mem.countThreads ≤ i) : Advance s (.join i) .joinShutdown
  | joinsShutdown : Advance s .joinShutdown .free
  | frees : Advance s .free .report
  | exits {success : Bool} : Advance s .report (.exited success)

/-- `main` goes on and hands nothing over. -/
structure Control (s s' : State srv) : Prop where
  mem : s'.mem = s.mem
  client : s'.client = s.client
  contacts : s'.contacts = s.contacts
  opened : s'.opened = s.opened
  turns : s'.turns = s.turns
  brought : s'.brought = s.brought
  pc : Advance s s.mainPc s'.mainPc
  freed : s'.freed = true → s'.mainPc = .report ∨ s.freed = true
  shutdown : s.mainPc ≠ .createShutdown → s'.shutdown = s.shutdown
  stopThreads : s'.stopThreads = (s.stopThreads || decide (s.mainPc = .stop))
  ended : ∀ success, s'.mainPc = .exited success → success = decide (s.errorFlag.value = 0) ∧
    s'.printed = some s.clientsConnectedCount.value ∧ s'.errorFlag = s.errorFlag

/-- What a statement of `main` does. -/
inductive MainMove (cfg : Config) (w : Worker srv) (s : State srv) : Outcome srv → State srv → Prop
  | control {o : Outcome srv} {s' : State srv} (h : Control s s')
      (herror : s'.errorFlag = if o.fails then s.errorFlag.enter none else s.errorFlag)
      (hcount : s'.clientsConnectedCount = s.clientsConnectedCount)
      (hfails : o.fails = true → s.mainPc = .createShutdown ∨ s.mainPc = .joinShutdown) :
      MainMove cfg w s o s'
  | refused {r : srv.Refusal} (hpc : s.mainPc = .call) :
      MainMove cfg w s (.refused r) ((s.endTurn cfg (.refused r) s.mem).countError none)
  | misses {c : srv.Call} {mem : ThreadPerClient.State srv} (hpc : s.mainPc = .call)
      (hmem : s.mem.storeEntry (srv.entry c) = some mem) (hfailed : srv.failed c = true) :
      MainMove cfg w s (.called c) ((s.endTurn cfg (.called c (.fails 0)) mem).countError none)
  | brings {c : srv.Call} {mem : ThreadPerClient.State srv} {opened : List (ℕ × Peer)}
      (hpc : s.mainPc = .call) (hmem : s.mem.storeEntry (srv.entry c) = some mem)
      (hok : srv.failed c = false) (hopened : w.opens s c = some opened) :
      MainMove cfg w s (.called c)
        { s with mem := mem, opened := opened, brought := some c, mainPc := .prepare }
  | prepares {mem : ThreadPerClient.State srv} (hpc : s.mainPc = .prepare)
      (hmem : s.mem.storeArg = some mem) :
      MainMove cfg w s .ok { s with mem := mem, mainPc := .create }
  | fails {c : srv.Call} {left : ℕ} {mem : ThreadPerClient.State srv} (hpc : s.mainPc = .create)
      (hc : s.brought = some c) (hmem : s.mem.pthreadCreate (.fails left) = some mem) :
      MainMove cfg w s (.created (.fails left))
        ((s.endTurn cfg (.called c (.fails left)) mem).countError none)
  | creates {c : srv.Call} {thread : ℕ} {mem : ThreadPerClient.State srv}
      (hpc : s.mainPc = .create) (hc : s.brought = some c)
      (hmem : s.mem.pthreadCreate (.succeeds thread) = some mem) :
      MainMove cfg w s (.created (.succeeds thread))
        { s.endTurn cfg (.called c (.succeeds thread)) mem with
          client := update s.client s.mem.countThreads (if w.connected then .recv else .send) }

variable {pc pc' : MainPc}

lemma Advance.holds (h : Advance s pc pc') : pc.holds = false ∧ pc'.holds = false := by
  cases h <;> exact ⟨rfl, rfl⟩

lemma Advance.inLoop (h : Advance s pc pc') (hin : pc'.inLoop = true) : pc.inLoop = true := by
  cases h with
  | created => rfl
  | goesOn => rfl
  | _ => cases hin

lemma Advance.joined (h : Advance s pc pc') (hjoined : pc.joined = true) : pc'.joined = true := by
  cases h with
  | joinsShutdown => rfl
  | frees => rfl
  | exits => rfl
  | _ => cases hjoined

lemma mainMove_of_ok (h : mainStep cfg w s .ok = some s') : MainMove cfg w s .ok s' := by
  cases hpc : s.mainPc with
  | createShutdown =>
      simp only [mainStep, hpc, Option.some.injEq] at h
      subst h
      exact .control ⟨rfl, rfl, rfl, rfl, rfl, rfl, hpc ▸ .created, Or.inr,
        fun hne => absurd hpc hne, by simp [hpc], nofun⟩ rfl rfl nofun
  | head =>
      simp only [mainStep, hpc, Option.some.injEq] at h
      subst h
      refine .control ⟨rfl, rfl, rfl, rfl, rfl, rfl, ?_, Or.inr, fun _ => rfl, by simp [hpc], ?_⟩
        rfl rfl nofun
      · rw [hpc]
        cases s.mainWhileVar
        · exact .leaves
        · exact .goesOn
      · cases s.mainWhileVar <;> nofun
  | prepare =>
      simp only [mainStep, hpc] at h
      obtain ⟨mem, hmem, rfl⟩ := Option.map_eq_some_iff.mp h
      exact .prepares hpc hmem
  | stop =>
      simp only [mainStep, hpc, Option.some.injEq] at h
      subst h
      exact .control ⟨rfl, rfl, rfl, rfl, rfl, rfl, hpc ▸ .stops, Or.inr, fun _ => rfl,
        by simp [hpc], nofun⟩ rfl rfl nofun
  | join i =>
      simp only [mainStep, hpc] at h
      split at h
      · rename_i hlt
        obtain ⟨hdone, h⟩ := Option.ite_none_left_eq_some.mp h
        obtain ⟨thread, -, rfl⟩ := Option.map_eq_some_iff.mp h
        exact .control ⟨rfl, rfl, rfl, rfl, rfl, rfl,
          hpc ▸ .joins hlt ((Bool.not_eq_true _).mp hdone), Or.inr, fun _ => rfl, by simp [hpc],
          nofun⟩ rfl rfl nofun
      · rename_i hall
        obtain rfl := Option.some.inj h
        exact .control ⟨rfl, rfl, rfl, rfl, rfl, rfl, hpc ▸ .joinsAll (Nat.le_of_not_lt hall),
          Or.inr, fun _ => rfl, by simp [hpc], nofun⟩ rfl rfl nofun
  | joinShutdown =>
      simp only [mainStep, hpc] at h
      obtain ⟨-, h⟩ := Option.ite_none_right_eq_some.mp h
      obtain rfl := Option.some.inj h
      exact .control ⟨rfl, rfl, rfl, rfl, rfl, rfl, hpc ▸ .joinsShutdown, Or.inr, fun _ => rfl,
        by simp [hpc], nofun⟩ rfl rfl nofun
  | free =>
      simp only [mainStep, hpc, Option.some.injEq] at h
      subst h
      exact .control ⟨rfl, rfl, rfl, rfl, rfl, rfl, hpc ▸ .frees, fun _ => Or.inl rfl,
        fun _ => rfl, by simp [hpc], nofun⟩ rfl rfl nofun
  | report =>
      simp only [mainStep, hpc, Option.some.injEq] at h
      subst h
      exact .control ⟨rfl, rfl, rfl, rfl, rfl, rfl, hpc ▸ .exits, Or.inr, fun _ => rfl,
        by simp [hpc], fun success hs => ⟨(MainPc.exited.inj hs).symm, rfl, rfl⟩⟩ rfl rfl nofun
  | _ => simp [mainStep, hpc] at h

/-- **What `main` can do.** -/
lemma mainMove_of_step {o : Outcome srv} (h : mainStep cfg w s o = some s') :
    MainMove cfg w s o s' := by
  cases o with
  | ok => exact mainMove_of_ok h
  | failed =>
      cases hpc : s.mainPc with
      | createShutdown =>
          simp only [mainStep, hpc, Option.some.injEq] at h
          subst h
          exact .control ⟨rfl, rfl, rfl, rfl, rfl, rfl, hpc ▸ .notCreated, Or.inr,
            fun _ => rfl, by simp [hpc, State.countError], nofun⟩ rfl rfl
            fun _ => Or.inl hpc
      | joinShutdown =>
          simp only [mainStep, hpc] at h
          obtain ⟨-, h⟩ := Option.ite_none_right_eq_some.mp h
          obtain rfl := Option.some.inj h
          exact .control ⟨rfl, rfl, rfl, rfl, rfl, rfl, hpc ▸ .joinsShutdown, Or.inr,
            fun _ => rfl, by simp [hpc, State.countError], nofun⟩ rfl rfl
            fun _ => Or.inr hpc
      | _ => simp [mainStep, hpc] at h
  | refused r =>
      cases hpc : s.mainPc with
      | call =>
          simp only [mainStep, hpc, Option.some.injEq] at h
          subst h
          exact .refused hpc
      | _ => simp [mainStep, hpc] at h
  | called c =>
      cases hpc : s.mainPc with
      | call =>
          simp only [mainStep, hpc] at h
          obtain ⟨mem, hmem, h⟩ := Option.bind_eq_some_iff.mp h
          split at h
          · rename_i hfailed
            obtain rfl := Option.some.inj h
            exact .misses hpc hmem hfailed
          · rename_i hok
            obtain ⟨opened, hopened, rfl⟩ := Option.map_eq_some_iff.mp h
            exact .brings hpc hmem ((Bool.not_eq_true _).mp hok) hopened
      | _ => simp [mainStep, hpc] at h
  | created create =>
      cases hpc : s.mainPc with
      | create =>
          simp only [mainStep, hpc] at h
          obtain ⟨c, hc, h⟩ := Option.bind_eq_some_iff.mp h
          obtain ⟨mem, hmem, rfl⟩ := Option.map_eq_some_iff.mp h
          cases create with
          | fails left => exact .fails hpc hc hmem
          | succeeds thread => exact .creates hpc hc hmem
      | _ => simp [mainStep, hpc] at h

end ClientThreads
end EltSummer
