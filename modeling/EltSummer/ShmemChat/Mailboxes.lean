import EltSummer.Framework.Interleaving
import EltSummer.Framework.Mailbox
import EltSummer.ShmemChat.Letters
import Mathlib.Tactic.Common

/-!
# The segments of the shared-memory chat as mailboxes

Here each critical section is one step.  Segment `2 * k` leads from the clients of slot `k` to
server thread `k`, segment `2 * k + 1` from the server threads to the clients of slot `k`.

What is in the memory is kept together with the letter it is the content of (`Slip`), so that
copying a record copies the letter.  The letters and the logs of what was written, handled,
put and read have no influence on what the programs do.  `Office` is what server and clients
share, with the server threads and the logs; `State` adds the client processes.

`Paced` is the guard under which no letter is lost: it says that a writer finds its segment
emptied by the reader.
-/

namespace EltSummer
namespace ShmemChat
namespace Mailboxes

open Interleaving

/-! ## Letters -/

/-- Who wrote a letter: `main` to connect, the send thread, `main` to disconnect. -/
inductive Kind
  | connect
  | chat
  | disconnect
  deriving DecidableEq

/-- A message a client of a slot has written. -/
structure Letter where
  kind : Kind
  slot : ℕ
  /-- The number of letters written at this slot before it. -/
  no : ℕ
  /-- Whether a client was connected at the slot when it was written. -/
  ofConnected : Bool
  content : StructMsg
  deriving DecidableEq

/-- A record in memory, and the unread letter it is the content of. -/
structure Slip where
  msg : StructMsg
  letter : Option Letter

def Slip.zero : Slip := ⟨.zero, none⟩

/-- Whether a client is connected after a letter, given whether one was before it. -/
def Kind.connected (before : Bool) : Kind → Bool
  | .connect => true
  | .chat => before
  | .disconnect => false

/-- Whether a client is connected after these letters. -/
def connectedAfter (L : List Letter) : Bool := L.foldl (fun b l => l.kind.connected b) false

/-! ## The office -/

/-- The critical section or statement a server thread executes next. -/
inductive ServerPc
  /-- `while (stop_threads != 1)`. -/
  | head
  /-- The section on `shmem_ptr[num_in]`. -/
  | take
  /-- The tests of `msg_from_cli`, up to the broadcast loop. -/
  | handle
  /-- The broadcast loop at `i`. -/
  | cast (i : ℕ)
  /-- `memset(msg_from_cli[k], 0, ...)`. -/
  | clear
  /-- `pthread_exit`. -/
  | exited
  deriving DecidableEq

structure Server where
  pc : ServerPc
  msgFrom : Slip
  msgTo : Slip

structure Office where
  shmem : ℕ → Slip
  clientsInfo : ℕ → ClientInfo
  clientsConnectedCount : ℤ
  server : ℕ → Server
  /-- The letters written at a slot. -/
  written : ℕ → List Letter
  /-- Those of them that server thread `k` has handled. -/
  handled : ℕ → List Letter
  /-- What was put into a segment by broadcasts, with the mark whether a client was
  connected there. -/
  puts : ℕ → List (Letter × Bool)
  /-- What was read from a segment by receive threads. -/
  reads : ℕ → List Letter
  /-- The unread letters that a client's write replaced, or a broadcast into the segment of
  a connected client. -/
  replaced : List Letter

namespace Office

/-- The record of slot `k` says that its client is connected. -/
def Connected (o : Office) (k : ℕ) : Prop := (o.clientsInfo k).flagConnect = 1

instance (o : Office) (k : ℕ) : Decidable (o.Connected k) := inferInstanceAs (Decidable (_ = 1))

def setServer (o : Office) (k : ℕ) (t : Server) : Office :=
  { o with server := Function.update o.server k t }

/-- A client of slot `k` writes `m`. -/
def write (o : Office) (k : ℕ) (kind : Kind) (m : StructMsg) : Office :=
  let l : Letter := ⟨kind, k, (o.written k).length, connectedAfter (o.written k), m⟩
  { o with
    shmem := Function.update o.shmem (2 * k) ⟨m, some l⟩
    written := Function.update o.written k (o.written k ++ [l])
    replaced := o.replaced ++ (o.shmem (2 * k)).letter.toList }

/-- Server thread `k` copies its segment and zeroes it. -/
def take (o : Office) (k : ℕ) : Office :=
  { o with
    shmem := Function.update o.shmem (2 * k) .zero
    server := Function.update o.server k
      { o.server k with pc := .handle, msgFrom := o.shmem (2 * k) } }

/-- What server thread `k` has made of `msg_from_cli`. -/
def desk (o : Office) (k : ℕ) : Desk Slip :=
  Desk.handle Slip.msg ⟨o.clientsInfo k, o.clientsConnectedCount, (o.server k).msgTo⟩
    (o.server k).msgFrom

/-- The tests of `msg_from_cli` and the one in front of the broadcast loop. -/
def handle (o : Office) (k : ℕ) : Office :=
  let t := o.server k
  { o with
    clientsInfo := Function.update o.clientsInfo k (o.desk k).info
    clientsConnectedCount := (o.desk k).clientsConnectedCount
    handled := Function.update o.handled k (o.handled k ++ t.msgFrom.letter.toList)
    server := Function.update o.server k
      (if (o.desk k).broadcasts t.msgFrom.msg then
        ⟨.cast 1, { t.msgFrom with msg := { t.msgFrom.msg with flag := 0 } }, (o.desk k).msgTo⟩
      else ⟨.clear, t.msgFrom, (o.desk k).msgTo⟩) }

/-- Server thread `k` copies `msg_to_cli` into segment `i`. -/
def put (o : Office) (k i : ℕ) : Office :=
  let t := o.server k
  let connected := decide (o.Connected (i / 2))
  { o with
    shmem := Function.update o.shmem i t.msgTo
    server := Function.update o.server k { t with pc := .cast (i + 2) }
    puts := Function.update o.puts i
      (o.puts i ++ t.msgTo.letter.toList.map fun l => (l, connected))
    replaced := o.replaced ++ if connected then (o.shmem i).letter.toList else [] }

/-- A receive thread takes a new message from segment `i`. -/
def read (o : Office) (i : ℕ) : Office :=
  { o with
    shmem := Function.update o.shmem i ⟨{ (o.shmem i).msg with flag := 0 }, none⟩
    reads := Function.update o.reads i (o.reads i ++ (o.shmem i).letter.toList) }

/-- The segment as a mailbox of the clients of slot `j`. -/
def mailbox (o : Office) (j : ℕ) : Mailbox Letter :=
  ⟨(o.shmem (2 * j + 1)).letter, o.puts (2 * j + 1), o.reads (2 * j + 1)⟩

end Office

/-! ## The machine -/

inductive MainPc
  /-- The section that connects. -/
  | connect
  /-- `while (main_while_var)`. -/
  | loop
  /-- The section that disconnects. -/
  | disconnect
  /-- `stop_threads = 1`. -/
  | stop
  /-- Joining, and the end. -/
  | ended
  deriving DecidableEq

inductive SendPc
  /-- `while (stop_threads != 1)`. -/
  | head
  /-- `if (scanf_flag == 1)`. -/
  | test
  /-- The section on `shmem_ptr_out`. -/
  | write
  /-- `pthread_exit`. -/
  | exited
  deriving DecidableEq

inductive ReceivePc
  /-- `while (stop_threads != 1)`. -/
  | head
  /-- The section on `shmem_ptr_in`. -/
  | read
  /-- `pthread_exit`. -/
  | exited
  deriving DecidableEq

structure Client where
  mainPc : MainPc
  sendPc : SendPc
  receivePc : ReceivePc
  msgOut : StructMsg
  msgScanf : List UInt8
  scanfFlag : Bool
  mainWhileVar : Bool
  stopThreads : Bool

structure State where
  office : Office
  stopThreads : Bool
  client : ℕ → Client

/-- The segments zeroed, the server's threads created, nothing written. -/
def Office.init : Office where
  shmem := fun _ => .zero
  clientsInfo := fun _ => ⟨0, 0⟩
  clientsConnectedCount := 0
  server := fun _ => ⟨.head, .zero, .zero⟩
  written := fun _ => []
  handled := fun _ => []
  puts := fun _ => []
  reads := fun _ => []
  replaced := []

def init : State where
  office := .init
  stopThreads := false
  client := fun _ => ⟨.connect, .head, .head, .zero, [], false, true, false⟩

def State.setClient (s : State) (c : ℕ) (t : Client) : State :=
  { s with client := Function.update s.client c t }

/-- Server thread `k`, whose locals are `t`. -/
def serverStep (cfg : Config) (stopThreads : Bool) (o : Office) (k : ℕ) (t : Server) :
    Option Office :=
  match t.pc with
  | .head => some (o.setServer k { t with pc := if stopThreads then .exited else .take })
  | .take => some (o.take k)
  | .handle => some (o.handle k)
  | .cast i =>
      if i < cfg.maxClients * 2 then
        if i ≠ 2 * k + 1 then some (o.put k i)
        else some (o.setServer k { t with pc := .cast (i + 2) })
      else some (o.setServer k { t with pc := .clear })
  | .clear => some (o.setServer k { t with pc := .head, msgFrom := .zero })
  | .exited => none

/-- `main` of process `c`, whose variables are `t`. -/
def mainStep (cfg : Config) (s : State) (c : ℕ) (t : Client) : Option State :=
  match t.mainPc with
  | .connect =>
      let m := connectMsg t.msgOut (cfg.pid c)
      some (({ s with office := s.office.write (cfg.slot c) .connect m }).setClient c
        { t with mainPc := .loop, msgOut := m })
  | .loop =>
      some (s.setClient c { t with mainPc := if t.mainWhileVar then .loop else .disconnect })
  | .disconnect =>
      let m := disconnectMsg t.msgOut
      some (({ s with office := s.office.write (cfg.slot c) .disconnect m }).setClient c
        { t with mainPc := .stop, msgOut := m })
  | .stop => some (s.setClient c { t with mainPc := .ended, stopThreads := true })
  | .ended => none

/-- The send thread of process `c`. -/
def sendStep (cfg : Config) (s : State) (c : ℕ) (t : Client) : Option State :=
  match t.sendPc with
  | .head =>
      some (s.setClient c { t with sendPc := if t.stopThreads then .exited else .test })
  | .test => some (s.setClient c { t with sendPc := if t.scanfFlag then .write else .head })
  | .write =>
      let m := chatMsg t.msgOut (cfg.nick c) t.msgScanf
      some (({ s with office := s.office.write (cfg.slot c) .chat m }).setClient c
        { t with sendPc := .head, scanfFlag := false, msgOut := .zero })
  | .exited => none

/-- The receive thread of process `c`. -/
def receiveStep (cfg : Config) (s : State) (c : ℕ) (t : Client) : Option State :=
  let into := 2 * cfg.slot c + 1
  match t.receivePc with
  | .head =>
      some (s.setClient c { t with receivePc := if t.stopThreads then .exited else .read })
  | .read =>
      if (s.office.shmem into).msg.flag = 1 then
        some (({ s with office := s.office.read into }).setClient c { t with receivePc := .head })
      else some (s.setClient c { t with receivePc := .head })
  | .exited => none

/-- One step of the machine. -/
def step (cfg : Config) (s : State) : Action → Option State
  | .server k =>
      if k < cfg.maxClients then
        (serverStep cfg s.stopThreads s.office k (s.office.server k)).map fun o =>
          { s with office := o }
      else none
  | .main c => mainStep cfg s c (s.client c)
  | .send c => sendStep cfg s c (s.client c)
  | .receive c => receiveStep cfg s c (s.client c)
  | .type c word =>
      if (s.client c).scanfFlag then none
      else some (s.setClient c { s.client c with
        msgScanf := word.bytes, scanfFlag := true })
  | .interrupt c => some (s.setClient c { s.client c with mainWhileVar := false })
  | .stop => some { s with stopThreads := true }

/-! ## The guard -/

/-- A client's write finds its segment zeroed. -/
def MainPaced (cfg : Config) (s : State) (c : ℕ) : MainPc → Prop
  | .connect => (s.office.shmem (2 * cfg.slot c)).msg = .zero ∧ cfg.pid c ≠ 1
  | .disconnect => (s.office.shmem (2 * cfg.slot c)).msg = .zero
  | .loop | .stop | .ended => True

def SendPaced (cfg : Config) (s : State) (c : ℕ) : SendPc → Prop
  | .write =>
      (s.office.shmem (2 * cfg.slot c)).msg = .zero ∧
        (chatMsg (s.client c).msgOut (cfg.nick c) (s.client c).msgScanf).connects = false ∧
        (chatMsg (s.client c).msgOut (cfg.nick c) (s.client c).msgScanf).disconnects = false
  | .head | .test | .exited => True

/-- A broadcast finds the flag of the segment cleared, or nobody is connected there and
nobody was when the unread letter was put. -/
def ServerPaced (cfg : Config) (o : Office) (k : ℕ) : ServerPc → Prop
  | .cast i => i < cfg.maxClients * 2 → i ≠ 2 * k + 1 → (o.shmem i).msg.flag = 1 →
      ¬ o.Connected (i / 2) ∧ (o.mailbox (i / 2)).lastDue = false
  | .head | .take | .handle | .clear | .exited => True

/-- The guard: a writer finds its segment free.  Besides, no client has pid 1 and no text
begins with one of the two commands, as the server takes such messages for something else. -/
def Paced (cfg : Config) (s : State) : Action → Prop
  | .main c => MainPaced cfg s c (s.client c).mainPc
  | .send c => SendPaced cfg s c (s.client c).sendPc
  | .server k => ServerPaced cfg s.office k (s.office.server k).pc
  | .receive _ | .type _ _ | .interrupt _ | .stop => True

instance (cfg : Config) (s : State) (c : ℕ) : (pc : MainPc) → Decidable (MainPaced cfg s c pc)
  | .connect => inferInstanceAs (Decidable (_ ∧ _))
  | .disconnect => inferInstanceAs (Decidable (_ = _))
  | .loop | .stop | .ended => .isTrue trivial

instance (cfg : Config) (s : State) (c : ℕ) : (pc : SendPc) → Decidable (SendPaced cfg s c pc)
  | .write => inferInstanceAs (Decidable (_ ∧ _ ∧ _))
  | .head | .test | .exited => .isTrue trivial

instance (cfg : Config) (o : Office) (k : ℕ) : (pc : ServerPc) → Decidable (ServerPaced cfg o k pc)
  | .cast _ => inferInstanceAs (Decidable (_ → _ → _ → _ ∧ _))
  | .head | .take | .handle | .clear | .exited => .isTrue trivial

instance (cfg : Config) (s : State) : (a : Action) → Decidable (Paced cfg s a)
  | .main c => inferInstanceAs (Decidable (MainPaced cfg s c _))
  | .send c => inferInstanceAs (Decidable (SendPaced cfg s c _))
  | .server k => inferInstanceAs (Decidable (ServerPaced cfg s.office k _))
  | .receive _ | .type _ _ | .interrupt _ | .stop => .isTrue trivial

/-! ## Moves -/

/-- What the parts of a letter a server thread looks at say about its kind. -/
def Kind.Shows (m : StructMsg) : Kind → Prop
  | .connect => m.connects = true ∧ m.flag ≠ 1
  | .chat => m.connects = false ∧ m.disconnects = false ∧ m.flag = 1
  | .disconnect => m.connects = false ∧ m.disconnects = true

lemma shows_connectMsg (msgOut : StructMsg) {pid : ℤ} (hpid : pid ≠ 1) :
    Kind.connect.Shows (connectMsg msgOut pid) := by
  refine ⟨?_, hpid⟩
  simp [StructMsg.connects, connectMsg, overlay]

lemma shows_disconnectMsg (msgOut : StructMsg) :
    Kind.disconnect.Shows (disconnectMsg msgOut) := by
  refine ⟨?_, ?_⟩
  · simp [StructMsg.connects, disconnectMsg, overlay, msgConnect, msgDisconnect,
      List.isPrefixOf]
  · simp [StructMsg.disconnects, disconnectMsg, overlay]

/-- What a step within the guard does to the office. -/
inductive Office.Move (cfg : Config) (o : Office) : Office → Prop
  | stay : Move cfg o o
  | write (k : ℕ) (kind : Kind) (m : StructMsg) (hfree : (o.shmem (2 * k)).msg = .zero)
      (hshows : kind.Shows m) : Move cfg o (o.write k kind m)
  | take (k : ℕ) (hpc : (o.server k).pc = .take) : Move cfg o (o.take k)
  | handle (k : ℕ) (hpc : (o.server k).pc = .handle) : Move cfg o (o.handle k)
  | put (k i : ℕ) (hpc : (o.server k).pc = .cast i) (hi : i < cfg.maxClients * 2)
      (hown : i ≠ 2 * k + 1)
      (hfree : (o.shmem i).msg.flag = 1 →
        ¬ o.Connected (i / 2) ∧ (o.mailbox (i / 2)).lastDue = false) : Move cfg o (o.put k i)
  | read (j : ℕ) : Move cfg o (o.read (2 * j + 1))
  | begin (k : ℕ) (pc : ServerPc) (hpc : (o.server k).pc = .head)
      (hnext : pc = .take ∨ pc = .exited) :
      Move cfg o (o.setServer k { o.server k with pc := pc })
  | pass (k : ℕ) (hpc : (o.server k).pc = .cast (2 * k + 1)) :
      Move cfg o (o.setServer k { o.server k with pc := .cast (2 * k + 1 + 2) })
  | endCast (k i : ℕ) (hpc : (o.server k).pc = .cast i) (hi : cfg.maxClients * 2 ≤ i) :
      Move cfg o (o.setServer k { o.server k with pc := .clear })
  | clear (k : ℕ) (hpc : (o.server k).pc = .clear) :
      Move cfg o (o.setServer k { o.server k with pc := .head, msgFrom := .zero })

variable {cfg : Config} {s s' : State} {o : Office}

lemma move_of_serverStep {stopThreads : Bool} {k : ℕ} {o' : Office}
    (hok : ServerPaced cfg o k (o.server k).pc)
    (h : serverStep cfg stopThreads o k (o.server k) = some o') : o.Move cfg o' := by
  cases hpc : (o.server k).pc with
  | head =>
      simp only [serverStep, hpc, Option.some.injEq] at h
      subst h
      refine .begin k _ hpc ?_
      cases stopThreads
      · exact Or.inl rfl
      · exact Or.inr rfl
  | take =>
      simp only [serverStep, hpc, Option.some.injEq] at h
      subst h
      exact .take k hpc
  | handle =>
      simp only [serverStep, hpc, Option.some.injEq] at h
      subst h
      exact .handle k hpc
  | cast i =>
      rw [hpc] at hok
      simp only [serverStep, hpc] at h
      split at h
      case isTrue hi =>
        split at h
        case isTrue hown =>
          obtain rfl := Option.some.inj h
          exact .put k i hpc hi hown (hok hi hown)
        case isFalse hown =>
          obtain rfl := Option.some.inj h
          obtain rfl := not_not.mp hown
          exact .pass k hpc
      case isFalse hi =>
        obtain rfl := Option.some.inj h
        exact .endCast k i hpc (Nat.le_of_not_lt hi)
  | clear =>
      simp only [serverStep, hpc, Option.some.injEq] at h
      subst h
      exact .clear k hpc
  | exited => simp [serverStep, hpc] at h

lemma move_of_mainStep {c : ℕ} (hok : MainPaced cfg s c (s.client c).mainPc)
    (h : mainStep cfg s c (s.client c) = some s') : s.office.Move cfg s'.office := by
  cases hpc : (s.client c).mainPc with
  | connect =>
      simp only [mainStep, hpc, Option.some.injEq] at h
      subst h
      rw [hpc] at hok
      exact .write _ _ _ hok.1 (shows_connectMsg _ hok.2)
  | loop =>
      simp only [mainStep, hpc, Option.some.injEq] at h
      subst h
      exact .stay
  | disconnect =>
      simp only [mainStep, hpc, Option.some.injEq] at h
      subst h
      rw [hpc] at hok
      exact .write _ _ _ hok (shows_disconnectMsg _)
  | stop =>
      simp only [mainStep, hpc, Option.some.injEq] at h
      subst h
      exact .stay
  | ended => simp [mainStep, hpc] at h

lemma move_of_sendStep {c : ℕ} (hok : SendPaced cfg s c (s.client c).sendPc)
    (h : sendStep cfg s c (s.client c) = some s') : s.office.Move cfg s'.office := by
  cases hpc : (s.client c).sendPc with
  | head =>
      simp only [sendStep, hpc, Option.some.injEq] at h
      subst h
      exact .stay
  | test =>
      simp only [sendStep, hpc, Option.some.injEq] at h
      subst h
      exact .stay
  | write =>
      simp only [sendStep, hpc, Option.some.injEq] at h
      subst h
      rw [hpc] at hok
      exact .write _ _ _ hok.1 ⟨hok.2.1, hok.2.2, rfl⟩
  | exited => simp [sendStep, hpc] at h

lemma move_of_receiveStep {c : ℕ} (h : receiveStep cfg s c (s.client c) = some s') :
    s.office.Move cfg s'.office := by
  cases hpc : (s.client c).receivePc with
  | head =>
      simp only [receiveStep, hpc, Option.some.injEq] at h
      subst h
      exact .stay
  | read =>
      simp only [receiveStep, hpc] at h
      split at h
      case isTrue =>
        obtain rfl := Option.some.inj h
        exact .read _
      case isFalse =>
        obtain rfl := Option.some.inj h
        exact .stay
  | exited => simp [receiveStep, hpc] at h

lemma move_of_step {a : Action} (hok : Paced cfg s a) (h : step cfg s a = some s') :
    s.office.Move cfg s'.office := by
  cases a with
  | server k =>
      obtain ⟨-, h⟩ := Option.ite_none_right_eq_some.mp h
      obtain ⟨o', ho', rfl⟩ := Option.map_eq_some_iff.mp h
      exact move_of_serverStep hok ho'
  | main c => exact move_of_mainStep hok h
  | send c => exact move_of_sendStep hok h
  | receive c => exact move_of_receiveStep h
  | type c word =>
      obtain ⟨-, h⟩ := Option.ite_none_left_eq_some.mp h
      obtain rfl := Option.some.inj h
      exact .stay
  | interrupt c =>
      obtain rfl := Option.some.inj h
      exact .stay
  | stop =>
      obtain rfl := Option.some.inj h
      exact .stay

end Mailboxes
end ShmemChat
end EltSummer
