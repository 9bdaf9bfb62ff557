import EltSummer.Framework.Interleaving
import EltSummer.Framework.Semaphore
import EltSummer.ShmemChat.Letters
import Mathlib.Tactic.Common

/-!
# Exclusion in the shared-memory chat

Every segment has a semaphore that starts at 1.  A server thread takes the one of its own
incoming segment with `sem_wait` and, in the broadcast loop, those of all outgoing segments
with `sem_trywait`; a client's `main` waits, its send and receive threads try.  All of them
post when they leave.

The machine takes one statement of a party per step: the waits, the posts and what is between
them are steps of their own.  Client processes are numbered, whatever slot they use; one that
has not been started is one that has taken no step.  The keyboard and the signal are actions
of the environment; a `scanf` that fails at the end of the input is left out.
`clients_connected_count` is counted in one step.

The server does not look at the result of `sem_trywait` in the broadcast loop and posts in
any case.  So a receive thread that is reading when a broadcast comes around shares its
segment with the server (`broadcast_intrudes`).  A run keeps exclusion, and all values at most
1, exactly when each `sem_trywait` of a broadcast succeeds (`exclusive_iff`).
-/

namespace EltSummer
namespace ShmemChat
namespace Exclusion

open Interleaving Semaphores CString

/-! ## Data -/

/-- The statement a server thread executes next. -/
inductive ServerPc
  /-- `while (stop_threads != 1)`. -/
  | head
  /-- `sem_wait(sems[num_in])`. -/
  | waitIn
  /-- `memcpy(msg_from_cli[k], shmem_ptr[num_in], ...)`. -/
  | copyIn
  /-- `memset(shmem_ptr[num_in], 0, ...)`. -/
  | zeroIn
  /-- `sem_post(sems[num_in])`. -/
  | postIn
  /-- The tests of `msg_from_cli`, up to the broadcast loop. -/
  | handle
  /-- `i < max_clients * 2`. -/
  | forTest (i : ℕ)
  /-- `sem_trywait(sems[i])`. -/
  | trywait (i : ℕ)
  /-- `if (i != num_out) memcpy(shmem_ptr[i], msg_to_cli[k], ...)`. -/
  | write (i : ℕ)
  /-- `sem_post(sems[i])`. -/
  | post (i : ℕ)
  /-- `memset(msg_from_cli[k], 0, ...)`. -/
  | clear
  /-- `pthread_exit`. -/
  | exited
  deriving DecidableEq

/-- The statement a client's `main` executes next, once the threads have been created. -/
inductive MainPc
  /-- `sem_wait(sem_out)` to connect. -/
  | waitConnect
  /-- Filling `msg_out` and `memcpy(shmem_ptr_out, msg_out, ...)`. -/
  | writeConnect
  /-- `sem_post(sem_out)`. -/
  | postConnect
  /-- `while (main_while_var)`. -/
  | loop
  /-- `sem_wait(sem_out)` to disconnect. -/
  | waitDisconnect
  /-- Filling `msg_out` and `memcpy(shmem_ptr_out, msg_out, ...)`. -/
  | writeDisconnect
  /-- `sem_post(sem_out)`. -/
  | postDisconnect
  /-- `stop_threads = 1`. -/
  | stop
  /-- Joining, and the end. -/
  | ended
  deriving DecidableEq

/-- The statement a client's send thread executes next. -/
inductive SendPc
  /-- `while (stop_threads != 1)`. -/
  | head
  /-- `if (scanf_flag == 1)`. -/
  | test
  /-- `if (sem_trywait(sem_out) == 0)`. -/
  | trywait
  /-- From composing the message to clearing `msg_out`. -/
  | write
  /-- `sem_post(sem_out)`. -/
  | post
  /-- `pthread_exit`. -/
  | exited
  deriving DecidableEq

/-- The statement a client's receive thread executes next. -/
inductive ReceivePc
  /-- `while (stop_threads != 1)`. -/
  | head
  /-- `if (sem_trywait(sem_in) == 0)`. -/
  | trywait
  /-- `memcpy(msg_in, shmem_ptr_in, ...)`. -/
  | copy
  /-- `if (msg_in->flag == 1)` and what it guards. -/
  | check
  /-- `sem_post(sem_in)`. -/
  | post
  /-- `pthread_exit`. -/
  | exited
  deriving DecidableEq

structure Server where
  pc : ServerPc
  msgFrom : StructMsg
  msgTo : StructMsg

structure Client where
  mainPc : MainPc
  sendPc : SendPc
  receivePc : ReceivePc
  msgOut : StructMsg
  msgIn : StructMsg
  msgScanf : List UInt8
  scanfFlag : Bool
  mainWhileVar : Bool
  stopThreads : Bool

structure State where
  sems : ℕ → ℕ
  shmem : ℕ → StructMsg
  clientsInfo : ℕ → ClientInfo
  clientsConnectedCount : ℤ
  stopThreads : Bool
  server : ℕ → Server
  client : ℕ → Client

/-- The semaphores are open with value 1, the segments zeroed, the server's threads
created. -/
def init : State where
  sems := fun _ => 1
  shmem := fun _ => .zero
  clientsInfo := fun _ => ⟨0, 0⟩
  clientsConnectedCount := 0
  stopThreads := false
  server := fun _ => ⟨.head, .zero, .zero⟩
  client := fun _ => ⟨.waitConnect, .head, .head, .zero, .zero, [], false, true, false⟩

/-! ## Steps -/

def State.setServer (s : State) (k : ℕ) (t : Server) : State :=
  { s with server := Function.update s.server k t }

def State.setClient (s : State) (c : ℕ) (t : Client) : State :=
  { s with client := Function.update s.client c t }

def State.setShmem (s : State) (i : ℕ) (m : StructMsg) : State :=
  { s with shmem := Function.update s.shmem i m }

/-- `sem_post`. -/
def State.post (s : State) (i : ℕ) : State :=
  { s with sems := Function.update s.sems i (s.sems i + 1) }

/-- Taking the semaphore; the callers know that its value is positive. -/
def State.take (s : State) (i : ℕ) : State :=
  { s with sems := Function.update s.sems i (s.sems i - 1) }

/-- The tests of `msg_from_cli` and the one in front of the broadcast loop. -/
def handleStep (s : State) (k : ℕ) (t : Server) : State :=
  let d := Desk.handle id ⟨s.clientsInfo k, s.clientsConnectedCount, t.msgTo⟩ t.msgFrom
  let s := { s with
    clientsInfo := Function.update s.clientsInfo k d.info
    clientsConnectedCount := d.clientsConnectedCount }
  if d.broadcasts t.msgFrom then
    s.setServer k ⟨.forTest 1, { t.msgFrom with flag := 0 }, d.msgTo⟩
  else s.setServer k ⟨.clear, t.msgFrom, d.msgTo⟩

/-- One statement of server thread `k`, whose locals are `t`. -/
def serverStep (cfg : Config) (s : State) (k : ℕ) (t : Server) : Option State :=
  match t.pc with
  | .head =>
      some (s.setServer k { t with pc := if s.stopThreads then .exited else .waitIn })
  | .waitIn =>
      if 0 < s.sems (2 * k) then some ((s.take (2 * k)).setServer k { t with pc := .copyIn })
      else none
  | .copyIn => some (s.setServer k { t with pc := .zeroIn, msgFrom := s.shmem (2 * k) })
  | .zeroIn => some ((s.setShmem (2 * k) .zero).setServer k { t with pc := .postIn })
  | .postIn => some ((s.post (2 * k)).setServer k { t with pc := .handle })
  | .handle => some (handleStep s k t)
  | .forTest i =>
      some (s.setServer k { t with
        pc := if i < cfg.maxClients * 2 then .trywait i else .clear })
  | .trywait i =>
      -- the result is not looked at
      if 0 < s.sems i then some ((s.take i).setServer k { t with pc := .write i })
      else some (s.setServer k { t with pc := .write i })
  | .write i =>
      if i ≠ 2 * k + 1 then some ((s.setShmem i t.msgTo).setServer k { t with pc := .post i })
      else some (s.setServer k { t with pc := .post i })
  | .post i => some ((s.post i).setServer k { t with pc := .forTest (i + 2) })
  | .clear => some (s.setServer k { t with pc := .head, msgFrom := .zero })
  | .exited => none

/-- One statement of `main` of process `c`, whose variables are `t`. -/
def mainStep (cfg : Config) (s : State) (c : ℕ) (t : Client) : Option State :=
  let out := 2 * cfg.slot c
  match t.mainPc with
  | .waitConnect =>
      if 0 < s.sems out then some ((s.take out).setClient c { t with mainPc := .writeConnect })
      else none
  | .writeConnect =>
      let m := connectMsg t.msgOut (cfg.pid c)
      some ((s.setShmem out m).setClient c { t with mainPc := .postConnect, msgOut := m })
  | .postConnect => some ((s.post out).setClient c { t with mainPc := .loop })
  | .loop =>
      some (s.setClient c { t with
        mainPc := if t.mainWhileVar then .loop else .waitDisconnect })
  | .waitDisconnect =>
      if 0 < s.sems out then
        some ((s.take out).setClient c { t with mainPc := .writeDisconnect })
      else none
  | .writeDisconnect =>
      let m := disconnectMsg t.msgOut
      some ((s.setShmem out m).setClient c { t with mainPc := .postDisconnect, msgOut := m })
  | .postDisconnect => some ((s.post out).setClient c { t with mainPc := .stop })
  | .stop => some (s.setClient c { t with mainPc := .ended, stopThreads := true })
  | .ended => none

/-- One statement of the send thread of process `c`. -/
def sendStep (cfg : Config) (s : State) (c : ℕ) (t : Client) : Option State :=
  let out := 2 * cfg.slot c
  match t.sendPc with
  | .head =>
      some (s.setClient c { t with sendPc := if t.stopThreads then .exited else .test })
  | .test => some (s.setClient c { t with sendPc := if t.scanfFlag then .trywait else .head })
  | .trywait =>
      if 0 < s.sems out then some ((s.take out).setClient c { t with sendPc := .write })
      else some (s.setClient c { t with sendPc := .head })
  | .write =>
      some ((s.setShmem out (chatMsg t.msgOut (cfg.nick c) t.msgScanf)).setClient c { t with
        sendPc := .post, scanfFlag := false, msgOut := .zero })
  | .post => some ((s.post out).setClient c { t with sendPc := .head })
  | .exited => none

/-- One statement of the receive thread of process `c`. -/
def receiveStep (cfg : Config) (s : State) (c : ℕ) (t : Client) : Option State :=
  let into := 2 * cfg.slot c + 1
  match t.receivePc with
  | .head =>
      some (s.setClient c { t with receivePc := if t.stopThreads then .exited else .trywait })
  | .trywait =>
      if 0 < s.sems into then some ((s.take into).setClient c { t with receivePc := .copy })
      else some (s.setClient c { t with receivePc := .head })
  | .copy => some (s.setClient c { t with receivePc := .check, msgIn := s.shmem into })
  | .check =>
      if t.msgIn.flag = 1 then
        let m := { t.msgIn with flag := 0 }
        some ((s.setShmem into m).setClient c { t with receivePc := .post, msgIn := m })
      else some (s.setClient c { t with receivePc := .post })
  | .post => some ((s.post into).setClient c { t with receivePc := .head })
  | .exited => none

/-- One step of the machine. -/
def step (cfg : Config) (s : State) : Action → Option State
  | .server k => if k < cfg.maxClients then serverStep cfg s k (s.server k) else none
  | .main c => mainStep cfg s c (s.client c)
  | .send c => sendStep cfg s c (s.client c)
  | .receive c => receiveStep cfg s c (s.client c)
  | .type c word =>
      if (s.client c).scanfFlag then none
      else some (s.setClient c { s.client c with
        msgScanf := word.bytes, scanfFlag := true })
  | .interrupt c => some (s.setClient c { s.client c with mainWhileVar := false })
  | .stop => some { s with stopThreads := true }

/-! ## Critical sections -/

/-- Whoever enters critical sections. -/
inductive Party
  | server (k : ℕ)
  | main (c : ℕ)
  | send (c : ℕ)
  | receive (c : ℕ)
  deriving DecidableEq

/-- The segment in whose critical section server thread `k` is. -/
@[simp]
def ServerPc.room (k : ℕ) : ServerPc → Option ℕ
  | .copyIn | .zeroIn | .postIn => some (2 * k)
  | .write i | .post i => some i
  | _ => none

@[simp]
def MainPc.room (slot : ℕ) : MainPc → Option ℕ
  | .writeConnect | .postConnect | .writeDisconnect | .postDisconnect => some (2 * slot)
  | _ => none

@[simp]
def SendPc.room (slot : ℕ) : SendPc → Option ℕ
  | .write | .post => some (2 * slot)
  | _ => none

@[simp]
def ReceivePc.room (slot : ℕ) : ReceivePc → Option ℕ
  | .copy | .check | .post => some (2 * slot + 1)
  | _ => none

/-- The semaphores, and who is in which critical section. -/
def State.hall (cfg : Config) (s : State) : Hall Party ℕ where
  value := s.sems
  place
    | .server k => (s.server k).pc.room k
    | .main c => (s.client c).mainPc.room (cfg.slot c)
    | .send c => (s.client c).sendPc.room (cfg.slot c)
    | .receive c => (s.client c).receivePc.room (cfg.slot c)

variable {cfg : Config} {s s' : State}

@[simp]
lemma place_server (k : ℕ) : (s.hall cfg).place (.server k) = (s.server k).pc.room k := rfl

@[simp]
lemma place_main (c : ℕ) :
    (s.hall cfg).place (.main c) = (s.client c).mainPc.room (cfg.slot c) := rfl

@[simp]
lemma place_send (c : ℕ) :
    (s.hall cfg).place (.send c) = (s.client c).sendPc.room (cfg.slot c) := rfl

@[simp]
lemma place_receive (c : ℕ) :
    (s.hall cfg).place (.receive c) = (s.client c).receivePc.room (cfg.slot c) := rfl

lemma hall_setServer {u : State} (hserver : u.server = s.server) (hclient : u.client = s.client)
    (k : ℕ) (t : Server) : (u.setServer k t).hall cfg =
      ⟨u.sems, Function.update (s.hall cfg).place (.server k) (t.pc.room k)⟩ := by
  refine congrArg (Hall.mk u.sems) (funext fun p => ?_)
  cases p with
  | server j =>
      by_cases hj : j = k
      · subst hj
        simp [State.setServer]
      · simp [State.setServer, State.hall, hserver, hj]
  | main c => simp [State.setServer, State.hall, hclient]
  | send c => simp [State.setServer, State.hall, hclient]
  | receive c => simp [State.setServer, State.hall, hclient]

/-- The guard: a `sem_trywait` of a broadcast finds a positive value. -/
def TrywaitSucceeds (s : State) : Action → Prop
  | .server k => ∀ i, (s.server k).pc = .trywait i → 0 < s.sems i
  | _ => True

/-! ### One party's step

`u` is a state that differs from `s`, as far as places go, in the place of `p`. -/

variable {u : State} {p : Party} {r : Option ℕ}

lemma stays_of (hu : u.hall cfg = ⟨u.sems, Function.update (s.hall cfg).place p r⟩)
    (hsems : u.sems = s.sems) (hr : r = (s.hall cfg).place p) :
    (s.hall cfg).Move (u.hall cfg) := by
  rw [hu, hsems]
  exact .stays hr

lemma enters_of {i : ℕ} (hu : u.hall cfg = ⟨u.sems, Function.update (s.hall cfg).place p r⟩)
    (hsems : u.sems = (s.take i).sems) (hvalue : 0 < s.sems i)
    (hout : (s.hall cfg).place p = none) (hr : r = some i) :
    (s.hall cfg).Move (u.hall cfg) := by
  rw [hu, hsems, hr]
  exact .enter hvalue hout

lemma leaves_of {i : ℕ} (hu : u.hall cfg = ⟨u.sems, Function.update (s.hall cfg).place p r⟩)
    (hsems : u.sems = (s.post i).sems) (hin : (s.hall cfg).place p = some i)
    (hr : r = none) : (s.hall cfg).Move (u.hall cfg) := by
  rw [hu, hsems, hr]
  exact .leave hin

lemma intrudes_of {i : ℕ} (hu : u.hall cfg = ⟨u.sems, Function.update (s.hall cfg).place p r⟩)
    (hsems : u.sems = s.sems) (hvalue : s.sems i = 0)
    (hout : (s.hall cfg).place p = none) (hr : r = some i) :
    Hall.Intrusion (s.hall cfg) (u.hall cfg) := by
  rw [hu, hsems, hr]
  exact ⟨p, i, hvalue, hout, rfl⟩

/-! ### Server threads -/

/-- Apart from `sem_trywait`, a server thread follows the protocol. -/
lemma hall_serverStep {k : ℕ} (h : serverStep cfg s k (s.server k) = some s')
    (hok : TrywaitSucceeds s (.server k)) : (s.hall cfg).Move (s'.hall cfg) := by
  cases hpc : (s.server k).pc with
  | head =>
      simp only [serverStep, hpc, Option.some.injEq] at h
      subst h
      refine stays_of (hall_setServer rfl rfl k _) rfl ?_
      split <;> simp [hpc]
  | waitIn =>
      simp only [serverStep, hpc, Option.ite_none_right_eq_some, Option.some.injEq] at h
      obtain ⟨hvalue, rfl⟩ := h
      exact enters_of (hall_setServer rfl rfl k _) rfl hvalue (by simp [hpc]) rfl
  | copyIn =>
      simp only [serverStep, hpc, Option.some.injEq] at h
      subst h
      exact stays_of (hall_setServer rfl rfl k _) rfl (by simp [hpc])
  | zeroIn =>
      simp only [serverStep, hpc, Option.some.injEq] at h
      subst h
      exact stays_of (hall_setServer rfl rfl k _) rfl (by simp [hpc])
  | postIn =>
      simp only [serverStep, hpc, Option.some.injEq] at h
      subst h
      exact leaves_of (hall_setServer rfl rfl k _) rfl (by simp [hpc]) rfl
  | handle =>
      simp only [serverStep, hpc, Option.some.injEq] at h
      subst h
      unfold handleStep
      dsimp only
      split
      · exact stays_of (hall_setServer rfl rfl k _) rfl (by simp [hpc])
      · exact stays_of (hall_setServer rfl rfl k _) rfl (by simp [hpc])
  | forTest i =>
      simp only [serverStep, hpc, Option.some.injEq] at h
      subst h
      refine stays_of (hall_setServer rfl rfl k _) rfl ?_
      split <;> simp [hpc]
  | trywait i =>
      have hvalue : 0 < s.sems i := hok i hpc
      simp only [serverStep, hpc, if_pos hvalue, Option.some.injEq] at h
      subst h
      exact enters_of (hall_setServer rfl rfl k _) rfl hvalue (by simp [hpc]) rfl
  | write i =>
      simp only [serverStep, hpc] at h
      split at h
      · obtain rfl := Option.some.inj h
        exact stays_of (hall_setServer rfl rfl k _) rfl (by simp [hpc])
      · obtain rfl := Option.some.inj h
        exact stays_of (hall_setServer rfl rfl k _) rfl (by simp [hpc])
  | post i =>
      simp only [serverStep, hpc, Option.some.injEq] at h
      subst h
      exact leaves_of (hall_setServer rfl rfl k _) rfl (by simp [hpc]) rfl
  | clear =>
      simp only [serverStep, hpc, Option.some.injEq] at h
      subst h
      exact stays_of (hall_setServer rfl rfl k _) rfl (by simp [hpc])
  | exited => simp [serverStep, hpc] at h

/-- A broadcast whose `sem_trywait` fails goes in all the same. -/
lemma intrusion_serverStep {k i : ℕ} (h : serverStep cfg s k (s.server k) = some s')
    (hpc : (s.server k).pc = .trywait i) (hvalue : s.sems i = 0) :
    Hall.Intrusion (s.hall cfg) (s'.hall cfg) := by
  simp only [serverStep, hpc, hvalue, Nat.lt_irrefl, if_false, Option.some.injEq] at h
  subst h
  exact intrudes_of (hall_setServer rfl rfl k _) rfl hvalue (by simp [hpc]) rfl

/-! ### Client processes -/

/-- What a step of one thread of process `c` does to the places of its three threads. -/
lemma hall_setClient {u : State} (hserver : u.server = s.server) (hclient : u.client = s.client)
    (c : ℕ) (t : Client) : ((u.setClient c t).hall cfg) =
      ⟨u.sems, Function.update (Function.update (Function.update (s.hall cfg).place
        (.main c) (t.mainPc.room (cfg.slot c))) (.send c) (t.sendPc.room (cfg.slot c)))
        (.receive c) (t.receivePc.room (cfg.slot c))⟩ := by
  refine congrArg (Hall.mk u.sems) (funext fun p => ?_)
  cases p with
  | server j => simp [State.setClient, State.hall, hserver]
  | main d =>
      by_cases hd : d = c
      · subst hd
        simp [State.setClient]
      · simp [State.setClient, State.hall, hclient, hd]
  | send d =>
      by_cases hd : d = c
      · subst hd
        simp [State.setClient]
      · simp [State.setClient, State.hall, hclient, hd]
  | receive d =>
      by_cases hd : d = c
      · subst hd
        simp [State.setClient]
      · simp [State.setClient, State.hall, hclient, hd]

lemma hall_setMain {u : State} (hserver : u.server = s.server) (hclient : u.client = s.client)
    {c : ℕ} {t : Client} (hsend : t.sendPc = (s.client c).sendPc)
    (hreceive : t.receivePc = (s.client c).receivePc) : (u.setClient c t).hall cfg =
      ⟨u.sems, Function.update (s.hall cfg).place (.main c) (t.mainPc.room (cfg.slot c))⟩ := by
  rw [hall_setClient hserver hclient, hsend, hreceive]
  rw [Function.update_eq_self_iff.mpr (by simp [State.hall]),
    Function.update_eq_self_iff.mpr (by simp [State.hall])]

lemma hall_setSend {u : State} (hserver : u.server = s.server) (hclient : u.client = s.client)
    {c : ℕ} {t : Client} (hmain : t.mainPc = (s.client c).mainPc)
    (hreceive : t.receivePc = (s.client c).receivePc) : (u.setClient c t).hall cfg =
      ⟨u.sems, Function.update (s.hall cfg).place (.send c) (t.sendPc.room (cfg.slot c))⟩ := by
  have hkeep : Function.update (s.hall cfg).place (.main c)
      ((s.client c).mainPc.room (cfg.slot c)) = (s.hall cfg).place :=
    Function.update_eq_self _ _
  rw [hall_setClient hserver hclient, hmain, hreceive, hkeep]
  rw [Function.update_eq_self_iff.mpr (by simp [State.hall])]

lemma hall_setReceive {u : State} (hserver : u.server = s.server)
    (hclient : u.client = s.client) {c : ℕ} {t : Client}
    (hmain : t.mainPc = (s.client c).mainPc) (hsend : t.sendPc = (s.client c).sendPc) :
    (u.setClient c t).hall cfg = ⟨u.sems, Function.update (s.hall cfg).place (.receive c)
      (t.receivePc.room (cfg.slot c))⟩ := by
  have hkeepMain : Function.update (s.hall cfg).place (.main c)
      ((s.client c).mainPc.room (cfg.slot c)) = (s.hall cfg).place :=
    Function.update_eq_self _ _
  have hkeepSend : Function.update (s.hall cfg).place (.send c)
      ((s.client c).sendPc.room (cfg.slot c)) = (s.hall cfg).place :=
    Function.update_eq_self _ _
  rw [hall_setClient hserver hclient, hmain, hsend, hkeepMain, hkeepSend]

/-- A step of process `c` outside the critical sections. -/
lemma client_stays {u : State} (hsems : u.sems = s.sems) (hserver : u.server = s.server)
    (hclient : u.client = s.client) {c : ℕ} {t : Client}
    (hmain : t.mainPc = (s.client c).mainPc) (hsend : t.sendPc = (s.client c).sendPc)
    (hreceive : t.receivePc = (s.client c).receivePc) :
    (s.hall cfg).Move ((u.setClient c t).hall cfg) := by
  rw [hall_setMain hserver hclient hsend hreceive, hsems]
  exact .stays (by simp [State.hall, hmain])

lemma hall_mainStep {c : ℕ} (h : mainStep cfg s c (s.client c) = some s') :
    (s.hall cfg).Move (s'.hall cfg) := by
  cases hpc : (s.client c).mainPc with
  | waitConnect =>
      simp only [mainStep, hpc, Option.ite_none_right_eq_some, Option.some.injEq] at h
      obtain ⟨hvalue, rfl⟩ := h
      exact enters_of (hall_setMain rfl rfl rfl rfl) rfl hvalue (by simp [hpc]) rfl
  | writeConnect =>
      simp only [mainStep, hpc, Option.some.injEq] at h
      subst h
      exact stays_of (hall_setMain rfl rfl rfl rfl) rfl (by simp [hpc])
  | postConnect =>
      simp only [mainStep, hpc, Option.some.injEq] at h
      subst h
      exact leaves_of (hall_setMain rfl rfl rfl rfl) rfl (by simp [hpc]) rfl
  | loop =>
      simp only [mainStep, hpc, Option.some.injEq] at h
      subst h
      refine stays_of (hall_setMain rfl rfl rfl rfl) rfl ?_
      dsimp only
      split <;> simp [hpc]
  | waitDisconnect =>
      simp only [mainStep, hpc, Option.ite_none_right_eq_some, Option.some.injEq] at h
      obtain ⟨hvalue, rfl⟩ := h
      exact enters_of (hall_setMain rfl rfl rfl rfl) rfl hvalue (by simp [hpc]) rfl
  | writeDisconnect =>
      simp only [mainStep, hpc, Option.some.injEq] at h
      subst h
      exact stays_of (hall_setMain rfl rfl rfl rfl) rfl (by simp [hpc])
  | postDisconnect =>
      simp only [mainStep, hpc, Option.some.injEq] at h
      subst h
      exact leaves_of (hall_setMain rfl rfl rfl rfl) rfl (by simp [hpc]) rfl
  | stop =>
      simp only [mainStep, hpc, Option.some.injEq] at h
      subst h
      exact stays_of (hall_setMain rfl rfl rfl rfl) rfl (by simp [hpc])
  | ended => simp [mainStep, hpc] at h

lemma hall_sendStep {c : ℕ} (h : sendStep cfg s c (s.client c) = some s') :
    (s.hall cfg).Move (s'.hall cfg) := by
  cases hpc : (s.client c).sendPc with
  | head =>
      simp only [sendStep, hpc, Option.some.injEq] at h
      subst h
      refine stays_of (hall_setSend rfl rfl rfl rfl) rfl ?_
      dsimp only
      split <;> simp [hpc]
  | test =>
      simp only [sendStep, hpc, Option.some.injEq] at h
      subst h
      refine stays_of (hall_setSend rfl rfl rfl rfl) rfl ?_
      dsimp only
      split <;> simp [hpc]
  | trywait =>
      simp only [sendStep, hpc] at h
      split at h
      · rename_i hvalue
        obtain rfl := Option.some.inj h
        exact enters_of (hall_setSend rfl rfl rfl rfl) rfl hvalue (by simp [hpc]) rfl
      · obtain rfl := Option.some.inj h
        exact stays_of (hall_setSend rfl rfl rfl rfl) rfl (by simp [hpc])
  | write =>
      simp only [sendStep, hpc, Option.some.injEq] at h
      subst h
      exact stays_of (hall_setSend rfl rfl rfl rfl) rfl (by simp [hpc])
  | post =>
      simp only [sendStep, hpc, Option.some.injEq] at h
      subst h
      exact leaves_of (hall_setSend rfl rfl rfl rfl) rfl (by simp [hpc]) rfl
  | exited => simp [sendStep, hpc] at h

lemma hall_receiveStep {c : ℕ} (h : receiveStep cfg s c (s.client c) = some s') :
    (s.hall cfg).Move (s'.hall cfg) := by
  cases hpc : (s.client c).receivePc with
  | head =>
      simp only [receiveStep, hpc, Option.some.injEq] at h
      subst h
      refine stays_of (hall_setReceive rfl rfl rfl rfl) rfl ?_
      dsimp only
      split <;> simp [hpc]
  | trywait =>
      simp only [receiveStep, hpc] at h
      split at h
      · rename_i hvalue
        obtain rfl := Option.some.inj h
        exact enters_of (hall_setReceive rfl rfl rfl rfl) rfl hvalue (by simp [hpc]) rfl
      · obtain rfl := Option.some.inj h
        exact stays_of (hall_setReceive rfl rfl rfl rfl) rfl (by simp [hpc])
  | copy =>
      simp only [receiveStep, hpc, Option.some.injEq] at h
      subst h
      exact stays_of (hall_setReceive rfl rfl rfl rfl) rfl (by simp [hpc])
  | check =>
      simp only [receiveStep, hpc] at h
      split at h
      · obtain rfl := Option.some.inj h
        exact stays_of (hall_setReceive rfl rfl rfl rfl) rfl (by simp [hpc])
      · obtain rfl := Option.some.inj h
        exact stays_of (hall_setReceive rfl rfl rfl rfl) rfl (by simp [hpc])
  | post =>
      simp only [receiveStep, hpc, Option.some.injEq] at h
      subst h
      exact leaves_of (hall_setReceive rfl rfl rfl rfl) rfl (by simp [hpc]) rfl
  | exited => simp [receiveStep, hpc] at h

/-! ## Runs -/

/-- Within the guard a step follows the protocol. -/
lemma hall_step {a : Action} (h : step cfg s a = some s') (hok : TrywaitSucceeds s a) :
    (s.hall cfg).Move (s'.hall cfg) := by
  cases a with
  | server k => exact hall_serverStep (Option.ite_none_right_eq_some.mp h).2 hok
  | main c => exact hall_mainStep h
  | send c => exact hall_sendStep h
  | receive c => exact hall_receiveStep h
  | type c word =>
      obtain ⟨-, h⟩ := Option.ite_none_left_eq_some.mp h
      obtain rfl := Option.some.inj h
      exact client_stays rfl rfl rfl rfl rfl rfl
  | interrupt c =>
      obtain rfl := Option.some.inj h
      exact client_stays rfl rfl rfl rfl rfl rfl
  | stop =>
      obtain rfl := Option.some.inj h
      exact .stay

/-- Outside it a server thread goes in with its wait failed. -/
lemma intrusion_step {a : Action} (h : step cfg s a = some s') (hok : ¬ TrywaitSucceeds s a) :
    Hall.Intrusion (s.hall cfg) (s'.hall cfg) := by
  cases a with
  | server k =>
      obtain ⟨i, hi⟩ := not_forall.mp hok
      obtain ⟨hpc, hvalue⟩ := Classical.not_imp.mp hi
      exact intrusion_serverStep (Option.ite_none_right_eq_some.mp h).2 hpc (by omega)
  | main c => exact absurd trivial hok
  | send c => exact absurd trivial hok
  | receive c => exact absurd trivial hok
  | type c word => exact absurd trivial hok
  | interrupt c => exact absurd trivial hok
  | stop => exact absurd trivial hok

lemma fair_init (cfg : Config) : (init.hall cfg).Fair := by
  refine fun i => Or.inl ⟨rfl, fun p => ?_⟩
  cases p <;> simp [State.hall, init, ServerPc.room, MainPc.room, SendPc.room, ReceivePc.room]

/-- **A run keeps exclusion exactly when every `sem_trywait` of a broadcast succeeds.** -/
theorem exclusive_iff {as : List Action} (h : exec (step cfg) init as = some s) :
    (∀ u, Visits (step cfg) init as u → (u.hall cfg).Safe) ↔
      ∀ u a, Takes (step cfg) init as u a → TrywaitSucceeds u a :=
  exec_safe_iff_guarded (fun _ => Hall.Fair.safe)
    (fun _ _ _ hfair hok hstep => (hall_step hstep hok).fair hfair)
    (fun _ _ _ hfair hok hstep => hfair.not_safe_of_intrusion (intrusion_step hstep hok))
    (fair_init cfg) h

/-- Process 0 connects and sends a word; server thread 0 takes both messages and comes to
the broadcast loop. -/
def wordTaken : List Action :=
  List.replicate 3 (.main 0) ++ List.replicate 7 (.server 0) ++ [.type 0 wordHi] ++
    List.replicate 5 (.send 0) ++ List.replicate 6 (.server 0)

/-- With nobody in the outgoing segments the broadcast keeps exclusion. -/
theorem exclusive_iff_quiet_broadcast :
    ∃ s, exec (step twoClients) init (wordTaken ++ List.replicate 10 (.server 0)) = some s ∧
      ((∀ u, Visits (step twoClients) init (wordTaken ++ List.replicate 10 (.server 0)) u →
          (u.hall twoClients).Safe) ↔
        ∀ u a, Takes (step twoClients) init (wordTaken ++ List.replicate 10 (.server 0)) u a →
          TrywaitSucceeds u a) := by
  have hrun : (exec (step twoClients) init
      (wordTaken ++ List.replicate 10 (.server 0))).isSome = true := by
    decide +kernel
  obtain ⟨s, hs⟩ := Option.isSome_iff_exists.mp hrun
  exact ⟨s, hs, exclusive_iff hs⟩

/-- The receive thread of process 1 is in its segment when the broadcast comes around. -/
def crossingBroadcast : List Action :=
  wordTaken ++ List.replicate 2 (.receive 1) ++ List.replicate 6 (.server 0)

/-- Server thread 0 writes where the receive thread is reading. -/
theorem broadcast_intrudes :
    ¬ ∀ (cfg : Config) (s : State), 1 ≤ cfg.maxClients →
      Reach (step cfg) Anything init s → (s.hall cfg).Safe := by
  intro hclaim
  have hrun : (exec (step twoClients) init crossingBroadcast).map (fun s =>
      ((s.server 0).pc, (s.client 1).receivePc)) = some (.write 3, .copy) := by
    decide +kernel
  obtain ⟨s, hs, hpcs⟩ := Option.map_eq_some_iff.mp hrun
  obtain ⟨hserver, hreceive⟩ := Prod.mk.inj hpcs
  have hsafe := (hclaim twoClients s (by decide) (Reach.of_exec hs) 3).2
    (.server 0) (.receive 1)
  have hin : (s.hall twoClients).place (.server 0) = some 3 := by
    simp [State.hall, hserver, ServerPc.room]
  have hin' : (s.hall twoClients).place (.receive 1) = some 3 := by
    simp [State.hall, hreceive, ReceivePc.room, twoClients]
  exact absurd (hsafe hin hin') (by simp)

end Exclusion
end ShmemChat
end EltSummer
