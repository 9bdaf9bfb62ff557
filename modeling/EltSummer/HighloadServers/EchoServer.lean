import EltSummer.Framework.CString
import EltSummer.Framework.Interleaving
import Mathlib.Logic.Function.Basic

/-!
# The echo server with two threads

`sockets_highload_services_27July/server_doubleflow_echo_tcp_udp.c`.  `main` waits in `select` for
a client of the TCP or of the UDP socket, creates a thread for it and joins the thread at once.
The threads share `buff_input`, `buff_output` and `fd_client_tcp` without a lock; that they cannot
mix up their clients rests on the joins.  A third thread reads words from the terminal until it
reads `EXIT_BUFF_MSG`.

Every call's result is part of the action: what `select` finds, what is received, which descriptor
`accept` returns, and the word that is typed, or the end of the input.  A call that blocks is one
whose thread takes no step: `accept` and `recv` may wait for ever, and when they return is not
said, so what is shown of the end of the server assumes that they do.  A word of more than one
byte overruns `buff_exit` and has no result.  The addresses of the clients, printing and sleeping
are left out; a join of a thread that could not be created returns at once.
-/

namespace EltSummer
namespace EchoServer

open Block CString Interleaving Function

/-! ## The machine -/

/-- `BUFF_SIZE`. -/
def buffSize : ℕ := 128

/-- `SERVER_MSG`. -/
def serverMsg : List UInt8 := "HELLO! I'AM ECHO SERVER TCP/UDP !".toList.map fun c => c.val.toUInt8

/-- `EXIT_BUFF_MSG`. -/
def exitBuffMsg : List UInt8 := [115]

/-- `memset(buff, 0, sizeof(buff))`. -/
def zeros : List UInt8 := List.replicate buffSize 0

inductive Proto
  | tcp
  | udp
  deriving DecidableEq, Repr

/-- The statement `main` executes next. -/
inductive MainPc
  | createShutdown
  /-- `while (main_while_var)`. -/
  | head
  | select
  /-- `pthread_create` for a client; `udp` if the UDP socket is to be looked after next. -/
  | create (p : Proto) (udp : Bool)
  | join (p : Proto) (udp : Bool)
  /-- `stop_threads = 1`. -/
  | stop
  | joinShutdown
  | close (p : Proto)
  | exited
  deriving DecidableEq, Repr

/-- The statement `func_thread_client_tcp` or `func_thread_client_udp` executes next. -/
inductive ClientPc
  | absent
  | listen
  | accept
  | recv
  /-- `strncpy(buff_output, SERVER_MSG, sizeof(buff_output))`. -/
  | prepare
  | send
  | clearInput
  | clearOutput
  | close
  | exited
  deriving DecidableEq, Repr

inductive ShutdownPc
  | absent
  /-- `while (stop_threads != 1)`. -/
  | head
  | scan
  | exited
  deriving DecidableEq, Repr

def ClientPc.running (pc : ClientPc) : Bool := pc ≠ .absent && pc ≠ .exited

def ShutdownPc.running (pc : ShutdownPc) : Bool := pc ≠ .absent && pc ≠ .exited

/-- Bytes that have been received, and `buff_input` behind the call. -/
structure Receipt where
  proto : Proto
  bytes : List UInt8
  buffInput : List UInt8

structure State where
  mainPc : MainPc
  client : Proto → ClientPc
  shutdown : ShutdownPc
  mainWhileVar : Bool
  stopThreads : Bool
  buffInput : List UInt8
  buffOutput : List UInt8
  /-- -1 is `none`. -/
  fdClientTcp : Option ℕ
  /-- The descriptors `accept` has returned and nobody has closed. -/
  opened : List ℕ
  serverOpen : Proto → Bool
  received : List Receipt
  sent : List (List UInt8)
  typed : List (List UInt8)

/-- Behind the two calls to `bind`. -/
def start : State where
  mainPc := .createShutdown
  client _ := .absent
  shutdown := .absent
  mainWhileVar := true
  stopThreads := false
  buffInput := zeros
  buffOutput := zeros
  fdClientTcp := some 0
  opened := []
  serverOpen _ := true
  received := []
  sent := []
  typed := []

/-- What a call of `main` returns. -/
inductive Outcome
  | ok
  | failed
  /-- `select` has found these sockets. -/
  | ready (tcp udp : Bool)
  deriving DecidableEq, Repr

/-- What a call of a client's thread returns. -/
inductive Result
  | ok
  | failed
  | accepted (fd : ℕ)
  | data (bytes : List UInt8)
  deriving DecidableEq, Repr

inductive Action
  | main (outcome : Outcome)
  | client (p : Proto) (result : Result)
  /-- `none` is the end of the input. -/
  | shutdown (word : Option (List UInt8))
  deriving DecidableEq, Repr

/-- The first statement of a client's thread. -/
def Proto.first : Proto → ClientPc
  | .tcp => .listen
  | .udp => .recv

/-- `main` behind a client: the other socket or the head of the loop. -/
def behindJoin (udp : Bool) : MainPc := if udp then .create .udp false else .head

/-- One statement of `main`.  A timeout of `select` is `ok`. -/
def mainStep (s : State) : Outcome → Option State
  | .ok =>
      match s.mainPc with
      | .createShutdown => some { s with shutdown := .head, mainPc := .head }
      | .head => some { s with mainPc := if s.mainWhileVar then .select else .stop }
      | .select => some { s with mainPc := .head }
      | .create p udp =>
          some { s with client := update s.client p p.first, mainPc := .join p udp }
      | .join p udp =>
          if (s.client p).running then none else some { s with mainPc := behindJoin udp }
      | .stop => some { s with stopThreads := true, mainPc := .joinShutdown }
      | .joinShutdown =>
          if s.shutdown.running then none else some { s with mainPc := .close .tcp }
      | .close .tcp =>
          some { s with serverOpen := update s.serverOpen .tcp false, mainPc := .close .udp }
      | .close .udp =>
          some { s with serverOpen := update s.serverOpen .udp false, mainPc := .exited }
      | .exited => none
  | .failed =>
      match s.mainPc with
      | .createShutdown => some { s with mainPc := .head }
      | .select => some { s with mainPc := .head }
      | .create p udp => some { s with mainPc := .join p udp }
      | _ => none
  | .ready tcp udp =>
      if s.mainPc = .select ∧ (tcp || udp) then
        some { s with mainPc := if tcp then .create .tcp udp else .create .udp false }
      else none

/-- The thread of a client with its next statement. -/
def State.clientAt (s : State) (p : Proto) (pc : ClientPc) : State :=
  { s with client := update s.client p pc }

/-- The descriptor a client's thread receives from and sends to is one. -/
def State.connected (s : State) : Proto → Bool
  | .tcp => s.fdClientTcp.isSome
  | .udp => true

/-- One statement of a client's thread.  A call returns -1 (`failed`) or what is in the action. -/
def clientStep (s : State) (p : Proto) : Result → Option State
  | .ok =>
      match s.client p with
      | .listen => some (s.clientAt p .accept)
      | .prepare =>
          (strncpy s.buffOutput (serverMsg ++ [0]) buffSize).map fun buffOutput =>
            { s.clientAt p .send with buffOutput := buffOutput }
      | .send =>
          if s.connected p then
            some { s.clientAt p .clearInput with sent := s.sent ++ [s.buffOutput] }
          else none
      | .clearInput => some { s.clientAt p .clearOutput with buffInput := zeros }
      | .clearOutput =>
          some { s.clientAt p (if p = .tcp then .close else .exited) with buffOutput := zeros }
      | .close =>
          some { s.clientAt p .exited with opened := s.opened.filter (some · ≠ s.fdClientTcp) }
      | _ => none
  | .failed =>
      match s.client p with
      | .listen => some (s.clientAt p .accept)
      | .accept => some { s.clientAt p .recv with fdClientTcp := none }
      | .recv => some (s.clientAt p .prepare)
      | .send => some (s.clientAt p .clearInput)
      | _ => none
  | .accepted fd =>
      if p = .tcp ∧ s.client p = .accept ∧ fd ∉ s.opened then
        some { s.clientAt p .recv with fdClientTcp := some fd, opened := fd :: s.opened }
      else none
  | .data bytes =>
      if s.client p = .recv ∧ s.connected p ∧ bytes.length ≤ buffSize then
        let buffInput := bytes ++ s.buffInput.drop bytes.length
        some { s.clientAt p .prepare with
          buffInput := buffInput
          received := s.received ++ [⟨p, bytes, buffInput⟩] }
      else none

/-- One statement of `func_thread_shutdown_server`. -/
def shutdownStep (s : State) (word : Option (List UInt8)) : Option State :=
  match s.shutdown with
  | .head => some { s with shutdown := if s.stopThreads then .exited else .scan }
  | .scan =>
      match word with
      | none => some { s with shutdown := .head }
      | some w =>
          if w.length = 1 then
            if w = exitBuffMsg then
              some { s with typed := s.typed ++ [w], mainWhileVar := false, shutdown := .exited }
            else some { s with typed := s.typed ++ [w], shutdown := .head }
          else none
  | _ => none

/-- One step of the machine.  Once `main` has exited there is none. -/
def step (s : State) (a : Action) : Option State :=
  if s.mainPc = .exited then none
  else match a with
    | .main outcome => mainStep s outcome
    | .client p result => clientStep s p result
    | .shutdown word => shutdownStep s word

/-! ## What holds in every state -/

/-- The answer to every client. -/
def answer : List UInt8 := serverMsg ++ List.replicate (buffSize - serverMsg.length) 0

/-- Between the call that receives and the `memset` behind it. -/
def ClientPc.holdsInput : ClientPc → Bool
  | .prepare => true
  | .send => true
  | .clearInput => true
  | _ => false

def ClientPc.holdsOutput : ClientPc → Bool
  | .send => true
  | .clearInput => true
  | .clearOutput => true
  | _ => false

/-- Between `accept` and `close`. -/
def ClientPc.holdsDescriptor : ClientPc → Bool
  | .recv => true
  | .prepare => true
  | .send => true
  | .clearInput => true
  | .clearOutput => true
  | .close => true
  | _ => false

/-- `main` has left its loop. -/
def MainPc.leaves : MainPc → Bool
  | .stop => true
  | .joinShutdown => true
  | .close _ => true
  | .exited => true
  | _ => false

def MainPc.serverOpen : MainPc → Proto → Bool
  | .close .udp, p => p = .udp
  | .exited, _ => false
  | _, _ => true

/-- The buffers and descriptors follow from where the one running client is. -/
structure Formed (s : State) : Prop where
  alone : ∀ p, (s.client p).running = true → ∃ udp, s.mainPc = .join p udp
  input : (∀ p, (s.client p).holdsInput = false) → s.buffInput = zeros
  output : (∀ p, (s.client p).holdsOutput = false) → s.buffOutput = zeros
  prepared : ∀ p, s.client p = .send → s.buffOutput = answer
  length : s.buffInput.length = buffSize ∧ s.buffOutput.length = buffSize
  opened : s.opened = if (s.client .tcp).holdsDescriptor then s.fdClientTcp.toList else []
  sent : ∀ m ∈ s.sent, m = answer
  received : ∀ r ∈ s.received,
    r.buffInput = r.bytes ++ List.replicate (buffSize - r.bytes.length) 0
  left : s.mainPc.leaves = true → s.mainWhileVar = false
  typed : s.mainWhileVar = false → exitBuffMsg ∈ s.typed ∧ s.shutdown = .exited
  servers : ∀ p, s.serverOpen p = s.mainPc.serverOpen p
  fresh : s.mainPc = .createShutdown → s.shutdown = .absent

lemma formed_start : Formed start := by
  constructor
  · intro p hp
    cases hp
  · exact fun _ => rfl
  · exact fun _ => rfl
  · intro p hp
    cases hp
  · exact ⟨List.length_replicate, List.length_replicate⟩
  · rfl
  · intro m hm
    cases hm
  · intro r hr
    cases hr
  · intro h
    cases h
  · intro h
    cases h
  · exact fun _ => rfl
  · exact fun _ => rfl

/-! ### A client's thread -/

variable {s s' : State} {p : Proto} {pc : ClientPc}

lemma ClientPc.running_of_holdsInput (h : pc.holdsInput = true) : pc.running = true := by
  cases pc <;> first | rfl | cases h

lemma ClientPc.running_of_holdsOutput (h : pc.holdsOutput = true) : pc.running = true := by
  cases pc <;> first | rfl | cases h

lemma ClientPc.running_of_holdsDescriptor (h : pc.holdsDescriptor = true) : pc.running = true := by
  cases pc <;> first | rfl | cases h

lemma Formed.eq_of_running (h : Formed s) (hp : (s.client p).running = true) {q : Proto}
    (hq : (s.client q).running = true) : q = p := by
  obtain ⟨udp, hmain⟩ := h.alone p hp
  obtain ⟨udp', hmain'⟩ := h.alone q hq
  rw [hmain] at hmain'
  cases hmain'
  rfl

/-- The one running client goes on. -/
lemma Formed.moved (h : Formed s) (hp : (s.client p).running = true)
    (hclient : s'.client = update s.client p pc) (hmain : s'.mainPc = s.mainPc)
    (hshutdown : s'.shutdown = s.shutdown) (hvar : s'.mainWhileVar = s.mainWhileVar)
    (hservers : s'.serverOpen = s.serverOpen) (htyped : s'.typed = s.typed)
    (hinput : pc.holdsInput = false → s'.buffInput = zeros)
    (houtput : pc.holdsOutput = false → s'.buffOutput = zeros)
    (hprepared : pc = .send → s'.buffOutput = answer)
    (hlength : s'.buffInput.length = buffSize ∧ s'.buffOutput.length = buffSize)
    (hopened : s'.opened = if (update s.client p pc .tcp).holdsDescriptor then
      s'.fdClientTcp.toList else [])
    (hsent : ∀ m ∈ s'.sent, m = answer)
    (hreceived : ∀ r ∈ s'.received,
      r.buffInput = r.bytes ++ List.replicate (buffSize - r.bytes.length) 0) : Formed s' := by
  have hself : s'.client p = pc := by rw [hclient, update_self]
  have hother {q : Proto} (hq : q ≠ p) : (s'.client q).running = false := by
    rw [hclient, update_of_ne hq]
    by_contra hrun
    exact hq (h.eq_of_running hp ((Bool.not_eq_false _).mp hrun))
  constructor
  · intro q hq
    by_cases hqp : q = p
    · rw [hmain, hqp]
      exact h.alone p hp
    · rw [hother hqp] at hq
      cases hq
  · intro hall
    exact hinput (hself ▸ hall p)
  · intro hall
    exact houtput (hself ▸ hall p)
  · intro q hq
    by_cases hqp : q = p
    · rw [hqp, hself] at hq
      exact hprepared hq
    · have hrun := hother hqp
      rw [hq] at hrun
      cases hrun
  · exact hlength
  · rw [hclient]
    exact hopened
  · exact hsent
  · exact hreceived
  · rw [hmain, hvar]
    exact h.left
  · rw [hvar, htyped, hshutdown]
    exact h.typed
  · rw [hservers, hmain]
    exact h.servers
  · rw [hmain, hshutdown]
    exact h.fresh

lemma length_answer : answer.length = buffSize := by
  rw [answer, List.length_append, List.length_replicate]
  decide

lemma strncpy_serverMsg {buffOutput : List UInt8} (hlen : buffOutput.length = buffSize) :
    strncpy buffOutput (serverMsg ++ [0]) buffSize = some answer := by
  have hroom : serverMsg.length < buffOutput.length := by
    rw [hlen]
    decide
  rw [← hlen, strncpy_whole (by decide) hroom, hlen]
  rfl

/-- What is received into a clean buffer. -/
lemma received_zeros {bytes : List UInt8} :
    bytes ++ zeros.drop bytes.length =
      bytes ++ List.replicate (buffSize - bytes.length) 0 := by
  rw [zeros, List.drop_replicate]

/-- A thread that keeps the descriptor it has. -/
lemma Formed.opened_update (h : Formed s)
    (hsame : p = .tcp → pc.holdsDescriptor = (s.client .tcp).holdsDescriptor) :
    s.opened =
      if (update s.client p pc .tcp).holdsDescriptor then s.fdClientTcp.toList else [] := by
  rw [h.opened]
  cases p with
  | tcp => rw [update_self, hsame rfl]
  | udp => rw [update_of_ne (by simp)]

/-- While a UDP client is served, no descriptor is open. -/
lemma Formed.not_holdsDescriptor (h : Formed s) (hp : (s.client .udp).running = true) :
    (s.client .tcp).holdsDescriptor = false := by
  by_contra hholds
  have hrun := ClientPc.running_of_holdsDescriptor ((Bool.not_eq_false _).mp hholds)
  cases h.eq_of_running hp hrun

lemma Formed.input_of_running (h : Formed s) (hp : (s.client p).running = true)
    (hclean : (s.client p).holdsInput = false) : s.buffInput = zeros := by
  apply h.input
  intro q
  by_contra hq
  have hrun := ClientPc.running_of_holdsInput ((Bool.not_eq_false _).mp hq)
  rw [h.eq_of_running hp hrun, hclean] at hq
  exact hq rfl

lemma Formed.output_of_running (h : Formed s) (hp : (s.client p).running = true)
    (hclean : (s.client p).holdsOutput = false) : s.buffOutput = zeros := by
  apply h.output
  intro q
  by_contra hq
  have hrun := ClientPc.running_of_holdsOutput ((Bool.not_eq_false _).mp hq)
  rw [h.eq_of_running hp hrun, hclean] at hq
  exact hq rfl

/-- A thread goes on, and touches no buffer. -/
lemma Formed.clientAt (h : Formed s) (hp : (s.client p).running = true)
    (hinput : pc.holdsInput = false → (s.client p).holdsInput = false)
    (houtput : pc.holdsOutput = false → (s.client p).holdsOutput = false) (hsend : pc ≠ .send)
    (hsame : p = .tcp → pc.holdsDescriptor = (s.client .tcp).holdsDescriptor) :
    Formed (s.clientAt p pc) :=
  h.moved hp rfl rfl rfl rfl rfl rfl (fun hpc => h.input_of_running hp (hinput hpc))
    (fun hpc => h.output_of_running hp (houtput hpc)) (fun hpc => absurd hpc hsend) h.length
    (h.opened_update hsame) h.sent h.received

lemma Formed.clientStep_ok (h : Formed s) (hstep : clientStep s p .ok = some s') : Formed s' := by
  have hrunning {pc : ClientPc} (hpc : s.client p = pc) (hgoes : pc.running = true) :
      (s.client p).running = true := hpc ▸ hgoes
  cases hpc : s.client p with
  | listen =>
      simp only [clientStep, hpc, Option.some.injEq] at hstep
      subst hstep
      apply h.clientAt (hrunning hpc rfl)
      · simp [hpc, ClientPc.holdsInput]
      · simp [hpc, ClientPc.holdsOutput]
      · simp
      · rintro rfl
        rw [hpc]
        rfl
  | prepare =>
      simp only [clientStep, hpc, strncpy_serverMsg h.length.2, Option.map_some,
        Option.some.injEq] at hstep
      subst hstep
      refine h.moved (hrunning hpc rfl) rfl rfl rfl rfl rfl rfl nofun nofun (fun _ => rfl)
        ⟨h.length.1, ?_⟩ (h.opened_update ?_) h.sent h.received
      · exact length_answer
      · rintro rfl
        rw [hpc]
        rfl
  | send =>
      simp only [clientStep, hpc] at hstep
      obtain ⟨-, hstep⟩ := Option.ite_none_right_eq_some.mp hstep
      obtain rfl := Option.some.inj hstep
      refine h.moved (hrunning hpc rfl) rfl rfl rfl rfl rfl rfl nofun nofun nofun h.length
        (h.opened_update ?_) ?_ h.received
      · rintro rfl
        rw [hpc]
        rfl
      · intro m hm
        rcases List.mem_append.mp hm with hm | hm
        · exact h.sent m hm
        · rw [List.mem_singleton.mp hm]
          exact h.prepared p hpc
  | clearInput =>
      simp only [clientStep, hpc, Option.some.injEq] at hstep
      subst hstep
      refine h.moved (hrunning hpc rfl) rfl rfl rfl rfl rfl rfl (fun _ => rfl) nofun nofun
        ⟨List.length_replicate, h.length.2⟩ (h.opened_update ?_) h.sent h.received
      rintro rfl
      rw [hpc]
      rfl
  | clearOutput =>
      simp only [clientStep, hpc, Option.some.injEq] at hstep
      subst hstep
      refine h.moved (hrunning hpc rfl) rfl rfl rfl rfl rfl rfl
        (fun _ => h.input_of_running (hrunning hpc rfl) (by rw [hpc]; rfl)) (fun _ => rfl) ?_
        ⟨h.length.1, List.length_replicate⟩ (h.opened_update ?_) h.sent h.received
      · split <;> simp
      · rintro rfl
        rw [hpc]
        rfl
  | close =>
      simp only [clientStep, hpc, Option.some.injEq] at hstep
      subst hstep
      refine h.moved (hrunning hpc rfl) rfl rfl rfl rfl rfl rfl
        (fun _ => h.input_of_running (hrunning hpc rfl) (by rw [hpc]; rfl))
        (fun _ => h.output_of_running (hrunning hpc rfl) (by rw [hpc]; rfl)) nofun h.length ?_
        h.sent h.received
      show s.opened.filter _ = if _ then s.fdClientTcp.toList else []
      rw [h.opened]
      cases p with
      | tcp =>
          rw [hpc, update_self]
          cases s.fdClientTcp <;> simp [ClientPc.holdsDescriptor]
      | udp =>
          rw [update_of_ne (by simp), h.not_holdsDescriptor (hrunning hpc rfl)]
          rfl
  | _ => simp [clientStep, hpc] at hstep

lemma Formed.clientStep_failed (h : Formed s) (hstep : clientStep s p .failed = some s') :
    Formed s' := by
  have hrunning {pc : ClientPc} (hpc : s.client p = pc) (hgoes : pc.running = true) :
      (s.client p).running = true := hpc ▸ hgoes
  cases hpc : s.client p with
  | listen =>
      simp only [clientStep, hpc, Option.some.injEq] at hstep
      subst hstep
      apply h.clientAt (hrunning hpc rfl)
      · simp [hpc, ClientPc.holdsInput]
      · simp [hpc, ClientPc.holdsOutput]
      · simp
      · rintro rfl
        rw [hpc]
        rfl
  | accept =>
      simp only [clientStep, hpc, Option.some.injEq] at hstep
      subst hstep
      refine h.moved (hrunning hpc rfl) rfl rfl rfl rfl rfl rfl
        (fun _ => h.input_of_running (hrunning hpc rfl) (by rw [hpc]; rfl))
        (fun _ => h.output_of_running (hrunning hpc rfl) (by rw [hpc]; rfl)) nofun h.length ?_
        h.sent h.received
      show s.opened = if _ then [] else []
      rw [h.opened, ite_self]
      cases p with
      | tcp =>
          rw [hpc]
          rfl
      | udp =>
          rw [h.not_holdsDescriptor (hrunning hpc rfl)]
          rfl
  | recv =>
      simp only [clientStep, hpc, Option.some.injEq] at hstep
      subst hstep
      apply h.clientAt (hrunning hpc rfl)
      · simp [ClientPc.holdsInput]
      · simp [hpc, ClientPc.holdsOutput]
      · simp
      · rintro rfl
        rw [hpc]
        rfl
  | send =>
      simp only [clientStep, hpc, Option.some.injEq] at hstep
      subst hstep
      apply h.clientAt (hrunning hpc rfl)
      · simp [ClientPc.holdsInput]
      · simp [ClientPc.holdsOutput]
      · simp
      · rintro rfl
        rw [hpc]
        rfl
  | _ => simp [clientStep, hpc] at hstep

lemma Formed.clientStep {result : Result} (h : Formed s)
    (hstep : EchoServer.clientStep s p result = some s') : Formed s' := by
  cases result with
  | ok => exact h.clientStep_ok hstep
  | failed => exact h.clientStep_failed hstep
  | accepted fd =>
      obtain ⟨⟨rfl, hpc, -⟩, hstep⟩ := Option.ite_none_right_eq_some.mp hstep
      obtain rfl := Option.some.inj hstep
      have hrun : (s.client .tcp).running = true := by rw [hpc]; rfl
      refine h.moved hrun rfl rfl rfl rfl rfl rfl
        (fun _ => h.input_of_running hrun (by rw [hpc]; rfl))
        (fun _ => h.output_of_running hrun (by rw [hpc]; rfl)) nofun h.length ?_ h.sent h.received
      show fd :: s.opened = _
      rw [h.opened, hpc, update_self]
      rfl
  | data bytes =>
      obtain ⟨⟨hpc, -, hfits⟩, hstep⟩ := Option.ite_none_right_eq_some.mp hstep
      obtain rfl := Option.some.inj hstep
      have hrun : (s.client p).running = true := by rw [hpc]; rfl
      have hclean : s.buffInput = zeros := h.input_of_running hrun (by rw [hpc]; rfl)
      refine h.moved hrun rfl rfl rfl rfl rfl rfl nofun
        (fun _ => h.output_of_running hrun (by rw [hpc]; rfl)) nofun ⟨?_, h.length.2⟩
        (h.opened_update ?_) h.sent ?_
      · simp only [List.length_append, List.length_drop, h.length.1]
        omega
      · rintro rfl
        rw [hpc]
        rfl
      · intro r hr
        rcases List.mem_append.mp hr with hr | hr
        · exact h.received r hr
        · rw [List.mem_singleton.mp hr, hclean]
          exact received_zeros

/-! ### The other two threads -/

/-- `main` goes on while no client is served. -/
lemma Formed.mainAt (h : Formed s) (hidle : ∀ p, (s.client p).running = false)
    (hclient : s'.client = s.client) (hin : s'.buffInput = s.buffInput)
    (hout : s'.buffOutput = s.buffOutput) (hfd : s'.fdClientTcp = s.fdClientTcp)
    (hopened : s'.opened = s.opened) (hsent : s'.sent = s.sent)
    (hreceived : s'.received = s.received) (hvar : s'.mainWhileVar = s.mainWhileVar)
    (htypedWords : s'.typed = s.typed)
    (hleft : s'.mainPc.leaves = true → s.mainWhileVar = false)
    (htyped : s.mainWhileVar = false → s'.shutdown = .exited)
    (hservers : ∀ p, s'.serverOpen p = s'.mainPc.serverOpen p)
    (hfresh : s'.mainPc ≠ .createShutdown) : Formed s' := by
  constructor
  · intro p hp
    rw [hclient, hidle p] at hp
    cases hp
  · rw [hclient, hin]
    exact h.input
  · rw [hclient, hout]
    exact h.output
  · rw [hclient, hout]
    exact h.prepared
  · rw [hin, hout]
    exact h.length
  · rw [hclient, hopened, hfd]
    exact h.opened
  · rw [hsent]
    exact h.sent
  · rw [hreceived]
    exact h.received
  · rw [hvar]
    exact hleft
  · rw [hvar, htypedWords]
    exact fun hgone => ⟨(h.typed hgone).1, htyped hgone⟩
  · exact hservers
  · exact fun hpc => absurd hpc hfresh

lemma Formed.idle (h : Formed s) (hmain : ∀ p udp, s.mainPc ≠ .join p udp) :
    ∀ p, (s.client p).running = false := by
  intro p
  by_contra hp
  obtain ⟨udp, hpc⟩ := h.alone p ((Bool.not_eq_false _).mp hp)
  exact hmain p udp hpc

lemma Formed.idle_of_joined (h : Formed s) {udp : Bool} (hmain : s.mainPc = .join p udp)
    (hp : (s.client p).running = false) : ∀ q, (s.client q).running = false := by
  intro q
  by_contra hq
  obtain ⟨udp', hpc⟩ := h.alone q ((Bool.not_eq_false _).mp hq)
  rw [hmain] at hpc
  cases hpc
  exact hq hp

lemma Formed.holds_nothing (h : Formed s) (hidle : ∀ p, (s.client p).running = false) :
    s.buffInput = zeros ∧ s.buffOutput = zeros ∧ s.opened = [] := by
  refine ⟨h.input fun p => ?_, h.output fun p => ?_, ?_⟩
  · by_contra hp
    have hrun := ClientPc.running_of_holdsInput ((Bool.not_eq_false _).mp hp)
    rw [hidle p] at hrun
    cases hrun
  · by_contra hp
    have hrun := ClientPc.running_of_holdsOutput ((Bool.not_eq_false _).mp hp)
    rw [hidle p] at hrun
    cases hrun
  · rw [h.opened]
    by_cases hp : (s.client .tcp).holdsDescriptor = true
    · have hrun := ClientPc.running_of_holdsDescriptor hp
      rw [hidle .tcp] at hrun
      cases hrun
    · rw [if_neg hp]

/-- A thread has been created. -/
lemma Formed.created (h : Formed s) (hidle : ∀ p, (s.client p).running = false) {udp : Bool}
    (hservers : ∀ p, s.serverOpen p = true) :
    Formed { s with client := update s.client p p.first, mainPc := .join p udp } := by
  obtain ⟨hinput, houtput, hopened⟩ := h.holds_nothing hidle
  constructor
  · intro q
    show (update s.client p p.first q).running = true → _
    by_cases hqp : q = p
    · exact fun _ => ⟨udp, by rw [hqp]⟩
    · rw [update_of_ne hqp, hidle q]
      nofun
  · exact fun _ => hinput
  · exact fun _ => houtput
  · intro q
    show update s.client p p.first q = .send → _
    by_cases hqp : q = p
    · rw [hqp, update_self]
      cases p <;> nofun
    · rw [update_of_ne hqp]
      exact h.prepared q
  · exact h.length
  · show s.opened = if (update s.client p p.first .tcp).holdsDescriptor then _ else []
    rw [hopened]
    cases p with
    | tcp => rfl
    | udp =>
        by_cases hp : (s.client .tcp).holdsDescriptor = true
        · have hrun := ClientPc.running_of_holdsDescriptor hp
          rw [hidle .tcp] at hrun
          cases hrun
        · rw [update_of_ne (by simp), if_neg hp]
  · exact h.sent
  · exact h.received
  · exact nofun
  · exact h.typed
  · exact hservers
  · exact nofun

lemma Formed.mainStep_ok (h : Formed s) (hstep : mainStep s .ok = some s') : Formed s' := by
  have hservers := h.servers
  have hleft := h.left
  cases hpc : s.mainPc with
  | createShutdown =>
      have hidle := h.idle (by simp [hpc])
      simp only [mainStep, hpc, Option.some.injEq] at hstep
      subst hstep
      rw [hpc] at hservers
      refine h.mainAt hidle rfl rfl rfl rfl rfl rfl rfl rfl rfl nofun ?_ hservers nofun
      intro hgone
      have habsent := h.fresh hpc
      rw [(h.typed hgone).2] at habsent
      cases habsent
  | head =>
      have hidle := h.idle (by simp [hpc])
      simp only [mainStep, hpc, Option.some.injEq] at hstep
      subst hstep
      rw [hpc] at hservers
      refine h.mainAt hidle rfl rfl rfl rfl rfl rfl rfl rfl rfl ?_ (fun hgone => (h.typed hgone).2)
        ?_ ?_
      · cases s.mainWhileVar <;> simp [MainPc.leaves]
      · intro p
        rw [hservers p]
        cases s.mainWhileVar <;> rfl
      · cases s.mainWhileVar <;> simp
  | select =>
      have hidle := h.idle (by simp [hpc])
      simp only [mainStep, hpc, Option.some.injEq] at hstep
      subst hstep
      rw [hpc] at hservers
      exact h.mainAt hidle rfl rfl rfl rfl rfl rfl rfl rfl rfl nofun
        (fun hgone => (h.typed hgone).2) hservers nofun
  | create p udp =>
      have hidle := h.idle (by simp [hpc])
      simp only [mainStep, hpc, Option.some.injEq] at hstep
      subst hstep
      rw [hpc] at hservers
      exact h.created hidle hservers
  | join p udp =>
      simp only [mainStep, hpc] at hstep
      obtain ⟨hdone, hstep⟩ := Option.ite_none_left_eq_some.mp hstep
      obtain rfl := Option.some.inj hstep
      have hidle := h.idle_of_joined hpc ((Bool.not_eq_true _).mp hdone)
      rw [hpc] at hservers
      refine h.mainAt hidle rfl rfl rfl rfl rfl rfl rfl rfl rfl ?_ (fun hgone => (h.typed hgone).2)
        ?_ ?_
      · cases udp <;> simp [behindJoin, MainPc.leaves]
      · intro p
        rw [hservers p]
        cases udp <;> rfl
      · cases udp <;> simp [behindJoin]
  | stop =>
      have hidle := h.idle (by simp [hpc])
      simp only [mainStep, hpc, Option.some.injEq] at hstep
      subst hstep
      rw [hpc] at hservers hleft
      exact h.mainAt hidle rfl rfl rfl rfl rfl rfl rfl rfl rfl (fun _ => hleft rfl)
        (fun hgone => (h.typed hgone).2) hservers nofun
  | joinShutdown =>
      have hidle := h.idle (by simp [hpc])
      simp only [mainStep, hpc] at hstep
      obtain ⟨-, hstep⟩ := Option.ite_none_left_eq_some.mp hstep
      obtain rfl := Option.some.inj hstep
      rw [hpc] at hservers hleft
      exact h.mainAt hidle rfl rfl rfl rfl rfl rfl rfl rfl rfl (fun _ => hleft rfl)
        (fun hgone => (h.typed hgone).2) hservers nofun
  | close p =>
      have hidle := h.idle (by simp [hpc])
      rw [hpc] at hservers hleft
      cases p with
      | tcp =>
          simp only [mainStep, hpc, Option.some.injEq] at hstep
          subst hstep
          refine h.mainAt hidle rfl rfl rfl rfl rfl rfl rfl rfl rfl (fun _ => hleft rfl)
            (fun hgone => (h.typed hgone).2) ?_ nofun
          intro p
          cases p with
          | tcp => rfl
          | udp => exact hservers .udp
      | udp =>
          simp only [mainStep, hpc, Option.some.injEq] at hstep
          subst hstep
          refine h.mainAt hidle rfl rfl rfl rfl rfl rfl rfl rfl rfl (fun _ => hleft rfl)
            (fun hgone => (h.typed hgone).2) ?_ nofun
          intro p
          cases p with
          | tcp => exact hservers .tcp
          | udp => rfl
  | exited => simp [mainStep, hpc] at hstep

lemma Formed.mainStep {outcome : Outcome} (h : Formed s)
    (hstep : EchoServer.mainStep s outcome = some s') : Formed s' := by
  have hservers := h.servers
  cases outcome with
  | ok => exact h.mainStep_ok hstep
  | failed =>
      cases hpc : s.mainPc with
      | createShutdown =>
          have hidle := h.idle (by simp [hpc])
          simp only [EchoServer.mainStep, hpc, Option.some.injEq] at hstep
          subst hstep
          rw [hpc] at hservers
          exact h.mainAt hidle rfl rfl rfl rfl rfl rfl rfl rfl rfl nofun
            (fun hgone => (h.typed hgone).2) hservers nofun
      | select =>
          have hidle := h.idle (by simp [hpc])
          simp only [EchoServer.mainStep, hpc, Option.some.injEq] at hstep
          subst hstep
          rw [hpc] at hservers
          exact h.mainAt hidle rfl rfl rfl rfl rfl rfl rfl rfl rfl nofun
            (fun hgone => (h.typed hgone).2) hservers nofun
      | create p udp =>
          have hidle := h.idle (by simp [hpc])
          simp only [EchoServer.mainStep, hpc, Option.some.injEq] at hstep
          subst hstep
          rw [hpc] at hservers
          exact h.mainAt hidle rfl rfl rfl rfl rfl rfl rfl rfl rfl nofun
            (fun hgone => (h.typed hgone).2) hservers nofun
      | _ => simp [EchoServer.mainStep, hpc] at hstep
  | ready tcp udp =>
      obtain ⟨⟨hpc, -⟩, hstep⟩ := Option.ite_none_right_eq_some.mp hstep
      obtain rfl := Option.some.inj hstep
      have hidle := h.idle (by simp [hpc])
      rw [hpc] at hservers
      refine h.mainAt hidle rfl rfl rfl rfl rfl rfl rfl rfl rfl ?_ (fun hgone => (h.typed hgone).2)
        ?_ ?_
      · cases tcp <;> simp [MainPc.leaves]
      · intro p
        rw [hservers p]
        cases tcp <;> rfl
      · cases tcp <;> simp

lemma Formed.shutdownStep {word : Option (List UInt8)} (h : Formed s)
    (hstep : EchoServer.shutdownStep s word = some s') : Formed s' := by
  have hfresh (hrun : s.shutdown.running = true) : s.mainPc ≠ .createShutdown := by
    intro hpc
    rw [h.fresh hpc] at hrun
    cases hrun
  cases hpc : s.shutdown with
  | head =>
      simp only [EchoServer.shutdownStep, hpc, Option.some.injEq] at hstep
      subst hstep
      refine { h with typed := fun hgone => ?_, fresh := fun hmain => ?_ }
      · have hexited := (h.typed hgone).2
        rw [hpc] at hexited
        cases hexited
      · exact absurd hmain (hfresh (by rw [hpc]; rfl))
  | scan =>
      have hruns : s.mainWhileVar = true := by
        by_contra hgone
        have hexited := (h.typed ((Bool.not_eq_true _).mp hgone)).2
        rw [hpc] at hexited
        cases hexited
      have hmain := hfresh (by rw [hpc]; rfl)
      cases word with
      | none =>
          simp only [EchoServer.shutdownStep, hpc, Option.some.injEq] at hstep
          subst hstep
          refine { h with typed := fun hgone => ?_, fresh := fun hpc => absurd hpc hmain }
          rw [hruns] at hgone
          cases hgone
      | some w =>
          simp only [EchoServer.shutdownStep, hpc] at hstep
          obtain ⟨-, hstep⟩ := Option.ite_none_right_eq_some.mp hstep
          split at hstep
          · rename_i hword
            obtain rfl := Option.some.inj hstep
            refine { h with
              left := fun _ => rfl
              typed := fun _ => ⟨?_, rfl⟩
              fresh := fun hpc => absurd hpc hmain }
            rw [hword]
            exact List.mem_append_right _ (List.mem_singleton_self _)
          · obtain rfl := Option.some.inj hstep
            refine { h with typed := fun hgone => ?_, fresh := fun hpc => absurd hpc hmain }
            rw [hruns] at hgone
            cases hgone
  | _ => simp [EchoServer.shutdownStep, hpc] at hstep

lemma Formed.step {a : Action} (h : Formed s) (hstep : EchoServer.step s a = some s') :
    Formed s' := by
  obtain ⟨-, hstep⟩ := Option.ite_none_left_eq_some.mp hstep
  cases a with
  | main outcome => exact h.mainStep hstep
  | client p result => exact h.clientStep hstep
  | shutdown word => exact h.shutdownStep hstep

lemma formed_of_reach (h : Reach step Anything start s) : Formed s :=
  h.invariant formed_start fun _ _ _ hI _ hstep => hI.step hstep

/-- **One client at a time.**  In every state at most one client is served, and only while `main`
waits for its thread.  So the shared buffers hold what this client has sent, zeros behind it, and
every answer is `SERVER_MSG`, padded with zeros; and at most one accepted descriptor is open, the
one in `fd_client_tcp`, none while no client is served. -/
theorem one_client_at_a_time {s : State} (h : Reach step Anything start s) :
    (∀ p q, (s.client p).running = true → (s.client q).running = true → p = q) ∧
      (∀ p, (s.client p).running = true → ∃ udp, s.mainPc = .join p udp) ∧
      ((∀ p udp, s.mainPc ≠ .join p udp) →
        s.buffInput = zeros ∧ s.buffOutput = zeros ∧ s.opened = []) ∧
      (∀ fd ∈ s.opened, s.fdClientTcp = some fd) ∧
      (∀ m ∈ s.sent, m = answer) ∧
      ∀ r ∈ s.received, r.buffInput = r.bytes ++ List.replicate (buffSize - r.bytes.length) 0 := by
  have hformed := formed_of_reach h
  refine ⟨fun p q hp hq => hformed.eq_of_running hq hp, hformed.alone,
    fun hmain => hformed.holds_nothing (hformed.idle hmain), ?_, hformed.sent, hformed.received⟩
  intro fd hfd
  rw [hformed.opened] at hfd
  split at hfd
  · exact Option.mem_toList.mp hfd
  · cases hfd

/-- Two bytes of a UDP client have been received, and are answered. -/
def udpClient : List Action :=
  [.main .ok, .main .ok, .main (.ready false true), .main .ok, .client .udp (.data [104, 105]),
    .client .udp .ok, .client .udp .ok]

theorem one_client_at_a_time_udp : ∃ s, exec step start udpClient = some s ∧
    (∃ udp, s.mainPc = .join .udp udp) ∧ s.sent.length = 1 ∧ (∀ m ∈ s.sent, m = answer) ∧
      ∀ r ∈ s.received, r.buffInput = r.bytes ++ List.replicate (buffSize - r.bytes.length) 0 := by
  have hrun : (exec step start udpClient).map (fun s =>
      ((s.client .udp).running, s.sent.length)) = some (true, 1) := by
    decide +kernel
  obtain ⟨s, hs, hsummary⟩ := Option.map_eq_some_iff.mp hrun
  obtain ⟨hrunning, hsent⟩ := Prod.mk.inj hsummary
  obtain ⟨-, halone, -, -, hanswers, hreceived⟩ := one_client_at_a_time (Reach.of_exec hs)
  exact ⟨s, hs, halone .udp hrunning, hsent, hanswers, hreceived⟩

end EchoServer
end EltSummer
