import Mathlib.Data.List.Basic
import Mathlib.Data.Int.Notation

/-!
# The session of one client in the one-thread-per-client TCP server

`sockets_highload_services_27July/server_one_thread_for_one_client_tcp.c`,
`func_thread_client`: one exchange of greetings, then a loop of `recv(..., MSG_DONTWAIT)` that
prints what arrives, and `close` behind it.  The loop is to end when the client has
disconnected, and tests `res_recv` for that; but `res_recv` is 0 from its declaration on and no
statement assigns it (`greet_resRecv`, `recv_resRecv`).  So the loop ends in its first turn,
whatever `recv` returns (`loop_recv_cons`), and follows the client only when that is gone already
(`follows_iff`).

A session is computed from what the environment decides: the results of `recv` and `send`, and
in which turn `stop_threads` is found set.  `clients_connected_count` is printed by `main` only
and left out.
-/

namespace EltSummer
namespace ClientSession

/-! ## Data -/

/-- `BUFF_SIZE`. -/
def buffSize : ℕ := 128

/-- `SERVER_MSG`. -/
def serverMsg : List UInt8 :=
  "HELLO! I'AM SERVER! 'one thread for one client (tcp)'".toList.map fun c => c.val.toUInt8

/-- What one `recv` into a buffer of `BUFF_SIZE` bytes delivers. -/
structure Message where
  bytes : List UInt8
  pos : 0 < bytes.length
  fits : bytes.length ≤ buffSize
  deriving DecidableEq

/-- The result of `recv`: bytes, -1, or 0. -/
inductive Recv
  | received (m : Message)
  | failed
  | disconnected
  deriving DecidableEq

/-- The lines the thread prints. -/
inductive Line
  | recvError
  | sendError
  | receiveMsg (text : List UInt8)
  | sendMsg (text : List UInt8)
  | disconnected
  deriving DecidableEq

/-- The locals of the thread, what it has printed, and whether it has closed its descriptor. -/
structure Session where
  buffInput : List UInt8
  buffOutput : List UInt8
  resRecv : ℤ
  lines : List Line
  closed : Bool
  deriving DecidableEq

/-- `memset(&buff, 0, sizeof(buff))`. -/
def zeros : List UInt8 := List.replicate buffSize 0

/-- The locals as they are declared; `strncpy` pads `buff_output` with zeros. -/
def Session.fresh : Session where
  buffInput := zeros
  buffOutput := serverMsg ++ List.replicate (buffSize - serverMsg.length) 0
  resRecv := 0
  lines := []
  closed := false

/-- What `%s` prints of a buffer with the bytes `behind` in the memory behind it. -/
def shown (behind buff : List UInt8) : List UInt8 := (buff ++ behind).takeWhile (· ≠ 0)

/-! ## The thread -/

def Session.print (s : Session) (l : Line) : Session := { s with lines := s.lines ++ [l] }

/-- `recv(clients_fd[*arg_count], &buff_input, ...)` and the test for -1. -/
def Session.recv (s : Session) : Recv → Session
  | .received m => { s with buffInput := m.bytes ++ s.buffInput.drop m.bytes.length }
  | .failed => s.print .recvError
  | .disconnected => s

/-- The exchange before the loop. -/
def greet (behind : List UInt8) (first : Recv) (sent : Bool) : Session :=
  let s := Session.fresh.recv first
  if sent then
    { (s.print (.receiveMsg (shown behind s.buffInput))).print
        (.sendMsg (shown behind s.buffOutput)) with
      buffInput := zeros
      buffOutput := zeros }
  else s.print .sendError

/-- What a turn of the loop meets: `stop_threads` is set, or `recv` returns. -/
inductive Turn
  | stopThreads
  | recv (r : Recv)
  deriving DecidableEq

/-- `close(clients_fd[*arg_count])`. -/
def Session.close (s : Session) : Session := { s with closed := true }

/-- The loop, for the turns it meets, and the `close` behind it. -/
def loop (behind : List UInt8) : List Turn → Session → Session
  | [], s => s
  | .stopThreads :: _, s => s.close
  | .recv r :: turns, s =>
      let s := s.recv r
      if s.resRecv = 0 then (s.print .disconnected).close
      else loop behind turns
        { s.print (.receiveMsg (shown behind s.buffInput)) with buffInput := zeros }

/-- `func_thread_client`. -/
def funcThreadClient (behind : List UInt8) (first : Recv) (sent : Bool) (turns : List Turn) :
    Session :=
  loop behind turns (greet behind first sent)

/-! ## `res_recv` -/

@[simp] lemma recv_resRecv (s : Session) (r : Recv) : (s.recv r).resRecv = s.resRecv := by
  cases r <;> rfl

@[simp] lemma recv_closed (s : Session) (r : Recv) : (s.recv r).closed = s.closed := by
  cases r <;> rfl

@[simp] lemma greet_resRecv (behind : List UInt8) (first : Recv) (sent : Bool) :
    (greet behind first sent).resRecv = 0 := by
  cases sent <;> exact recv_resRecv _ first

lemma greet_closed (behind : List UInt8) (first : Recv) (sent : Bool) :
    (greet behind first sent).closed = false := by
  cases sent <;> exact recv_closed _ first

/-- The loop ends in its first turn. -/
lemma loop_recv_cons {s : Session} (hres : s.resRecv = 0) (behind : List UInt8) (r : Recv)
    (turns : List Turn) :
    loop behind (.recv r :: turns) s = ((s.recv r).print .disconnected).close := by
  rw [loop, if_pos ((recv_resRecv s r).trans hres)]

/-! ## What the loop is for -/

/-- The message in a result. -/
def Recv.text : Recv → Option (List UInt8)
  | .received m => some (m.bytes.takeWhile (· ≠ 0))
  | _ => none

/-- The messages among the lines. -/
def messages (lines : List Line) : List (List UInt8) :=
  lines.filterMap fun
    | .receiveMsg text => some text
    | _ => none

/-- The messages received before the client has disconnected. -/
def heard (results : List Recv) : List (List UInt8) :=
  (results.takeWhile (· ≠ .disconnected)).filterMap Recv.text

/-- The loop follows the results of `recv`: at every moment it has printed what was received,
and it has closed the descriptor exactly when the client has disconnected. -/
def Follows (behind : List UInt8) (first : Recv) (sent : Bool) (results : List Recv) : Prop :=
  ∀ pre, pre <+: results →
    messages (funcThreadClient behind first sent (pre.map .recv)).lines =
        messages (greet behind first sent).lines ++ heard pre ∧
      ((funcThreadClient behind first sent (pre.map .recv)).closed = true ↔ .disconnected ∈ pre)

/-- What a session without `stop_threads` comes to: it is closed with its first result, and
that is not looked at. -/
theorem funcThreadClient_recv_cons (behind : List UInt8) (first : Recv) (sent : Bool) (r : Recv)
    (turns : List Turn) :
    funcThreadClient behind first sent (.recv r :: turns) =
      (((greet behind first sent).recv r).print .disconnected).close :=
  loop_recv_cons (greet_resRecv behind first sent) behind r turns

lemma messages_closing (s : Session) (r : Recv) :
    messages ((s.recv r).print .disconnected).close.lines = messages s.lines := by
  cases r <;> simp [messages, Session.recv, Session.print, Session.close]

/-- **When the loop follows its client**: exactly when the first result of `recv`, if there is
one, says that the client has disconnected. -/
theorem follows_iff (behind : List UInt8) (first : Recv) (sent : Bool) (results : List Recv) :
    Follows behind first sent results ↔ ∀ r ∈ results.head?, r = .disconnected := by
  cases results with
  | nil =>
      refine iff_of_true (fun pre hpre => ?_) (by simp)
      obtain rfl := List.prefix_nil.mp hpre
      simp [funcThreadClient, loop, heard, greet_closed]
  | cons r results =>
      simp only [List.head?_cons, Option.mem_some_iff, forall_eq']
      constructor
      · intro hfollows
        obtain ⟨-, hclosed⟩ := hfollows [r] (List.prefix_append [r] results)
        rw [List.map_singleton, funcThreadClient_recv_cons] at hclosed
        have hmem : Recv.disconnected ∈ [r] := hclosed.mp (by rfl)
        exact (List.mem_singleton.mp hmem).symm
      · rintro rfl pre hpre
        cases pre with
        | nil => simp [funcThreadClient, loop, heard, greet_closed]
        | cons r' pre =>
            obtain ⟨rfl, -⟩ := List.cons_prefix_cons.mp hpre
            rw [List.map_cons, funcThreadClient_recv_cons, messages_closing]
            simp [heard, Session.close]

/-- A client that has nothing to say yet is taken for gone. -/
theorem silent_client_is_closed :
    ¬ ∀ (behind : List UInt8) (first : Recv) (sent : Bool) (results : List Recv),
      Follows behind first sent results := by
  intro hclaim
  obtain ⟨-, hclosed⟩ := hclaim [] .failed true [.failed] [.failed] List.prefix_rfl
  rw [List.map_singleton, funcThreadClient_recv_cons] at hclosed
  have hmem : Recv.disconnected ∈ [Recv.failed] := hclosed.mp (by rfl)
  simp at hmem

end ClientSession
end EltSummer
