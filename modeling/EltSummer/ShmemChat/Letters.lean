import EltSummer.Framework.CString
import Mathlib.Data.Int.Notation

/-!
# Messages of the shared-memory chat

`shmem_and_sem_19July/chat_with_common_room_shmem_sem`.  Each client shares two segments with
the server, one in each direction, and each segment holds one `struct_msg_client`: a text and
a flag.  What the programs do with such records between one segment and the other is pure
and is written down here: what a client writes (`connectMsg`, `chatMsg`, `disconnectMsg`) and
how a server thread takes a record it has read (`handle`).
-/

namespace EltSummer
namespace ShmemChat

open CString

/-- `MSG_BUFF_SIZE`. -/
def msgBuffSize : ℕ := 128

/-- `ID_CLIENT_SIZE`. -/
def idClientSize : ℕ := 32

/-- `struct_msg_client`. -/
structure StructMsg where
  msgBuff : List UInt8
  flag : ℤ
  deriving DecidableEq

/-- The record after `calloc` or `memset`. -/
def StructMsg.zero : StructMsg := ⟨List.replicate msgBuffSize 0, 0⟩

/-- `struct clients_info`. -/
structure ClientInfo where
  clientPid : ℤ
  flagConnect : ℕ
  deriving DecidableEq

/-- `MSG_CONNECT`, "connect". -/
def msgConnect : List UInt8 := [99, 111, 110, 110, 101, 99, 116]

/-- `MSG_DISCONNECT`, "disconnect". -/
def msgDisconnect : List UInt8 := [100, 105, 115, 99, 111, 110, 110, 101, 99, 116]

/-! ## Copying -/

/-- `memcpy` over the beginning of a block. -/
def overlay (src dst : List UInt8) : List UInt8 := src ++ dst.drop src.length

/-- `strcat` of a string to the string at the beginning of a block. -/
def strcat (dst src : List UInt8) : List UInt8 :=
  overlay (dst.takeWhile (· ≠ 0) ++ src ++ [0]) dst

/-! ## What a client writes -/

/-- `argv[2]`: a name that fits `id_client`. -/
structure Nick where
  bytes : List UInt8
  noNul : 0 ∉ bytes
  fits : bytes.length < idClientSize

/-- `id_client`. -/
def Nick.idClient (n : Nick) : List UInt8 := overlay n.bytes (List.replicate idClientSize 0)

/-- What is typed for `scanf("%s", msg_scanf)`, no longer than the array takes. -/
structure Typed extends Token where
  fits : bytes.length < msgBuffSize - idClientSize

/-- `msg_out` as `main` fills it to connect. -/
def connectMsg (msgOut : StructMsg) (pid : ℤ) : StructMsg :=
  ⟨overlay msgConnect msgOut.msgBuff, pid⟩

/-- `msg_out` as `main` fills it to disconnect: the flag is what it was. -/
def disconnectMsg (msgOut : StructMsg) : StructMsg :=
  ⟨overlay msgDisconnect msgOut.msgBuff, msgOut.flag⟩

/-- `msg_out` as the send thread fills it.  Its buffer `msg` is zeroed after each use; of
what is put together there, `sizeof(msg_scanf)` bytes are sent. -/
def chatMsg (msgOut : StructMsg) (nick : Nick) (msgScanf : List UInt8) : StructMsg :=
  let msg := strcat (overlay nick.idClient (List.replicate msgBuffSize 0)) msgScanf
  ⟨overlay (msg.take (msgBuffSize - idClientSize)) msgOut.msgBuff, 1⟩

/-! ## What the server makes of it -/

/-- `strncmp(msg_buff, MSG_CONNECT, CON_COUNT) == 0`. -/
def StructMsg.connects (m : StructMsg) : Bool := msgConnect.isPrefixOf m.msgBuff

/-- `strncmp(msg_buff, MSG_DISCONNECT, DISCON_COUNT) == 0`. -/
def StructMsg.disconnects (m : StructMsg) : Bool := msgDisconnect.isPrefixOf m.msgBuff

/-- What a server thread works on between two records.  A message is a record, or one that
carries more than its bytes. -/
structure Desk (M : Type) where
  info : ClientInfo
  clientsConnectedCount : ℤ
  msgTo : M

/-- The tests of `msg_from_cli`, whose record is `bytes msgFrom`. -/
def Desk.handle {M : Type} (bytes : M → StructMsg) (d : Desk M) (msgFrom : M) : Desk M :=
  let m := bytes msgFrom
  if m.connects then
    if d.info.flagConnect = 0 then
      { d with
        info := ⟨m.flag, 1⟩, clientsConnectedCount := d.clientsConnectedCount + 1 }
    else d
  else if m.disconnects ∧ d.info.flagConnect = 1 then
    { d with info := ⟨0, 0⟩, clientsConnectedCount := d.clientsConnectedCount - 1 }
  else if m.flag = 1 ∧ d.info.flagConnect = 1 then
    { d with msgTo := msgFrom }
  else d

/-- The test in front of the broadcast loop. -/
def Desk.broadcasts {M : Type} (d : Desk M) (m : StructMsg) : Bool :=
  decide (m.flag = 1 ∧ d.info.flagConnect = 1)

/-! ## Who takes steps -/

/-- `max_clients`, and for each client process its slot (`argv[1]`), name (`argv[2]`) and
pid. -/
structure Config where
  maxClients : ℕ
  slot : ℕ → ℕ
  nick : ℕ → Nick
  pid : ℕ → ℤ

inductive Action
  /-- Server thread `k` executes its next statement. -/
  | server (k : ℕ)
  /-- `main` of process `c`. -/
  | main (c : ℕ)
  /-- `func_thread_send` of process `c`. -/
  | send (c : ℕ)
  /-- `func_thread_receive` of process `c`. -/
  | receive (c : ℕ)
  /-- `func_thread_scanf` of process `c` reads a word. -/
  | type (c : ℕ) (word : Typed)
  /-- CTRL + C at process `c`. -/
  | interrupt (c : ℕ)
  /-- `stop_threads = 1` behind the server's main loop. -/
  | stop

/-- Two slots, each used by one process. -/
def twoClients : Config where
  maxClients := 2
  slot := id
  nick := fun _ => ⟨[109], by decide, by decide⟩
  pid := fun c => 7 + c

/-- The word "hi". -/
def wordHi : Typed :=
  ⟨⟨[104, 105], by decide, by decide, by simp [isSpace]⟩, by decide⟩

end ShmemChat
end EltSummer
