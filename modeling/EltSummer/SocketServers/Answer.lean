import EltSummer.Framework.CString

/-!
# The answers of the socket servers

`sockets_25July`: the servers in `tcp_inet`, `tcp_local`, `udp_inet` and `udp_local` answer one
message each.  They copy it into a second buffer of the same size and append
`SERV_PART_OF_ANSWER` to it, all in the same words, so one definition takes the four.

The message is what `BUFF_SIZE` received bytes hold, with a NUL among them or without, and the
buffer of the answer is not initialised.  There is room for the answer exactly when a NUL comes
early enough (`answers_iff`).
-/

namespace EltSummer
namespace SocketServers

open Block CString

/-- `BUFF_SIZE`. -/
def buffSize : ℕ := 128

/-- `SERV_PART_OF_ANSWER`, " HELLO, I'AM SERVER!". -/
def servPartOfAnswer : List UInt8 :=
  [32, 72, 69, 76, 76, 79, 44, 32, 73, 39, 65, 77, 32, 83, 69, 82, 86, 69, 82, 33]

/-- A `char [BUFF_SIZE]`, with whatever it holds. -/
structure Buffer where
  bytes : List UInt8
  length : bytes.length = buffSize

/-- The directories of the four servers. -/
inductive Server
  | tcpInet
  | tcpLocal
  | udpInet
  | udpLocal
  deriving DecidableEq, Repr

/-- `strncpy(buff_output, buff_input, sizeof(buff_output)); strcat(buff_output, part);` -/
def prepare (part : List UInt8) (buffInput buffOutput : Buffer) : Option (List UInt8) :=
  (strncpy buffOutput.bytes buffInput.bytes buffSize).bind fun buffOutput =>
    CString.strcat buffOutput part

/-- What each server prepares for its client. -/
def Server.answer : Server → Buffer → Buffer → Option (List UInt8)
  | .tcpInet => prepare servPartOfAnswer
  | .tcpLocal => prepare servPartOfAnswer
  | .udpInet => prepare servPartOfAnswer
  | .udpLocal => prepare servPartOfAnswer

/-- The answer is written inside its buffer, and is the message with the server's part behind
it. -/
def Answers (server : Server) (buffInput buffOutput : Buffer) : Prop :=
  ∃ b msg, server.answer buffInput buffOutput = some b ∧ stringAt buffInput.bytes 0 = some msg ∧
    stringAt b 0 = some (msg ++ servPartOfAnswer)

variable {buffInput buffOutput : Buffer} {msg part : List UInt8}

/-- `prepare` on a message with room for what is appended to it. -/
lemma exists_prepare (buffOutput : Buffer) (hmsg : stringAt buffInput.bytes 0 = some msg)
    (hpart : 0 ∉ part) (hroom : msg.length + part.length < buffSize) :
    ∃ b, prepare part buffInput buffOutput = some b ∧ stringAt b 0 = some (msg ++ part) := by
  obtain ⟨copy, hcopy, hlen, hread⟩ :=
    exists_strncpy hmsg (show msg.length < buffSize by omega) buffOutput.length.ge
  rw [buffOutput.length] at hlen
  obtain ⟨b, hb, -, hanswer⟩ := exists_strcat hread (hlen ▸ hroom) hpart
  exact ⟨b, by rw [prepare, hcopy, Option.bind_some, hb], hanswer⟩

/-- Where `prepare` has a result, there was room. -/
lemma room_of_prepare {b : List UInt8} (hmsg : stringAt buffInput.bytes 0 = some msg)
    (hprepare : prepare part buffInput buffOutput = some b) :
    msg.length + part.length < buffSize := by
  have hlt : msg.length < buffSize := by
    obtain ⟨-, rest, hrest⟩ := stringAt_eq_some_iff.mp hmsg
    have hlen := congrArg List.length hrest
    rw [List.length_drop, buffInput.length, List.length_append, List.length_cons] at hlen
    omega
  obtain ⟨copy, hcopy, hlen, hread⟩ := exists_strncpy hmsg hlt buffOutput.length.ge
  rw [prepare, hcopy, Option.bind_some, CString.strcat, hread, Option.bind_some] at hprepare
  obtain ⟨hroom, -⟩ := writeAt_eq_some.mp hprepare
  rw [hlen, buffOutput.length, List.length_append, List.length_singleton] at hroom
  omega

lemma answer_eq (server : Server) (buffInput buffOutput : Buffer) :
    server.answer buffInput buffOutput = prepare servPartOfAnswer buffInput buffOutput := by
  cases server <;> rfl

/-- The message is at most 107 bytes long. -/
lemma room_of_answers {server : Server} (h : Answers server buffInput buffOutput) :
    0 ∈ buffInput.bytes.take 108 := by
  obtain ⟨b, msg, hb, hmsg, -⟩ := h
  rw [answer_eq] at hb
  have hroom := room_of_prepare hmsg hb
  have hsuffix : servPartOfAnswer.length = 20 := rfl
  rw [hsuffix, buffSize] at hroom
  exact exists_stringAt_iff.mp ⟨msg, hmsg, by omega⟩

/-- **When the answer is right**: exactly when a NUL is among the first 108 bytes received. -/
theorem answers_iff (server : Server) (buffInput buffOutput : Buffer) :
    Answers server buffInput buffOutput ↔ 0 ∈ buffInput.bytes.take 108 := by
  constructor
  · exact room_of_answers
  · intro hnul
    obtain ⟨msg, hmsg, hlen⟩ := exists_stringAt_iff.mpr hnul
    have hsuffix : servPartOfAnswer.length = 20 := rfl
    obtain ⟨b, hb, hread⟩ := exists_prepare buffOutput hmsg
      (by decide : 0 ∉ servPartOfAnswer) (by rw [hsuffix, buffSize]; omega)
    exact ⟨b, msg, by rw [answer_eq, hb], hmsg, hread⟩

/-- 127 letters and a NUL. -/
def longMessage : Buffer := ⟨List.replicate 127 65 ++ [0], by simp [buffSize]⟩

/-- A message that fills its buffer leaves no room for the server's part. -/
theorem long_message_overruns :
    ¬ ∀ (server : Server) (buffInput buffOutput : Buffer), Answers server buffInput buffOutput := by
  intro hclaim
  have hnul := room_of_answers (hclaim .tcpInet longMessage longMessage)
  simp [longMessage] at hnul

end SocketServers
end EltSummer
