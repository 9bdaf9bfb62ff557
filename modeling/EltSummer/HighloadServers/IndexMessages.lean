import EltSummer.Framework.Decimal
import EltSummer.HighloadServers.ProducerConsumer

/-!
# The messages of the producer-consumer server

`main` prints an index into `msg_to_que_buff` and sends the text without its NUL.  A worker
receives it into `msg_from_que_buff` and reads it with `atoi`, which stops at the first byte that
is no digit: the buffer has to be zero behind the text.  It is, for each turn that has received
something ends with a `memset`.

The loop of one worker is modelled over any results of `mq_receive`, with all it does to its
buffers (`indices_decoded`).
-/

namespace EltSummer
namespace ProducerConsumer

open Block CString Interleaving Function

/-- `BUFF_SIZE`. -/
def buffSize : ℕ := 128

/-- `SERVER_MSG`. -/
def serverMsg : List UInt8 := "Hello! I'am thread no:".toList.map fun c => c.val.toUInt8

/-- A buffer behind `memset`. -/
def zeros : List UInt8 := List.replicate buffSize 0

/-! ## One message -/

/-- What `mq_send` is given for an index: `strlen(msg_to_que_buff)` bytes, behind `memset` and
`sprintf`. -/
def encode (count : ℕ) : Option (List UInt8) :=
  (writeAt zeros 0 (decimal count ++ [0])).bind fun msgToQueBuff => stringAt msgToQueBuff 0

/-- `mq_receive` into the buffer, and `atoi` of it. -/
def decode (msgFromQueBuff bytes : List UInt8) : Option (List UInt8 × ℤ) :=
  (writeAt msgFromQueBuff 0 bytes).bind fun buff => (atoi buff).map fun no => (buff, no)

variable {count : ℕ}

lemma length_decimal_lt_buffSize (h : count < 2 ^ 31) : (decimal count).length < buffSize :=
  (length_decimal_le h).trans_lt (by decide)

lemma encode_eq (h : count < 2 ^ 31) : encode count = some (decimal count) := by
  have hroom : (decimal count).length < zeros.length := by
    rw [zeros, List.length_replicate]
    exact length_decimal_lt_buffSize h
  obtain ⟨buff, hbuff, -, hread⟩ := exists_strcpy hroom (zero_notMem_decimal count)
  rw [strcpy] at hbuff
  rw [encode, hbuff, Option.bind_some, hread]

/-- In a buffer of zeros the index is read back. -/
lemma exists_decode (h : count < 2 ^ 31) :
    ∃ buff, decode zeros (decimal count) = some (buff, (count : ℤ)) := by
  have hlt := length_decimal_lt_buffSize h
  obtain ⟨k, hk⟩ : ∃ k, buffSize - (decimal count).length = k + 1 :=
    ⟨buffSize - (decimal count).length - 1, by omega⟩
  have hwrite : writeAt zeros 0 (decimal count) =
      some (decimal count ++ 0 :: List.replicate k 0) := by
    refine writeAt_eq_some.mpr ⟨by simpa [zeros] using hlt.le, ?_⟩
    simp [zeros, hk, List.replicate_succ]
  have hread : atoi (decimal count ++ 0 :: List.replicate k 0) = some (count : ℤ) :=
    atoi_decimal _ h (by decide)
  exact ⟨_, by rw [decode, hwrite, Option.bind_some, hread, Option.map_some]⟩

/-! ## The loop of a worker -/

/-- A configuration with `start_alloc_size` an `int`. -/
structure Pool extends Config where
  isInt : startAllocSize < 2 ^ 31

/-- A message that `main` has sent for an index. -/
structure Message (pool : Pool) where
  count : ℕ
  lt : count < pool.startAllocSize
  bytes : List UInt8
  encoded : encode count = some bytes

/-- The result of `mq_receive`. -/
inductive MqReceive (pool : Pool)
  | failed (errno : ℤ)
  | message (m : Message pool)

/-- The locals of `func_thread_client` and `thread_arg->flag_connect`, with two ghosts: the
indices decoded, and what has been sent to the clients. -/
structure Locals where
  msgFromQueBuff : List UInt8
  cliFdNoFromQue : ℤ
  flagConnect : ℕ
  threadBuffOutput : List UInt8
  threadBuffNo : List UInt8
  decoded : List ℤ
  sent : List (List UInt8)

/-- What the locals that are not initialised hold. -/
structure Stack where
  cliFdNoFromQue : ℤ
  threadBuffNo : List UInt8
  length : threadBuffNo.length = buffSize

/-- The locals at the head of the loop. -/
def Locals.fresh (stack : Stack) : Locals where
  msgFromQueBuff := zeros
  cliFdNoFromQue := stack.cliFdNoFromQue
  flagConnect := 0
  threadBuffOutput := zeros
  threadBuffNo := stack.threadBuffNo
  decoded := []
  sent := []

/-- `mq_receive` and `atoi`. -/
def Locals.receive (k : Locals) (bytes : List UInt8) : Option Locals :=
  (decode k.msgFromQueBuff bytes).map fun (buff, no) =>
    { k with msgFromQueBuff := buff, cliFdNoFromQue := no, decoded := k.decoded ++ [no] }

/-- `thread_arg->client_fd = clients_fd[cli_fd_no_from_que]`, with the index checked against the
table, and `flag_connect = 1`. -/
def Locals.fill (pool : Pool) (k : Locals) : Option Locals :=
  if 0 ≤ k.cliFdNoFromQue ∧ k.cliFdNoFromQue < pool.startAllocSize then
    some { k with flagConnect := 1 }
  else none

/-- The greeting of thread `threadNo`: `strcpy`, `sprintf` and `strcat`. -/
def Locals.greet (threadNo : ℕ) (k : Locals) : Option Locals := do
  let threadBuffOutput ← strcpy k.threadBuffOutput serverMsg
  let threadBuffNo ← writeAt k.threadBuffNo 0 (decimal threadNo ++ [0])
  let no ← stringAt threadBuffNo 0
  let threadBuffOutput ← strcat threadBuffOutput no
  some { k with
    threadBuffOutput := threadBuffOutput
    threadBuffNo := threadBuffNo
    sent := k.sent ++ [threadBuffOutput] }

/-- Behind the exchange: `flag_connect = 0` and the `memset`s. -/
def Locals.clear (k : Locals) : Locals :=
  { k with
    flagConnect := 0
    msgFromQueBuff := zeros
    threadBuffOutput := zeros
    threadBuffNo := zeros }

/-- `if (thread_arg->flag_connect == 1)`. -/
def Locals.work (threadNo : ℕ) (k : Locals) : Option Locals :=
  if k.flagConnect = 1 then (k.greet threadNo).map Locals.clear else some k

/-- One turn of `while (stop_threads != 1)`. -/
def turn (pool : Pool) (threadNo : ℕ) (k : Locals) : MqReceive pool → Option Locals
  -- `continue`, whatever `errno` is
  | .failed _ => some k
  | .message m => ((k.receive m.bytes).bind (Locals.fill pool)).bind (Locals.work threadNo)

/-- The indices in some results. -/
def indices {pool : Pool} (results : List (MqReceive pool)) : List ℕ :=
  results.filterMap fun
    | .failed _ => none
    | .message m => some m.count

/-! ## What a turn does -/

variable {pool : Pool} {k : Locals}

/-- The locals between two turns: the indices decoded are `counts`, and each client has been
told the number of the thread. -/
structure Between (threadNo : ℕ) (counts : List ℕ) (k : Locals) : Prop where
  msgFromQueBuff : k.msgFromQueBuff = zeros
  threadBuffOutput : k.threadBuffOutput.length = buffSize
  threadBuffNo : k.threadBuffNo.length = buffSize
  decoded : k.decoded = counts.map (↑)
  sent : ∀ b ∈ k.sent, stringAt b 0 = some (serverMsg ++ decimal threadNo)

lemma between_fresh (threadNo : ℕ) (stack : Stack) : Between threadNo [] (.fresh stack) :=
  ⟨rfl, by simp [Locals.fresh, zeros], stack.length, rfl, by simp [Locals.fresh]⟩

lemma zero_notMem_serverMsg : 0 ∉ serverMsg := by decide

lemma exists_greet {threadNo : ℕ} (hno : threadNo < 2 ^ 31)
    (houtput : k.threadBuffOutput.length = buffSize) (hbuff : k.threadBuffNo.length = buffSize) :
    ∃ k' b, k.greet threadNo = some k' ∧ k'.decoded = k.decoded ∧ k'.sent = k.sent ++ [b] ∧
      stringAt b 0 = some (serverMsg ++ decimal threadNo) := by
  have hdigits := length_decimal_le hno
  have hmsg : serverMsg.length = 22 := by decide
  have hmsgRoom : serverMsg.length < k.threadBuffOutput.length := by
    rw [houtput, hmsg]
    decide
  have hnoRoom : (decimal threadNo).length < k.threadBuffNo.length := by
    rw [hbuff]
    exact length_decimal_lt_buffSize hno
  obtain ⟨a, ha, halen, haread⟩ := exists_strcpy hmsgRoom zero_notMem_serverMsg
  obtain ⟨c, hc, -, hcread⟩ := exists_strcpy hnoRoom (zero_notMem_decimal threadNo)
  obtain ⟨b, hb, -, hread⟩ := exists_strcat haread (s := decimal threadNo)
    (by rw [halen, houtput, hmsg, buffSize]; omega) (zero_notMem_decimal threadNo)
  rw [strcpy] at hc
  refine ⟨{ k with threadBuffOutput := b, threadBuffNo := c, sent := k.sent ++ [b] }, b, ?_,
    rfl, rfl, hread⟩
  simp only [Locals.greet, ha, hc, hcread, hb, Option.bind_eq_bind, Option.bind_some]

/-- A turn with a message. -/
lemma Between.message {threadNo : ℕ} {counts : List ℕ} (h : Between threadNo counts k)
    (hno : threadNo < 2 ^ 31) (m : Message pool) :
    ∃ k', turn pool threadNo k (.message m) = some k' ∧
      Between threadNo (counts ++ [m.count]) k' := by
  have hint : m.count < 2 ^ 31 := m.lt.trans pool.isInt
  have hbytes : m.bytes = decimal m.count :=
    Option.some.inj (m.encoded.symm.trans (encode_eq hint))
  obtain ⟨buff, hbuff⟩ := exists_decode hint
  obtain ⟨k₁, hk₁⟩ : ∃ k₁, k₁ = { k with
      msgFromQueBuff := buff
      cliFdNoFromQue := m.count
      flagConnect := 1
      decoded := k.decoded ++ [(m.count : ℤ)] } := ⟨_, rfl⟩
  have hreceive : (k.receive m.bytes).bind (Locals.fill pool) = some k₁ := by
    rw [Locals.receive, h.msgFromQueBuff, hbytes, hbuff, Option.map_some, Option.bind_some,
      Locals.fill, if_pos ⟨Int.natCast_nonneg _, Int.ofNat_lt.mpr m.lt⟩, hk₁]
  obtain ⟨k₂, b, hk₂, hdecoded, hsent, hread⟩ :=
    exists_greet (k := k₁) hno (by rw [hk₁]; exact h.threadBuffOutput)
      (by rw [hk₁]; exact h.threadBuffNo)
  refine ⟨k₂.clear, ?_, ⟨rfl, by simp [Locals.clear, zeros], by simp [Locals.clear, zeros], ?_, ?_⟩⟩
  · rw [turn, hreceive, Option.bind_some, Locals.work, if_pos (by rw [hk₁]), hk₂, Option.map_some]
  · rw [Locals.clear, hdecoded, hk₁, h.decoded, List.map_append]
    rfl
  · intro c hc
    rw [Locals.clear, hsent, hk₁] at hc
    rcases List.mem_append.mp hc with hc | hc
    · exact h.sent c hc
    · rw [List.mem_singleton.mp hc, hread]

/-- Any results, one after the other. -/
lemma Between.run {threadNo : ℕ} {counts : List ℕ} (h : Between threadNo counts k)
    (hno : threadNo < 2 ^ 31) (results : List (MqReceive pool)) :
    ∃ k', exec (turn pool threadNo) k results = some k' ∧
      Between threadNo (counts ++ indices results) k' := by
  induction results generalizing k counts with
  | nil => exact ⟨k, rfl, by simpa [indices] using h⟩
  | cons r results ih =>
      cases r with
      | failed errno => exact ih h
      | message m =>
          obtain ⟨k₁, hk₁, h₁⟩ := h.message hno m
          obtain ⟨k', hk', h'⟩ := ih h₁
          refine ⟨k', by rw [exec_cons, hk₁, Option.bind_some, hk'], ?_⟩
          rwa [List.append_assoc] at h'

/-- **The indices that a worker decodes are the ones that `main` has encoded**, whatever
`mq_receive` returns. -/
theorem indices_decoded (pool : Pool) (thread : Fin pool.startAllocSize) (stack : Stack)
    (results : List (MqReceive pool)) :
    ∃ k, exec (turn pool thread) (.fresh stack) results = some k ∧
      k.decoded = (indices results).map (↑) := by
  obtain ⟨k, hk, hbetween⟩ :=
    (between_fresh thread stack).run (thread.isLt.trans pool.isInt) results
  exact ⟨k, hk, hbetween.decoded⟩

/-- What a worker sends is the greeting with its number. -/
theorem greeting_sent (pool : Pool) (thread : Fin pool.startAllocSize) (stack : Stack)
    {results : List (MqReceive pool)}
    (hk : exec (turn pool thread) (.fresh stack) results = some k) :
    ∀ b ∈ k.sent, stringAt b 0 = some (serverMsg ++ decimal thread) := by
  obtain ⟨k', hk', hbetween⟩ :=
    (between_fresh thread stack).run (thread.isLt.trans pool.isInt) results
  obtain rfl := Option.some.inj (hk'.symm.trans hk)
  exact hbetween.sent

end ProducerConsumer
end EltSummer
