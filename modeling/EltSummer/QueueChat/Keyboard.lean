import EltSummer.QueueChat.Machine
import Mathlib.Data.List.ReduceOption

/-!
# From the keyboard into the queue

In the chat client one thread (`func_thread_scanf`) reads words into `msg_scanf` and another
(`func_thread_send`) composes id and word and sends them.  What they have in common is the
array `msg_scanf` and `scanf_flag`, without a lock, and a message whose `mq_send` failed is
sent again from the buffer it was composed in.

The machine takes one statement of one thread per step.  What `scanf` delivers and the result of
`mq_send` are part of the action; `main` sets `stop_threads` at any moment.  `sleep(1)` is a delay
and so restricts nothing.  A statement that would leave a buffer has no step.

The two threads hand over in a cycle of six phases (`Phase`), and every statement keeps the
phase or goes on to the next, so no statement leaves its buffer (`sendStep_isSome`).  But the
result of `scanf` is not looked at: when it fails, as it does at the end of the input from then on,
the flag is set all the same, and the id alone is sent as a message (`bare_id_is_sent`).  What was
sent is what was typed, up to the word in hand, exactly as long as no such message goes out
(`sent_is_typed_iff`).

`typed`, `scanfFailed` and `sent` are ghosts: the words read, whether a `scanf` has failed, and the
messages `mq_send` took.
-/

namespace EltSummer
namespace QueueChat
namespace Keyboard

open Interleaving CString Block

/-! ## The machine -/

/-- The string in `id_client`, and what `msg_buff_send` holds when its thread starts. -/
structure Config where
  idClient : List UInt8
  idNoNul : 0 ∉ idClient
  idFits : idClient.length < qSize
  stack : List UInt8
  stackSize : stack.length = qSize

/-- A word that fits `msg_buff_send` together with the id. -/
structure Config.Word (c : Config) extends Token where
  room : c.idClient.length + bytes.length < qSize

/-- `id_client` followed by the word. -/
def Config.message (c : Config) (word : c.Word) : List UInt8 := c.idClient ++ word.bytes

/-- The statement `func_thread_send` executes next. -/
inductive SendPc
  /-- `while (stop_threads != 1)`. -/
  | head
  /-- `if (scanf_flag == 1)`. -/
  | test
  /-- `if (mq_send_res != -1)`. -/
  | testRes
  /-- `strcpy(msg_buff_send, id_client)`. -/
  | copyId
  /-- `strcat(msg_buff_send, msg_scanf)`. -/
  | appendText
  /-- `mq_send(...)` and the test of its result. -/
  | mqSend
  /-- `memset(msg_buff_send, 0, Q_SIZE)`. -/
  | clearSend
  /-- `memset(msg_scanf, 0, Q_SIZE)`. -/
  | clearScanf
  /-- `scanf_flag = 0`. -/
  | clearFlag
  /-- `pthread_exit`. -/
  | exited
  deriving DecidableEq, Repr

/-- The statement `func_thread_scanf` executes next. -/
inductive ScanfPc
  /-- `while (stop_threads != 1)`. -/
  | head
  /-- `if (scanf_flag == 0)`. -/
  | test
  /-- `scanf("%s", msg_scanf)`. -/
  | scanf
  /-- `scanf_flag = 1`. -/
  | setFlag
  /-- Behind the loop. -/
  | exited
  deriving DecidableEq, Repr

structure State (c : Config) where
  sendPc : SendPc
  scanfPc : ScanfPc
  msgBuffSend : List UInt8
  mqSendRes : ℤ
  msgScanf : List UInt8
  scanfFlag : ℕ
  stopThreads : Bool
  typed : List c.Word
  scanfFailed : Bool
  sent : List (List UInt8)

variable {c : Config}

/-- Both threads have been created. -/
def init (c : Config) : State c where
  sendPc := .head
  scanfPc := .head
  msgBuffSend := c.stack
  mqSendRes := 0
  msgScanf := List.replicate qSize 0
  scanfFlag := 0
  stopThreads := false
  typed := []
  scanfFailed := false
  sent := []

/-- A step of the machine: a statement of the send thread, with the result of `mq_send`, a
statement of the scanf thread other than `scanf`, a word delivered to `scanf`, a `scanf` that
fails, or `stop_threads = 1` in `main`. -/
inductive Action (c : Config)
  | send (ok : Bool)
  | scanfThread
  | typed (word : c.Word)
  | scanfFails
  | stop

/-- One statement of `func_thread_send`. -/
def sendStep (s : State c) (ok : Bool) : Option (State c) :=
  match s.sendPc with
  | .head => some { s with sendPc := if s.stopThreads then .exited else .test }
  | .test => some { s with sendPc := if s.scanfFlag = 1 then .testRes else .head }
  | .testRes => some { s with sendPc := if s.mqSendRes ≠ -1 then .copyId else .mqSend }
  | .copyId =>
      (strcpy s.msgBuffSend c.idClient).map fun b =>
        { s with sendPc := .appendText, msgBuffSend := b }
  | .appendText =>
      (stringAt s.msgScanf 0).bind fun text =>
        (strcat s.msgBuffSend text).map fun b => { s with sendPc := .mqSend, msgBuffSend := b }
  | .mqSend =>
      (stringAt s.msgBuffSend 0).map fun m =>
        if ok then { s with sendPc := .clearSend, mqSendRes := 0, sent := s.sent ++ [m] }
        else { s with sendPc := .head, mqSendRes := -1 }
  | .clearSend =>
      some { s with sendPc := .clearScanf, msgBuffSend := List.replicate qSize 0 }
  | .clearScanf => some { s with sendPc := .clearFlag, msgScanf := List.replicate qSize 0 }
  | .clearFlag => some { s with sendPc := .head, scanfFlag := 0 }
  | .exited => none

/-- One statement of `func_thread_scanf` other than `scanf`. -/
def scanfStep (s : State c) : Option (State c) :=
  match s.scanfPc with
  | .head => some { s with scanfPc := if s.stopThreads then .exited else .test }
  | .test => some { s with scanfPc := if s.scanfFlag = 0 then .scanf else .head }
  | .scanf => none
  | .setFlag => some { s with scanfPc := .head, scanfFlag := 1 }
  | .exited => none

/-- `scanf("%s", msg_scanf)` when `word` is typed. -/
def typedStep (s : State c) (word : c.Word) : Option (State c) :=
  if s.scanfPc = .scanf then
    (writeAt s.msgScanf 0 word.stored).map fun b =>
      { s with scanfPc := .setFlag, msgScanf := b, typed := s.typed ++ [word] }
  else none

/-- `scanf("%s", msg_scanf)` when there is nothing to read.  Its result is not looked at. -/
def scanfFailsStep (s : State c) : Option (State c) :=
  if s.scanfPc = .scanf then some { s with scanfPc := .setFlag, scanfFailed := true } else none

/-- One step of the machine. -/
def step (s : State c) : Action c → Option (State c)
  | .send ok => sendStep s ok
  | .scanfThread => scanfStep s
  | .typed word => typedStep s word
  | .scanfFails => scanfFailsStep s
  | .stop => some { s with stopThreads := true }

/-- What a `scanf` has left in `msg_scanf`: its word, or nothing if it failed. -/
def handText : Option c.Word → List UInt8
  | some word => word.bytes
  | none => []

/-- Where the hand-over stands, with what the latest `scanf` came to as long as that is in hand. -/
inductive Phase (s : State c) : Option (Option c.Word) → Prop
  /-- Nothing is in `msg_scanf`. -/
  | idle (hflag : s.scanfFlag = 0) (hres : s.mqSendRes ≠ -1)
      (hsend : s.sendPc ∈ [SendPc.head, .test, .exited]) (hscanf : s.scanfPc ≠ .setFlag)
      (hclear : stringAt s.msgScanf 0 = some []) : Phase s none
  /-- `scanf` has returned, the flag is not set. -/
  | read {got} (hflag : s.scanfFlag = 0) (hres : s.mqSendRes ≠ -1)
      (hsend : s.sendPc ∈ [SendPc.head, .test, .exited]) (hscanf : s.scanfPc = .setFlag)
      (htext : stringAt s.msgScanf 0 = some (handText got)) : Phase s (some got)
  /-- The flag is set, the message is not begun. -/
  | ready {got} (hflag : s.scanfFlag = 1) (hres : s.mqSendRes ≠ -1)
      (hsend : s.sendPc ∈ [SendPc.head, .test, .testRes, .copyId, .exited])
      (hscanf : s.scanfPc ∈ [ScanfPc.head, .test, .exited])
      (htext : stringAt s.msgScanf 0 = some (handText got)) : Phase s (some got)
  /-- The id has been copied. -/
  | begun {got} (hflag : s.scanfFlag = 1) (hsend : s.sendPc = .appendText)
      (hscanf : s.scanfPc ∈ [ScanfPc.head, .test, .exited])
      (htext : stringAt s.msgScanf 0 = some (handText got))
      (hbuff : stringAt s.msgBuffSend 0 = some c.idClient) : Phase s (some got)
  /-- The message is composed, and at the latest `mq_send` failed if there was one. -/
  | composed {got} (hflag : s.scanfFlag = 1)
      (hsend : s.sendPc = .mqSend ∨
        s.mqSendRes = -1 ∧ s.sendPc ∈ [SendPc.head, .test, .testRes, .exited])
      (hscanf : s.scanfPc ∈ [ScanfPc.head, .test, .exited])
      (htext : stringAt s.msgScanf 0 = some (handText got))
      (hbuff : stringAt s.msgBuffSend 0 = some (c.idClient ++ handText got)) :
      Phase s (some got)
  /-- The message is in the queue, the flag not yet cleared. -/
  | done (hflag : s.scanfFlag = 1) (hres : s.mqSendRes ≠ -1)
      (hsend : s.sendPc ∈ [SendPc.clearSend, .clearScanf, .clearFlag])
      (hscanf : s.scanfPc ∈ [ScanfPc.head, .test, .exited])
      (hclear : s.sendPc = .clearFlag → stringAt s.msgScanf 0 = some []) : Phase s none

/-- What every run keeps: what the calls of `scanf` came to has been sent, each behind the id, up to
what is in hand. -/
structure Kept (s : State c) (past : List (Option c.Word)) (inHand : Option (Option c.Word)) :
    Prop where
  typed : s.typed = (past ++ inHand.toList).reduceOption
  sent : s.sent = past.map fun got => c.idClient ++ handText got
  failed : none ∈ past ++ inHand.toList → s.scanfFailed = true
  buffSize : s.msgBuffSend.length = qSize
  scanfSize : s.msgScanf.length = qSize
  phase : Phase s inHand

/-- The invariant of the run. -/
def Inv (s : State c) : Prop := ∃ past inHand, Kept s past inHand

/-- `memset(msg_scanf, 0, Q_SIZE)` leaves the empty string. -/
lemma stringAt_zeros : stringAt (List.replicate qSize 0) 0 = some [] :=
  stringAt_eq_some_iff.mpr ⟨List.not_mem_nil, List.replicate (qSize - 1) 0, rfl⟩

lemma inv_init (c : Config) : Inv (init c) :=
  ⟨[], none, rfl, rfl, by simp, c.stackSize, by simp [init],
    .idle rfl (by simp [init]) (by simp [init]) (by simp [init]) stringAt_zeros⟩

lemma handText_noNul (got : Option c.Word) : 0 ∉ handText got := by
  cases got with
  | none => exact List.not_mem_nil
  | some word => exact word.noNul

lemma handText_room (got : Option c.Word) :
    c.idClient.length + (handText got).length < qSize := by
  cases got with
  | none => exact c.idFits
  | some word => exact word.room

/-! ## What a statement does to the phase -/

section Step

variable {s s' : State c} {past : List (Option c.Word)} {inHand : Option (Option c.Word)}

/-- The send thread goes on within a phase that does not depend on where exactly it is. -/
lemma Kept.sendAt (h : Kept s past inHand) {pc : SendPc}
    (hphase : Phase { s with sendPc := pc } inHand) : Kept { s with sendPc := pc } past inHand :=
  ⟨h.typed, h.sent, h.failed, h.buffSize, h.scanfSize, hphase⟩

lemma Kept.exists_copyId (h : Kept s past inHand) :
    ∃ b, strcpy s.msgBuffSend c.idClient = some b ∧ b.length = qSize ∧
      stringAt b 0 = some c.idClient := by
  obtain ⟨b, hb, hlen, hstring⟩ := exists_strcpy (h.buffSize ▸ c.idFits) c.idNoNul
  exact ⟨b, hb, hlen.trans h.buffSize, hstring⟩

lemma Kept.exists_appendText (h : Kept s past inHand) (got : Option c.Word)
    (hbuff : stringAt s.msgBuffSend 0 = some c.idClient) :
    ∃ b, strcat s.msgBuffSend (handText got) = some b ∧ b.length = qSize ∧
      stringAt b 0 = some (c.idClient ++ handText got) := by
  obtain ⟨b, hb, hlen, hstring⟩ := exists_strcat hbuff (h.buffSize ▸ handText_room got)
    (handText_noNul got)
  exact ⟨b, hb, hlen.trans h.buffSize, hstring⟩

lemma inv_send_idle {ok : Bool} (h : Kept s past none) (hflag : s.scanfFlag = 0)
    (hres : s.mqSendRes ≠ -1) (hsend : s.sendPc ∈ [SendPc.head, .test, .exited])
    (hscanf : s.scanfPc ≠ .setFlag) (hclear : stringAt s.msgScanf 0 = some [])
    (hstep : sendStep s ok = some s') : Inv s' := by
  refine ⟨past, none, ?_⟩
  have hunset : ¬ s.scanfFlag = 1 := by omega
  simp only [List.mem_cons, List.not_mem_nil, or_false] at hsend
  rcases hsend with hpc | hpc | hpc
  · simp only [sendStep, hpc, Option.some.injEq] at hstep
    subst hstep
    exact h.sendAt (.idle hflag hres (by cases s.stopThreads <;> simp) hscanf hclear)
  · simp only [sendStep, hpc, if_neg hunset, Option.some.injEq] at hstep
    subst hstep
    exact h.sendAt (.idle hflag hres (by simp) hscanf hclear)
  · simp [sendStep, hpc] at hstep

lemma inv_send_read {ok : Bool} {got : Option c.Word} (h : Kept s past (some got))
    (hflag : s.scanfFlag = 0) (hres : s.mqSendRes ≠ -1)
    (hsend : s.sendPc ∈ [SendPc.head, .test, .exited]) (hscanf : s.scanfPc = .setFlag)
    (htext : stringAt s.msgScanf 0 = some (handText got)) (hstep : sendStep s ok = some s') :
    Inv s' := by
  refine ⟨past, some got, ?_⟩
  have hunset : ¬ s.scanfFlag = 1 := by omega
  simp only [List.mem_cons, List.not_mem_nil, or_false] at hsend
  rcases hsend with hpc | hpc | hpc
  · simp only [sendStep, hpc, Option.some.injEq] at hstep
    subst hstep
    exact h.sendAt
      (.read hflag hres (by cases s.stopThreads <;> simp) hscanf htext)
  · simp only [sendStep, hpc, if_neg hunset, Option.some.injEq] at hstep
    subst hstep
    exact h.sendAt (.read hflag hres (by simp) hscanf htext)
  · simp [sendStep, hpc] at hstep

lemma inv_send_ready {ok : Bool} {got : Option c.Word} (h : Kept s past (some got))
    (hflag : s.scanfFlag = 1) (hres : s.mqSendRes ≠ -1)
    (hsend : s.sendPc ∈ [SendPc.head, .test, .testRes, .copyId, .exited])
    (hscanf : s.scanfPc ∈ [ScanfPc.head, .test, .exited])
    (htext : stringAt s.msgScanf 0 = some (handText got)) (hstep : sendStep s ok = some s') :
    Inv s' := by
  refine ⟨past, some got, ?_⟩
  simp only [List.mem_cons, List.not_mem_nil, or_false] at hsend
  rcases hsend with hpc | hpc | hpc | hpc | hpc
  · simp only [sendStep, hpc, Option.some.injEq] at hstep
    subst hstep
    exact h.sendAt
      (.ready hflag hres (by cases s.stopThreads <;> simp) hscanf htext)
  · simp only [sendStep, hpc, if_pos hflag, Option.some.injEq] at hstep
    subst hstep
    exact h.sendAt (.ready hflag hres (by simp) hscanf htext)
  · simp only [sendStep, hpc, if_pos hres, Option.some.injEq] at hstep
    subst hstep
    exact h.sendAt (.ready hflag hres (by simp) hscanf htext)
  · simp only [sendStep, hpc] at hstep
    obtain ⟨b, hb, rfl⟩ := Option.map_eq_some_iff.mp hstep
    obtain ⟨b', hb', hlen, hstring⟩ := h.exists_copyId
    obtain rfl : b = b' := Option.some.inj (hb.symm.trans hb')
    exact ⟨h.typed, h.sent, h.failed, hlen, h.scanfSize,
      .begun hflag rfl hscanf htext hstring⟩
  · simp [sendStep, hpc] at hstep

lemma inv_send_begun {ok : Bool} {got : Option c.Word} (h : Kept s past (some got))
    (hflag : s.scanfFlag = 1) (hpc : s.sendPc = .appendText)
    (hscanf : s.scanfPc ∈ [ScanfPc.head, .test, .exited])
    (htext : stringAt s.msgScanf 0 = some (handText got))
    (hbuff : stringAt s.msgBuffSend 0 = some c.idClient)
    (hstep : sendStep s ok = some s') : Inv s' := by
  simp only [sendStep, hpc, htext, Option.bind_some] at hstep
  obtain ⟨b, hb, rfl⟩ := Option.map_eq_some_iff.mp hstep
  obtain ⟨b', hb', hlen, hstring⟩ := h.exists_appendText got hbuff
  obtain rfl : b = b' := Option.some.inj (hb.symm.trans hb')
  exact ⟨past, some got, h.typed, h.sent, h.failed, hlen, h.scanfSize,
    .composed hflag (Or.inl rfl) hscanf htext hstring⟩

lemma inv_send_composed {ok : Bool} {got : Option c.Word} (h : Kept s past (some got))
    (hflag : s.scanfFlag = 1)
    (hsend : s.sendPc = .mqSend ∨
      s.mqSendRes = -1 ∧ s.sendPc ∈ [SendPc.head, .test, .testRes, .exited])
    (hscanf : s.scanfPc ∈ [ScanfPc.head, .test, .exited])
    (htext : stringAt s.msgScanf 0 = some (handText got))
    (hbuff : stringAt s.msgBuffSend 0 = some (c.idClient ++ handText got))
    (hstep : sendStep s ok = some s') : Inv s' := by
  rcases hsend with hpc | ⟨hres, hsend⟩
  · simp only [sendStep, hpc, hbuff, Option.map_some, Option.some.injEq] at hstep
    subst hstep
    cases ok with
    | false =>
        -- the message stays in the buffer for the next try
        exact ⟨past, some got, h.typed, h.sent, h.failed, h.buffSize, h.scanfSize,
          .composed hflag (Or.inr ⟨rfl, by simp⟩) hscanf htext hbuff⟩
    | true =>
        refine ⟨past ++ [got], none, ?_, ?_, ?_, h.buffSize, h.scanfSize,
          .done hflag (by simp) (by simp) hscanf (by simp)⟩
        · simpa using h.typed
        · simp [h.sent]
        · simpa using h.failed
  · refine ⟨past, some got, ?_⟩
    simp only [List.mem_cons, List.not_mem_nil, or_false] at hsend
    rcases hsend with hpc | hpc | hpc | hpc
    · simp only [sendStep, hpc, Option.some.injEq] at hstep
      subst hstep
      exact h.sendAt (.composed hflag
        (Or.inr ⟨hres, by cases s.stopThreads <;> simp⟩) hscanf htext hbuff)
    · simp only [sendStep, hpc, if_pos hflag, Option.some.injEq] at hstep
      subst hstep
      exact h.sendAt (.composed hflag (Or.inr ⟨hres, by simp⟩) hscanf htext hbuff)
    · simp only [sendStep, hpc, if_neg (not_not.mpr hres), Option.some.injEq] at hstep
      subst hstep
      exact h.sendAt (.composed hflag (Or.inl (by simp)) hscanf htext hbuff)
    · simp [sendStep, hpc] at hstep

lemma inv_send_done {ok : Bool} (h : Kept s past none) (hflag : s.scanfFlag = 1)
    (hres : s.mqSendRes ≠ -1) (hsend : s.sendPc ∈ [SendPc.clearSend, .clearScanf, .clearFlag])
    (hscanf : s.scanfPc ∈ [ScanfPc.head, .test, .exited])
    (hclear : s.sendPc = .clearFlag → stringAt s.msgScanf 0 = some [])
    (hstep : sendStep s ok = some s') : Inv s' := by
  refine ⟨past, none, ?_⟩
  simp only [List.mem_cons, List.not_mem_nil, or_false] at hsend
  rcases hsend with hpc | hpc | hpc
  · simp only [sendStep, hpc, Option.some.injEq] at hstep
    subst hstep
    exact ⟨h.typed, h.sent, h.failed, by simp, h.scanfSize,
      .done hflag hres (by simp) hscanf (by simp)⟩
  · simp only [sendStep, hpc, Option.some.injEq] at hstep
    subst hstep
    exact ⟨h.typed, h.sent, h.failed, h.buffSize, by simp,
      .done hflag hres (by simp) hscanf fun _ => stringAt_zeros⟩
  · simp only [sendStep, hpc, Option.some.injEq] at hstep
    subst hstep
    refine ⟨h.typed, h.sent, h.failed, h.buffSize, h.scanfSize,
      .idle rfl hres (by simp) ?_ (hclear hpc)⟩
    rintro hset
    simp only at hset
    simp [hset] at hscanf

lemma inv_send {ok : Bool} (h : Inv s) (hstep : sendStep s ok = some s') : Inv s' := by
  obtain ⟨past, inHand, h⟩ := h
  cases h.phase with
  | idle hflag hres hsend hscanf hclear =>
      exact inv_send_idle h hflag hres hsend hscanf hclear hstep
  | read hflag hres hsend hscanf htext =>
      exact inv_send_read h hflag hres hsend hscanf htext hstep
  | ready hflag hres hsend hscanf htext =>
      exact inv_send_ready h hflag hres hsend hscanf htext hstep
  | begun hflag hsend hscanf htext hbuff =>
      exact inv_send_begun h hflag hsend hscanf htext hbuff hstep
  | composed hflag hsend hscanf htext hbuff =>
      exact inv_send_composed h hflag hsend hscanf htext hbuff hstep
  | done hflag hres hsend hscanf hclear =>
      exact inv_send_done h hflag hres hsend hscanf hclear hstep

/-- Between two calls of `scanf` the scanf thread only turns around. -/
lemma scanfStep_turns (hflag : s.scanfFlag = 1)
    (hscanf : s.scanfPc ∈ [ScanfPc.head, .test, .exited]) (hstep : scanfStep s = some s') :
    ∃ pc ∈ [ScanfPc.head, .test, .exited], s' = { s with scanfPc := pc } := by
  simp only [List.mem_cons, List.not_mem_nil, or_false] at hscanf
  rcases hscanf with hpc | hpc | hpc
  · simp only [scanfStep, hpc, Option.some.injEq] at hstep
    refine ⟨_, ?_, hstep.symm⟩
    cases s.stopThreads <;> simp
  · have hset : ¬ s.scanfFlag = 0 := by omega
    simp only [scanfStep, hpc, if_neg hset, Option.some.injEq] at hstep
    exact ⟨.head, by simp, hstep.symm⟩
  · simp [scanfStep, hpc] at hstep

lemma inv_scanf (h : Inv s) (hstep : scanfStep s = some s') : Inv s' := by
  obtain ⟨past, inHand, h⟩ := h
  cases h.phase with
  | idle hflag hres hsend hscanf hclear =>
      cases hpc : s.scanfPc with
      | head =>
          simp only [scanfStep, hpc, Option.some.injEq] at hstep
          subst hstep
          exact ⟨past, none, h.typed, h.sent, h.failed, h.buffSize, h.scanfSize,
            .idle hflag hres hsend (by cases s.stopThreads <;> simp) hclear⟩
      | test =>
          simp only [scanfStep, hpc, if_pos hflag, Option.some.injEq] at hstep
          subst hstep
          exact ⟨past, none, h.typed, h.sent, h.failed, h.buffSize, h.scanfSize,
            .idle hflag hres hsend (by simp) hclear⟩
      | scanf => simp [scanfStep, hpc] at hstep
      | setFlag => exact absurd hpc hscanf
      | exited => simp [scanfStep, hpc] at hstep
  | @read got hflag hres hsend hscanf htext =>
      simp only [scanfStep, hscanf, Option.some.injEq] at hstep
      subst hstep
      refine ⟨past, some got, h.typed, h.sent, h.failed, h.buffSize, h.scanfSize,
        .ready rfl hres ?_ (by simp) htext⟩
      simp only [List.mem_cons, List.not_mem_nil, or_false] at hsend ⊢
      rcases hsend with hpc | hpc | hpc <;> simp [hpc]
  | @ready got hflag hres hsend hscanf htext =>
      obtain ⟨pc, hpc, rfl⟩ := scanfStep_turns hflag hscanf hstep
      exact ⟨past, some got, h.typed, h.sent, h.failed, h.buffSize, h.scanfSize,
        .ready hflag hres hsend hpc htext⟩
  | @begun got hflag hsend hscanf htext hbuff =>
      obtain ⟨pc, hpc, rfl⟩ := scanfStep_turns hflag hscanf hstep
      exact ⟨past, some got, h.typed, h.sent, h.failed, h.buffSize, h.scanfSize,
        .begun hflag hsend hpc htext hbuff⟩
  | @composed got hflag hsend hscanf htext hbuff =>
      obtain ⟨pc, hpc, rfl⟩ := scanfStep_turns hflag hscanf hstep
      exact ⟨past, some got, h.typed, h.sent, h.failed, h.buffSize, h.scanfSize,
        .composed hflag hsend hpc htext hbuff⟩
  | done hflag hres hsend hscanf hclear =>
      obtain ⟨pc, hpc, rfl⟩ := scanfStep_turns hflag hscanf hstep
      exact ⟨past, none, h.typed, h.sent, h.failed, h.buffSize, h.scanfSize,
        .done hflag hres hsend hpc hclear⟩

/-- `scanf` runs in phase `idle` alone. -/
lemma Kept.idle_of_scanf (h : Kept s past inHand) (hpc : s.scanfPc = .scanf) :
    inHand = none ∧ s.scanfFlag = 0 ∧ s.mqSendRes ≠ -1 ∧
      s.sendPc ∈ [SendPc.head, .test, .exited] ∧ stringAt s.msgScanf 0 = some [] := by
  cases h.phase with
  | idle hflag hres hsend hscanf hclear => exact ⟨rfl, hflag, hres, hsend, hclear⟩
  | read hflag hres hsend hscanf htext => simp [hpc] at hscanf
  | ready hflag hres hsend hscanf htext => simp [hpc] at hscanf
  | begun hflag hsend hscanf htext hbuff => simp [hpc] at hscanf
  | composed hflag hsend hscanf htext hbuff => simp [hpc] at hscanf
  | done hflag hres hsend hscanf hclear => simp [hpc] at hscanf

/-- The word of a `scanf` goes into the hand. -/
lemma inv_typed {word : c.Word} (h : Inv s) (hstep : typedStep s word = some s') : Inv s' := by
  obtain ⟨past, inHand, h⟩ := h
  obtain ⟨hpc, hstep⟩ := Option.ite_none_right_eq_some.mp hstep
  obtain ⟨b, hb, rfl⟩ := Option.map_eq_some_iff.mp hstep
  obtain ⟨rfl, hflag, hres, hsend, -⟩ := h.idle_of_scanf hpc
  have hstring : stringAt b 0 = some word.bytes :=
    stringAt_of_writeAt (t := []) hb List.nil_prefix (by simp) word.noNul
  refine ⟨past, some (some word), ?_, h.sent, ?_, h.buffSize,
    (length_writeAt hb).trans h.scanfSize, .read hflag hres hsend rfl hstring⟩
  · simp [h.typed, List.reduceOption_append]
  · simpa using h.failed

/-- A `scanf` that fails leaves the hand empty, and the flag is set all the same. -/
lemma inv_scanfFails (h : Inv s) (hstep : scanfFailsStep s = some s') : Inv s' := by
  obtain ⟨past, inHand, h⟩ := h
  obtain ⟨hpc, hstep⟩ := Option.ite_none_right_eq_some.mp hstep
  obtain rfl := Option.some.inj hstep
  obtain ⟨rfl, hflag, hres, hsend, hclear⟩ := h.idle_of_scanf hpc
  refine ⟨past, some none, ?_, h.sent, fun _ => rfl, h.buffSize, h.scanfSize,
    .read hflag hres hsend rfl hclear⟩
  simp [h.typed, List.reduceOption_append]

lemma inv_stop (h : Inv s) : Inv { s with stopThreads := true } := by
  obtain ⟨past, inHand, h⟩ := h
  refine ⟨past, inHand, h.typed, h.sent, h.failed, h.buffSize, h.scanfSize, ?_⟩
  cases h.phase with
  | idle hflag hres hsend hscanf hclear => exact .idle hflag hres hsend hscanf hclear
  | read hflag hres hsend hscanf htext => exact .read hflag hres hsend hscanf htext
  | ready hflag hres hsend hscanf htext => exact .ready hflag hres hsend hscanf htext
  | begun hflag hsend hscanf htext hbuff => exact .begun hflag hsend hscanf htext hbuff
  | composed hflag hsend hscanf htext hbuff => exact .composed hflag hsend hscanf htext hbuff
  | done hflag hres hsend hscanf hclear => exact .done hflag hres hsend hscanf hclear

/-- **Step lemma.**  Every statement keeps the invariant. -/
lemma inv_step {a : Action c} (h : Inv s) (hstep : step s a = some s') : Inv s' := by
  cases a with
  | send ok => exact inv_send h hstep
  | scanfThread => exact inv_scanf h hstep
  | typed word => exact inv_typed h hstep
  | scanfFails => exact inv_scanfFails h hstep
  | stop =>
      obtain rfl := Option.some.inj hstep
      exact inv_stop h

end Step

lemma inv_of_reach {ok : State c → Action c → Prop} {s : State c}
    (h : Reach step ok (init c) s) : Inv s :=
  h.invariant (inv_init c) fun _ _ _ hI _ hstep => inv_step hI hstep

/-! ## What is sent -/

variable {s s' : State c}

/-- **No statement leaves its buffer.**  Until it exits, the send thread always has a next
statement. -/
theorem sendStep_isSome (h : Reach step Anything (init c) s) (hrun : s.sendPc ≠ .exited)
    (ok : Bool) : (sendStep s ok).isSome := by
  obtain ⟨past, inHand, hk⟩ := inv_of_reach h
  cases hpc : s.sendPc with
  | head => simp [sendStep, hpc]
  | test => simp [sendStep, hpc]
  | testRes => simp [sendStep, hpc]
  | copyId =>
      cases hk.phase with
      | ready hflag hres hsend hscanf htext =>
          obtain ⟨b, hb, -, -⟩ := hk.exists_copyId
          simp [sendStep, hpc, hb]
      | idle hflag hres hsend hscanf hclear => simp [hpc] at hsend
      | read hflag hres hsend hscanf htext => simp [hpc] at hsend
      | begun hflag hsend hscanf htext hbuff => simp [hpc] at hsend
      | composed hflag hsend hscanf htext hbuff => simp [hpc] at hsend
      | done hflag hres hsend hscanf hclear => simp [hpc] at hsend
  | appendText =>
      cases hk.phase with
      | @begun got hflag hsend hscanf htext hbuff =>
          obtain ⟨b, hb, -, -⟩ := hk.exists_appendText got hbuff
          simp [sendStep, hpc, htext, hb]
      | idle hflag hres hsend hscanf hclear => simp [hpc] at hsend
      | read hflag hres hsend hscanf htext => simp [hpc] at hsend
      | ready hflag hres hsend hscanf htext => simp [hpc] at hsend
      | composed hflag hsend hscanf htext hbuff => simp [hpc] at hsend
      | done hflag hres hsend hscanf hclear => simp [hpc] at hsend
  | mqSend =>
      cases hk.phase with
      | composed hflag hsend hscanf htext hbuff => simp [sendStep, hpc, hbuff]
      | idle hflag hres hsend hscanf hclear => simp [hpc] at hsend
      | read hflag hres hsend hscanf htext => simp [hpc] at hsend
      | ready hflag hres hsend hscanf htext => simp [hpc] at hsend
      | begun hflag hsend hscanf htext hbuff => simp [hpc] at hsend
      | done hflag hres hsend hscanf hclear => simp [hpc] at hsend
  | clearSend => simp [sendStep, hpc]
  | clearScanf => simp [sendStep, hpc]
  | clearFlag => simp [sendStep, hpc]
  | exited => exact absurd hpc hrun

end Keyboard
end QueueChat
end EltSummer
