import EltSummer.QueueChat.Receipts

/-!
# Where a received message ends

A payload travels without a NUL.  So the string a server thread finds in `msg_buff` ends where
the buffer had a zero before the receive: behind the `memset` that closes every turn it has
one, but at the first message it holds what was on the stack.

`framed_iff` says this of the loop alone, for any results of `mq_receive`: all messages are
handled as they were sent exactly when the stack has a zero right behind the first of them.
`handling_of_reach` says that the loop is the one of the machine.
-/

namespace EltSummer
namespace QueueChat

open Interleaving PosixQueue CString

variable {cfg : Config} {s s' : State}

/-! ## The loop -/

/-- The result of `mq_receive`. -/
inductive Receipt
  | failed
  | message (payload : Text)
  deriving DecidableEq

/-- The messages a thread handles, each with `msg_buff` as it is then, when `mq_receive` gives
these results. -/
def handling (buff : List UInt8) : List Receipt → List (Text × List UInt8)
  | [] => []
  -- `continue`
  | .failed :: results => handling buff results
  -- whatever the priority, `memset` is next
  | .message payload :: results =>
      (payload, received buff payload.bytes) :: handling (List.replicate qSize 0) results

/-- The messages among the results. -/
def payloads (results : List Receipt) : List Text :=
  results.filterMap fun
    | .failed => none
    | .message payload => some payload

/-- The buffer holds the message as it was sent: its text is the string there, and if it is a
pid, `atoi` reads that pid. -/
structure Framed (payload : Text) (buff : List UInt8) : Prop where
  text : stringAt buff 0 = some payload.bytes
  pid : ∀ pid : Pid, payload.bytes = decimal pid.val → atoi buff = some (pid.val : ℤ)

/-! ## When it holds -/

/-- The text is the string when a NUL is right behind it. -/
lemma stringAt_received_iff {buff text : List UInt8} (hnul : 0 ∉ text) :
    stringAt (received buff text) 0 = some text ↔ buff[text.length]? = some 0 := by
  refine ⟨fun hstring => ?_, stringAt_received hnul⟩
  obtain ⟨-, rest, hrest⟩ := stringAt_eq_some_iff.mp hstring
  have hbehind : buff.drop text.length = 0 :: rest := List.append_cancel_left hrest
  have hbyte := congrArg (·[0]?) hbehind
  simpa using hbyte

/-- `atoi` stops at the NUL. -/
lemma atoi_of_stringAt {buff : List UInt8} {pid : Pid}
    (h : stringAt buff 0 = some (decimal pid.val)) : atoi buff = some (pid.val : ℤ) := by
  obtain ⟨-, rest, hrest⟩ := stringAt_eq_some_iff.mp h
  rw [List.drop_zero] at hrest
  rw [hrest]
  exact atoi_decimal rest pid.isInt (by decide)

lemma framed_received_iff {buff : List UInt8} {payload : Text} :
    Framed payload (received buff payload.bytes) ↔ buff[payload.bytes.length]? = some 0 := by
  constructor
  · intro hframed
    exact (stringAt_received_iff payload.noNul).mp hframed.text
  · intro hbyte
    have htext := (stringAt_received_iff payload.noNul).mpr hbyte
    exact ⟨htext, fun pid hpid => atoi_of_stringAt (hpid ▸ htext)⟩

/-- Behind a `memset` there is a NUL everywhere. -/
lemma framed_of_zeros (results : List Receipt) :
    ∀ m ∈ handling (List.replicate qSize 0) results, Framed m.1 m.2 := by
  induction results with
  | nil => simp [handling]
  | cons r results ih =>
      cases r with
      | failed => exact ih
      | message payload =>
          intro m hm
          rcases List.mem_cons.mp hm with rfl | hm
          · rw [framed_received_iff, List.getElem?_replicate, if_pos payload.fits]
          · exact ih m hm

/-- The first message decides, and the failures before it change nothing. -/
lemma framed_iff_head (buff : List UInt8) (results : List Receipt) :
    (∀ m ∈ handling buff results, Framed m.1 m.2) ↔
      ∀ payload ∈ (payloads results).head?, buff[payload.bytes.length]? = some 0 := by
  induction results with
  | nil => simp [handling, payloads]
  | cons r results ih =>
      cases r with
      | failed => exact ih
      | message payload =>
          have hhead : (payloads (.message payload :: results)).head? = some payload := rfl
          simp only [hhead, Option.mem_some_iff, forall_eq']
          constructor
          · intro hall
            exact framed_received_iff.mp (hall _ List.mem_cons_self)
          · intro hbyte m hm
            rcases List.mem_cons.mp hm with rfl | hm
            · exact framed_received_iff.mpr hbyte
            · exact framed_of_zeros results m hm

/-- **When messages keep their frame**: for any content of the stack and any results of
`mq_receive`, every message is handled as it was sent exactly when the stack has a zero right
behind the first of them. -/
theorem framed_iff (cfg : Config) (k : ℕ) (results : List Receipt) :
    (∀ m ∈ handling (cfg.stack k) results, Framed m.1 m.2) ↔
      ∀ payload ∈ (payloads results).head?, (cfg.stack k)[payload.bytes.length]? = some 0 :=
  framed_iff_head (cfg.stack k) results

/-- A stack full of ones. -/
def dirtyStack : Config := ⟨1, fun _ => List.replicate qSize 1, fun _ => by simp, fun _ => 0⟩

/-- The first message has no end. -/
theorem first_message_runs_on :
    ¬ ∀ (cfg : Config) (k : ℕ) (results : List Receipt),
      ∀ m ∈ handling (cfg.stack k) results, Framed m.1 m.2 := by
  intro hclaim
  have hall := hclaim dirtyStack 0 [.message textA]
  have hframed : Framed textA (received (dirtyStack.stack 0) textA.bytes) :=
    hall _ List.mem_cons_self
  have hbyte := framed_received_iff.mp hframed
  exact absurd hbyte (by decide)

/-! ## The loop of the machine -/

/-- What a slot sends is a text. -/
lemma Desk.Move.text {k : ℕ} {d d' : Desk} (hmove : d.Move k d')
    (h : ∀ m ∈ d.sent, m.text ≠ []) : ∀ m ∈ d'.sent, m.text ≠ [] := by
  have hconcat : ∀ {x : Msg}, x.text ≠ [] → ∀ m ∈ d.sent ++ [x], m.text ≠ [] := by
    intro x hx m hm
    rcases List.mem_append.mp hm with hm | hm
    · exact h m hm
    · rwa [List.mem_singleton.mp hm]
  cases hmove with
  | stay => exact h
  | start hclient => exact hconcat (decimal_ne_nil _)
  | @say text hclient => exact hconcat text.nonempty
  | quit hclient hx => exact hconcat (decimal_ne_nil _)
  | quitFull hclient => exact h
  | leave => exact h

lemma exists_text_of_sent_slot {ok : State → Action → Prop}
    (h : Reach (step cfg) ok (init cfg) s) {k : ℕ} {m : Msg} (hm : m ∈ s.sent k) :
    ∃ t : Text, t.bytes = m.text := by
  have hne : ∀ m ∈ s.sent k, m.text ≠ [] :=
    h.invariant (I := fun u => ∀ m ∈ (u.desk k).sent, m.text ≠ []) (by simp [State.desk, init])
      fun _ _ _ hI _ hstep => (desk_move hstep k).text hI
  have hnul := ((kept_of_reach h).recorded k).noNul m hm
  exact ⟨⟨m.text, hne m hm, fits_of_reach h k m hm, hnul⟩, rfl⟩

/-- The buffer behind some messages. -/
lemma handling_concat (buff : List UInt8) (texts : List Text) (payload : Text) :
    ∃ earlier, handling buff ((texts ++ [payload]).map .message) = earlier ++
      [(payload, received (if texts = [] then buff else List.replicate qSize 0)
        payload.bytes)] := by
  induction texts generalizing buff with
  | nil => exact ⟨[], rfl⟩
  | cons t texts ih =>
      obtain ⟨earlier, hearlier⟩ := ih (List.replicate qSize 0)
      refine ⟨(t, received buff t.bytes) :: earlier, ?_⟩
      rw [List.cons_append, List.map_cons, handling, hearlier, if_neg (List.cons_ne_nil t texts),
        ite_self, List.cons_append]

lemma payloads_messages (texts : List Text) : payloads (texts.map .message) = texts := by
  rw [payloads, List.filterMap_map]
  exact List.filterMap_some

/-- The buffer of a thread of the machine is the loop's, for the messages it has taken. -/
theorem handling_of_reach {ok : State → Action → Prop} (h : Reach (step cfg) ok (init cfg) s)
    {k : ℕ} (hpc : (s.thread k).pc = .handle) : ∃ results payload earlier,
      (payloads results).map Text.bytes =
        (s.handled k).map Msg.text ++ [(s.thread k).got.text] ∧
      handling (cfg.stack k) results = earlier ++ [(payload, (s.thread k).msgBuff)] := by
  obtain ⟨hkept, hfaithful⟩ := faithful_of_reach h
  have hholds : (s.thread k).pc.holds := by rw [hpc]; rfl
  obtain ⟨hbuff, -⟩ := (hfaithful k).holds hholds
  have hgot : (s.thread k).got ∈ s.sent k := by
    refine (hkept.perPriority k).mem_sent ?_
    simp [Lane.flow, State.lane, Thread.inHand, hholds]
  obtain ⟨payload, hpayload⟩ := exists_text_of_sent_slot h hgot
  obtain ⟨texts, htexts⟩ : (s.handled k).map Msg.text ∈ Set.range (List.map Text.bytes) := by
    rw [Set.range_list_map]
    intro t ht
    obtain ⟨m, hm, rfl⟩ := List.mem_map.mp ht
    exact exists_text_of_sent_slot h (hkept.sent_of_handled hm)
  have hnone : texts = [] ↔ s.handled k = [] := by
    rw [← List.map_eq_nil_iff (f := Text.bytes), htexts, List.map_eq_nil_iff]
  obtain ⟨earlier, hearlier⟩ := handling_concat (cfg.stack k) texts payload
  refine ⟨(texts ++ [payload]).map .message, payload, earlier, ?_, ?_⟩
  · rw [payloads_messages, List.map_append, htexts, List.map_singleton, hpayload]
  · rw [hearlier, hbuff, bufferBefore, hpayload]
    simp only [hnone]

end QueueChat
end EltSummer
