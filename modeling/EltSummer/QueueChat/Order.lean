import EltSummer.Framework.Log
import EltSummer.QueueChat.Moves

/-!
# The order in which a client's messages are handled

A client's messages are to be handled in the order in which it sent them, and no regular
message before the start message of its session.  The queue does not give that: regular
messages have the higher priority, so a text sent while the start message still waits is
handled, and sent on to everybody, first (`chat_before_start`).  The server does not look at
`flag_connect` when it handles a regular message.

Within each priority the order of sending is kept in every run (`perPriority_of_reach`).
Across priorities it is kept in the runs in which a text is sent only when no service
message of its slot waits (`handled_in_order`).
-/

namespace EltSummer
namespace QueueChat

open Interleaving PosixQueue CString

variable {cfg : Config} {s s' : State}

/-! ## What a slot's log says -/

/-- The priority a purpose is sent with. -/
def Purpose.prio : Purpose → ℕ
  | .chat => prioRegularMsg
  | .start | .farewell => prioServiceMsg

/-- Each regular message stands behind the start message of its session. -/
def Introduced (log : List Msg) : Prop :=
  ∀ before m after, log = before ++ m :: after → m.purpose = .chat →
    ∃ c ∈ before, c.purpose = .start ∧ c.session = m.session

lemma Introduced.mono {log log' : List Msg} (h : Introduced log') (hpre : log <+: log') :
    Introduced log := by
  obtain ⟨rest, rfl⟩ := hpre
  intro before m after hlog hm
  exact h before m (after ++ rest) (by rw [hlog]; simp) hm

/-- One more message, introduced if it needs to be. -/
lemma Introduced.concat {log : List Msg} {m : Msg} (h : Introduced log)
    (hm : m.purpose = .chat → ∃ c ∈ log, c.purpose = .start ∧ c.session = m.session) :
    Introduced (log ++ [m]) := by
  intro before x after hlog hx
  rcases List.append_eq_append_iff.mp hlog with ⟨as, rfl, has⟩ | ⟨bs, hbs, hx'⟩
  · cases as with
    | nil =>
        obtain ⟨rfl, -⟩ := List.cons.inj has
        simpa using hm hx
    | cons a as => simp at has
  · cases bs with
    | nil =>
        obtain ⟨rfl, -⟩ := List.cons.inj hx'
        rw [List.append_nil] at hbs
        exact hbs ▸ hm hx
    | cons b bs =>
        obtain ⟨rfl, hrest⟩ := List.cons.inj hx'
        exact h before x bs hbs hx

/-- The log of a slot: numbered from 0, priorities by purpose, no NUL in a text, texts
introduced. -/
structure Desk.Recorded (k : ℕ) (d : Desk) : Prop where
  prio : ∀ m ∈ d.sent, m.prio = m.purpose.prio
  stamped : ∀ (i : ℕ) (m : Msg), d.sent[i]? = some m → m.no = i ∧ m.slot = k
  noNul : ∀ m ∈ d.sent, 0 ∉ m.text
  introduced : Introduced d.sent
  started : d.client ≠ .out →
    ∃ c ∈ d.sent, c.purpose = .start ∧ c.session = d.sessions.length - 1

lemma Desk.recorded_init (k : ℕ) : ((init cfg).desk k).Recorded k := by
  refine ⟨?_, ?_, ?_, ?_, ?_⟩ <;> simp [State.desk, init, Introduced]

lemma Desk.Recorded.concat {k : ℕ} {d : Desk} (h : d.Recorded k) {m : Msg}
    (hprio : m.prio = m.purpose.prio) (hno : m.no = d.sent.length) (hslot : m.slot = k)
    (hnul : 0 ∉ m.text) :
    (∀ x ∈ d.sent ++ [m], x.prio = x.purpose.prio) ∧
      (∀ (i : ℕ) (x : Msg), (d.sent ++ [m])[i]? = some x → x.no = i ∧ x.slot = k) ∧
      ∀ x ∈ d.sent ++ [m], 0 ∉ x.text := by
  refine ⟨fun x hx => ?_, fun i x hx => ?_, fun x hx => ?_⟩
  · rcases List.mem_append.mp hx with hx | hx
    · exact h.prio x hx
    · obtain rfl := List.mem_singleton.mp hx
      exact hprio
  · rcases Log.getElem?_concat hx with hx | ⟨rfl, rfl⟩
    · exact h.stamped i x hx
    · exact ⟨hno, hslot⟩
  · rcases List.mem_append.mp hx with hx | hx
    · exact h.noNul x hx
    · obtain rfl := List.mem_singleton.mp hx
      exact hnul

lemma Desk.Move.recorded {k : ℕ} {d d' : Desk} (hmove : d.Move k d') (h : d.Recorded k) :
    d'.Recorded k := by
  cases hmove with
  | stay => exact h
  | start hclient =>
      obtain ⟨hprio, hstamped, hnul⟩ := h.concat
        (m := pidMsg k d.sent.length d.sessions.length _ .start) rfl rfl rfl
        (zero_notMem_decimal _)
      refine ⟨hprio, hstamped, hnul, h.introduced.concat nofun, fun _ => ?_⟩
      exact ⟨_, List.mem_append_right _ (List.mem_singleton_self _), rfl, by simp [pidMsg]⟩
  | @say text hclient =>
      obtain ⟨hprio, hstamped, hnul⟩ := h.concat
        (m := chatMsg k d.sent.length (d.sessions.length - 1) text) rfl rfl rfl text.noNul
      obtain ⟨c, hc, hstart, hsession⟩ := h.started hclient
      refine ⟨hprio, hstamped, hnul, h.introduced.concat fun _ => ⟨c, hc, hstart, hsession⟩,
        fun _ => ?_⟩
      exact ⟨c, List.mem_append_left _ hc, hstart, hsession⟩
  | @quit earlier x hclient hx =>
      obtain ⟨hprio, hstamped, hnul⟩ := h.concat
        (m := pidMsg k d.sent.length earlier.length x.pid .farewell) rfl rfl rfl
        (zero_notMem_decimal _)
      obtain ⟨c, hc, hstart, hsession⟩ := h.started (by simp [hclient])
      refine ⟨hprio, hstamped, hnul, h.introduced.concat nofun, fun _ => ?_⟩
      refine ⟨c, List.mem_append_left _ hc, hstart, hsession.trans ?_⟩
      simp [hx]
  | quitFull hclient =>
      exact ⟨h.prio, h.stamped, h.noNul, h.introduced, fun _ => h.started (by simp [hclient])⟩
  | leave => exact ⟨h.prio, h.stamped, h.noNul, h.introduced, fun hc => absurd rfl hc⟩

/-! ## Order within a priority -/

/-- What holds of every run: mutexes, the order within each priority, the logs. -/
structure Kept (s : State) : Prop where
  locked : Locked s
  perPriority : ∀ k, (s.lane k).PerPriority
  recorded : ∀ k, (s.desk k).Recorded k

lemma kept_init (cfg : Config) : Kept (init cfg) :=
  ⟨locked_init cfg, fun _ _ => rfl, Desk.recorded_init⟩

lemma Kept.step {a : Action} (h : Kept s) (hstep : step cfg s a = some s') : Kept s' :=
  ⟨locked_step h.locked hstep, fun k => (lane_move h.locked hstep k).perPriority (h.perPriority k),
    fun k => (desk_move hstep k).recorded (h.recorded k)⟩

theorem kept_of_reach {ok : State → Action → Prop} (h : Reach (step cfg) ok (init cfg) s) :
    Kept s :=
  h.invariant (kept_init cfg) fun _ _ _ hI _ hstep => hI.step hstep

/-- A waiting message was sent by the slot's client, so it is regular or a service
message. -/
lemma Kept.prio_of_queued (h : Kept s) {k : ℕ} {m : Msg} (hm : m ∈ (s.ques (2 * k)).msgs) :
    m.prio = m.purpose.prio :=
  (h.recorded k).prio m ((h.perPriority k).mem_sent (List.mem_append_right _ hm))

/-- What the thread has handled was sent by the slot's client, too. -/
lemma Kept.sent_of_handled (h : Kept s) {k : ℕ} {m : Msg} (hm : m ∈ s.handled k) :
    m ∈ s.sent k :=
  (h.perPriority k).mem_sent (List.mem_append_left _ (List.mem_append_left _ hm))

lemma Kept.prio_of_handled (h : Kept s) {k : ℕ} {m : Msg} (hm : m ∈ s.handled k) :
    m.prio = m.purpose.prio :=
  (h.recorded k).prio m (h.sent_of_handled hm)

/-! ## Order across priorities -/

/-- The guard: a text is sent only when no service message of the slot waits. -/
def Unhurried (s : State) : Action → Prop
  | .say k _ => ∀ x ∈ (s.ques (2 * k)).msgs, x.prio ≠ prioServiceMsg
  | _ => True

instance (s : State) : (a : Action) → Decidable (Unhurried s a)
  | .say _ _ => inferInstanceAs (Decidable (∀ x ∈ _, _))
  | .thread _ | .stop | .start _ _ | .quit _ | .finish _ | .kill _ | .take _ => .isTrue trivial

/-- Who sends what: a message that is no service message comes from the send thread. -/
lemma say_of_sent {a : Action} (hstep : step cfg s a = some s') {k : ℕ} {m : Msg}
    (hm : s'.sent k = s.sent k ++ [m]) : m.prio = prioServiceMsg ∨ ∃ text, a = .say k text := by
  have hsame : ∀ {l : List Msg}, l ≠ l ++ [m] := by simp
  cases moves_of_step hstep with
  | service hpc hprio hu =>
      obtain ⟨info, count, rfl⟩ := service_frame hu
      exact absurd hm hsame
  | @start j pid q hclient hq =>
      by_cases hj : k = j
      · subst hj
        simp only [Function.update_self, List.append_cancel_left_eq, List.cons.injEq] at hm
        exact Or.inl (hm.1 ▸ rfl)
      · exact absurd ((Function.update_of_ne hj _ _).symm.trans hm) hsame
  | @say j text q hclient hq =>
      by_cases hj : k = j
      · exact Or.inr ⟨text, hj ▸ rfl⟩
      · exact absurd ((Function.update_of_ne hj _ _).symm.trans hm) hsame
  | @quit j earlier x q hclient hx hq =>
      by_cases hj : k = j
      · subst hj
        simp only [Function.update_self, List.append_cancel_left_eq, List.cons.injEq] at hm
        exact Or.inl (hm.1 ▸ rfl)
      · exact absurd ((Function.update_of_ne hj _ _).symm.trans hm) hsame
  | _ => exact absurd hm hsame

lemma inOrder_step {a : Action} (h : Kept s) (hok : Unhurried s a) (k : ℕ)
    (hk : (s.lane k).InOrder) (hstep : step cfg s a = some s') : (s'.lane k).InOrder := by
  refine (lane_move h.locked hstep k).inOrder hk fun m hm x hx => ?_
  have hx' := h.prio_of_queued hx
  have hmem : m ∈ (s'.desk k).sent := by
    rw [show (s'.desk k).sent = s.sent k ++ [m] from hm]
    exact List.mem_append_right _ (List.mem_singleton_self m)
  have hm' := ((desk_move hstep k).recorded (h.recorded k)).prio m hmem
  rcases say_of_sent hstep hm with hservice | ⟨text, rfl⟩
  · rw [hservice, hx']
    cases x.purpose <;> decide
  · have hne : x.prio ≠ prioServiceMsg := hok x hx
    rw [hx'] at hne ⊢
    rw [hm']
    cases hp : x.purpose with
    | chat => cases m.purpose <;> decide
    | start => simp [hp, Purpose.prio] at hne
    | farewell => simp [hp, Purpose.prio] at hne

/-- **Messages are handled in the order of sending**, and each text after the start message
of its session, in every run in which texts are sent when no service message of the slot
waits. -/
theorem handled_in_order (h : Reach (step cfg) Unhurried (init cfg) s) (k : ℕ) :
    s.handled k <+: s.sent k ∧ Introduced (s.handled k) := by
  have hlane : (s.lane k).InOrder := by
    refine h.invariant_along (I := fun u => (u.lane k).InOrder) rfl fun u a v hu hI hok hstep => ?_
    exact inOrder_step (kept_of_reach hu) hok k hI hstep
  have hpre : s.handled k <+: s.sent k := hlane.initial
  exact ⟨hpre, ((kept_of_reach h).recorded k).introduced.mono hpre⟩

/-- Two slots, the stacks zeroed. -/
def twoClients : Config := ⟨2, fun _ => List.replicate qSize 0, fun _ => by simp, fun _ => 0⟩

/-- The text "a". -/
def textA : Text := ⟨[97], by simp, by decide, by decide⟩

/-- Two process ids. -/
def pid7 : Pid := ⟨7, by decide, by decide⟩

def pid8 : Pid := ⟨8, by decide, by decide⟩

/-- A process starts at slot 0, and its start message is handled. -/
def startHandled (pid : Pid) : List Action := .start 0 pid :: List.replicate 6 (.thread 0)

/-- A session of pid 7 begins and its first text is handled. -/
def firstText : List Action :=
  startHandled pid7 ++ .say 0 textA :: List.replicate 5 (.thread 0)

theorem handled_in_order_first_text :
    ∃ s, exec (step twoClients) (init twoClients) firstText = some s ∧
      s.handled 0 <+: s.sent 0 ∧ Introduced (s.handled 0) := by
  have hrun : Guarded (step twoClients) Unhurried (init twoClients) firstText = true := by
    decide +kernel
  obtain ⟨s, hs, hreach⟩ := Reach.of_guarded hrun
  exact ⟨s, hs, handled_in_order hreach 0⟩

/-- A text is sent right behind the start message, and the thread takes one message. -/
def hurriedText : List Action :=
  [.start 0 pid7, .say 0 textA] ++ List.replicate 5 (.thread 0)

/-- The text is handled first. -/
theorem chat_before_start :
    ¬ ∀ (cfg : Config) (s : State) (k : ℕ), Reach (step cfg) Anything (init cfg) s →
      s.handled k <+: s.sent k ∧ Introduced (s.handled k) := by
  intro hclaim
  have hrun : (exec (step twoClients) (init twoClients) hurriedText).map (fun s =>
      ((s.handled 0).map Msg.purpose, (s.sent 0).map Msg.purpose)) =
      some ([.chat], [.start, .chat]) := by
    decide +kernel
  obtain ⟨s, hs, hsummary⟩ := Option.map_eq_some_iff.mp hrun
  obtain ⟨hhandled, hsent⟩ := Prod.mk.inj hsummary
  have hpre := (hclaim twoClients s 0 (Reach.of_exec hs)).1.map Msg.purpose
  rw [hhandled, hsent] at hpre
  exact absurd hpre (by decide)

end QueueChat
end EltSummer
