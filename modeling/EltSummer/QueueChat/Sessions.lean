import EltSummer.Framework.Log
import EltSummer.QueueChat.Handling

/-!
# What the server knows about a session

Connecting and disconnecting are the same message, and the server toggles.  So what
`clients_info` says after a start message depends on how the slot's earlier sessions ended:
each of them that left no farewell in the queue, because its process was killed or because
the queue was full, turns the meaning of the messages behind it around
(`killed_session_inverts`).

`record_iff_even` says exactly when the record is right after a start message: when an even
number of the earlier sessions ended silently and, for the first message the thread takes at
all, no digit stands on the stack right behind its text.
-/

namespace EltSummer
namespace QueueChat

open Interleaving PosixQueue CString

variable {cfg : Config} {s s' : State}

/-! ## The sessions of a slot -/

/-- The service messages of a log. -/
def service (log : List Msg) : List Msg := log.filter (·.prio = prioServiceMsg)

/-- The number of sessions that left no farewell in the queue. -/
def silent (l : List Session) : ℕ := l.countP (!·.goodbye)

lemma service_concat (log : List Msg) (m : Msg) :
    service (log ++ [m]) = if m.prio = prioServiceMsg then service log ++ [m] else service log := by
  rw [service, service, List.filter_append, List.filter_singleton]
  split <;> simp_all

/-- What was sent, against the sessions: each session accounts for one service message if it
was silent and for two if not. -/
structure Desk.Enrolled (d : Desk) : Prop where
  current : d.client = .running → ∃ earlier x, d.sessions = earlier ++ [x] ∧ x.goodbye = false
  count : ((service d.sent).length + silent d.sessions) % 2 = 0
  starts : ∀ (i : ℕ) (m : Msg), (service d.sent)[i]? = some m → m.purpose = .start →
    ∃ x, d.sessions[m.session]? = some x ∧ m.text = decimal x.pid.val ∧
      (i + silent (d.sessions.take m.session)) % 2 = 0

lemma Desk.enrolled_init (k : ℕ) : ((init cfg).desk k).Enrolled := by
  refine ⟨?_, ?_, ?_⟩ <;> simp [State.desk, init, service, silent]

lemma Desk.Move.enrolled {k : ℕ} {d d' : Desk} (hmove : d.Move k d') (h : d.Enrolled) :
    d'.Enrolled := by
  cases hmove with
  | stay => exact h
  | @start pid hclient =>
      have hcount := h.count
      refine ⟨fun _ => ⟨d.sessions, _, rfl, rfl⟩, ?_, fun i m hi hm => ?_⟩
      · simp only [service_concat, pidMsg, if_true, silent, List.length_append,
          List.countP_append, List.length_singleton] at hcount ⊢
        simp only [List.countP_singleton, Bool.not_false, if_true]
        omega
      · simp only [service_concat, pidMsg, if_true] at hi
        rcases Log.getElem?_concat hi with hi | ⟨rfl, rfl⟩
        · obtain ⟨x, hx, htext, hpar⟩ := h.starts i m hi hm
          have hlt : m.session < d.sessions.length := (List.getElem?_eq_some_iff.mp hx).1
          refine ⟨x, ?_, htext, ?_⟩
          · rwa [List.getElem?_append_left hlt]
          · rwa [List.take_append_of_le_length hlt.le]
        · refine ⟨⟨pid, false⟩, by simp, rfl, ?_⟩
          rw [List.take_left']
          · exact hcount
          · rfl
  | say hclient =>
      have hsame : ∀ text : Text, service (d.sent ++
          [chatMsg k d.sent.length (d.sessions.length - 1) text]) = service d.sent :=
        fun text => by
          rw [service_concat, if_neg (by simp [chatMsg, prioServiceMsg, prioRegularMsg])]
      refine ⟨h.current, ?_, ?_⟩
      · rw [hsame]
        exact h.count
      · rw [hsame]
        exact h.starts
  | @quit earlier x hclient hx =>
      obtain ⟨earlier', x', hx', hgoodbye⟩ := h.current hclient
      obtain ⟨rfl, hxx⟩ := List.append_inj' (hx.symm.trans hx') rfl
      obtain rfl : x = x' := by simpa using hxx
      have hcount := h.count
      refine ⟨by simp, ?_, fun i m hi hm => ?_⟩
      · simp only [hx, service_concat, pidMsg, if_true, silent, List.length_append,
          List.countP_append, List.length_singleton, List.countP_singleton, hgoodbye] at hcount ⊢
        simp only [Bool.not_false, Bool.not_true, if_true, Bool.false_eq_true, if_false] at hcount ⊢
        omega
      · simp only [service_concat, pidMsg, if_true] at hi
        rcases Log.getElem?_concat hi with hi | ⟨rfl, rfl⟩
        · obtain ⟨y, hy, htext, hpar⟩ := h.starts i m hi hm
          rw [hx] at hy hpar
          have hle : m.session ≤ earlier.length := by
            have := (List.getElem?_eq_some_iff.mp hy).1
            rw [List.length_append, List.length_singleton] at this
            omega
          rw [List.take_append_of_le_length hle] at hpar
          rcases Log.getElem?_concat hy with hy | ⟨hlen, rfl⟩
          · have hlt := (List.getElem?_eq_some_iff.mp hy).1
            refine ⟨y, ?_, htext, ?_⟩
            · rwa [List.getElem?_append_left hlt]
            · rwa [List.take_append_of_le_length hle]
          · refine ⟨⟨x.pid, true⟩, ?_, htext, ?_⟩
            · rw [hlen]
              simp
            · rwa [List.take_append_of_le_length hle]
        · simp at hm
  | quitFull hclient => exact ⟨by simp, h.count, h.starts⟩
  | leave => exact ⟨by simp, h.count, h.starts⟩

/-! ## The record -/

/-- What `clients_info` says when the thread of slot `k` has handled the messages of
`log`. -/
structure Registered (cfg : Config) (k : ℕ) (log : List Msg) (info : ClientInfo) : Prop where
  flag : info.flagConnect = (service log).length % 2
  none : (service log).length % 2 = 0 → info.clientPid = 0
  pid : ∀ before m after, log = before ++ m :: after → m.prio = prioServiceMsg →
    service after = [] → (service before).length % 2 = 0 →
    atoi (received (bufferBefore cfg k before) m.text) = some info.clientPid

lemma registered_init (k : ℕ) : Registered cfg k [] ⟨0, 0⟩ :=
  ⟨rfl, fun _ => rfl, fun before m after h => by simp at h⟩

/-- A regular message changes nothing. -/
lemma Registered.regular {k : ℕ} {log : List Msg} {info : ClientInfo} {x : Msg}
    (h : Registered cfg k log info) (hx : x.prio ≠ prioServiceMsg) :
    Registered cfg k (log ++ [x]) info := by
  have hlog : service (log ++ [x]) = service log := by rw [service_concat, if_neg hx]
  refine ⟨by rw [hlog]; exact h.flag, by rw [hlog]; exact h.none, ?_⟩
  intro before m after hsplit hm hafter hpar
  rcases Log.split_concat hsplit with ⟨-, rfl, -⟩ | ⟨after', rfl, hlog'⟩
  · exact absurd hm hx
  · rw [service_concat, if_neg hx] at hafter
    exact h.pid before m after' hlog' hm hafter hpar

/-- A service message, as the server's toggle has it. -/
lemma Registered.toggle {k : ℕ} {log : List Msg} {info info' : ClientInfo} {x : Msg}
    (h : Registered cfg k log info) (hx : x.prio = prioServiceMsg)
    (hconnect : info.flagConnect = 0 → info'.flagConnect = 1 ∧
      atoi (received (bufferBefore cfg k log) x.text) = some info'.clientPid)
    (hdisconnect : info.flagConnect = 1 → info' = ⟨0, 0⟩) :
    Registered cfg k (log ++ [x]) info' := by
  have hlog : (service (log ++ [x])).length = (service log).length + 1 := by
    rw [service_concat, if_pos hx, List.length_append, List.length_singleton]
  have hlast : ∀ after', service (after' ++ [x]) ≠ [] := fun after' => by
    rw [service_concat, if_pos hx]
    simp
  have hflag := h.flag
  rcases Nat.mod_two_eq_zero_or_one (service log).length with hpar | hpar
  · obtain ⟨hone, hpid⟩ := hconnect (by omega)
    refine ⟨by rw [hlog, hone]; omega, fun hz => by omega, ?_⟩
    intro before m after hsplit _ hafter _
    rcases Log.split_concat hsplit with ⟨rfl, rfl, -⟩ | ⟨after', rfl, -⟩
    · exact hpid
    · exact absurd hafter (hlast after')
  · obtain rfl := hdisconnect (by omega)
    have hzero : 0 = (service (log ++ [x])).length % 2 := by omega
    refine ⟨hzero, fun _ => rfl, ?_⟩
    intro before m after hsplit _ hafter hbefore
    rcases Log.split_concat hsplit with ⟨rfl, -, -⟩ | ⟨after', rfl, -⟩
    · omega
    · exact absurd hafter (hlast after')

/-- Handling a service message with text `m` in the buffer. -/
lemma Registered.service {k : ℕ} {log : List Msg} {m : Msg} {u : State}
    (h : Registered cfg k log (s.clientsInfo k)) (hm : m.prio = prioServiceMsg)
    (hu : s.service k (received (bufferBefore cfg k log) m.text) = some u) :
    Registered cfg k (log ++ [m]) (u.clientsInfo k) ∧
      ∀ j ≠ k, u.clientsInfo j = s.clientsInfo j := by
  unfold State.service at hu
  split at hu
  · rename_i hzero
    obtain ⟨pid, hpid, rfl⟩ := Option.map_eq_some_iff.mp hu
    refine ⟨h.toggle hm (fun _ => ?_) (by simp [hzero]), fun j hj => Function.update_of_ne hj _ _⟩
    simp only [Function.update_self]
    exact ⟨trivial, hpid⟩
  · rename_i hzero
    split at hu
    · rename_i hone
      obtain rfl := Option.some.inj hu
      exact ⟨h.toggle hm (absurd · hzero) fun _ => Function.update_self _ _ _,
        fun j hj => Function.update_of_ne hj _ _⟩
    · rename_i hone
      have := h.flag
      omega

theorem registered_step {a : Action} (hfaithful : Faithful cfg s)
    (h : ∀ k, Registered cfg k (s.handled k) (s.clientsInfo k))
    (hstep : step cfg s a = some s') (k : ℕ) :
    Registered cfg k (s'.handled k) (s'.clientsInfo k) := by
  have hself : ∀ {m : Msg}, (s.markHandled k m).handled k = s.handled k ++ [m] :=
    Function.update_self _ _ _
  have hlog : ∀ {j : ℕ} {m : Msg}, k ≠ j → (s.markHandled j m).handled k = s.handled k :=
    fun hj => Function.update_of_ne hj _ _
  cases moves_of_step hstep with
  | @service j u hpc hprio hu =>
      obtain ⟨hbuff, hgot⟩ := (hfaithful j).holds (by rw [hpc]; rfl)
      rw [hbuff] at hu
      obtain ⟨hj, hothers⟩ := (h j).service (s := s.markHandled j (s.thread j).got)
        (hgot ▸ hprio) hu
      obtain ⟨info, count, rfl⟩ := service_frame hu
      by_cases hk : k = j
      · subst hk
        show Registered cfg k ((s.markHandled k (s.thread k).got).handled k) (info k)
        rw [hself]
        exact hj
      · exact (hlog hk).symm ▸ (hothers k hk).symm ▸ h k
  | @regular j text hpc hprio htext =>
      obtain ⟨-, hgot⟩ := (hfaithful j).holds (by rw [hpc]; rfl)
      by_cases hk : k = j
      · subst hk
        have hne : (s.thread k).got.prio ≠ prioServiceMsg := by
          rw [← hgot, hprio]
          decide
        show Registered cfg k ((s.markHandled k (s.thread k).got).handled k) (s.clientsInfo k)
        rw [hself]
        exact (h k).regular hne
      · exact (hlog hk).symm ▸ h k
  | @other j hpc hservice hregular =>
      obtain ⟨-, hgot⟩ := (hfaithful j).holds (by rw [hpc]; rfl)
      by_cases hk : k = j
      · subst hk
        show Registered cfg k ((s.markHandled k (s.thread k).got).handled k) (s.clientsInfo k)
        rw [hself]
        exact (h k).regular (hgot ▸ hservice)
      · exact (hlog hk).symm ▸ h k
  | _ => exact h k

/-! ## The record after a start message -/

/-- The byte right behind the text of `m`, when `m` is received behind the messages of
`before`. -/
def byteBehind (cfg : Config) (k : ℕ) (before : List Msg) (m : Msg) : UInt8 :=
  (bufferBefore cfg k before).getD m.text.length 0

lemma byteBehind_of_ne_nil {k : ℕ} {before : List Msg} (m : Msg) (h : before ≠ []) :
    byteBehind cfg k before m = 0 := by
  rw [byteBehind, bufferBefore, if_neg h, List.getD_eq_getElem?_getD, List.getElem?_replicate]
  split <;> rfl

/-- A pid's text is received in front of `byteBehind`. -/
lemma received_pid (cfg : Config) (k : ℕ) (before : List Msg) {m : Msg} {pid : Pid}
    (htext : m.text = decimal pid.val) : ∃ rest, received (bufferBefore cfg k before) m.text =
      decimal pid.val ++ byteBehind cfg k before m :: rest := by
  have hsize : (bufferBefore cfg k before).length = qSize := by
    unfold bufferBefore
    split
    · exact cfg.stackSize k
    · exact List.length_replicate
  have hlt : m.text.length < (bufferBefore cfg k before).length := by
    have := length_decimal_le pid.isInt
    rw [htext, hsize, qSize]
    omega
  refine ⟨(bufferBefore cfg k before).drop (m.text.length + 1), ?_⟩
  have hbyte : byteBehind cfg k before m = (bufferBefore cfg k before)[m.text.length] := by
    rw [byteBehind, List.getD_eq_getElem?_getD, List.getElem?_eq_getElem hlt, Option.getD_some]
  rw [hbyte, received, List.drop_eq_getElem_cons hlt]
  exact congrArg (· ++ _) htext

/-- The sessions of every run. -/
lemma enrolled_of_reach {ok : State → Action → Prop} (h : Reach (step cfg) ok (init cfg) s)
    (k : ℕ) : (s.desk k).Enrolled :=
  h.invariant (I := fun u => (u.desk k).Enrolled) (Desk.enrolled_init k)
    fun _ _ _ hdesk _ hstep => (desk_move hstep k).enrolled hdesk

/-- The records of every run. -/
theorem registered_of_reach {ok : State → Action → Prop}
    (h : Reach (step cfg) ok (init cfg) s) (k : ℕ) :
    Registered cfg k (s.handled k) (s.clientsInfo k) := by
  have hall : ∀ k, Registered cfg k (s.handled k) (s.clientsInfo k) := by
    refine h.invariant_along (I := fun u => ∀ k, Registered cfg k (u.handled k) (u.clientsInfo k))
      registered_init fun u a v hu hreg _ hstep => ?_
    exact registered_step (faithful_of_reach hu).2 hreg hstep
  exact hall k

/-- The service messages of a log up to the last of them. -/
lemma service_split {before after : List Msg} {m : Msg} (hm : m.prio = prioServiceMsg)
    (hafter : service after = []) : service (before ++ m :: after) = service before ++ [m] := by
  rw [← List.singleton_append, ← List.append_assoc, service, List.filter_append,
    show after.filter _ = [] from hafter, List.append_nil]
  exact (service_concat before m).trans (if_pos hm)

/-- A handled service message has the same number among those that were sent. -/
lemma Kept.getElem?_service_sent (h : Kept s) {k : ℕ} {earlier : List Msg} {m : Msg}
    (hlast : service (s.handled k) = earlier ++ [m]) :
    (service (s.sent k))[earlier.length]? = some m := by
  obtain ⟨rest, hrest⟩ := (h.perPriority k).initial prioServiceMsg
  rw [show service (s.sent k) = service (s.handled k) ++ rest from hrest.symm, hlast]
  simp

/-- Only the first message a thread takes can have a digit behind it. -/
lemma isDigit_byteBehind_iff (k : ℕ) (before : List Msg) (m : Msg) :
    isDigit (byteBehind cfg k before m) = false ↔
      (before = [] → isDigit ((cfg.stack k).getD m.text.length 0) = false) := by
  by_cases hb : before = []
  · simp [hb, byteBehind, bufferBefore]
  · rw [byteBehind_of_ne_nil m hb]
    exact iff_of_true rfl (absurd · hb)

/-- The pid of a record that was made from the message `m` is the one `m` was sent with, if
no digit stood behind it. -/
lemma Registered.clientPid_eq_iff {k : ℕ} {before after : List Msg} {m : Msg} {pid : Pid}
    {info : ClientInfo} (h : Registered cfg k (before ++ m :: after) info)
    (htext : m.text = decimal pid.val) (hm : m.prio = prioServiceMsg)
    (hafter : QueueChat.service after = [])
    (hpar : (QueueChat.service before).length % 2 = 0) :
    info.clientPid = pid.val ↔ isDigit (byteBehind cfg k before m) = false := by
  obtain ⟨rest, hbuff⟩ := received_pid cfg k before htext
  exact atoi_decimal_append_iff pid.pos (hbuff ▸ h.pid before m after rfl hm hafter hpar)

/-- **The record after a start message**, of a session that began with pid `x.pid`, when
only texts were handled since: it is right exactly when an even number of the slot's earlier
sessions ended silently and no digit stood behind the text. -/
theorem record_iff_even (h : Reach (step cfg) Anything (init cfg) s) {k : ℕ}
    {before after : List Msg} {m : Msg} (hlog : s.handled k = before ++ m :: after)
    (hstart : m.purpose = .start) (hafter : ∀ y ∈ after, y.purpose = .chat) :
    ∃ x, (s.sessions k)[m.session]? = some x ∧
      (s.clientsInfo k = ⟨x.pid.val, 1⟩ ↔ silent ((s.sessions k).take m.session) % 2 = 0 ∧
        (before = [] → isDigit ((cfg.stack k).getD m.text.length 0) = false)) := by
  have hkept := kept_of_reach h
  have hreg := registered_of_reach h k
  have hm : m.prio = prioServiceMsg := by
    rw [hkept.prio_of_handled (k := k) (hlog ▸ List.mem_append_right _ List.mem_cons_self), hstart]
    rfl
  have hnone : service after = [] := by
    refine List.filter_eq_nil_iff.mpr fun y hy => ?_
    rw [hkept.prio_of_handled (k := k) (by simp [hlog, hy]), hafter y hy]
    decide
  have hservice : service (s.handled k) = service before ++ [m] := by
    rw [hlog, service_split hm hnone]
  obtain ⟨x, hx, htext, hpar⟩ :=
    (enrolled_of_reach h k).starts _ m (hkept.getElem?_service_sent hservice) hstart
  change ((service before).length + silent ((s.sessions k).take m.session)) % 2 = 0 at hpar
  refine ⟨x, hx, ?_⟩
  have hflag := hreg.flag
  rw [hservice, List.length_append, List.length_singleton] at hflag
  have hpid := fun hz => (hlog ▸ hreg).clientPid_eq_iff htext hm hnone hz
  rw [← isDigit_byteBehind_iff]
  constructor
  · intro hinfo
    have hz : (service before).length % 2 = 0 := by
      rw [hinfo] at hflag
      dsimp only at hflag
      omega
    exact ⟨by omega, (hpid hz).mp (by rw [hinfo])⟩
  · rintro ⟨heven, hdigit⟩
    have hz : (service before).length % 2 = 0 := by omega
    have hone : (s.clientsInfo k).flagConnect = 1 := by omega
    have := (hpid hz).mpr hdigit
    cases hinfo : s.clientsInfo k with
    | mk pid flag =>
        rw [hinfo] at this hone
        exact congrArg₂ ClientInfo.mk this hone

theorem record_iff_even_first_session :
    ∃ s m, exec (step twoClients) (init twoClients)
        (startHandled pid7) = some s ∧ s.handled 0 = [m] ∧
      ∃ x, (s.sessions 0)[m.session]? = some x ∧
        (s.clientsInfo 0 = ⟨x.pid.val, 1⟩ ↔ silent ((s.sessions 0).take m.session) % 2 = 0 ∧
          (([] : List Msg) = [] →
            isDigit ((twoClients.stack 0).getD m.text.length 0) = false)) := by
  have hrun : (exec (step twoClients) (init twoClients)
      (startHandled pid7)).map (fun s => (s.handled 0).map Msg.purpose) =
      some [.start] := by
    decide +kernel
  obtain ⟨s, hs, hsummary⟩ := Option.map_eq_some_iff.mp hrun
  obtain ⟨m, hm, hstart⟩ := List.map_eq_singleton_iff.mp hsummary
  have hlog : s.handled 0 = [] ++ m :: [] := hm
  exact ⟨s, m, hs, hm, record_iff_even (Reach.of_exec hs) hlog hstart nofun⟩

/-- A session of pid 7 whose process is killed, then a session of pid 8. -/
def killedSession : List Action :=
  startHandled pid7 ++ .kill 0 :: startHandled pid8

/-- The start message of the second session disconnects the slot. -/
theorem killed_session_inverts :
    ¬ ∀ (cfg : Config) (s : State) (k : ℕ) (before after : List Msg) (m : Msg) (x : Session),
      Reach (step cfg) Anything (init cfg) s → s.handled k = before ++ m :: after →
      m.purpose = .start → (∀ y ∈ after, y.purpose = .chat) →
      (s.sessions k)[m.session]? = some x → s.clientsInfo k = ⟨x.pid.val, 1⟩ := by
  intro hclaim
  have hrun : (exec (step twoClients) (init twoClients) killedSession).map (fun s =>
      ((s.handled 0).map fun m => (m.purpose, m.session), (s.sessions 0).length,
        (s.clientsInfo 0).flagConnect)) = some ([(.start, 0), (.start, 1)], 2, 0) := by
    decide +kernel
  obtain ⟨s, hs, hsummary⟩ := Option.map_eq_some_iff.mp hrun
  simp only [Prod.mk.injEq] at hsummary
  obtain ⟨hlog, hsessions, hflag⟩ := hsummary
  obtain ⟨m₀, rest, hsplit, -, hrest⟩ := List.map_eq_cons_iff.mp hlog
  obtain ⟨m, rfl, hm⟩ := List.map_eq_singleton_iff.mp hrest
  obtain ⟨hstart, hsession⟩ := Prod.mk.inj hm
  have hx : (s.sessions 0)[m.session]? = some ((s.sessions 0)[1]) := by
    rw [hsession, List.getElem?_eq_getElem]
  have hinfo := hclaim twoClients s 0 [m₀] [] m _ (Reach.of_exec hs) hsplit hstart nofun hx
  rw [hinfo] at hflag
  simp at hflag

end QueueChat
end EltSummer
