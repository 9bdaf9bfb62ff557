import EltSummer.QueueChat.Handling

/-!
# Broadcasts

A regular message is to be put into the queue of every other connected client, once each,
before the thread takes the next one.  The broadcast loop comes to every other slot
(`Thread.Walk`) and puts no message into a queue twice (`Arrivals`), in every run.  But the
result of `mq_send` is ignored: when a receiver is slower than the talkers, its queue of ten
fills up and what follows is dropped (`eleventh_text_lost`).

`broadcast_complete` is the law for the runs in which each send to a connected client finds
room, and in which a text that is the first message a thread takes finds a NUL on the stack behind
it; what is passed on ends only there.
-/

namespace EltSummer
namespace QueueChat

open Interleaving PosixQueue CString

variable {cfg : Config} {s s' : State}

/-! ## The loop -/

/-- The queue the broadcast comes to next. -/
def Pc.next : Pc → Option ℕ
  | .forTest i | .lock i | .send i => some i
  | .release i => some (i + 2)
  | _ => none

/-- The queue the thread is about to send to. -/
def Pc.target : Pc → Option ℕ
  | .lock i | .send i => some i
  | _ => none

/-- The locals of thread `k` as the loop has them. -/
structure Thread.Walk (cfg : Config) (k : ℕ) (t : Thread) : Prop where
  regular : ∀ i, t.pc.next = some i → t.prio = prioRegularMsg
  visits : ∀ i, t.pc.next = some i → i % 2 = 1 ∧ i ≤ cfg.maxClients * 2 + 1 ∧
    t.visits.map Prod.fst = (List.range (i / 2)).filter (· ≠ k)
  target : ∀ i, t.pc.target = some i → i < cfg.maxClients * 2 ∧ i ≠ 2 * k + 1
  ended : t.pc = .clear → t.prio = prioRegularMsg →
    t.visits.map Prod.fst = (List.range cfg.maxClients).filter (· ≠ k)

lemma Thread.Walk.outside {k : ℕ} {t : Thread} (hnext : t.pc.next = none)
    (htarget : t.pc.target = none) (hpc : t.pc = .clear → t.prio ≠ prioRegularMsg) :
    t.Walk cfg k := by
  refine ⟨fun i hi => ?_, fun i hi => ?_, fun i hi => ?_, fun h hp => absurd hp (hpc h)⟩
  · simp [hnext] at hi
  · simp [hnext] at hi
  · simp [htarget] at hi

lemma Control.walk {k : ℕ} {pc : Pc} {mutex : ℕ → Bool} (h : (s.thread k).Walk cfg k)
    (hc : Control cfg s k (s.thread k).pc mutex pc) :
    ({ s.thread k with pc := pc } : Thread).Walk cfg k := by
  have hregular := h.regular
  have hvisits := h.visits
  have htarget := h.target
  generalize (s.thread k).pc = pc₀ at hc hregular hvisits htarget
  cases hc with
  | @toLock i hi hne =>
      refine ⟨hregular, hvisits, fun j hj => ?_, nofun⟩
      obtain rfl := Option.some.inj hj
      exact ⟨hi, hne⟩
  | @skip i hi hne =>
      obtain ⟨hodd, hle, hlist⟩ := hvisits i rfl
      refine ⟨fun _ _ => hregular i rfl, fun j hj => ?_, nofun, nofun⟩
      obtain rfl := Option.some.inj hj
      have hhalf : (i + 2) / 2 = i / 2 + 1 := by omega
      have hk : i / 2 = k := by omega
      refine ⟨by omega, by omega, ?_⟩
      rw [hhalf, List.range_succ, List.filter_append, hk]
      simpa [hk] using hlist
  | lock hm => exact ⟨hregular, hvisits, htarget, nofun⟩
  | release => exact ⟨hregular, hvisits, nofun, nofun⟩
  | _ => exact .outside rfl rfl nofun

/-- Behind a send the loop has come to one more slot. -/
lemma Thread.Walk.visit {k i : ℕ} {t : Thread} (h : t.Walk cfg k) (hpc : t.pc = .send i) :
    (t.visit s i).Walk cfg k := by
  obtain ⟨hodd, -, hlist⟩ := h.visits i (by rw [hpc]; rfl)
  obtain ⟨hlt, hne⟩ := h.target i (by rw [hpc]; rfl)
  refine ⟨fun _ _ => h.regular i (by rw [hpc]; rfl), fun j hj => ?_, nofun, nofun⟩
  obtain rfl := Option.some.inj hj
  have hhalf : (i + 2) / 2 = i / 2 + 1 := by omega
  have hk : i / 2 ≠ k := by omega
  refine ⟨by omega, by omega, ?_⟩
  rw [hhalf, List.range_succ, List.filter_append, Thread.visit, List.map_append, hlist]
  simp [hk]

lemma Thread.Walk.loopEnd {k i : ℕ} {t : Thread} (h : t.Walk cfg k) (hpc : t.pc = .forTest i)
    (hi : ¬ i < cfg.maxClients * 2) : ({ t with pc := .clear } : Thread).Walk cfg k := by
  obtain ⟨hodd, hle, hlist⟩ := h.visits i (by rw [hpc]; rfl)
  have hhalf : i / 2 = cfg.maxClients := by omega
  exact ⟨nofun, nofun, nofun, fun _ _ => hhalf ▸ hlist⟩

lemma walk_init (cfg : Config) (k : ℕ) : ((init cfg).thread k).Walk cfg k :=
  .outside rfl rfl nofun

theorem walk_step {a : Action} (h : ∀ k, (s.thread k).Walk cfg k)
    (hstep : step cfg s a = some s') (j : ℕ) : (s'.thread j).Walk cfg j := by
  have hset : ∀ {u : State} {k : ℕ} {t : Thread}, u.thread = s.thread → t.Walk cfg k →
      ((u.setThread k t).thread j).Walk cfg j := by
    intro u k t hu ht
    rw [setThread_thread]
    split
    · rename_i hj
      exact hj ▸ ht
    · exact hu ▸ h j
  cases moves_of_step hstep with
  | control hc => exact hset rfl (hc.walk (h _))
  | receive hpc hq => exact hset rfl (.outside rfl rfl nofun)
  | service hpc hprio hu =>
      obtain ⟨info, count, rfl⟩ := service_frame hu
      refine hset rfl (.outside rfl rfl fun _ => ?_)
      rw [show ({ s.thread _ with pc := .clear } : Thread).prio = prioServiceMsg from hprio]
      decide
  | regular hpc hprio htext =>
      refine hset rfl ⟨fun _ _ => hprio, fun i hi => ?_, nofun, nofun⟩
      obtain rfl := Option.some.inj hi
      exact ⟨rfl, by omega, rfl⟩
  | other hpc hservice hregular => exact hset rfl (.outside rfl rfl fun _ => hregular)
  | loopEnd hpc hi => exact hset rfl ((h _).loopEnd hpc hi)
  | cast hpc htext hq => exact hset rfl ((h _).visit hpc)
  | castFull hpc htext hq => exact hset rfl ((h _).visit hpc)
  | clear hpc => exact hset rfl (.outside rfl rfl nofun)
  | _ => exact h j

lemma walk_of_reach {ok : State → Action → Prop} (h : Reach (step cfg) ok (init cfg) s) :
    ∀ k, (s.thread k).Walk cfg k :=
  h.invariant (I := fun u => ∀ k, (u.thread k).Walk cfg k) (walk_init cfg)
    fun _ _ _ hwalk _ hstep => walk_step hwalk hstep

/-! ## What arrives -/

/-- Everything that was put into the queue of client `j`, in that order. -/
def State.incoming (s : State) (j : ℕ) : List Msg := s.taken j ++ (s.ques (2 * j + 1)).msgs

/-- What the broadcasts have put into the queues: copies of handled messages, nothing from a
broadcast that has not come there yet, each sender's messages in their order. -/
structure Arrivals (s : State) : Prop where
  regular : ∀ j, ∀ x ∈ s.incoming j, x.prio = prioRegularMsg
  handled : ∀ j, ∀ x ∈ s.incoming j,
    ∃ y ∈ s.handled x.slot, y.prio = prioRegularMsg ∧ y.no = x.no
  fresh : ∀ j k i, (s.thread k).pc.next = some i → i ≤ 2 * j + 1 →
    ∀ x ∈ s.incoming j, x.slot = k → x.no < (s.thread k).got.no
  increasing : ∀ j, (s.incoming j).Pairwise fun x y => x.slot = y.slot → x.no < y.no

lemma arrivals_init (cfg : Config) : Arrivals (init cfg) := by
  refine ⟨?_, ?_, ?_, ?_⟩ <;> simp [State.incoming, init, Queue.empty]

/-- A slot's regular messages are numbered upwards on their way to the thread. -/
lemma Kept.increasing (h : Kept s) (k : ℕ) :
    ((s.lane k).flow.filter (·.prio = prioRegularMsg)).Pairwise fun x y => x.no < y.no := by
  have hsent : (s.sent k).Pairwise fun x y => x.no < y.no := by
    refine List.pairwise_iff_getElem.mpr fun i j hi hj hij => ?_
    rw [((h.recorded k).stamped i _ (List.getElem?_eq_getElem hi)).1,
      ((h.recorded k).stamped j _ (List.getElem?_eq_getElem hj)).1]
    exact hij
  rw [h.perPriority k]
  exact hsent.filter _

/-- The message in hand has a higher number than the regular ones handled before. -/
lemma Kept.lt_inHand (h : Kept s) {k : ℕ} (hpc : (s.thread k).pc.holds)
    (hgot : (s.thread k).got.prio = prioRegularMsg) {y : Msg} (hy : y ∈ s.handled k)
    (hprio : y.prio = prioRegularMsg) : y.no < (s.thread k).got.no := by
  have hinc := h.increasing k
  have hhand : (s.lane k).inHand = [(s.thread k).got] := by
    rw [State.lane, Thread.inHand, if_pos hpc]
  rw [Lane.flow, hhand, List.append_assoc, List.filter_append] at hinc
  refine (List.pairwise_append.mp hinc).2.2 y ?_ _ ?_
  · exact List.mem_filter.mpr ⟨hy, by simpa using hprio⟩
  · exact List.mem_filter.mpr ⟨by simp, by simpa using hgot⟩

/-- A step of thread `k` that puts nothing into the clients' queues. -/
lemma Arrivals.thread (h : Arrivals s) {k : ℕ} {t : Thread} {u : State}
    (hthread : u.thread = s.thread) (hincoming : ∀ j, u.incoming j = s.incoming j)
    (hhandled : ∀ l, ∀ y ∈ s.handled l, y ∈ u.handled l)
    (hfresh : ∀ j i, t.pc.next = some i → i ≤ 2 * j + 1 →
      ∀ x ∈ s.incoming j, x.slot = k → x.no < t.got.no) : Arrivals (u.setThread k t) := by
  have hin : ∀ j, (u.setThread k t).incoming j = s.incoming j := hincoming
  refine ⟨fun j x hx => h.regular j x (hin j ▸ hx), fun j x hx => ?_,
    fun j l i hnext hle x hx => ?_, fun j => (hin j).symm ▸ h.increasing j⟩
  · obtain ⟨y, hy, hprio, hno⟩ := h.handled j x (hin j ▸ hx)
    exact ⟨y, hhandled _ y hy, hprio, hno⟩
  · rw [hin] at hx
    rw [setThread_thread] at hnext ⊢
    split at hnext
    · rename_i hl
      rw [if_pos hl]
      exact fun hslot => hfresh j i hnext hle x hx (hslot.trans hl)
    · rename_i hl
      rw [if_neg hl, hthread]
      exact h.fresh j l i (hthread ▸ hnext) hle x hx

/-- A control step does not take the loop back. -/
lemma Control.next {k i : ℕ} {pc : Pc} {mutex : ℕ → Bool}
    (hc : Control cfg s k (s.thread k).pc mutex pc) (hnext : pc.next = some i) :
    ∃ i', (s.thread k).pc.next = some i' ∧ i' ≤ i := by
  generalize (s.thread k).pc = pc₀ at hc
  cases hc with
  | @skip i' hi hne =>
      obtain rfl := Option.some.inj hnext
      exact ⟨i', rfl, by omega⟩
  | toLock hi hne => exact ⟨i, hnext, le_rfl⟩
  | lock hm => exact ⟨i, hnext, le_rfl⟩
  | release => exact ⟨i, hnext, le_rfl⟩
  | _ => simp [Pc.next] at hnext

/-- Putting something into an even queue does not touch what arrives. -/
lemma incoming_setQueue (k : ℕ) (q : Queue Msg.prio maxMsg) (j : ℕ) :
    (s.setQueue (2 * k) q).incoming j = s.incoming j := by
  have : 2 * j + 1 ≠ 2 * k := by omega
  simp [State.incoming, State.setQueue, this]

/-- The clients leave the threads and what arrives alone; receiving only takes it out. -/
lemma client_frame {a : Action} (hstep : step cfg s a = some s') (ha : ∀ k, a ≠ .thread k) :
    s'.thread = s.thread ∧ (∀ j, s'.incoming j = s.incoming j) ∧ s'.handled = s.handled := by
  have hset : ∀ {k : ℕ} {q : Queue Msg.prio maxMsg} (j : ℕ),
      s.taken j ++ (Function.update s.ques (2 * k) q (2 * j + 1)).msgs = s.incoming j :=
    fun {k q} j => incoming_setQueue k q j
  cases moves_of_step hstep with
  | stop => exact ⟨rfl, fun _ => rfl, rfl⟩
  | start _ _ => exact ⟨rfl, hset, rfl⟩
  | say _ _ => exact ⟨rfl, hset, rfl⟩
  | quit _ _ _ => exact ⟨rfl, hset, rfl⟩
  | quitFull _ => exact ⟨rfl, fun _ => rfl, rfl⟩
  | leave _ => exact ⟨rfl, fun _ => rfl, rfl⟩
  | @take k m q hq =>
      refine ⟨rfl, fun j => ?_, rfl⟩
      by_cases hj : j = k
      · subst hj
        simp [State.incoming, State.setQueue, Queue.msgs_of_receive hq]
      · simp [State.incoming, State.setQueue, hj]
  | nothing _ => exact ⟨rfl, fun _ => rfl, rfl⟩
  | _ => exact absurd rfl (ha _)

lemma Arrivals.client {a : Action} (h : Arrivals s) (hstep : step cfg s a = some s')
    (ha : ∀ k, a ≠ .thread k) : Arrivals s' := by
  obtain ⟨hthread, hincoming, hhandled⟩ := client_frame hstep ha
  refine ⟨fun j x hx => h.regular j x (hincoming j ▸ hx), fun j x hx => ?_,
    fun j l i hnext hle x hx => ?_, fun j => (hincoming j).symm ▸ h.increasing j⟩
  · rw [hhandled]
    exact h.handled j x (hincoming j ▸ hx)
  · rw [hthread] at hnext ⊢
    exact h.fresh j l i hnext hle x (hincoming j ▸ hx)

lemma mem_markHandled {k l : ℕ} {m y : Msg} (hy : y ∈ s.handled l) :
    y ∈ (s.markHandled k m).handled l := by
  by_cases hl : l = k
  · subst hl
    simp [State.markHandled, hy]
  · simpa [State.markHandled, hl] using hy

/-- A copy arrives behind everything that arrived before. -/
lemma incoming_cast (h : Arrivals s) {i : ℕ} {m : Msg} {q : Queue Msg.prio maxMsg}
    (hodd : i % 2 = 1) (hm : m.prio = prioRegularMsg) (hq : (s.ques i).send m = some q) (j : ℕ) :
    (s.setQueue i q).incoming j = if j = i / 2 then s.incoming j ++ [m] else s.incoming j := by
  split
  · rename_i hj
    have hi : 2 * j + 1 = i := by omega
    have hle : ∀ x ∈ (s.ques i).msgs, m.prio ≤ x.prio := fun x hx => by
      rw [hm, h.regular j x (List.mem_append_right _ (hi ▸ hx))]
    rw [State.incoming, State.incoming, State.setQueue, hi]
    simp only [Function.update_self]
    rw [Queue.msgs_of_send hq, place_of_le hle, List.append_assoc]
  · rename_i hj
    have hi : 2 * j + 1 ≠ i := by omega
    simp [State.incoming, State.setQueue, hi]

/-- A send of the broadcast. -/
lemma Arrivals.cast (h : Arrivals s) {k i : ℕ} {t : Thread} {text : List UInt8}
    {q : Queue Msg.prio maxMsg} (hodd : i % 2 = 1) (hnext : (s.thread k).pc.next = some i)
    (hgot : (s.thread k).got ∈ s.handled k) (hslot : (s.thread k).got.slot = k)
    (hprio : (s.thread k).got.prio = prioRegularMsg)
    (hq : (s.ques i).send ((s.thread k).copy text) = some q) (ht : t.pc.next = some (i + 2))
    (htgot : t.got = (s.thread k).got) : Arrivals ((s.setQueue i q).setThread k t) := by
  have hin := incoming_cast h hodd rfl hq
  have hnew : ∀ {j x}, x ∈ (s.setQueue i q).incoming j → x ∈ s.incoming j ∨
      j = i / 2 ∧ x = (s.thread k).copy text := fun {j x} hx => by
    rw [hin] at hx
    split at hx
    · rcases List.mem_append.mp hx with hx | hx
      · exact Or.inl hx
      · exact Or.inr ⟨‹_›, List.mem_singleton.mp hx⟩
    · exact Or.inl hx
  refine ⟨fun j x hx => ?_, fun j x hx => ?_, fun j l i' hnext' hle x hx hxl => ?_, fun j => ?_⟩
  · rcases hnew hx with hx | ⟨-, rfl⟩
    · exact h.regular j x hx
    · rfl
  · rcases hnew hx with hx | ⟨-, rfl⟩
    · exact h.handled j x hx
    · exact ⟨(s.thread k).got, by rwa [Thread.copy, hslot], hprio, rfl⟩
  · rw [setThread_thread] at hnext' ⊢
    by_cases hl : l = k
    · rw [if_pos hl] at hnext' ⊢
      obtain rfl := Option.some.inj (ht.symm.trans hnext')
      rcases hnew hx with hx | ⟨hj, -⟩
      · rw [htgot]
        exact h.fresh j k i hnext (by omega) x hx (hxl.trans hl)
      · omega
    · rw [if_neg hl] at hnext' ⊢
      rcases hnew hx with hx | ⟨-, rfl⟩
      · exact h.fresh j l i' hnext' hle x hx hxl
      · exact absurd (hxl.symm.trans hslot) hl
  · show ((s.setQueue i q).incoming j).Pairwise _
    rw [hin]
    split
    · refine List.pairwise_append.mpr ⟨h.increasing j, List.pairwise_singleton _ _, ?_⟩
      intro x hx y hy hxy
      obtain rfl := List.mem_singleton.mp hy
      exact h.fresh j k i hnext (by omega) x hx (hxy.trans hslot)
    · exact h.increasing j

/-- The message a thread is sending on: handled last, regular, its own client's. -/
lemma got_of_next (hkept : Kept s) (hfaithful : Faithful cfg s)
    (hwalk : ∀ k, (s.thread k).Walk cfg k) {k i : ℕ} (hnext : (s.thread k).pc.next = some i) :
    (s.thread k).got ∈ s.handled k ∧ (s.thread k).got.slot = k ∧
      (s.thread k).got.prio = prioRegularMsg := by
  have hpast : (s.thread k).pc.past := by
    cases hpc : (s.thread k).pc <;> simp [hpc, Pc.next] at hnext <;> rfl
  obtain ⟨before, hlog, -, hprio⟩ := (hfaithful k).past hpast
  have hmem : (s.thread k).got ∈ s.handled k := by simp [hlog]
  obtain ⟨n, hn⟩ := List.mem_iff_getElem?.mp (hkept.sent_of_handled hmem)
  exact ⟨hmem, ((hkept.recorded k).stamped n _ hn).2, hprio ▸ (hwalk k).regular i hnext⟩

theorem arrivals_step {a : Action} (hkept : Kept s) (hfaithful : Faithful cfg s)
    (hwalk : ∀ k, (s.thread k).Walk cfg k) (h : Arrivals s) (hstep : step cfg s a = some s') :
    Arrivals s' := by
  have hnone : ∀ {k : ℕ} {t : Thread}, t.pc.next = none → ∀ j i, t.pc.next = some i →
      i ≤ 2 * j + 1 → ∀ x ∈ s.incoming j, x.slot = k → x.no < t.got.no :=
    fun hn j i hi => by simp [hn] at hi
  cases moves_of_step hstep with
  | @control k pc mutex hc =>
      refine h.thread rfl (fun _ => rfl) (fun _ _ hy => hy) fun j i hnext hle => ?_
      obtain ⟨i', hi', hle'⟩ := hc.next hnext
      exact h.fresh j k i' hi' (hle'.trans hle)
  | receive hpc hq =>
      exact h.thread rfl (incoming_setQueue _ _) (fun _ _ hy => hy) (hnone rfl)
  | service hpc hprio hu =>
      obtain ⟨info, count, rfl⟩ := service_frame hu
      exact h.thread rfl (fun _ => rfl) (fun _ _ hy => mem_markHandled hy) (hnone rfl)
  | @regular k text hpc hprio htext =>
      refine h.thread rfl (fun _ => rfl) (fun _ _ hy => mem_markHandled hy) ?_
      intro j i _ _ x hx hslot
      have hholds : (s.thread k).pc.holds := by rw [hpc]; rfl
      have hgot : (s.thread k).got.prio = prioRegularMsg :=
        ((hfaithful k).holds hholds).2 ▸ hprio
      obtain ⟨y, hy, hyprio, hno⟩ := h.handled j x hx
      exact hno ▸ hkept.lt_inHand hholds hgot (hslot ▸ hy) hyprio
  | other hpc hservice hregular =>
      exact h.thread rfl (fun _ => rfl) (fun _ _ hy => mem_markHandled hy) (hnone rfl)
  | loopEnd hpc hi => exact h.thread rfl (fun _ => rfl) (fun _ _ hy => hy) (hnone rfl)
  | @cast k i text q hpc htext hq =>
      have hnext : (s.thread k).pc.next = some i := by rw [hpc]; rfl
      obtain ⟨hgot, hslot, hprio⟩ := got_of_next hkept hfaithful hwalk hnext
      exact h.cast ((hwalk k).visits i hnext).1 hnext hgot hslot hprio hq rfl rfl
  | @castFull k i text hpc htext hq =>
      refine h.thread rfl (fun _ => rfl) (fun _ _ hy => hy) fun j i' hnext hle => ?_
      obtain rfl := Option.some.inj hnext
      exact h.fresh j k i (by rw [hpc]; rfl) (by omega)
  | clear hpc => exact h.thread rfl (fun _ => rfl) (fun _ _ hy => hy) (hnone rfl)
  | leave ha => exact h.client hstep ha
  | nothing _ => exact h
  | _ => exact h.client hstep nofun

lemma arrivals_of_reach {ok : State → Action → Prop}
    (h : Reach (step cfg) ok (init cfg) s) : Arrivals s := by
  refine h.invariant_along (arrivals_init cfg) fun u a v hu harrivals _ hstep => ?_
  obtain ⟨hkept, hfaithful⟩ := faithful_of_reach hu
  exact arrivals_step hkept hfaithful (walk_of_reach hu) harrivals hstep

/-! ## Complete broadcasts -/

/-- What the guard asks of a thread about to execute `pc`. -/
def RoomyAt (s : State) (k : ℕ) : Pc → Prop
  | .receive => ∀ m ∈ (s.ques (2 * k)).msgs.head?, m.prio = prioRegularMsg →
      (s.thread k).msgBuff[m.text.length]? = some 0
  | .send i => (s.clientsInfo (i / 2)).flagConnect = 1 → (s.ques i).msgs.length < maxMsg
  | _ => True

instance (s : State) (k : ℕ) : (pc : Pc) → Decidable (RoomyAt s k pc)
  | .receive => inferInstanceAs (Decidable (∀ m ∈ (s.ques (2 * k)).msgs.head?,
      m.prio = prioRegularMsg → (s.thread k).msgBuff[m.text.length]? = some 0))
  | .send i => inferInstanceAs
      (Decidable ((s.clientsInfo (i / 2)).flagConnect = 1 → (s.ques i).msgs.length < maxMsg))
  | .head | .trylock | .retry | .unlock | .handle | .forTest _ | .lock _ | .release _
  | .clear | .exited => .isTrue trivial

/-- The guard: a send to a connected client finds room, and a text is received in front of a
NUL. -/
def Roomy (s : State) : Action → Prop
  | .thread k => RoomyAt s k (s.thread k).pc
  | _ => True

instance (s : State) : (a : Action) → Decidable (Roomy s a)
  | .thread k => inferInstanceAs (Decidable (RoomyAt s k _))
  | .stop | .start _ _ | .say _ _ | .quit _ | .finish _ | .kill _ | .take _ => .isTrue trivial

/-- The text a thread has taken is what it passes on, and what it has passed on to a connected
client is there. -/
structure Passing (s : State) : Prop where
  text : ∀ k, (s.thread k).pc.holds ∨ (s.thread k).pc.past →
    (s.thread k).prio = prioRegularMsg →
      stringAt (s.thread k).msgBuff 0 = some (s.thread k).got.text
  reached : ∀ k, (s.thread k).pc.past → (s.thread k).prio = prioRegularMsg →
    ∀ j, (j, true) ∈ (s.thread k).visits → (s.thread k).got ∈ s.incoming j

lemma passing_init (cfg : Config) : Passing (init cfg) :=
  ⟨fun _ h => by simp [init, Pc.holds, Pc.past] at h, fun _ h => by simp [init, Pc.past] at h⟩

/-- A payload received in front of a NUL is the string in the buffer. -/
lemma stringAt_received {buff text : List UInt8} (hnul : 0 ∉ text)
    (hbyte : buff[text.length]? = some 0) : stringAt (received buff text) 0 = some text := by
  obtain ⟨hlt, hzero⟩ := List.getElem?_eq_some_iff.mp hbyte
  refine stringAt_eq_some_iff.mpr ⟨hnul, buff.drop (text.length + 1), ?_⟩
  rw [List.drop_zero, received, List.drop_eq_getElem_cons hlt, hzero]

/-- A step of thread `k`, as far as the others are concerned. -/
lemma Passing.thread (h : Passing s) {k : ℕ} {t : Thread} {u : State}
    (hthread : u.thread = s.thread) (hincoming : ∀ j, ∀ x ∈ s.incoming j, x ∈ u.incoming j)
    (htext : t.pc.holds ∨ t.pc.past → t.prio = prioRegularMsg →
      stringAt t.msgBuff 0 = some t.got.text)
    (hreached : t.pc.past → t.prio = prioRegularMsg →
      ∀ j, (j, true) ∈ t.visits → t.got ∈ u.incoming j) : Passing (u.setThread k t) := by
  refine ⟨fun l => ?_, fun l => ?_⟩
  · rw [setThread_thread]
    split
    · exact htext
    · exact hthread ▸ h.text l
  · rw [setThread_thread]
    split
    · exact hreached
    · intro hpast hprio j hj
      rw [hthread] at hpast hprio hj ⊢
      exact hincoming j _ (h.reached l hpast hprio j hj)

lemma Passing.client {a : Action} (h : Passing s) (hstep : step cfg s a = some s')
    (ha : ∀ k, a ≠ .thread k) : Passing s' := by
  obtain ⟨hthread, hincoming, -⟩ := client_frame hstep ha
  refine ⟨fun l => hthread ▸ h.text l, fun l hpast hprio j hj => ?_⟩
  rw [hthread] at hpast hprio hj ⊢
  exact hincoming j ▸ h.reached l hpast hprio j hj

theorem passing_step {a : Action} (hkept : Kept s) (hfaithful : Faithful cfg s)
    (hwalk : ∀ k, (s.thread k).Walk cfg k) (harrivals : Arrivals s) (h : Passing s)
    (hok : Roomy s a) (hstep : step cfg s a = some s') : Passing s' := by
  cases moves_of_step hstep with
  | @control k pc mutex hc =>
      obtain ⟨-, hholds, hpast⟩ := hc.zone hkept.locked
      exact h.thread rfl (fun _ _ hx => hx) (fun hz => h.text k (hz.imp hholds hpast))
        fun hz => h.reached k (hpast hz)
  | @receive k m q hpc hq =>
      have hqueue := Queue.msgs_of_receive hq
      have hbyte : m.prio = prioRegularMsg → (s.thread k).msgBuff[m.text.length]? = some 0 := by
        have hok' : RoomyAt s k (s.thread k).pc := hok
        rw [hpc] at hok'
        exact hok' m (by rw [hqueue]; rfl)
      have hnul : 0 ∉ m.text := (hkept.recorded k).noNul m ((hkept.perPriority k).mem_sent
        (List.mem_append_right _ (by rw [State.lane, hqueue]; exact List.mem_cons_self)))
      exact h.thread rfl (fun j x hx => by rwa [incoming_setQueue])
        (fun _ hr => stringAt_received hnul (hbyte hr)) (by simp [Pc.past])
  | @service k u hpc hprio hu =>
      obtain ⟨info, count, rfl⟩ := service_frame hu
      have hholds : (s.thread k).pc.holds := by rw [hpc]; rfl
      refine h.thread rfl (fun _ _ hx => hx) (fun _ => h.text k (Or.inl hholds)) fun _ hr => ?_
      exact absurd (hprio.symm.trans hr) (by decide)
  | @regular k text hpc hprio htext =>
      have hholds : (s.thread k).pc.holds := by rw [hpc]; rfl
      exact h.thread rfl (fun _ _ hx => hx) (fun _ => h.text k (Or.inl hholds))
        (by simp [Pc.past])
  | @other k hpc hservice hregular =>
      have hholds : (s.thread k).pc.holds := by rw [hpc]; rfl
      exact h.thread rfl (fun _ _ hx => hx) (fun _ => h.text k (Or.inl hholds))
        fun _ hr => absurd hr hregular
  | @loopEnd k i hpc hi =>
      have hpast : (s.thread k).pc.past := by rw [hpc]; rfl
      exact h.thread rfl (fun _ _ hx => hx) (fun _ => h.text k (Or.inr hpast))
        fun _ => h.reached k hpast
  | @cast k i text q hpc htext hq =>
      have hpast : (s.thread k).pc.past := by rw [hpc]; rfl
      have hnext : (s.thread k).pc.next = some i := by rw [hpc]; rfl
      obtain ⟨-, -, hprio⟩ := got_of_next hkept hfaithful hwalk hnext
      have hregular := (hwalk k).regular i hnext
      have hin := incoming_cast harrivals ((hwalk k).visits i hnext).1 rfl hq
      have hmono : ∀ j, ∀ x ∈ s.incoming j, x ∈ (s.setQueue i q).incoming j := fun j x hx => by
        rw [hin]
        split
        · exact List.mem_append_left _ hx
        · exact hx
      -- the copy is the message itself
      have hcopy : (s.thread k).copy text = (s.thread k).got := by
        obtain rfl := Option.some.inj (htext.symm.trans (h.text k (Or.inr hpast) hregular))
        rw [Thread.copy, ← hprio]
      refine h.thread rfl hmono (fun _ => h.text k (Or.inr hpast)) fun _ hr j hj => ?_
      rcases List.mem_append.mp hj with hj | hj
      · exact hmono j _ (h.reached k hpast hr j hj)
      · obtain rfl : j = i / 2 := (Prod.mk.inj (List.mem_singleton.mp hj)).1
        show (s.thread k).got ∈ (s.setQueue i q).incoming (i / 2)
        rw [hin, if_pos rfl, hcopy]
        exact List.mem_append_right _ (List.mem_singleton_self _)
  | @castFull k i text hpc htext hq =>
      have hpast : (s.thread k).pc.past := by rw [hpc]; rfl
      refine h.thread rfl (fun _ _ hx => hx) (fun _ => h.text k (Or.inr hpast)) fun _ hr j hj => ?_
      rcases List.mem_append.mp hj with hj | hj
      · exact h.reached k hpast hr j hj
      · have hconn := (Prod.mk.inj (List.mem_singleton.mp hj)).2
        have hroom : RoomyAt s k (s.thread k).pc := hok
        rw [hpc] at hroom
        have hlt := hroom (of_decide_eq_true hconn.symm)
        exact absurd (Queue.send_eq_none_iff.mp hq) hlt.ne
  | clear hpc =>
      exact h.thread rfl (fun _ _ hx => hx) (by simp [Pc.holds, Pc.past]) (by simp [Pc.past])
  | leave ha => exact h.client hstep ha
  | nothing _ => exact h
  | _ => exact h.client hstep (by simp)

lemma passing_of_reach (h : Reach (step cfg) Roomy (init cfg) s) : Passing s := by
  refine h.invariant_along (passing_init cfg) fun u a v hu hpassing hok hstep => ?_
  obtain ⟨hkept, hfaithful⟩ := faithful_of_reach hu
  exact passing_step hkept hfaithful (walk_of_reach hu) (arrivals_of_reach hu) hpassing hok hstep

/-- The broadcast of thread `k` at its end: the loop has come to every other slot once, and the
clients that were connected then have been sent the message exactly once. -/
structure BroadcastDone (cfg : Config) (s : State) (k : ℕ) : Prop where
  everyone : (s.thread k).visits.map Prod.fst = (List.range cfg.maxClients).filter (· ≠ k)
  once : ∀ j, (j, true) ∈ (s.thread k).visits → (s.incoming j).filter (fun x =>
    x.slot = (s.thread k).got.slot ∧ x.no = (s.thread k).got.no) = [(s.thread k).got]

/-- In a list without two elements that satisfy `p`, one that does is the only one. -/
lemma filter_eq_singleton {α : Type*} {p : α → Bool} {l : List α} {a : α}
    (h : l.Pairwise fun x y => p x → p y → False) (ha : a ∈ l) (hp : p a = true) :
    l.filter p = [a] := by
  have hmem : a ∈ l.filter p := List.mem_filter.mpr ⟨ha, hp⟩
  have hpair : (l.filter p).Pairwise fun _ _ => False := List.pairwise_filter.mpr h
  cases hf : l.filter p with
  | nil => simp [hf] at hmem
  | cons b bs =>
      rw [hf] at hmem hpair
      cases bs with
      | nil => rw [List.mem_singleton.mp hmem]
      | cons c cs => exact ((List.pairwise_cons.mp hpair).1 c List.mem_cons_self).elim

/-- **Broadcasts are complete** in every run in which each send to a connected client finds
room and each text is received in front of a NUL. -/
theorem broadcast_complete (h : Reach (step cfg) Roomy (init cfg) s) {k : ℕ}
    (hpc : (s.thread k).pc = .clear) (hprio : (s.thread k).prio = prioRegularMsg) :
    BroadcastDone cfg s k := by
  have hwalk := walk_of_reach h
  have harrivals := arrivals_of_reach h
  have hpassing := passing_of_reach h
  refine ⟨(hwalk k).ended hpc hprio, fun j hj => ?_⟩
  have hgot := hpassing.reached k (by rw [hpc]; rfl) hprio j hj
  refine filter_eq_singleton ?_ hgot (by simp)
  refine (harrivals.increasing j).imp fun {x y} hxy hx hy => ?_
  simp only [decide_eq_true_eq] at hx hy
  have := hxy (hx.1.trans hy.1.symm)
  omega

/-- A text of client 0, up to the end of its broadcast. -/
def sayRound : List Action := .say 0 textA :: List.replicate 11 (.thread 0)

/-- Two clients connect, and client 0 sends `n + 1` texts while client 1 takes none. -/
def talk (n : ℕ) : List Action :=
  startHandled pid7 ++ .start 1 pid8 :: List.replicate 6 (.thread 1) ++
    (List.replicate n (sayRound ++ [.thread 0])).flatten ++ sayRound

theorem broadcast_complete_first_text : ∃ s,
    exec (step twoClients) (init twoClients) (talk 0) = some s ∧ BroadcastDone twoClients s 0 := by
  have hrun : Guarded (step twoClients) Roomy (init twoClients) (talk 0) = true := by
    decide +kernel
  have hend : (exec (step twoClients) (init twoClients) (talk 0)).map (fun s =>
      ((s.thread 0).pc, (s.thread 0).prio)) = some (.clear, prioRegularMsg) := by
    decide +kernel
  obtain ⟨s, hs, hreach⟩ := Reach.of_guarded hrun
  rw [hs] at hend
  obtain ⟨hpc, hprio⟩ := Prod.mk.inj (Option.some.inj hend)
  exact ⟨s, hs, broadcast_complete hreach hpc hprio⟩

/-- The eleventh text finds the queue of client 1 full. -/
theorem eleventh_text_lost :
    ¬ ∀ (cfg : Config) (s : State) (k : ℕ), 2 ≤ cfg.maxClients →
      Reach (step cfg) Anything (init cfg) s → (s.thread k).pc = .clear →
      (s.thread k).prio = prioRegularMsg → BroadcastDone cfg s k := by
  intro hclaim
  have hrun : (exec (step twoClients) (init twoClients) (talk 10)).map (fun s =>
      ((s.thread 0).pc, (s.thread 0).prio, decide ((1, true) ∈ (s.thread 0).visits),
        (s.thread 0).got.no, (s.incoming 1).map Msg.no)) =
      some (.clear, prioRegularMsg, true, 11, [1, 2, 3, 4, 5, 6, 7, 8, 9, 10]) := by
    decide +kernel
  obtain ⟨s, hs, hsummary⟩ := Option.map_eq_some_iff.mp hrun
  simp only [Prod.mk.injEq] at hsummary
  obtain ⟨hpc, hprio, hvisits, hgot, hin⟩ := hsummary
  have hdone := hclaim twoClients s 0 le_rfl (Reach.of_exec hs) hpc hprio
  have honce := hdone.once 1 (of_decide_eq_true hvisits)
  have hmem : (s.thread 0).got ∈ s.incoming 1 :=
    (List.mem_filter.mp (honce ▸ List.mem_singleton_self _)).1
  have hno : 11 ∈ (s.incoming 1).map Msg.no := hgot ▸ List.mem_map_of_mem hmem
  rw [hin] at hno
  exact absurd hno (by decide)

end QueueChat
end EltSummer
