import Mathlib.Data.List.Sort
import Mathlib.Tactic.Common

/-!
# POSIX message queues

A message queue holds at most `maxmsg` messages, the highest priority first and the oldest
first within one priority; the queue carries that order and that bound.  `send` and
`receive` are the non-blocking calls: `none` is the failure on a full and on an empty queue.

`Lane` follows one queue from the party that sends to the party that handles: what was
accepted, what waits, what has been taken out and is being looked at, what is done with.
Two laws hold of a lane.

* Within one priority the order of sending is the order of handling, whatever else is sent
  (`Lane.PerPriority`).
* Across priorities it is so as long as no message is sent while one of lower priority
  waits (`Lane.InOrder`).
-/

namespace PosixQueue

variable {M : Type*} {prio : M → ℕ} {maxmsg : ℕ}

/-! ## The queue -/

/-- A queue of messages with priorities `prio` and capacity `maxmsg`. -/
structure Queue (prio : M → ℕ) (maxmsg : ℕ) where
  msgs : List M
  ordered : msgs.Pairwise fun a b => prio b ≤ prio a
  bounded : msgs.length ≤ maxmsg

/-- The empty queue. -/
def Queue.empty (prio : M → ℕ) (maxmsg : ℕ) : Queue prio maxmsg := ⟨[], List.Pairwise.nil, by simp⟩

/-- `m` put behind the messages of its priority and above. -/
def place (prio : M → ℕ) (q : List M) (m : M) : List M :=
  q.orderedInsert (fun a b => prio b < prio a) m

lemma mem_place {q : List M} {m x : M} : x ∈ place prio q m ↔ x = m ∨ x ∈ q :=
  List.mem_orderedInsert _

lemma length_place (q : List M) (m : M) : (place prio q m).length = q.length + 1 :=
  List.orderedInsert_length _ q m

lemma ordered_place {q : List M} (h : q.Pairwise fun a b => prio b ≤ prio a) (m : M) :
    (place prio q m).Pairwise fun a b => prio b ≤ prio a := by
  induction q with
  | nil => exact List.pairwise_singleton _ _
  | cons b q ih =>
      obtain ⟨hb, hq⟩ := List.pairwise_cons.mp h
      by_cases hlt : prio b < prio m
      · rw [place, List.orderedInsert_cons, if_pos hlt]
        refine List.pairwise_cons.mpr ⟨fun x hx => ?_, h⟩
        rcases List.mem_cons.mp hx with rfl | hx
        · exact hlt.le
        · exact (hb x hx).trans hlt.le
      · rw [place, List.orderedInsert_cons, if_neg hlt]
        refine List.pairwise_cons.mpr ⟨fun x hx => ?_, ih hq⟩
        rcases mem_place.mp hx with rfl | hx
        · exact not_lt.mp hlt
        · exact hb x hx

/-- Behind messages of its own priority or above only, a message is the last. -/
lemma place_of_le {q : List M} {m : M} (h : ∀ x ∈ q, prio m ≤ prio x) :
    place prio q m = q ++ [m] := by
  induction q with
  | nil => rfl
  | cons b q ih =>
      have hb : ¬ prio b < prio m := not_lt.mpr (h b List.mem_cons_self)
      have hq := ih fun x hx => h x (List.mem_cons_of_mem b hx)
      rw [place, List.orderedInsert_cons, if_neg hb, List.cons_append]
      exact congrArg (b :: ·) hq

/-- Within one priority a new message is the last. -/
lemma filter_place {q : List M} (h : q.Pairwise fun a b => prio b ≤ prio a) (m : M) (c : ℕ) :
    (place prio q m).filter (prio · = c) = (q ++ [m]).filter (prio · = c) := by
  induction q with
  | nil => rfl
  | cons b q ih =>
      obtain ⟨hb, hq⟩ := List.pairwise_cons.mp h
      by_cases hlt : prio b < prio m
      · rw [place, List.orderedInsert_cons, if_pos hlt]
        by_cases hc : prio m = c
        · -- everything behind has a lower priority
          have hnone : (b :: q).filter (prio · = c) = [] := by
            refine List.filter_eq_nil_iff.mpr fun x hx => ?_
            have hle : prio x ≤ prio b := by
              rcases List.mem_cons.mp hx with rfl | hx
              · exact le_rfl
              · exact hb x hx
            simp only [decide_eq_true_eq]
            omega
          rw [List.filter_append, List.filter_cons, hnone]
          simp [hc]
        · simp [List.filter_append, List.filter_cons, hc]
      · rw [place, List.orderedInsert_cons, if_neg hlt, List.cons_append, List.filter_cons,
          List.filter_cons]
        have := ih hq
        rw [place] at this
        rw [this]

/-- `mq_send` on a non-blocking queue. -/
def Queue.send (q : Queue prio maxmsg) (m : M) : Option (Queue prio maxmsg) :=
  if h : q.msgs.length < maxmsg then
    some ⟨place prio q.msgs m, ordered_place q.ordered m, (length_place q.msgs m).le.trans h⟩
  else none

/-- `mq_receive` on a non-blocking queue. -/
def Queue.receive (q : Queue prio maxmsg) : Option (M × Queue prio maxmsg) :=
  match hq : q.msgs with
  | [] => none
  | m :: rest =>
      some (m, ⟨rest, (List.pairwise_cons.mp (hq ▸ q.ordered)).2, by
        have := q.bounded
        rw [hq, List.length_cons] at this
        omega⟩)

lemma Queue.msgs_of_send {q q' : Queue prio maxmsg} {m : M} (h : q.send m = some q') :
    q'.msgs = place prio q.msgs m := by
  unfold Queue.send at h
  split at h
  · exact (congrArg Queue.msgs (Option.some.inj h)).symm
  · simp at h

/-- `mq_send` succeeds exactly when there is room. -/
lemma Queue.send_eq_none_iff {q : Queue prio maxmsg} {m : M} :
    q.send m = none ↔ q.msgs.length = maxmsg := by
  unfold Queue.send
  split
  · rename_i h
    simpa using h.ne
  · rename_i h
    exact iff_of_true rfl (le_antisymm q.bounded (not_lt.mp h))

lemma Queue.msgs_of_receive {q q' : Queue prio maxmsg} {m : M}
    (h : q.receive = some (m, q')) : q.msgs = m :: q'.msgs := by
  unfold Queue.receive at h
  split at h
  · simp at h
  · rename_i hq
    obtain ⟨rfl, rfl⟩ := Prod.mk.inj (Option.some.inj h)
    exact hq

/-! ## From the sender to the handler -/

/-- One queue with the messages that went into it. -/
structure Lane (prio : M → ℕ) (maxmsg : ℕ) where
  sent : List M
  queue : Queue prio maxmsg
  inHand : List M
  handled : List M

namespace Lane

/-- What can happen to a lane. -/
inductive Move (l : Lane prio maxmsg) : Lane prio maxmsg → Prop
  | stay : Move l l
  | send {m : M} {q : Queue prio maxmsg} (hq : l.queue.send m = some q) :
      Move l { l with sent := l.sent ++ [m], queue := q }
  | receive {m : M} {q : Queue prio maxmsg} (hq : l.queue.receive = some (m, q))
      (hhand : l.inHand = []) : Move l { l with queue := q, inHand := [m] }
  | handle {m : M} (hhand : l.inHand = [m]) :
      Move l { l with inHand := [], handled := l.handled ++ [m] }

/-- Everything accepted, in the order in which it is and will be handled. -/
def flow (l : Lane prio maxmsg) : List M := l.handled ++ l.inHand ++ l.queue.msgs

/-- Within each priority messages are handled in the order in which they were sent. -/
def PerPriority (l : Lane prio maxmsg) : Prop :=
  ∀ c, l.flow.filter (prio · = c) = l.sent.filter (prio · = c)

/-- Messages are handled in the order in which they were sent. -/
def InOrder (l : Lane prio maxmsg) : Prop := l.flow = l.sent

/-- Only sending changes the flow. -/
lemma Move.flow {l l' : Lane prio maxmsg} (h : Move l l') :
    (l'.flow = l.flow ∧ l'.sent = l.sent) ∨ ∃ m, l'.sent = l.sent ++ [m] ∧
      l'.flow = l.handled ++ l.inHand ++ place prio l.queue.msgs m := by
  cases h with
  | stay => exact Or.inl ⟨rfl, rfl⟩
  | send hq => exact Or.inr ⟨_, rfl, by rw [Lane.flow, Queue.msgs_of_send hq]⟩
  | receive hq hhand =>
      refine Or.inl ⟨?_, rfl⟩
      rw [Lane.flow, Lane.flow, hhand, Queue.msgs_of_receive hq]
      simp
  | handle hhand =>
      refine Or.inl ⟨?_, rfl⟩
      rw [Lane.flow, Lane.flow, hhand]
      simp

theorem Move.perPriority {l l' : Lane prio maxmsg} (h : Move l l') (hl : l.PerPriority) :
    l'.PerPriority := by
  intro c
  rcases h.flow with ⟨hflow, hsent⟩ | ⟨m, hsent, hflow⟩
  · rw [hflow, hsent, hl c]
  · have hplace := filter_place l.queue.ordered m c
    calc l'.flow.filter (prio · = c)
        = (l.handled ++ l.inHand).filter (prio · = c) ++
            (l.queue.msgs ++ [m]).filter (prio · = c) := by
          rw [hflow, List.filter_append, hplace]
      _ = l.flow.filter (prio · = c) ++ [m].filter (prio · = c) := by
          simp only [Lane.flow, List.filter_append, List.append_assoc]
      _ = l'.sent.filter (prio · = c) := by rw [hl c, hsent, List.filter_append]

theorem Move.inOrder {l l' : Lane prio maxmsg} (h : Move l l') (hl : l.InOrder)
    (hle : ∀ m, l'.sent = l.sent ++ [m] → ∀ x ∈ l.queue.msgs, prio m ≤ prio x) :
    l'.InOrder := by
  rcases h.flow with ⟨hflow, hsent⟩ | ⟨m, hsent, hflow⟩
  · rw [InOrder, hflow, hsent, hl]
  · rw [InOrder, hflow, place_of_le (hle m hsent), ← List.append_assoc, hsent, ← hl, Lane.flow]

lemma InOrder.initial {l : Lane prio maxmsg} (h : l.InOrder) : l.handled <+: l.sent := by
  rw [← h, flow, List.append_assoc]
  exact List.prefix_append _ _

/-- Within one priority the handled messages come first. -/
lemma PerPriority.initial {l : Lane prio maxmsg} (h : l.PerPriority) (c : ℕ) :
    l.handled.filter (prio · = c) <+: l.sent.filter (prio · = c) := by
  rw [← h c, flow, List.append_assoc, List.filter_append]
  exact List.prefix_append _ _

/-- What is in the flow was sent. -/
lemma PerPriority.mem_sent {l : Lane prio maxmsg} (h : l.PerPriority) {m : M}
    (hm : m ∈ l.flow) : m ∈ l.sent := by
  have : m ∈ l.flow.filter (prio · = prio m) := List.mem_filter.mpr ⟨hm, by simp⟩
  rw [h] at this
  exact (List.mem_filter.mp this).1

end Lane

end PosixQueue
