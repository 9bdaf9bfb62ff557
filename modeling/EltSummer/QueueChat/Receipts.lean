import EltSummer.QueueChat.Broadcast
import Mathlib.Data.List.Sort
import Mathlib.Data.Nat.Basic

/-!
# What a client receives

What client `j` takes from its queue are copies of regular messages that server threads have
handled.  `Arrivals` already has the copies of one sender in increasing order; here each copy
is traced back to the message it was made from (`Copies`), with its text: the text that was
sent, behind which only the first message of a thread may carry bytes from the stack.

Numbers in increasing order that all occur among the numbers of the regular messages sent are
a subsequence of them.  So each client takes the messages of each other client in the order
in which they were sent and at most once, and never its own (`delivered_in_order`), whatever
sends have failed on the way.
-/

namespace EltSummer
namespace QueueChat

open Interleaving PosixQueue CString

variable {cfg : Config} {s s' : State}

/-! ## Copies -/

/-- `x` is a copy of the regular message `y`, which its thread handled after `before`. -/
structure CopyOf (cfg : Config) (x y : Msg) (before : List Msg) : Prop where
  regular : y.prio = prioRegularMsg
  no : y.no = x.no
  text : stringAt (received (bufferBefore cfg x.slot before) y.text) 0 = some x.text

/-- Everything that arrives is a copy of a handled message of another slot. -/
structure Copies (cfg : Config) (s : State) : Prop where
  copy : ∀ j, ∀ x ∈ s.incoming j, ∃ before y after,
    s.handled x.slot = before ++ y :: after ∧ CopyOf cfg x y before
  foreign : ∀ j, ∀ x ∈ s.incoming j, x.slot ≠ j

lemma copies_init (cfg : Config) : Copies cfg (init cfg) := by
  refine ⟨?_, ?_⟩ <;> simp [State.incoming, init, Queue.empty]

/-- A step that puts nothing into the clients' queues. -/
lemma Copies.frame (h : Copies cfg s) (hincoming : ∀ j, s'.incoming j = s.incoming j)
    (hhandled : ∀ k, s.handled k <+: s'.handled k) : Copies cfg s' := by
  refine ⟨fun j x hx => ?_, fun j x hx => h.foreign j x (hincoming j ▸ hx)⟩
  obtain ⟨before, y, after, hlog, hcopy⟩ := h.copy j x (hincoming j ▸ hx)
  obtain ⟨rest, hrest⟩ := hhandled x.slot
  exact ⟨before, y, after ++ rest, by rw [← hrest, hlog]; simp, hcopy⟩

lemma markHandled_extends (k : ℕ) (m : Msg) (l : ℕ) :
    s.handled l <+: (s.markHandled k m).handled l := by
  by_cases hl : l = k
  · subst hl
    simp [State.markHandled]
  · simp [State.markHandled, hl]

/-- A send of the broadcast puts one more copy into one queue. -/
lemma Copies.cast (hfaithful : Faithful cfg s) (hwalk : ∀ k, (s.thread k).Walk cfg k)
    (hkept : Kept s) (harrivals : Arrivals s) (h : Copies cfg s) {k i : ℕ} {t : Thread}
    {text : List UInt8} {q : Queue Msg.prio maxMsg} (hpc : (s.thread k).pc = .send i)
    (htext : stringAt (s.thread k).msgBuff 0 = some text)
    (hq : (s.ques i).send ((s.thread k).copy text) = some q) :
    Copies cfg ((s.setQueue i q).setThread k t) := by
  have hnext : (s.thread k).pc.next = some i := by rw [hpc]; rfl
  have hodd := ((hwalk k).visits i hnext).1
  obtain ⟨-, hown⟩ := (hwalk k).target i (by rw [hpc]; rfl)
  obtain ⟨-, hslot, hprio⟩ := got_of_next hkept hfaithful hwalk hnext
  have hin : ∀ {j x}, x ∈ (s.setQueue i q).incoming j → x ∈ s.incoming j ∨
      j = i / 2 ∧ x = (s.thread k).copy text := by
    intro j x hx
    rw [incoming_cast harrivals hodd rfl hq] at hx
    split at hx
    · rename_i hj
      rcases List.mem_append.mp hx with hx | hx
      · exact Or.inl hx
      · exact Or.inr ⟨hj, List.mem_singleton.mp hx⟩
    · exact Or.inl hx
  constructor
  · intro j x hx
    rcases hin hx with hx | ⟨-, rfl⟩
    · exact h.copy j x hx
    · obtain ⟨before, hlog, hbuff, -⟩ := (hfaithful k).past (by rw [hpc]; rfl)
      have hcopy : ((s.thread k).copy text).slot = k := hslot
      refine ⟨before, (s.thread k).got, [], by rw [hcopy]; exact hlog, hprio, rfl, ?_⟩
      rw [hcopy, ← hbuff]
      exact htext
  · intro j x hx
    rcases hin hx with hx | ⟨rfl, rfl⟩
    · exact h.foreign j x hx
    · intro hj
      have : k = i / 2 := hslot.symm.trans hj
      omega

theorem copies_step {a : Action} (hkept : Kept s) (hfaithful : Faithful cfg s)
    (hwalk : ∀ k, (s.thread k).Walk cfg k) (harrivals : Arrivals s) (h : Copies cfg s)
    (hstep : step cfg s a = some s') : Copies cfg s' := by
  have hquiet : ∀ {k : ℕ} {t : Thread}, Copies cfg (s.setThread k t) :=
    h.frame (fun _ => rfl) fun _ => List.prefix_refl _
  have hmarks : ∀ {k : ℕ} {m : Msg} {t : Thread}, Copies cfg ((s.markHandled k m).setThread k t) :=
    h.frame (fun _ => rfl) (markHandled_extends _ _)
  have hclient : (∀ k, a ≠ .thread k) → Copies cfg s' := fun ha => by
    obtain ⟨-, hincoming, hhandled⟩ := client_frame hstep ha
    exact h.frame hincoming fun k => by rw [hhandled]
  cases moves_of_step hstep with
  | control hc => exact h.frame (fun _ => rfl) fun _ => List.prefix_refl _
  | @receive k m q hpc hq =>
      exact h.frame (incoming_setQueue (s := s) k q) fun _ => List.prefix_refl _
  | service hpc hprio hu =>
      obtain ⟨info, count, rfl⟩ := service_frame hu
      exact h.frame (fun _ => rfl) (markHandled_extends _ _)
  | regular hpc hprio htext => exact hmarks
  | other hpc hservice hregular => exact hmarks
  | loopEnd hpc hi => exact hquiet
  | cast hpc htext hq => exact Copies.cast hfaithful hwalk hkept harrivals h hpc htext hq
  | castFull hpc htext hq => exact hquiet
  | clear hpc => exact hquiet
  | leave ha => exact hclient ha
  | nothing _ => exact h
  | _ => exact hclient nofun

lemma copies_of_reach {ok : State → Action → Prop} (h : Reach (step cfg) ok (init cfg) s) :
    Copies cfg s := by
  refine h.invariant_along (copies_init cfg) fun u a v hu hcopies _ hstep => ?_
  obtain ⟨hkept, hfaithful⟩ := faithful_of_reach hu
  exact copies_step hkept hfaithful (walk_of_reach hu) (arrivals_of_reach hu) hcopies hstep

/-! ## Texts -/

/-- What a slot sends fits a server thread's buffer with its NUL. -/
lemma Desk.Move.fits {k : ℕ} {d d' : Desk} (hmove : d.Move k d')
    (h : ∀ m ∈ d.sent, m.text.length < qSize) : ∀ m ∈ d'.sent, m.text.length < qSize := by
  have hpid : ∀ pid : Pid, (decimal pid.val).length < qSize := fun pid => by
    have := length_decimal_le pid.isInt
    unfold qSize
    omega
  have hconcat : ∀ {x : Msg}, x.text.length < qSize →
      ∀ m ∈ d.sent ++ [x], m.text.length < qSize := by
    intro x hx m hm
    rcases List.mem_append.mp hm with hm | hm
    · exact h m hm
    · rwa [List.mem_singleton.mp hm]
  cases hmove with
  | stay => exact h
  | start hclient => exact hconcat (hpid _)
  | @say text hclient => exact hconcat text.fits
  | quit hclient hx => exact hconcat (hpid _)
  | quitFull hclient => exact h
  | leave => exact h

lemma fits_of_reach {ok : State → Action → Prop} (h : Reach (step cfg) ok (init cfg) s) (k : ℕ) :
    ∀ m ∈ s.sent k, m.text.length < qSize :=
  h.invariant (I := fun u => ∀ m ∈ (u.desk k).sent, m.text.length < qSize)
    (by simp [State.desk, init]) fun _ _ _ hI _ hstep => (desk_move hstep k).fits hI

/-- A copy begins with the text of its message. -/
lemma CopyOf.prefix_text {x y : Msg} {before : List Msg} (h : CopyOf cfg x y before)
    (hnul : 0 ∉ y.text) : y.text <+: x.text := by
  obtain ⟨hx, rest, hrest⟩ := stringAt_eq_some_iff.mp h.text
  rw [List.drop_zero, received] at hrest
  refine List.prefix_of_prefix_length_le ⟨_, hrest⟩ ⟨_, rfl⟩ ?_
  by_contra hlong
  -- the NUL behind the copy's text would lie in the message
  have hzero : (y.text ++ (bufferBefore cfg x.slot before).drop y.text.length)[x.text.length]? =
      some 0 := by
    rw [hrest]
    simp
  rw [List.getElem?_append_left (by omega)] at hzero
  exact hnul (List.mem_of_getElem? hzero)

/-- Behind the first message of the thread, a copy has the text of its message. -/
lemma CopyOf.text_eq {x y : Msg} {before : List Msg} (h : CopyOf cfg x y before)
    (hnul : 0 ∉ y.text) (hfits : y.text.length < qSize) (hlater : before ≠ []) :
    x.text = y.text := by
  have hbyte : (bufferBefore cfg x.slot before)[y.text.length]? = some 0 := by
    rw [bufferBefore, if_neg hlater, List.getElem?_replicate, if_pos hfits]
  exact Option.some.inj (h.text.symm.trans (stringAt_received hnul hbyte))

/-! ## Deliveries -/

/-- What client `j` has taken from client `i`, against what client `i` has sent.  A message is
identified by its number, which is its place among what its slot has sent. -/
structure Delivery (s : State) (i j : ℕ) : Prop where
  numbered : (s.sent i).map Msg.no = List.range (s.sent i).length
  inOrder : (((s.taken j).filter (·.slot = i)).map Msg.no).Sublist
    (((s.sent i).filter (·.prio = prioRegularMsg)).map Msg.no)
  notOwn : ∀ x ∈ s.taken j, x.slot ≠ j
  text : ∀ x ∈ s.taken j, x.slot = i → ∃ y ∈ s.sent i, y.no = x.no ∧ y.text <+: x.text ∧
    ((s.handled i).head? ≠ some y → x.text = y.text)

lemma Kept.numbered (h : Kept s) (k : ℕ) :
    (s.sent k).map Msg.no = List.range (s.sent k).length := by
  refine List.ext_getElem (by simp) fun n hn _ => ?_
  rw [List.getElem_map, List.getElem_range]
  exact ((h.recorded k).stamped n _ (List.getElem?_eq_getElem _)).1

/-- Increasing numbers out of increasing numbers are a subsequence of them. -/
lemma sublist_of_increasing {l l' : List ℕ} (hl : l.Pairwise (· < ·)) (hl' : l'.Pairwise (· < ·))
    (hsub : l ⊆ l') : l.Sublist l' := by
  have hnodup : l.Nodup := hl.imp fun h => h.ne
  exact List.sublist_of_subperm_of_pairwise (hnodup.subperm hsub)
    (hl.imp fun h => h.le) (hl'.imp fun h => h.le)

/-- **Delivery in order.**  In every state of every run: what client `j` has taken from client
`i` is a subsequence of the regular messages client `i` has put into its queue, in the same
order and each at most once, and nothing of it comes from `j` itself. -/
theorem delivered_in_order (h : Reach (step cfg) Anything (init cfg) s) (i j : ℕ) :
    Delivery s i j := by
  obtain ⟨hkept, hfaithful⟩ := faithful_of_reach h
  have harrivals := arrivals_of_reach h
  have hcopies := copies_of_reach h
  have htaken : ∀ {x}, x ∈ s.taken j → x ∈ s.incoming j := fun hx => List.mem_append_left _ hx
  refine ⟨hkept.numbered i, sublist_of_increasing ?_ ?_ fun n hn => ?_,
    fun x hx => hcopies.foreign j x (htaken hx), fun x hx hslot => ?_⟩
  · rw [List.pairwise_map]
    have hpair := (List.pairwise_append.mp (harrivals.increasing j)).1.filter (·.slot = i)
    refine hpair.imp_of_mem fun {x y} hx hy hxy => hxy ?_
    rw [of_decide_eq_true (List.mem_filter.mp hx).2, of_decide_eq_true (List.mem_filter.mp hy).2]
  · refine List.Pairwise.sublist (List.filter_sublist.map _) ?_
    rw [hkept.numbered i]
    exact List.pairwise_lt_range
  · obtain ⟨x, hx, rfl⟩ := List.mem_map.mp hn
    obtain ⟨htake, hslot⟩ := List.mem_filter.mp hx
    obtain rfl := of_decide_eq_true hslot
    obtain ⟨before, y, after, hlog, hcopy⟩ := hcopies.copy j x (htaken htake)
    have hy : y ∈ s.sent x.slot := hkept.sent_of_handled (by simp [hlog])
    rw [← hcopy.no]
    exact List.mem_map_of_mem (List.mem_filter.mpr ⟨hy, by simpa using hcopy.regular⟩)
  · subst hslot
    obtain ⟨before, y, after, hlog, hcopy⟩ := hcopies.copy j x (htaken hx)
    have hy : y ∈ s.sent x.slot := hkept.sent_of_handled (by simp [hlog])
    have hnul := (hkept.recorded x.slot).noNul y hy
    refine ⟨y, hy, hcopy.no, hcopy.prefix_text hnul, fun hfirst => ?_⟩
    refine hcopy.text_eq hnul (fits_of_reach h x.slot y hy) fun hnil => hfirst ?_
    rw [hlog, hnil]
    rfl

/-- Client 1 takes two texts of client 0. -/
theorem delivered_in_order_two_texts : ∃ s,
    exec (step twoClients) (init twoClients) (talk 1 ++ [.take 1, .take 1]) = some s ∧
      (s.taken 1).map Msg.no = [1, 2] ∧ Delivery s 0 1 := by
  have hrun : (exec (step twoClients) (init twoClients) (talk 1 ++ [.take 1, .take 1])).map
      (fun s => (s.taken 1).map Msg.no) = some [1, 2] := by
    decide +kernel
  obtain ⟨s, hs, htaken⟩ := Option.map_eq_some_iff.mp hrun
  exact ⟨s, hs, htaken, delivered_in_order (Reach.of_exec hs) 0 1⟩

end QueueChat
end EltSummer
