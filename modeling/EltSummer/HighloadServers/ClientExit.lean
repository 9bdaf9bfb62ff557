import EltSummer.HighloadServers.ClientContacts

/-!
# How the one-thread-per-client servers exit

The exit status tests `error_flag`, which several threads count up without a lock, so that counts
can be lost; but not all of them (`RacyCounter`).  So the status is right (`exit_status`), while the
number of clients that is printed may be too small.  The TCP server closes a connection in its
thread, and one for which no thread could be created not at all (`connections_closed`).
-/

namespace EltSummer
namespace ClientThreads

open Block Interleaving RacyCounter Function
open ThreadPerClient (Server Config Create created)

variable {srv : Server} {cfg : Config} {w : Worker srv} {s s' : State srv} {k : ℕ}

/-! ## The counters -/

/-- The step is a call that has failed and that the program counts. -/
def Action.fails (w : Worker srv) : Action srv → Bool
  | .main o => o.fails
  | .client _ r => r.fails w
  | _ => false

/-- The step is an answer that has been sent. -/
def Action.sent : Action srv → Bool
  | .client _ r => r.sent
  | _ => false

/-- A step begins to count what it is. -/
lemma step_begun {a : Action srv} (hstep : step cfg w s a = some s') :
    s'.errorFlag.begun = s.errorFlag.begun + (a.fails w).toNat ∧
      s'.clientsConnectedCount.begun = s.clientsConnectedCount.begun + a.sent.toNat := by
  obtain ⟨-, ⟨o, rfl, -, hmove⟩ | ⟨k, r, calls, pc, rfl, -, hmove⟩ | ⟨ha, hmove⟩⟩ :=
    step_cases hstep
  · obtain ⟨herror, hcount⟩ := hmove.counters
    refine ⟨?_, by rw [hcount]; rfl⟩
    rw [herror, Action.fails]
    cases o.fails <;> rfl
  · rw [hmove.errorFlag, hmove.clientsConnectedCount, Action.fails, Action.sent]
    constructor
    · cases r.fails w <;> rfl
    · cases r.sent <;> rfl
  · have hnone : a.fails w = false ∧ a.sent = false := by
      rcases ha with ⟨word, rfl⟩ | ⟨thread, rfl⟩ <;> exact ⟨rfl, rfl⟩
    rw [hnone.1, hnone.2]
    constructor
    · rcases hmove.errorFlag with heq | ⟨thread, hgo⟩
      · rw [heq]
        rfl
      · exact (go_cases hgo).2.1
    · rcases hmove.clientsConnectedCount with heq | ⟨thread, hgo⟩
      · rw [heq]
        rfl
      · exact (go_cases hgo).2.1

/-- What `main` leaves behind. -/
structure Ended (s : State srv) (success : Bool) : Prop where
  success : success = decide (s.errorFlag.value = 0)
  printed : s.printed = some s.clientsConnectedCount.value
  errorFlag : s.errorFlag.inside = ∅
  clientsConnectedCount : s.clientsConnectedCount.inside = ∅

lemma endTurn_not_exited (s : State srv) (cfg : Config) (turn : ThreadPerClient.Turn srv)
    (mem : ThreadPerClient.State srv) (success : Bool) :
    (s.endTurn cfg turn mem).mainPc ≠ .exited success := by
  intro hpc
  have hjoined := (endTurn_pc s cfg turn mem).1
  rw [hpc] at hjoined
  cases hjoined

/-- `main` exits when no thread is inside an `x++`. -/
lemma ended_of_step {a : Action srv} {success : Bool} (alive : Alive s)
    (hstep : step cfg w s a = some s') (hpc : s'.mainPc = .exited success) : Ended s' success := by
  obtain ⟨hend, ⟨o, rfl, hcounts, hmove⟩ | ⟨k, r, calls, pc, rfl, -, hmove⟩ | ⟨-, hmove⟩⟩ :=
    step_cases hstep
  · obtain ⟨-, hcount⟩ := hmove.counters
    cases hmove with
    | control hc =>
        obtain ⟨hsuccess, hprinted, herror⟩ := hc.ended success hpc
        have hjoined : s.mainPc.joined = true := by
          have hadvance := hc.pc
          rw [hpc] at hadvance
          generalize s.mainPc = from' at hadvance
          cases hadvance
          rfl
        have hout (thread : Option ℕ) : ¬ s.counts thread = true := by
          cases thread with
          | none => exact hcounts
          | some k =>
              intro hk
              have hdone := alive.joined hjoined k
              rw [alive.counts k hk] at hdone
              cases hdone
        refine ⟨by rw [hsuccess, herror], by rw [hprinted, hcount], ?_, ?_⟩
        · rw [herror]
          exact Finset.eq_empty_of_forall_notMem fun t => (not_mem_of_counts (hout t)).1
        · rw [hcount]
          exact Finset.eq_empty_of_forall_notMem fun t => (not_mem_of_counts (hout t)).2
    | @refused r => exact absurd hpc (endTurn_not_exited s cfg (.refused r) s.mem success)
    | @misses c mem =>
        exact absurd hpc (endTurn_not_exited s cfg (.called c (.fails 0)) mem success)
    | brings => cases hpc
    | prepares => cases hpc
    | @fails c left mem =>
        exact absurd hpc (endTurn_not_exited s cfg (.called c (.fails left)) mem success)
    | @creates c thread mem =>
        exact absurd hpc (endTurn_not_exited s cfg (.called c (.succeeds thread)) mem success)
  · rw [hmove.mainPc] at hpc
    rw [hpc] at hend
    cases hend
  · rw [hmove.mainPc] at hpc
    rw [hpc] at hend
    cases hend

/-- **The exit status is right**, on either server and in any interleaving, although the threads
count without a lock: it is `EXIT_SUCCESS` exactly if no call has failed that the program counts.
The number of clients that is printed is never too large, and it is 0 only if no answer was
sent. -/
theorem exit_status (cfg : Config) (w : Worker srv) {acts : List (Action srv)} {s : State srv}
    (h : exec (step cfg w) (start srv cfg) acts = some s) {success : Bool}
    (hpc : s.mainPc = .exited success) :
    (success = true ↔ ∀ a ∈ acts, a.fails w = false) ∧
      ∃ n, s.printed = some n ∧ n ≤ acts.countP Action.sent ∧
        (n = 0 ↔ ∀ a ∈ acts, a.sent = false) := by
  have hrun : (Alive s ∧ ∀ success, s.mainPc = .exited success → Ended s success) ∧
      s.errorFlag.begun = 0 + acts.countP (Action.fails w) := by
    refine count_of_exec (I := fun s => Alive s ∧ ∀ success, s.mainPc = .exited success →
      Ended s success) (f := fun s => s.errorFlag.begun) (fun u a v hu hstep => ?_)
      ⟨alive_start srv cfg, nofun⟩ h
    exact ⟨⟨hu.1.step hstep, fun success hpc => ended_of_step hu.1 hstep hpc⟩, (step_begun hstep).1⟩
  have hcount : True ∧ s.clientsConnectedCount.begun = 0 + acts.countP Action.sent :=
    count_of_exec (I := fun _ => True) (f := fun s => s.clientsConnectedCount.begun)
      (fun u a v _ hstep => ⟨trivial, (step_begun hstep).2⟩) trivial h
  obtain ⟨⟨alive, hended⟩, herrors⟩ := hrun
  obtain ⟨hsuccess, hprinted, herror, hconnected⟩ := hended success hpc
  rw [Nat.zero_add] at herrors
  have hsent := hcount.2
  rw [Nat.zero_add] at hsent
  refine ⟨?_, _, hprinted, ?_, ?_⟩
  · rw [hsuccess, decide_eq_true_iff, alive.errorFlag.value_eq_zero_iff herror, herrors,
      List.countP_eq_zero]
    simp
  · exact alive.clientsConnectedCount.value_le.trans hsent.le
  · rw [alive.clientsConnectedCount.value_eq_zero_iff hconnected, hsent, List.countP_eq_zero]
    simp

theorem exit_status_oneDatagram : ∃ s n,
    exec (step oneTurn udp) (start _ oneTurn) oneDatagram = some s ∧
      (∀ a ∈ oneDatagram, a.fails udp = false) ∧ s.printed = some n ∧
      n ≤ oneDatagram.countP Action.sent := by
  obtain ⟨s, hs, hpc, -⟩ := exec_oneDatagram
  obtain ⟨hsuccess, n, hprinted, hle, -⟩ := exit_status oneTurn udp hs hpc
  exact ⟨s, n, hs, hsuccess.mp rfl, hprinted, hle⟩

set_option maxRecDepth 4000 in
/-- Two answers may be counted as one: the second thread has loaded what the first had not yet
stored. -/
example : ∃ s, exec (step ⟨3, by decide⟩ udp) (start _ ⟨3, by decide⟩)
    ([.main .ok] ++
      [.main .ok, .main (.called ⟨5, ⟨[1], 16⟩⟩), .main .ok, .main (.created (.succeeds 7))] ++
      [.main .ok, .main (.called ⟨5, ⟨[2], 16⟩⟩), .main .ok, .main (.created (.succeeds 8))] ++
      [.client 0 (.send (List.replicate buffSize 9) true),
        .client 1 (.send (List.replicate buffSize 9) true)] ++
      [.count (some 0), .count (some 1), .count (some 0), .count (some 1)]) = some s ∧
    s.clientsConnectedCount.value = 1 ∧ s.clientsConnectedCount.begun = 2 := ⟨_, rfl, rfl, rfl⟩

/-! ## The connections -/

/-- Turn `j` has accepted `p`, and no thread created for it has exited. -/
def Unclosed (w : Worker srv) (s : State srv) (j : ℕ) (p : Peer) : Prop :=
  ∃ c create, s.turns[j]? = some (.called c create) ∧ srv.failed c = false ∧
    p = w.arrived (srv.entry c) ∧
    ∀ k thread, (k, j, thread) ∈ created s.mem.log → s.client k ≠ .exited

/-- What the turn in hand has accepted. -/
def Pending (w : Worker srv) (s : State srv) (j : ℕ) (p : Peer) : Prop :=
  j = s.turns.length ∧ ∃ c, s.brought = some c ∧ p = w.arrived (srv.entry c)

/-- The open connections are those accepted and not closed, each under a descriptor of its own. -/
structure Opened (w : Worker srv) (s : State srv) : Prop where
  nodup : (s.opened.map Prod.snd).Nodup
  creates : ∀ j c thread, s.turns[j]? = some (.called c (.succeeds thread)) →
    ∃ k, (k, j, thread) ∈ created s.mem.log
  opened : ∀ j p, (j, p) ∈ s.opened ↔ Unclosed w s j p ∨ Pending w s j p

lemma opened_start (w : Worker srv) (cfg : Config) : Opened w (start srv cfg) where
  nodup := List.nodup_nil
  creates := nofun
  opened := by simp [start, Unclosed, Pending]

lemma Unclosed.lt {j : ℕ} {p : Peer} (h : Unclosed w s j p) : j < s.turns.length := by
  obtain ⟨c, create, hturn, -⟩ := h
  exact (List.getElem?_eq_some_iff.mp hturn).1

/-- A turn keeps its connection as long as its thread is where it was, or at least not at its
end. -/
lemma unclosed_iff {j : ℕ} {p : Peer} (hturn : s'.turns[j]? = s.turns[j]?)
    (hlog : ∀ k thread, (k, j, thread) ∈ created s'.mem.log ↔ (k, j, thread) ∈ created s.mem.log)
    (hclient : ∀ k thread, (k, j, thread) ∈ created s.mem.log →
      (s'.client k ≠ .exited ↔ s.client k ≠ .exited)) :
    Unclosed w s' j p ↔ Unclosed w s j p := by
  unfold Unclosed
  rw [hturn]
  refine exists_congr fun c => exists_congr fun create => and_congr_right fun _ =>
    and_congr_right fun _ => and_congr_right fun _ => forall_congr' fun k =>
    forall_congr' fun thread => ?_
  rw [hlog]
  exact imp_congr_right (hclient k thread)

/-- A step that opens and closes nothing and takes no turn. -/
lemma Opened.of_eq (h : Opened w s) (hopened : s'.opened = s.opened) (hturns : s'.turns = s.turns)
    (hlog : created s'.mem.log = created s.mem.log) (hbrought : s'.brought = s.brought)
    (hclient : ∀ k, s'.client k ≠ .exited ↔ s.client k ≠ .exited) : Opened w s' where
  nodup := by
    rw [hopened]
    exact h.nodup
  creates := by
    rw [hturns, hlog]
    exact h.creates
  opened := by
    intro j p
    rw [hopened, h.opened j p, Pending, Pending, hturns, hbrought,
      unclosed_iff (by rw [hturns]) (fun k thread => by rw [hlog]) fun k thread _ => hclient k]

/-- The turns up to this one, and this one. -/
lemma turn_cases {turns : List (ThreadPerClient.Turn srv)} {turn t : ThreadPerClient.Turn srv}
    {j : ℕ} (h : (turns ++ [turn])[j]? = some t) :
    j < turns.length ∧ turns[j]? = some t ∨ j = turns.length ∧ t = turn := by
  have hle : j < turns.length + 1 := by simpa using (List.getElem?_eq_some_iff.mp h).1
  rcases Nat.lt_succ_iff_lt_or_eq.mp hle with hlt | rfl
  · exact Or.inl ⟨hlt, by rwa [List.getElem?_append_left hlt] at h⟩
  · rw [List.getElem?_concat_length] at h
    exact Or.inr ⟨rfl, (Option.some.inj h).symm⟩

/-- A turn that brings nothing. -/
lemma Opened.passed {turn : ThreadPerClient.Turn srv} (h : Opened w s)
    (hopened : s'.opened = s.opened) (hturns : s'.turns = s.turns ++ [turn])
    (hlog : created s'.mem.log = created s.mem.log) (hbrought : s.brought = none)
    (hbrought' : s'.brought = none) (hclient : s'.client = s.client)
    (hturn : ∀ c create, turn = .called c create →
      srv.failed c = true ∧ ∀ thread, create ≠ .succeeds thread) : Opened w s' where
  nodup := by
    rw [hopened]
    exact h.nodup
  creates := by
    intro j c thread hj
    rw [hturns] at hj
    rw [hlog]
    rcases turn_cases hj with ⟨-, hj⟩ | ⟨-, hj⟩
    · exact h.creates j c thread hj
    · exact absurd rfl ((hturn c _ hj.symm).2 thread)
  opened := by
    intro j p
    rw [hopened, h.opened j p]
    have hpending : ¬ Pending w s j p := by simp [Pending, hbrought]
    have hpending' : ¬ Pending w s' j p := by simp [Pending, hbrought']
    simp only [hpending, hpending', or_false]
    rcases Nat.lt_or_ge j s.turns.length with hlt | hge
    · refine (unclosed_iff ?_ (fun k thread => by rw [hlog]) fun k _ _ => by rw [hclient]).symm
      rw [hturns, List.getElem?_append_left hlt]
    · refine iff_of_false (fun hu => Nat.not_le_of_lt hu.lt hge) ?_
      rintro ⟨c, create, hj, hok, -⟩
      rw [hturns] at hj
      rcases turn_cases hj with ⟨hlt, -⟩ | ⟨-, hj⟩
      · exact absurd hlt (Nat.not_lt_of_le hge)
      · rw [(hturn c create hj.symm).1] at hok
        cases hok

/-- A turn that hands over what it has brought, to a thread if one could be created. -/
lemma Opened.handed {c : srv.Call} {create : Create} {l : List (ℕ × ℕ × ℕ)} (h : Opened w s)
    (hbelow : ∀ x ∈ created s.mem.log, x.2.1 < s.turns.length) (hopened : s'.opened = s.opened)
    (hturns : s'.turns = s.turns ++ [.called c create])
    (hlog : created s'.mem.log = created s.mem.log ++ l) (hbrought : s.brought = some c)
    (hbrought' : s'.brought = none) (hok : srv.failed c = false)
    (hclient : ∀ x ∈ created s.mem.log, s'.client x.1 = s.client x.1)
    (hmore : ∀ x ∈ l, x.2.1 = s.turns.length ∧ s'.client x.1 ≠ .exited)
    (hcreate : ∀ thread, create = .succeeds thread → ∃ k, (k, s.turns.length, thread) ∈ l) :
    Opened w s' where
  nodup := by
    rw [hopened]
    exact h.nodup
  creates := by
    intro j d thread hj
    rw [hturns] at hj
    simp only [hlog, List.mem_append]
    rcases turn_cases hj with ⟨-, hold⟩ | ⟨rfl, hnew⟩
    · obtain ⟨k, hk⟩ := h.creates j d thread hold
      exact ⟨k, Or.inl hk⟩
    · obtain ⟨-, rfl⟩ := ThreadPerClient.Turn.called.inj hnew
      obtain ⟨k, hk⟩ := hcreate thread rfl
      exact ⟨k, Or.inr hk⟩
  opened := by
    intro j p
    rw [hopened, h.opened j p]
    have hpending : ¬ Pending w s' j p := by simp [Pending, hbrought']
    rw [or_iff_left hpending]
    rcases Nat.lt_or_ge j s.turns.length with hlt | hge
    · have hnot : ¬ Pending w s j p := fun hp => hlt.ne hp.1
      rw [or_iff_left hnot]
      refine (unclosed_iff ?_ (fun k thread => ?_) fun k thread hk => ?_).symm
      · rw [hturns, List.getElem?_append_left hlt]
      · rw [hlog, List.mem_append, or_iff_left fun hx => hlt.ne (hmore _ hx).1]
      · rw [hclient _ hk]
    · rw [or_iff_right fun hu => Nat.not_le_of_lt hu.lt hge]
      constructor
      · rintro ⟨rfl, d, hd, rfl⟩
        obtain rfl := Option.some.inj (hbrought.symm.trans hd)
        refine ⟨c, create, by rw [hturns, List.getElem?_concat_length], hok, rfl,
          fun k thread hk => ?_⟩
        rw [hlog, List.mem_append] at hk
        rcases hk with hk | hk
        · exact absurd (hbelow _ hk) (Nat.lt_irrefl _)
        · exact (hmore _ hk).2
      · rintro ⟨d, create', hj, -, rfl, -⟩
        rw [hturns] at hj
        rcases turn_cases hj with ⟨hlt, -⟩ | ⟨rfl, hnew⟩
        · exact absurd hlt (Nat.not_lt_of_le hge)
        · obtain ⟨rfl, -⟩ := ThreadPerClient.Turn.called.inj hnew
          exact ⟨rfl, _, hbrought, rfl⟩

/-- `accept` has returned a connection. -/
lemma Opened.brings {c : srv.Call} {p : Peer} (h : Opened w s) (hfresh : p ∉ s.opened.map Prod.snd)
    (hp : p = w.arrived (srv.entry c)) (hopened : s'.opened = s.opened ++ [(s.turns.length, p)])
    (hturns : s'.turns = s.turns) (hlog : created s'.mem.log = created s.mem.log)
    (hclient : s'.client = s.client) (hbrought : s.brought = none)
    (hbrought' : s'.brought = some c) : Opened w s' where
  nodup := by
    rw [hopened, List.map_append, List.nodup_append]
    refine ⟨h.nodup, List.nodup_singleton _, fun a ha b hb => ?_⟩
    obtain rfl : b = p := by simpa using hb
    exact ne_of_mem_of_not_mem ha hfresh
  creates := by
    rw [hturns, hlog]
    exact h.creates
  opened := by
    intro j q
    have hunclosed : Unclosed w s' j q ↔ Unclosed w s j q :=
      unclosed_iff (by rw [hturns]) (fun k thread => by rw [hlog]) fun k _ _ => by rw [hclient]
    have hnot : ¬ Pending w s j q := by simp [Pending, hbrought]
    have hpending : Pending w s' j q ↔ (j, q) = (s.turns.length, p) := by
      simp [Pending, hbrought', hturns, hp]
    rw [hopened, List.mem_append, h.opened j q, or_iff_left hnot, List.mem_singleton, hunclosed,
      hpending]

/-- A turn has one thread. -/
lemma eq_of_turn {k' j thread thread' : ℕ} (hand : Hand cfg s)
    (hc : (k, j, thread) ∈ created s.mem.log) (hc' : (k', j, thread') ∈ created s.mem.log) :
    k = k' := by
  have hnodup : ((created s.mem.log).map fun x => x.2.1).Nodup := hand.inv.indices.imp ne_of_lt
  exact (Prod.mk.inj (List.inj_on_of_nodup_map hnodup hc hc' rfl)).1

/-- A thread has one turn. -/
lemma eq_of_cell {j j' thread thread' : ℕ} (hand : Hand cfg s)
    (hc : (k, j, thread) ∈ created s.mem.log) (hc' : (k, j', thread') ∈ created s.mem.log) :
    j = j' := by
  have hnodup : ((created s.mem.log).map fun x => x.1).Nodup := by
    rw [hand.inv.cells]
    exact List.nodup_range
  exact (Prod.mk.inj (Prod.mk.inj (List.inj_on_of_nodup_map hnodup hc hc' rfl)).2).1

lemma Worker.Next.not_exited {pc pc' : ClientPc} {calls : List Call} (h : w.Next pc calls pc')
    (hconn : w.connected = true) (hcalls : calls ≠ [.close]) : pc' ≠ .exited := by
  cases h with
  | leave =>
      rw [if_pos hconn]
      nofun
  | close => exact absurd rfl hcalls
  | _ => nofun

lemma Serves.exists_unclosed {p : Peer} (hand : Hand cfg s) (h : Serves w s k p)
    (hk : s.client k ≠ .exited) :
    ∃ j thread, (k, j, thread) ∈ created s.mem.log ∧ Unclosed w s j p := by
  obtain ⟨j, c, thread, hc, hturn, hok, rfl⟩ := h
  refine ⟨j, thread, hc, c, _, hturn, hok, rfl, fun k' thread' hc' => ?_⟩
  obtain rfl : k' = k := eq_of_turn hand hc' hc
  exact hk

/-- `close` by thread `k`: its own connection, and no other. -/
lemma Opened.close {p : Peer} {thread j₀ : ℕ} (hand : Hand cfg s) (h : Opened w s)
    (hc : (k, j₀, thread) ∈ created s.mem.log)
    (hown : Unclosed w s j₀ p) (hopened : s'.opened = s.opened.filter fun o => o.2 ≠ p)
    (hturns : s'.turns = s.turns) (hmem : s'.mem = s.mem) (hbrought : s'.brought = s.brought)
    (hclient : s'.client = update s.client k .exited) : Opened w s' where
  nodup := by
    rw [hopened]
    exact h.nodup.sublist (List.filter_sublist.map _)
  creates := by
    rw [hturns, hmem]
    exact h.creates
  opened := by
    intro j q
    have hmine : (j₀, p) ∈ s.opened := (h.opened j₀ p).mpr (Or.inl hown)
    have hpending : Pending w s' j q ↔ Pending w s j q := by
      rw [Pending, Pending, hturns, hbrought]
    rw [hopened, List.mem_filter, h.opened j q, hpending, decide_eq_true_iff]
    by_cases hj : j = j₀
    · -- the turn of the thread itself: closed now
      have hnow : ¬ Unclosed w s' j q := by
        rintro ⟨c, create, -, -, -, hopen⟩
        refine hopen k thread (by rw [hmem, hj]; exact hc) ?_
        rw [hclient, update_self]
      have hnot : ¬ Pending w s j q := fun hp => hown.lt.ne (hj ▸ hp.1)
      refine iff_of_false ?_ (by rw [or_iff_left hnot]; exact hnow)
      rintro ⟨hopen, hne⟩
      obtain ⟨c, create, hturn, -, hq, -⟩ := hopen.resolve_right hnot
      obtain ⟨c', create', hturn', -, hp, -⟩ := hown
      rw [hj, hturn'] at hturn
      obtain ⟨rfl, -⟩ := ThreadPerClient.Turn.called.inj (Option.some.inj hturn)
      exact hne (hq.trans hp.symm)
    · have hsame : Unclosed w s' j q ↔ Unclosed w s j q := by
        refine unclosed_iff (by rw [hturns]) (fun k thread => by rw [hmem]) fun k' thread' hc' => ?_
        have hne : k' ≠ k := fun heq => hj (eq_of_cell hand (heq ▸ hc') hc)
        rw [hclient, update_of_ne hne]
      rw [hsame, and_iff_left_of_imp]
      rintro hopen rfl
      have hother : (j, q) ∈ s.opened := (h.opened j q).mpr hopen
      exact hj (Prod.mk.inj (List.inj_on_of_nodup_map h.nodup hother hmine rfl)).1

lemma Opened.clientMove {r : Result} {calls : List Call} {pc : ClientPc}
    (hconn : w.connected = true) (hand : Hand cfg s) (alive : Alive s) (h : Opened w s)
    (hmove : ClientMove w s s' k r calls pc) : Opened w s' := by
  have hrun := hmove.next.running.1
  have hk := ClientPc.ne_exited hrun
  rcases hmove.opened with ⟨hopened, hcalls⟩ | ⟨hcalls, p, hp, hopened⟩
  · refine h.of_eq hopened hmove.turns (by rw [hmove.mem]) hmove.brought fun j => ?_
    rw [hmove.client]
    by_cases hj : j = k
    · rw [hj, update_self]
      exact iff_of_true (hmove.next.not_exited hconn hcalls) hk
    · rw [update_of_ne hj]
  · obtain ⟨q, hq, hserves⟩ := exists_peer (w := w) hand alive hrun
    obtain rfl := Option.some.inj (hp.symm.trans hq)
    obtain ⟨j₀, thread, hc, hown⟩ := hserves.exists_unclosed hand hk
    have hpc : pc = .exited := by
      have hnext := hmove.next
      rw [hcalls] at hnext
      generalize s.client k = from' at hnext
      cases hnext
      rfl
    exact h.close hand hc hown hopened hmove.turns hmove.mem hmove.brought
      (hpc ▸ hmove.client)

lemma Opened.mainMove {o : Outcome srv} (hconn : w.connected = true) (hand : Hand cfg s)
    (h : Opened w s) (hmove : MainMove cfg w s o s') : Opened w s' := by
  have hbelow : ∀ x ∈ created s.mem.log, x.2.1 < s.turns.length := by
    rw [hand.turns]
    exact hand.inv.below
  cases hmove with
  | control hc =>
      exact h.of_eq hc.opened hc.turns (by rw [hc.mem]) hc.brought fun k => by rw [hc.client]
  | refused hpc =>
      exact h.passed rfl rfl rfl (hand.idle (by rw [hpc]; rfl)) rfl rfl nofun
  | misses hpc hmem hfailed =>
      refine h.passed rfl rfl (storeEntry_created hmem).2 (hand.idle (by rw [hpc]; rfl)) rfl rfl
        fun d create heq => ?_
      obtain ⟨rfl, rfl⟩ := ThreadPerClient.Turn.called.inj heq
      exact ⟨hfailed, nofun⟩
  | brings hpc hmem hok hopened =>
      rw [Worker.opens, if_pos hconn] at hopened
      obtain ⟨hfresh, hopened⟩ := Option.ite_none_left_eq_some.mp hopened
      exact h.brings hfresh rfl (Option.some.inj hopened).symm rfl (storeEntry_created hmem).2 rfl
        (hand.idle (by rw [hpc]; rfl)) rfl
  | prepares hpc hmem =>
      exact h.of_eq rfl rfl (storeArg_created hmem).2 rfl fun k => Iff.rfl
  | fails hpc hc hmem =>
      obtain ⟨d, hd, hok, -⟩ := hand.brought (by rw [hpc]; rfl)
      obtain rfl := Option.some.inj (hc.symm.trans hd)
      refine h.handed (l := []) hbelow rfl rfl ?_ hc rfl hok (fun x _ => rfl) nofun nofun
      rw [List.append_nil]
      exact (fails_created hmem).2
  | @creates c thread mem hpc hc hmem =>
      obtain ⟨d, hd, hok, -⟩ := hand.brought (by rw [hpc]; rfl)
      obtain rfl := Option.some.inj (hc.symm.trans hd)
      refine h.handed hbelow rfl rfl (succeeds_created hmem).2 hc rfl hok (fun x hx => ?_)
        (fun x hx => ?_) fun thread' heq => ?_
      · exact update_of_ne (hand.cell_lt hx).ne _ _
      · obtain rfl := List.mem_singleton.mp hx
        refine ⟨hand.turns.symm, ?_⟩
        show update s.client s.mem.countThreads _ s.mem.countThreads ≠ _
        rw [update_self, if_pos hconn]
        nofun
      · obtain rfl := Create.succeeds.inj heq
        exact ⟨s.mem.countThreads, by rw [hand.turns]; exact List.mem_singleton_self _⟩

lemma Opened.step {a : Action srv} (hconn : w.connected = true) (hand : Hand cfg s)
    (alive : Alive s) (h : Opened w s) (hstep : step cfg w s a = some s') : Opened w s' := by
  obtain ⟨-, ⟨o, -, -, hmove⟩ | ⟨k, r, calls, pc, -, -, hmove⟩ | ⟨-, hmove⟩⟩ := step_cases hstep
  · exact h.mainMove hconn hand hmove
  · exact h.clientMove hconn hand alive hmove
  · exact h.of_eq hmove.opened hmove.turns (by rw [hmove.mem]) hmove.brought fun k => by
      rw [hmove.client]

/-- **The connections of the TCP server**, in any interleaving.  No two open connections share a
descriptor, and the one of a thread that runs is open.  When `main` has exited, a connection is
still open exactly if no thread could be created for it. -/
theorem connections_closed (cfg : Config) {s : State ThreadPerClient.tcp}
    (h : Reach (step cfg tcp) Anything (start ThreadPerClient.tcp cfg) s) :
    (s.opened.map Prod.snd).Nodup ∧
      (∀ k p, (s.client k).running = true → Serves tcp s k p → ∃ j, (j, p) ∈ s.opened) ∧
      (s.mainPc.ended = true → ∀ j p, (j, p) ∈ s.opened ↔ ∃ c left,
        s.turns[j]? = some (.called c (.fails left)) ∧ ThreadPerClient.tcp.failed c = false ∧
          p = tcp.arrived (ThreadPerClient.tcp.entry c)) := by
  have hformed : Formed cfg tcp s ∧ Opened tcp s :=
    h.invariant (I := fun s => Formed cfg tcp s ∧ Opened tcp s)
      ⟨formed_start cfg tcp, opened_start tcp cfg⟩ fun u a v hu _ hstep =>
        ⟨hu.1.step hstep, hu.2.step rfl hu.1.hand hu.1.alive hstep⟩
  obtain ⟨⟨hand, alive, -⟩, hopened⟩ := hformed
  refine ⟨hopened.nodup, fun k p hrun hserves => ?_, fun hend j p => ?_⟩
  · obtain ⟨j, -, -, hown⟩ := hserves.exists_unclosed hand (ClientPc.ne_exited hrun)
    exact ⟨j, (hopened.opened j p).mpr (Or.inl hown)⟩
  · have hjoined := MainPc.joined_of_ended hend
    have hnot : ¬ Pending tcp s j p := by
      simp [Pending, hand.idle (MainPc.holds_of_joined hjoined)]
    rw [hopened.opened j p, or_iff_left hnot]
    constructor
    · rintro ⟨c, create, hturn, hok, hp, hopen⟩
      cases create with
      | fails left => exact ⟨c, left, hturn, hok, hp⟩
      | succeeds thread =>
          obtain ⟨k, hk⟩ := hopened.creates j c thread hturn
          exact absurd (alive.exited_of_joined hjoined (hand.cell_lt hk)) (hopen k thread hk)
    · rintro ⟨c, left, hturn, hok, hp⟩
      refine ⟨c, _, hturn, hok, hp, fun k thread hk => ?_⟩
      obtain ⟨d, hgiven, -⟩ := hand.inv.given k j thread hk
      rw [hturn] at hgiven
      cases hgiven

/-- The thread for the first of two clients cannot be created. -/
def twoClients : List (Action ThreadPerClient.tcp) :=
  [.main .ok, .main .ok, .main (.called ⟨4, [], 16⟩), .main .ok, .main (.created (.fails 0)),
    .count none, .count none, .main .ok, .main (.called ⟨5, [], 16⟩), .main .ok,
    .main (.created (.succeeds 7)), .client 0 .ok,
    .client 0 (.send (List.replicate buffSize 9) true), .count (some 0), .count (some 0),
    .client 0 .ok, .client 0 .ok, .client 0 .ok, .main .ok, .main .ok, .main .ok, .shutdown none,
    .main .ok, .main .ok, .main .ok]

set_option maxRecDepth 4000 in
theorem connections_closed_twoClients : ∃ s,
    exec (step ⟨3, by decide⟩ tcp) (start _ ⟨3, by decide⟩) twoClients = some s ∧
      (0, Peer.descriptor 4) ∈ s.opened ∧ (1, Peer.descriptor 5) ∉ s.opened := by
  obtain ⟨s, hs, hend, hfirst, hsecond⟩ : ∃ s,
      exec (step ⟨3, by decide⟩ tcp) (start _ ⟨3, by decide⟩) twoClients = some s ∧
        s.mainPc.ended = true ∧ s.turns[0]? = some (.called ⟨4, [], 16⟩ (.fails 0)) ∧
        s.turns[1]? = some (.called ⟨5, [], 16⟩ (.succeeds 7)) := ⟨_, rfl, rfl, rfl, rfl⟩
  obtain ⟨-, -, hiff⟩ := connections_closed ⟨3, by decide⟩ (Reach.of_exec hs)
  refine ⟨s, hs, (hiff hend _ _).mpr ⟨_, 0, hfirst, rfl, rfl⟩, fun hmem => ?_⟩
  obtain ⟨c, left, hturn, -⟩ := (hiff hend _ _).mp hmem
  rw [hsecond] at hturn
  cases hturn

end ClientThreads
end EltSummer
