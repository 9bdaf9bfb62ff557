import EltSummer.Framework.RangeSum
import EltSummer.HighloadServers.ClientContacts

/-!
# How the one-thread-per-client servers end

Once `stop_threads` is 1, every step of any thread brings the end nearer (`State.left`), also the
parts of an `x++` and the words that are still typed; and until `main` has exited somebody can go
on.  This rests on the calls: each of them returns, if only with -1.
-/

namespace EltSummer
namespace ClientThreads

open Block Interleaving RacyCounter RangeSum Function Finset
open ThreadPerClient (Server Config Create created)
open EchoServer (ShutdownPc)

variable {srv : Server} {cfg : Config} {w : Worker srv} {s s' : State srv} {k : ℕ}

/-! ## What is left -/

/-- The statements of `main` behind `stop_threads = 1`, with room for an `error_flag++`. -/
def MainPc.left (countThreads : ℕ) : MainPc → ℕ
  | .join i => countThreads - i + 6
  | .joinShutdown => 5
  | .free => 2
  | .report => 1
  | _ => 0

/-- The statements of a client's thread, with room for an `x++` behind `send`. -/
def ClientPc.left : ClientPc → ℕ
  | .recv => 6
  | .send => 5
  | .turn => 3
  | .head => 2
  | .close => 1
  | _ => 0

def shutdownLeft : ShutdownPc → ℕ
  | .scan => 2
  | .head => 1
  | _ => 0

/-- The parts of an `x++` that a thread has left. -/
def State.countsLeft (s : State srv) (thread : Option ℕ) : ℕ :=
  s.errorFlag.left thread + s.clientsConnectedCount.left thread

/-- What thread `k` has left. -/
def State.clientLeft (s : State srv) (k : ℕ) : ℕ := (s.client k).left + s.countsLeft (some k)

/-- How many steps are left once `stop_threads` is 1. -/
def State.left (s : State srv) : ℕ :=
  s.mainPc.left s.mem.countThreads + s.countsLeft none + shutdownLeft s.shutdown +
    ∑ k ∈ range s.mem.countThreads, s.clientLeft k

/-! ## Behind the loop -/

/-- `main` joins the threads, or has joined them. -/
def MainPc.stopped : MainPc → Bool
  | .join _ => true
  | pc => pc.joined

/-- `stop_threads` is 1 exactly behind the loop of `main`. -/
structure Stopping (s : State srv) : Prop where
  stopped : s.stopThreads = s.mainPc.stopped
  join : ∀ i, s.mainPc = .join i → i ≤ s.mem.countThreads

lemma stopping_start (srv : Server) (cfg : Config) : Stopping (start srv cfg) :=
  ⟨rfl, nofun⟩

lemma Stopping.of_eq (h : Stopping s) (hstop : s'.stopThreads = s.stopThreads)
    (hmain : s'.mainPc = s.mainPc) (hmem : s'.mem = s.mem) : Stopping s' := by
  refine ⟨by rw [hstop, hmain]; exact h.stopped, ?_⟩
  rw [hmain, hmem]
  exact h.join

/-- `main` in its loop. -/
lemma Stopping.inLoop (h : Stopping s) (hpc : s.mainPc.stopped = false)
    (hpc' : s'.mainPc.stopped = false) (hstop : s'.stopThreads = s.stopThreads) :
    Stopping s' := by
  refine ⟨by rw [hstop, h.stopped, hpc, hpc'], fun i hi => ?_⟩
  rw [hi] at hpc'
  cases hpc'

lemma endTurn_stopped (s : State srv) (cfg : Config) (turn : ThreadPerClient.Turn srv)
    (mem : ThreadPerClient.State srv) : (s.endTurn cfg turn mem).mainPc.stopped = false := by
  simp only [State.endTurn]
  split <;> rfl

lemma Stopping.mainMove {o : Outcome srv} (h : Stopping s) (hmove : MainMove cfg w s o s') :
    Stopping s' := by
  cases hmove with
  | control hc =>
      have hpc := hc.pc
      have hstopped := h.stopped
      have hjoin := h.join
      have hstop := hc.stopThreads
      constructor
      · rw [hstop, hstopped]
        generalize s.mainPc = pc at hpc
        generalize s'.mainPc = pc' at hpc
        cases hpc <;> rfl
      · intro i hi
        rw [hc.mem]
        rw [hi] at hpc
        generalize s.mainPc = pc at hpc
        cases hpc with
        | stops => exact Nat.zero_le _
        | joins hlt => exact hlt
  | @refused r hpc =>
      exact h.inLoop (by rw [hpc]; rfl) (endTurn_stopped s cfg (.refused r) s.mem) rfl
  | @misses c mem hpc =>
      exact h.inLoop (by rw [hpc]; rfl) (endTurn_stopped s cfg (.called c (.fails 0)) mem) rfl
  | brings hpc => exact h.inLoop (by rw [hpc]; rfl) rfl rfl
  | prepares hpc => exact h.inLoop (by rw [hpc]; rfl) rfl rfl
  | @fails c left mem hpc =>
      exact h.inLoop (by rw [hpc]; rfl) (endTurn_stopped s cfg (.called c (.fails left)) mem) rfl
  | @creates c thread mem hpc =>
      exact h.inLoop (by rw [hpc]; rfl) (endTurn_stopped s cfg (.called c (.succeeds thread)) mem)
        rfl

lemma Stopping.step {a : Action srv} (h : Stopping s) (hstep : step cfg w s a = some s') :
    Stopping s' := by
  obtain ⟨-, ⟨o, -, -, hmove⟩ | ⟨k, r, calls, pc, -, -, hmove⟩ | ⟨-, hmove⟩⟩ := step_cases hstep
  · exact h.mainMove hmove
  · exact h.of_eq hmove.stopThreads hmove.mainPc hmove.mem
  · exact h.of_eq hmove.stopThreads hmove.mainPc hmove.mem

/-! ## One step less -/

lemma countsLeft_eq_zero {thread : Option ℕ} (h : ¬ s.counts thread = true) :
    s.countsLeft thread = 0 := by
  obtain ⟨herror, hcount⟩ := not_mem_of_counts h
  rw [State.countsLeft, left_eq_zero herror, left_eq_zero hcount]

lemma Worker.Next.left_lt {pc pc' : ClientPc} {calls : List Call} (h : w.Next pc calls pc')
    (hstops : pc = .head → pc' ≠ .turn) : pc'.left < pc.left := by
  cases h with
  | stay => exact absurd rfl (hstops rfl)
  | leave => cases w.connected <;> decide
  | _ => decide

/-- A client's thread, whoever it is. -/
lemma ClientMove.left_lt {r : Result} {calls : List Call} {pc : ClientPc} (alive : Alive s)
    (hstop : s.stopThreads = true) (hcounts : ¬ s.counts (some k) = true)
    (hmove : ClientMove w s s' k r calls pc) : s'.left < s.left := by
  have hk := alive.lt_of_running hmove.next.running.1
  have hothers (thread : Option ℕ) (hne : thread ≠ some k) :
      s'.countsLeft thread = s.countsLeft thread := by
    rw [State.countsLeft, State.countsLeft, hmove.errorFlag, hmove.clientsConnectedCount]
    congr 1
    · split
      · exact enter_left_of_ne hne
      · rfl
    · split
      · exact enter_left_of_ne hne
      · rfl
  have hless : s'.clientLeft k < s.clientLeft k := by
    rw [State.clientLeft, State.clientLeft, countsLeft_eq_zero hcounts, hmove.client, update_self]
    obtain ⟨herror, hcount⟩ := not_mem_of_counts hcounts
    have hbegun : s'.countsLeft (some k) ≤ if (r.fails w || r.sent) = true then 2 else 0 := by
      rw [State.countsLeft, hmove.errorFlag, hmove.clientsConnectedCount]
      cases r with
      | ok => simp [Result.fails, Result.sent, left_eq_zero herror, left_eq_zero hcount]
      | send fresh sent =>
          cases sent <;> cases hconn : w.connected <;>
            simp [Result.fails, Result.sent, hconn, left_eq_zero herror, left_eq_zero hcount,
              enter_left_self]
    by_cases hcond : (r.fails w || r.sent) = true
    · have hpc := (hmove.counts hcond ▸ hmove.next).of_send
      rw [if_pos hcond] at hbegun
      rw [hpc, hmove.counts hcond]
      show 2 + _ < 5 + 0
      omega
    · rw [if_neg hcond] at hbegun
      have hfalls := hmove.next.left_lt fun hpc => hmove.stops hstop hpc
      omega
  have hsum : ∑ j ∈ range s.mem.countThreads, s'.clientLeft j <
      ∑ j ∈ range s.mem.countThreads, s.clientLeft j := by
    refine sum_lt_of_one hk hless fun j hj => ?_
    rw [State.clientLeft, State.clientLeft, hmove.client, update_of_ne hj,
      hothers (some j) fun heq => hj (Option.some.inj heq)]
  rw [State.left, State.left, hmove.mainPc, hmove.mem, hmove.shutdown, hothers none (by simp)]
  exact Nat.add_lt_add_left hsum _

/-- The clients' threads are where they were. -/
lemma sum_clientLeft_of_eq (hclient : s'.client = s.client)
    (hcounts : ∀ k, s'.countsLeft (some k) = s.countsLeft (some k)) :
    ∑ k ∈ range s.mem.countThreads, s'.clientLeft k =
      ∑ k ∈ range s.mem.countThreads, s.clientLeft k := by
  refine sum_congr rfl fun k _ => ?_
  rw [State.clientLeft, State.clientLeft, hclient, hcounts k]

/-- The end of an `x++`. -/
lemma countStep_left_lt {thread : Option ℕ} (alive : Alive s)
    (h : countStep s thread = some s') : s'.left < s.left := by
  have hless : s'.countsLeft thread < s.countsLeft thread ∧
      (∀ other ≠ thread, s'.countsLeft other = s.countsLeft other) ∧
      s.counts thread = true ∧ s'.mainPc = s.mainPc ∧ s'.mem = s.mem ∧ s'.client = s.client ∧
      s'.shutdown = s.shutdown := by
    unfold countStep at h
    split at h
    · rename_i hin
      obtain ⟨c, hc, rfl⟩ := Option.map_eq_some_iff.mp h
      obtain ⟨hlt, hsame⟩ := go_left hc
      refine ⟨Nat.add_lt_add_right hlt _, fun other hne => ?_, counts_eq_true.mpr (Or.inl hin), rfl,
        rfl, rfl, rfl⟩
      exact congrArg (· + _) (hsame other hne)
    · obtain ⟨c, hc, rfl⟩ := Option.map_eq_some_iff.mp h
      obtain ⟨hlt, hsame⟩ := go_left hc
      refine ⟨Nat.add_lt_add_left hlt _, fun other hne => ?_,
        counts_eq_true.mpr (Or.inr (go_cases hc).1), rfl, rfl, rfl, rfl⟩
      exact congrArg (_ + ·) (hsame other hne)
  obtain ⟨hlt, hothers, hcounts, hmain, hmem, hclient, hshutdown⟩ := hless
  rw [State.left, State.left, hmain, hmem, hshutdown]
  cases thread with
  | none =>
      have hsum := sum_clientLeft_of_eq hclient fun k => hothers (some k) (by simp)
      omega
  | some k =>
      have hrun : (s.client k).running = true := by
        rw [alive.counts k hcounts]
        rfl
      have hsum : ∑ j ∈ range s.mem.countThreads, s'.clientLeft j <
          ∑ j ∈ range s.mem.countThreads, s.clientLeft j := by
        refine sum_lt_of_one (alive.lt_of_running hrun) ?_ fun j hj => ?_
        · rw [State.clientLeft, State.clientLeft, hclient]
          exact Nat.add_lt_add_left hlt _
        · rw [State.clientLeft, State.clientLeft, hclient,
            hothers (some j) fun heq => hj (Option.some.inj heq)]
      rw [hothers none (by simp)]
      omega

lemma shutdownStep_left_lt {word : Option (List UInt8)} (hstop : s.stopThreads = true)
    (h : shutdownStep s word = some s') : s'.left < s.left := by
  have hless : shutdownLeft s'.shutdown < shutdownLeft s.shutdown ∧ s'.mainPc = s.mainPc ∧
      s'.mem = s.mem ∧ s'.client = s.client ∧ s'.errorFlag = s.errorFlag ∧
      s'.clientsConnectedCount = s.clientsConnectedCount := by
    cases hpc : s.shutdown with
    | head =>
        simp only [shutdownStep, hpc, hstop, Option.some.injEq] at h
        subst h
        exact ⟨by simp [shutdownLeft], rfl, rfl, rfl, rfl, rfl⟩
    | scan =>
        cases word with
        | none =>
            simp only [shutdownStep, hpc, Option.some.injEq] at h
            subst h
            exact ⟨by simp [shutdownLeft], rfl, rfl, rfl, rfl, rfl⟩
        | some word =>
            simp only [shutdownStep, hpc] at h
            obtain ⟨-, h⟩ := Option.ite_none_right_eq_some.mp h
            split at h <;>
            · obtain rfl := Option.some.inj h
              exact ⟨by simp [shutdownLeft], rfl, rfl, rfl, rfl, rfl⟩
    | _ => simp [shutdownStep, hpc] at h
  obtain ⟨hlt, hmain, hmem, hclient, herror, hcount⟩ := hless
  have hcounts (thread : Option ℕ) : s'.countsLeft thread = s.countsLeft thread := by
    rw [State.countsLeft, State.countsLeft, herror, hcount]
  have hsum := sum_clientLeft_of_eq hclient fun k => hcounts (some k)
  rw [State.left, State.left, hmain, hmem, hcounts]
  omega

lemma Advance.left_lt {pc pc' : MainPc} (h : Advance s pc pc') (hstopped : pc.stopped = true) :
    pc'.left s.mem.countThreads + (if pc = .joinShutdown then 2 else 0) <
      pc.left s.mem.countThreads := by
  cases h with
  | joins hi hdone =>
      simp only [MainPc.left, reduceCtorEq, if_false]
      omega
  | joinsAll hi =>
      simp only [MainPc.left, reduceCtorEq, if_false]
      omega
  | joinsShutdown => exact Nat.lt_succ_self 4
  | frees => exact Nat.lt_succ_self 1
  | exits => exact Nat.lt_succ_self 0
  | _ => cases hstopped

lemma MainMove.left_lt {o : Outcome srv} (stopping : Stopping s) (hstop : s.stopThreads = true)
    (hcounts : ¬ s.counts none = true) (hmove : MainMove cfg w s o s') : s'.left < s.left := by
  have hstopped : s.mainPc.stopped = true := stopping.stopped ▸ hstop
  have hnot {pc : MainPc} (hpc : s.mainPc = pc) (hloop : pc.stopped = false) : False := by
    rw [hpc, hloop] at hstopped
    cases hstopped
  cases hmove with
  | control hc herror hcount hfails =>
      have hshutdown := hc.shutdown fun hpc => hnot hpc rfl
      have hbegun : s'.countsLeft none ≤ if s.mainPc = .joinShutdown then 2 else 0 := by
        obtain ⟨hout, hout'⟩ := not_mem_of_counts hcounts
        rw [State.countsLeft, hcount, left_eq_zero hout', herror]
        by_cases hcond : o.fails = true
        · have hpc := (hfails hcond).resolve_left fun hpc => hnot hpc rfl
          rw [if_pos hcond, if_pos hpc, enter_left_self]
        · rw [if_neg hcond, left_eq_zero hout]
          exact Nat.zero_le _
      have hothers (k : ℕ) : s'.countsLeft (some k) = s.countsLeft (some k) := by
        rw [State.countsLeft, State.countsLeft, hcount, herror]
        split
        · rw [enter_left_of_ne (by simp)]
        · rfl
      have hsum := sum_clientLeft_of_eq hc.client hothers
      have hfalls := hc.pc.left_lt hstopped
      rw [State.left, State.left, hc.mem, hshutdown]
      omega
  | refused hpc => exact (hnot hpc rfl).elim
  | misses hpc => exact (hnot hpc rfl).elim
  | brings hpc => exact (hnot hpc rfl).elim
  | prepares hpc => exact (hnot hpc rfl).elim
  | fails hpc => exact (hnot hpc rfl).elim
  | creates hpc => exact (hnot hpc rfl).elim

/-- **One step less**, whoever takes it. -/
lemma left_lt_of_step {a : Action srv} (alive : Alive s) (stopping : Stopping s)
    (hstop : s.stopThreads = true) (hstep : step cfg w s a = some s') : s'.left < s.left := by
  obtain ⟨-, hstep⟩ := Option.ite_none_left_eq_some.mp hstep
  cases a with
  | main o =>
      obtain ⟨hcounts, hstep⟩ := Option.ite_none_left_eq_some.mp hstep
      exact (mainMove_of_step hstep).left_lt stopping hstop hcounts
  | client k r =>
      obtain ⟨hcounts, hstep⟩ := Option.ite_none_left_eq_some.mp hstep
      obtain ⟨calls, pc, hmove⟩ := clientMove_of_step hstep
      exact hmove.left_lt alive hstop hcounts
  | shutdown word => exact shutdownStep_left_lt hstop hstep
  | count thread => exact countStep_left_lt alive hstep

/-- `stop_threads` stays 1. -/
lemma stopThreads_of_step {a : Action srv} (hstop : s.stopThreads = true)
    (hstep : step cfg w s a = some s') : s'.stopThreads = true := by
  obtain ⟨-, ⟨o, -, -, hmove⟩ | ⟨k, r, calls, pc, -, -, hmove⟩ | ⟨-, hmove⟩⟩ := step_cases hstep
  · cases hmove with
    | control hc => rw [hc.stopThreads, hstop, Bool.true_or]
    | _ => exact hstop
  · rw [hmove.stopThreads, hstop]
  · rw [hmove.stopThreads, hstop]

/-- All that can be left. -/
lemma left_le_of_alive (alive : Alive s) : s.left ≤ 7 * s.mem.countThreads + 10 := by
  have hclient (k : ℕ) : s.clientLeft k ≤ 6 := by
    by_cases hcounts : s.counts (some k) = true
    · have herror := left_le s.errorFlag (some k)
      have hcount := left_le s.clientsConnectedCount (some k)
      rw [State.clientLeft, State.countsLeft, alive.counts k hcounts]
      show 2 + _ ≤ 6
      omega
    · rw [State.clientLeft, countsLeft_eq_zero hcounts]
      cases s.client k <;> decide
  have hsum : ∑ k ∈ range s.mem.countThreads, s.clientLeft k ≤ 6 * s.mem.countThreads := by
    calc
      ∑ k ∈ range s.mem.countThreads, s.clientLeft k ≤ ∑ _k ∈ range s.mem.countThreads, 6 :=
        sum_le_sum fun k _ => hclient k
      _ = 6 * s.mem.countThreads := by
        rw [sum_const_nat fun _ _ => rfl, card_range, Nat.mul_comm]
  have hmain : s.mainPc.left s.mem.countThreads ≤ s.mem.countThreads + 6 := by
    cases s.mainPc <;> simp only [MainPc.left] <;> omega
  have hnone : s.countsLeft none ≤ 2 := by
    rw [State.countsLeft, left_eq_zero alive.countsMain]
    exact left_le _ _
  have hshutdown : shutdownLeft s.shutdown ≤ 2 := by cases s.shutdown <;> decide
  rw [State.left]
  omega

/-! ## Somebody can go on -/

lemma exists_countStep {thread : Option ℕ} (h : s.counts thread = true) :
    ∃ s', countStep s thread = some s' := by
  by_cases hin : thread ∈ s.errorFlag.inside
  · obtain ⟨c, hc⟩ := exists_go hin
    exact ⟨_, by rw [countStep, if_pos hin, hc]; rfl⟩
  · obtain ⟨c, hc⟩ := exists_go ((counts_eq_true.mp h).resolve_left hin)
    exact ⟨_, by rw [countStep, if_neg hin, hc]; rfl⟩

/-- A client's thread can go on, if only since its calls can fail. -/
lemma exists_clientStep (hand : Hand cfg s) (alive : Alive s)
    (hrun : (s.client k).running = true) : ∃ r s', clientStep w s k r = some s' := by
  obtain ⟨p, hp, -⟩ := exists_peer (w := w) hand alive hrun
  cases hpc : s.client k with
  | absent =>
      rw [hpc] at hrun
      cases hrun
  | exited =>
      rw [hpc] at hrun
      cases hrun
  | recv => exact ⟨.ok, _, by simp only [clientStep, hpc, hp]; rfl⟩
  | send =>
      have hlen : (List.replicate buffSize (0 : UInt8)).length = buffSize := List.length_replicate
      exact ⟨.send (List.replicate buffSize 0) true, _, by
        rw [clientStep, if_pos ⟨hpc, hlen⟩, hp, Option.bind_some, strncpy_answer w hlen]
        rfl⟩
  | head => exact ⟨.ok, _, by simp only [clientStep, hpc]; rfl⟩
  | turn =>
      cases hconn : w.connected with
      | true => exact ⟨.ok, _, by simp only [clientStep, hpc, hconn, hp]; rfl⟩
      | false => exact ⟨.ok, _, by simp only [clientStep, hpc, hconn]; rfl⟩
  | close => exact ⟨.ok, _, by simp only [clientStep, hpc, hp]; rfl⟩

/-- Until `main` has exited somebody can go on. -/
lemma exists_step (hformed : Formed cfg w s) (stopping : Stopping s) (hstop : s.stopThreads = true)
    (hruns : s.mainPc.ended = false) : ∃ a s', step cfg w s a = some s' := by
  obtain ⟨hand, alive, -⟩ := hformed
  have hcounts {thread : Option ℕ} (h : s.counts thread = true) :
      ∃ a s', step cfg w s a = some s' := by
    obtain ⟨s', hs'⟩ := exists_countStep h
    exact ⟨.count thread, s', by simp [step, hruns, hs']⟩
  by_cases hmain : s.counts none = true
  · exact hcounts hmain
  have hgoes (o : Outcome srv) {s' : State srv} (h : mainStep cfg w s o = some s') :
      ∃ a s', step cfg w s a = some s' := ⟨.main o, s', by simp [step, hruns, hmain, h]⟩
  have hstopped := stopping.stopped
  cases hpc : s.mainPc with
  | join i =>
      by_cases hi : i < s.mem.countThreads
      · cases hrun : (s.client i).running with
        | true =>
            by_cases hclient : s.counts (some i) = true
            · exact hcounts hclient
            · obtain ⟨r, s', hs'⟩ := exists_clientStep (w := w) hand alive hrun
              exact ⟨.client i r, s', by simp [step, hruns, hclient, hs']⟩
        | false =>
            have hlt : i < s.mem.threadsClients.length := by
              rw [hand.inv.threads]
              exact (hi.trans_le hand.inv.behind).trans hand.room
            have hjoins : mainStep cfg w s .ok = some { s with mainPc := .join (i + 1) } := by
              simp only [mainStep, hpc, if_pos hi, hrun, load_natCast,
                List.getElem?_eq_getElem hlt]
              rfl
            exact hgoes .ok hjoins
      · exact hgoes .ok (by simp only [mainStep, hpc, if_neg hi]; rfl)
  | joinShutdown =>
      have hshutdown (word : Option (List UInt8)) {s' : State srv}
          (h : shutdownStep s word = some s') : ∃ a s', step cfg w s a = some s' :=
        ⟨.shutdown word, s', by simp [step, hruns, h]⟩
      cases hsh : s.shutdown with
      | absent => exact hgoes .failed (by simp only [mainStep, hpc, hsh]; rfl)
      | head => exact hshutdown none (by simp only [shutdownStep, hsh]; rfl)
      | scan => exact hshutdown none (by simp only [shutdownStep, hsh]; rfl)
      | exited => exact hgoes .ok (by simp only [mainStep, hpc, hsh]; rfl)
  | free => exact hgoes .ok (by simp only [mainStep, hpc]; rfl)
  | report => exact hgoes .ok (by simp only [mainStep, hpc]; rfl)
  | exited success =>
      rw [hpc] at hruns
      cases hruns
  | _ =>
      rw [hstop, hpc] at hstopped
      cases hstopped

/-- **The end of both servers.**  Once `stop_threads` is 1, in any order of the steps: with `n`
threads created no run takes more than `7 * n + 10` steps, and until `main` has exited somebody can
go on. -/
theorem server_exits (cfg : Config) (w : Worker srv) {s t : State srv}
    (h : Reach (step cfg w) Anything (start srv cfg) s) (hstop : s.stopThreads = true)
    {acts : List (Action srv)} (hexec : exec (step cfg w) s acts = some t) :
    acts.length ≤ 7 * s.mem.countThreads + 10 ∧
      ((∃ a t', step cfg w t a = some t') ∨ t.mainPc.ended = true) := by
  have hstopping : Stopping s :=
    h.invariant (stopping_start srv cfg) fun _ _ _ hI _ hstep => hI.step hstep
  have hformed := formed_of_reach h
  have hrun : (Formed cfg w t ∧ Stopping t ∧ t.stopThreads = true) ∧
      t.left + acts.length ≤ s.left := by
    refine rank_of_exec_all (I := fun u => Formed cfg w u ∧ Stopping u ∧ u.stopThreads = true)
      (fun u a v hu hstep => ?_) ⟨hformed, hstopping, hstop⟩ hexec
    obtain ⟨hu, hustopping, hustop⟩ := hu
    exact ⟨⟨hu.step hstep, hustopping.step hstep, stopThreads_of_step hustop hstep⟩,
      left_lt_of_step hu.alive hustopping hustop hstep⟩
  obtain ⟨⟨ht, htstopping, htstop⟩, hleft⟩ := hrun
  have hbound := left_le_of_alive hformed.alive
  refine ⟨by omega, ?_⟩
  cases hended : t.mainPc.ended with
  | true => exact Or.inr rfl
  | false => exact Or.inl (exists_step ht htstopping htstop hended)

set_option maxRecDepth 4000 in
theorem server_exits_oneDatagram : ∃ s t,
    exec (step oneTurn udp) (start _ oneTurn) (oneDatagram.take 8) = some s ∧
      exec (step oneTurn udp) s (oneDatagram.drop 8) = some t ∧
      (oneDatagram.drop 8).length ≤ 7 * s.mem.countThreads + 10 := by
  obtain ⟨s, hs, hstop, t, ht⟩ : ∃ s,
      exec (step oneTurn udp) (start _ oneTurn) (oneDatagram.take 8) = some s ∧
        s.stopThreads = true ∧ ∃ t, exec (step oneTurn udp) s (oneDatagram.drop 8) = some t :=
    ⟨_, rfl, rfl, _, rfl⟩
  exact ⟨s, t, hs, ht, (server_exits oneTurn udp (Reach.of_exec hs) hstop ht).1⟩

end ClientThreads
end EltSummer
