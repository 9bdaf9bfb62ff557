import EltSummer.Framework.HandleLog
import EltSummer.HighloadServers.PoolSlots

/-!
# Every client is closed once

A client of the pool is closed by its worker, or by the clean-up behind the loop when its
entry of `clients_fd` is not zero.  The entry of a client that was closed is zeroed at the head
of a later turn only.  So a client whose worker closes it after the last scan is closed a second
time by the clean-up (`last_client_closed_twice`), and so is one whose cell was given the next
client before the scan.

On the runs where neither happens (`Released`) every accepted descriptor is closed exactly
once (`closed_once_of_reach`): up to the clean-up the table of entries is in order (`Slots`),
then no worker moves any more (`Quiet`) and the clean-up closes what is left, entry by
entry (`Sweep`).
-/

namespace EltSummer
namespace ThreadPool

open Interleaving Function SlotTable HandleLog

variable {cfg : Config} {s s' : State}

/-! ## What the log says of descriptors -/

/-- The openings and closings in the log. -/
def uses (log : List Event) : List (Use ℤ) :=
  log.filterMap fun
    | .accept fd => some (.opened fd)
    | .hand _ _ => none
    | .close _ fd => some (.closed fd)

@[simp] lemma uses_append (log log' : List Event) : uses (log ++ log') = uses log ++ uses log' :=
  List.filterMap_append

@[simp] lemma uses_singleton (e : Event) :
    uses [e] = match e with
      | .accept fd => [.opened fd]
      | .hand _ _ => []
      | .close _ fd => [.closed fd] := by
  cases e <;> rfl

/-- A client's descriptor: none of the server's own, and not the failure -1. -/
def IsClient (fd : ℤ) : Prop := fd ∉ stdFds ∧ fd ≠ -1

/-- The log is right about the clients that are open. -/
structure Ledger (s : State) : Prop where
  clients : ∀ fd, .opened fd ∈ uses s.log → IsClient fd
  alternates : ∀ fd, IsClient fd →
    Alternates fd (uses s.log) ∧ (IsOpen fd (uses s.log) ↔ fd ∈ s.openFds)

lemma ledger_init : Ledger init where
  clients := by simp [init, uses]
  alternates fd hfd := by
    refine ⟨alternates_nil fd, iff_of_false (not_isOpen_nil fd) ?_⟩
    exact hfd.1

/-- A step that neither accepts nor closes. -/
lemma Ledger.frame (h : Ledger s) (hlog : uses s'.log = uses s.log)
    (hopen : s'.openFds = s.openFds) : Ledger s' where
  clients fd hfd := h.clients fd (hlog ▸ hfd)
  alternates fd hfd := by
    rw [hlog, hopen]
    exact h.alternates fd hfd

lemma Ledger.accepts (h : Ledger s) {fd : ℕ} (hstd : stdFds ⊆ s.openFds)
    (hfd : (fd : ℤ) ∉ s.openFds) (hlog : s'.log = s.log ++ [.accept fd])
    (hopen : s'.openFds = insert (fd : ℤ) s.openFds) : Ledger s' := by
  have hclient : IsClient fd := ⟨fun hin => hfd (hstd hin), by simp⟩
  refine ⟨fun fd' hfd' => ?_, fun fd' hclient' => ?_⟩
  · rw [hlog, uses_append] at hfd'
    rcases List.mem_append.mp hfd' with hold | hnew
    · exact h.clients fd' hold
    · obtain rfl : fd' = fd := by simpa using hnew
      exact hclient
  · obtain ⟨halt, hiff⟩ := h.alternates fd' hclient'
    rw [hlog, hopen, uses_append]
    by_cases heq : fd' = fd
    · subst heq
      obtain ⟨halt', hopen'⟩ := halt.opened (mt hiff.mp hfd)
      exact ⟨halt', iff_of_true hopen' (Finset.mem_insert_self _ _)⟩
    · obtain ⟨halt', hiff'⟩ := halt.other (u := .opened (fd : ℤ)) (by simp [Ne.symm heq]) (by simp)
      exact ⟨halt', hiff'.trans (hiff.trans (by simp [heq]))⟩

/-- What is closed is an open client, or no client. -/
lemma Ledger.closes (h : Ledger s) {worker : Option ℕ} {fd : ℤ}
    (hfd : IsClient fd → fd ∈ s.openFds) (hlog : s'.log = s.log ++ [.close worker fd])
    (hopen : s'.openFds = s.openFds.erase fd) : Ledger s' := by
  refine ⟨fun fd' hfd' => h.clients fd' ?_, fun fd' hclient => ?_⟩
  · simpa [hlog] using hfd'
  · obtain ⟨halt, hiff⟩ := h.alternates fd' hclient
    rw [hlog, hopen, uses_append]
    by_cases heq : fd' = fd
    · subst heq
      obtain ⟨halt', hopen'⟩ := halt.closed (hiff.mpr (hfd hclient))
      exact ⟨halt', iff_of_false hopen' (Finset.notMem_erase _ _)⟩
    · obtain ⟨halt', hiff'⟩ := halt.other (u := .closed fd) (by simp) (by simp [Ne.symm heq])
      exact ⟨halt', hiff'.trans (hiff.trans (by simp [heq]))⟩

/-! ## Behind the join no worker moves -/

/-- How many workers `main` has joined. -/
def MainPc.joined (cfg : Config) : MainPc → ℕ
  | .join i => i
  | .joinShutdown | .cleanup _ | .ended => cfg.startAllocSize
  | _ => 0

/-- A worker that was joined has exited or never existed. -/
def Quiet (cfg : Config) (s : State) : Prop :=
  ∀ w < s.mainPc.joined cfg, (s.worker w).pc = .exited ∨ cfg.created w = false

lemma quiet_init : Quiet cfg init := by simp [Quiet, init, MainPc.joined]

/-- A worker that takes a step was created and has not exited. -/
lemma awake_of_step {w : ℕ} {ok : Bool} (h : step cfg s (.worker w ok) = some s') :
    w < cfg.startAllocSize ∧ ¬ ((s.worker w).pc = .exited ∨ cfg.created w = false) := by
  obtain ⟨⟨hw, hcreated⟩, h⟩ := Option.ite_none_right_eq_some.mp h
  refine ⟨hw, ?_⟩
  rintro (hpc | hno)
  · simp [workerStep, hpc] at h
  · simp [hno] at hcreated

lemma Quiet.workerAt (h : Quiet cfg s) {w : ℕ} {ok : Bool} {k : Worker}
    (hstep : step cfg s (.worker w ok) = some s') (hmain : s'.mainPc = s.mainPc)
    (hworker : s'.worker = update s.worker w k) : Quiet cfg s' := by
  intro v hv
  rw [hmain] at hv
  have hne : v ≠ w := by
    rintro rfl
    exact (awake_of_step hstep).2 (h v hv)
  rw [hworker, update_of_ne hne]
  exact h v hv

lemma Quiet.mainAt (h : Quiet cfg s) (hworker : s'.worker = s.worker)
    (hjoined : s'.mainPc.joined cfg ≤ s.mainPc.joined cfg) : Quiet cfg s' :=
  fun w hw => hworker ▸ h w (lt_of_lt_of_le hw hjoined)

lemma Quiet.control {ml : ℕ → Bool} {pc : MainPc} (h : Quiet cfg s)
    (hc : Control cfg s s.mainPc ml pc) : Quiet cfg ({ s with ml := ml }.goto pc) := by
  generalize hpc : s.mainPc = pc₀ at hc
  cases hc with
  | @join i hi hexit =>
      intro w hw
      rcases Nat.lt_succ_iff_lt_or_eq.mp hw with hw | rfl
      · exact h w (by rw [hpc]; exact hw)
      · exact hexit
  | @joined i hi =>
      exact fun w hw => h w (by rw [hpc]; exact lt_of_lt_of_le hw (not_lt.mp hi))
  | _ => exact h.mainAt rfl (by simp [hpc, MainPc.joined])

lemma quiet_step {a : Action} (h : Quiet cfg s) (hstep : step cfg s a = some s') :
    Quiet cfg s' := by
  cases moves_of_step hstep with
  | control hc => exact h.control hc
  | listen hpc hpc' =>
      refine h.mainAt rfl ?_
      rcases hpc' with rfl | rfl <;> simp [MainPc.joined]
  | bump hpc hpc' =>
      refine h.mainAt rfl ?_
      rcases hpc' with ⟨-, rfl⟩ | ⟨-, rfl⟩ <;> simp [MainPc.joined]
  | clean hpc hi hfd => exact h.mainAt rfl (by simp [hpc, MainPc.joined])
  | worker hw hc => exact h.workerAt hstep rfl rfl
  | sends hpc => exact h.workerAt hstep rfl rfl
  | clearFlag hpc => exact h.workerAt hstep rfl rfl
  | close hpc => exact h.workerAt hstep rfl rfl
  | signal ha => exact h
  | _ => exact h.mainAt rfl (by simp [MainPc.joined])

/-! ## The clean-up -/

/-- In front of entry `i` the clean-up has the open clients before it, each in one entry. -/
structure Sweep (cfg : Config) (s : State) (i : ℕ) (t : Table (Option ℕ) ℕ ℤ) : Prop where
  live : ∀ j, (∃ p, t.lease j = .live p) ↔
    i ≤ j ∧ j < cfg.startAllocSize ∧ s.clientsFd j ≠ 0 ∧ s.clientsFd j ≠ -1
  entry : t.entry = s.clientsFd
  openSet : t.openSet = s.openFds \ stdFds
  lost : t.lost = ∅
  natural : -1 ∉ s.openFds

/-- When nothing is stale, the table of entries is what the clean-up needs. -/
lemma Slots.sweep (h : Slots cfg s) (hkept : Kept cfg s) (hok : Released cfg s .main)
    (hpc : s.mainPc = .joinShutdown) (hclients : s'.clientsFd = s.clientsFd)
    (hopen : s'.openFds = s.openFds) : ∃ t, Sweep cfg s' 0 t ∧ t.Ok := by
  obtain ⟨t, htr, hokt⟩ := h.leases
  simp only [Released, hpc] at hok
  refine ⟨t, ⟨fun j => ⟨?_, ?_⟩, htr.entry.trans hclients.symm, by rw [hopen]; exact htr.openSet,
    htr.lost, hopen ▸ h.natural⟩, hokt⟩
  · rintro ⟨p, hlive⟩
    have hin := htr.live_open hokt hlive
    rw [hclients]
    refine ⟨Nat.zero_le _, ?_, htr.live_ne_zero hokt hlive, fun hneg => ?_⟩
    · cases p with
      | none =>
          have := ((htr.main j).mp hlive).1
          simp [hpc, MainPc.carries] at this
      | some k =>
          obtain ⟨hk, rfl⟩ := (htr.cell j k).mp hlive
          exact (h.cells.within k (hkept.books.handed_of_has hk)).2.1
    · exact h.natural (hneg ▸ hin.1)
  · rintro ⟨-, hj, hzero, hneg⟩
    rw [hclients] at hzero hneg
    cases hl : t.lease j with
    | live p => exact ⟨p, rfl⟩
    | rest => exact absurd (htr.rest j hl) (by simp [hzero, hneg])
    | closed k =>
        obtain ⟨hhanded, hidle, rfl, hentry⟩ := htr.closed j k hl
        obtain ⟨hk, -, hfd⟩ := h.cells.within k hhanded
        have hflag : (s.args k).flag = 0 :=
          (hkept.flags.bit k).resolve_right fun hup => hidle (Or.inl hup)
        exact absurd hentry (hok k hk hflag hfd)

lemma Sweep.skip {t : Table (Option ℕ) ℕ ℤ} {i : ℕ} (h : Sweep cfg s i t)
    (hi : s.clientsFd i = 0 ∨ s.clientsFd i = -1) (hclients : s'.clientsFd = s.clientsFd)
    (hopen : s'.openFds = s.openFds) : Sweep cfg s' (i + 1) t := by
  refine ⟨fun j => ?_, h.entry.trans hclients.symm, by rw [hopen]; exact h.openSet, h.lost,
    hopen ▸ h.natural⟩
  rw [h.live, hclients]
  refine ⟨fun ⟨hij, hrest⟩ => ⟨Nat.lt_of_le_of_ne hij ?_, hrest⟩,
    fun ⟨hij, hrest⟩ => ⟨Nat.le_of_succ_le hij, hrest⟩⟩
  rintro rfl
  rcases hi with hi | hi
  · exact hrest.2.1 hi
  · exact hrest.2.2 hi

/-- The clean-up closes an entry: the client of no later one. -/
lemma Sweep.close {t : Table (Option ℕ) ℕ ℤ} {i : ℕ} (h : Sweep cfg s i t) (hok : t.Ok)
    (hi : i < cfg.startAllocSize) (hzero : s.clientsFd i ≠ 0) (hneg : s.clientsFd i ≠ -1)
    (hclients : s'.clientsFd = s.clientsFd)
    (hopen : s'.openFds = s.openFds.erase (s.clientsFd i)) :
    ∃ t', Sweep cfg s' (i + 1) t' ∧ t'.Ok := by
  obtain ⟨p, hlive⟩ := (h.live i).mpr ⟨le_rfl, hi, hzero, hneg⟩
  refine ⟨t.close i 0, ⟨fun j => ?_, h.entry.trans hclients.symm, ?_, h.lost, ?_⟩,
    hok.close hlive⟩
  · rw [hclients]
    by_cases hj : j = i
    · subst hj
      simp [Table.close]
    · rw [show (∃ p, (t.close i 0).lease j = .live p) ↔ ∃ p, t.lease j = .live p by
        simp [Table.close, hj], h.live]
      exact and_congr_left fun _ =>
        ⟨fun hij => Nat.lt_of_le_of_ne hij (Ne.symm hj), Nat.le_of_succ_le⟩
  · rw [Table.close, h.entry, h.openSet, hopen]
    exact (Finset.erase_sdiff_comm _ _ _).symm
  · exact fun hin => h.natural (Finset.mem_of_mem_erase (hopen ▸ hin))

/-- Behind the last entry nothing is open. -/
lemma Sweep.nothing_open {t : Table (Option ℕ) ℕ ℤ} {i : ℕ} (h : Sweep cfg s i t) (hok : t.Ok)
    (hi : cfg.startAllocSize ≤ i) : s.openFds ⊆ stdFds := by
  intro fd hfd
  by_contra hstd
  have hin : fd ∈ t.openSet := h.openSet ▸ Finset.mem_sdiff.mpr ⟨hfd, hstd⟩
  rcases hok.covered fd hin with hlost | ⟨j, p, hlive, -⟩
  · simp [h.lost] at hlost
  · obtain ⟨hij, hj, -⟩ := (h.live j).mp ⟨p, hlive⟩
    omega

/-- Up to the clean-up the entries are in order; in it the ones in front are; at the end no
client is open. -/
structure Stage (cfg : Config) (s : State) : Prop where
  before : (∀ i, s.mainPc ≠ .cleanup i) → s.mainPc ≠ .ended → Slots cfg s
  during : ∀ i, s.mainPc = .cleanup i → ∃ t, Sweep cfg s i t ∧ t.Ok
  after : s.mainPc = .ended → s.openFds ⊆ stdFds

/-- What the guarded runs keep. -/
structure Closing (cfg : Config) (s : State) : Prop where
  kept : Kept cfg s
  space : Space cfg s
  quiet : Quiet cfg s
  stage : Stage cfg s
  ledger : Ledger s

lemma closing_init : Closing cfg init where
  kept := kept_of_reach (Reach.refl (step cfg) Anything init)
  space := space_init
  quiet := quiet_init
  stage := ⟨fun _ _ => slots_init, by simp [init], by simp [init]⟩
  ledger := ledger_init

/-- While a worker moves, the clean-up has not begun. -/
lemma Quiet.before (h : Quiet cfg s) {w : ℕ} {ok : Bool}
    (hstep : step cfg s (.worker w ok) = some s') :
    (∀ i, s.mainPc ≠ .cleanup i) ∧ s.mainPc ≠ .ended := by
  obtain ⟨hw, hawake⟩ := awake_of_step hstep
  refine ⟨fun i hpc => hawake (h w ?_), fun hpc => hawake (h w ?_)⟩
  · simpa [hpc, MainPc.joined] using hw
  · simpa [hpc, MainPc.joined] using hw

lemma Closing.stage_control {ml : ℕ → Bool} {pc : MainPc} (h : Closing cfg s)
    (hok : Released cfg s .main) (hc : Control cfg s s.mainPc ml pc)
    (hslots : (∀ i, s.mainPc ≠ .cleanup i) → Slots cfg ({ s with ml := ml }.goto pc)) :
    Stage cfg ({ s with ml := ml }.goto pc) := by
  have hloop : (∀ i, s.mainPc ≠ .cleanup i) → (∀ i, pc ≠ .cleanup i) → pc ≠ .ended →
      Stage cfg ({ s with ml := ml }.goto pc) := fun hbefore hpc hpc' =>
    ⟨fun _ _ => hslots hbefore, fun i hi => absurd hi (hpc i), fun hend => absurd hend hpc'⟩
  have hduring := h.stage.during
  have hbefore := h.stage.before
  generalize hpc : s.mainPc = pc₀ at hc hloop hslots hduring hbefore
  cases hc with
  | joinShutdown =>
      refine ⟨fun hno => absurd rfl (hno 0), fun i hi => ?_, by simp⟩
      obtain rfl : 0 = i := by simpa using hi
      exact (hbefore (by simp) (by simp)).sweep h.kept hok hpc rfl rfl
  | @cleanKeep i hzero =>
      refine ⟨fun hno => absurd rfl (hno (i + 1)), fun j hj => ?_, by simp⟩
      obtain rfl : i + 1 = j := by simpa using hj
      obtain ⟨t, hsweep, hokt⟩ := hduring i rfl
      exact ⟨t, hsweep.skip (Or.inl hzero) rfl rfl, hokt⟩
  | @cleaned i hi =>
      obtain ⟨t, hsweep, hokt⟩ := hduring i rfl
      exact ⟨fun _ hno => absurd rfl hno, by simp,
        fun _ => hsweep.nothing_open hokt (not_lt.mp hi)⟩
  | _ => exact hloop (by simp) (by simp) (by simp)

lemma Closing.stage_clean (h : Closing cfg s) {i : ℕ} (hpc : s.mainPc = .cleanup i)
    (hi : i < cfg.startAllocSize) (hfd : s.clientsFd i ≠ 0) :
    Stage cfg ((s.closeFd none (s.clientsFd i)).goto (.cleanup (i + 1))) := by
  obtain ⟨t, hsweep, hokt⟩ := h.stage.during i hpc
  refine ⟨fun hno => absurd rfl (hno (i + 1)), fun j hj => ?_, by simp⟩
  obtain rfl : i + 1 = j := by simpa using hj
  by_cases hneg : s.clientsFd i = -1
  · -- `close(-1)` fails
    refine ⟨t, hsweep.skip (Or.inr hneg) rfl ?_, hokt⟩
    rw [State.goto_openFds, State.closeFd_openFds, hneg]
    exact Finset.erase_eq_of_notMem hsweep.natural
  · exact hsweep.close hokt hi hfd hneg rfl rfl

theorem Closing.stage_step {a : Action} (h : Closing cfg s) (hok : Released cfg s a)
    (hstep : step cfg s a = some s') : Stage cfg s' := by
  -- up to the join of the thread that waits for the exit line, and for the workers
  have hslots : (∀ i, s.mainPc ≠ .cleanup i) → s.mainPc ≠ .ended → Slots cfg s' :=
    fun hbefore hend =>
      slots_step h.kept h.space (h.stage.before hbefore hend) hok hbefore hstep
  have hloop : (∀ i, s.mainPc ≠ .cleanup i) → s.mainPc ≠ .ended → (∀ i, s'.mainPc ≠ .cleanup i) →
      s'.mainPc ≠ .ended → Stage cfg s' := fun hbefore hend hbefore' hend' =>
    ⟨fun _ _ => hslots hbefore hend, fun i hi => absurd hi (hbefore' i),
      fun hpc => absurd hpc hend'⟩
  cases moves_of_step hstep with
  | control hc =>
      refine h.stage_control hok hc fun hbefore => hslots hbefore fun hend => ?_
      rw [hend] at hc
      cases hc
  | @listen ok pc hpc hpc' =>
      rcases hpc' with rfl | rfl
      all_goals exact hloop (by simp [hpc]) (by simp [hpc]) (by simp) (by simp)
  | @bump pc hpc hpc' =>
      rcases hpc' with ⟨-, rfl⟩ | ⟨-, rfl⟩
      all_goals exact hloop (by simp [hpc]) (by simp [hpc]) (by simp) (by simp)
  | clean hpc hi hfd => exact h.stage_clean hpc hi hfd
  | worker hw hc =>
      obtain ⟨hbefore, hend⟩ := h.quiet.before hstep
      exact hloop hbefore hend hbefore hend
  | sends hpc =>
      obtain ⟨hbefore, hend⟩ := h.quiet.before hstep
      exact hloop hbefore hend hbefore hend
  | clearFlag hpc =>
      obtain ⟨hbefore, hend⟩ := h.quiet.before hstep
      exact hloop hbefore hend hbefore hend
  | close hpc =>
      obtain ⟨hbefore, hend⟩ := h.quiet.before hstep
      exact hloop hbefore hend hbefore hend
  | signal ha =>
      exact ⟨hslots, fun i hi => h.stage.during i hi |>.imp fun t ht =>
        ⟨⟨ht.1.live, ht.1.entry, ht.1.openSet, ht.1.lost, ht.1.natural⟩, ht.2⟩, h.stage.after⟩
  | zero hpc hflag hfd hno => exact hloop (by simp [hpc]) (by simp [hpc]) (by simp) (by simp)
  | search hpc => exact hloop (by simp [hpc]) (by simp [hpc]) (by simp) (by simp)
  | acceptFails hpc hno => exact hloop (by simp [hpc]) (by simp [hpc]) (by simp) (by simp)
  | accepts hpc hno hfd => exact hloop (by simp [hpc]) (by simp [hpc]) (by simp) (by simp)
  | setFd hpc => exact hloop (by simp [hpc]) (by simp [hpc]) (by simp) (by simp)
  | setFdNo hpc => exact hloop (by simp [hpc]) (by simp [hpc]) (by simp) (by simp)
  | setFlag hpc => exact hloop (by simp [hpc]) (by simp [hpc]) (by simp) (by simp)
  | exit hpc => exact hloop (by simp [hpc]) (by simp [hpc]) (by simp) (by simp)

theorem Closing.ledger_step {a : Action} (h : Closing cfg s)
    (hstep : step cfg s a = some s') : Ledger s' := by
  cases moves_of_step hstep with
  | accepts hpc hno hfd =>
      have hslots := h.stage.before (by simp [hpc]) (by simp [hpc])
      exact h.ledger.accepts hslots.std hfd rfl rfl
  | setFlag hpc => exact h.ledger.frame (by simp) rfl
  | @clean i hpc hi hfd =>
      obtain ⟨t, hsweep, hokt⟩ := h.stage.during i hpc
      refine h.ledger.closes (fun hclient => ?_) rfl rfl
      obtain ⟨p, hlive⟩ := (hsweep.live i).mpr ⟨le_rfl, hi, hfd, hclient.2⟩
      have hin := hokt.entry_open i p hlive
      rw [hsweep.entry, hsweep.openSet] at hin
      exact (Finset.mem_sdiff.mp hin).1
  | @close w ok hpc =>
      obtain ⟨hbefore, hend⟩ := h.quiet.before hstep
      have hslots := h.stage.before hbefore hend
      obtain ⟨t, htr, hokt⟩ := hslots.leases
      refine h.ledger.closes (fun _ => ?_) rfl rfl
      rw [← hslots.cells.held w (Or.inr hpc)]
      exact (htr.live_open hokt ((htr.cell _ w).mpr ⟨Or.inr hpc, rfl⟩)).1
  | _ => exact h.ledger.frame rfl rfl

theorem closing_of_reach (h : Reach (step cfg) (Released cfg) init s) : Closing cfg s := by
  refine h.invariant_along closing_init fun u a v hreach hu hok hstep => ?_
  exact ⟨kept_of_reach (hreach.tail hok hstep), space_step hu.kept.room hu.space hstep,
    quiet_step hu.quiet hstep, hu.stage_step hok hstep, hu.ledger_step hstep⟩

/-- **Every accepted descriptor is closed exactly once** in a run to the end of `main`, if no
idle cell is given a client in another entry than its last one, and no entry of an idle cell
still holds a closed descriptor when the clean-up begins. -/
theorem closed_once_of_reach (h : Reach (step cfg) (Released cfg) init s)
    (hended : s.mainPc = .ended) : ClosedOnce (uses s.log) := by
  have hclosing := closing_of_reach h
  refine closedOnce_of_alternates fun fd hfd => ?_
  have hclient := hclosing.ledger.clients fd hfd
  obtain ⟨halt, hiff⟩ := hclosing.ledger.alternates fd hclient
  exact ⟨halt, fun hopen => hclient.1 (hclosing.stage.after hended (hiff.mp hopen))⟩

instance (cfg : Config) (s : State) (a : Action) : Decidable (Released cfg s a) := by
  cases a with
  | main =>
      unfold Released
      cases s.mainPc <;> exact inferInstance
  | _ => exact isTrue trivial

/-- The last turn is over: `main` leaves the loop, the workers and the thread that waits for the
exit line exit, `main` joins them and cleans up. -/
def shutdown (size : ℕ) : List Action :=
  List.replicate 2 .main ++ (List.range size).map (.worker · true) ++
    List.replicate (size + 1) .main ++ [.line true] ++ List.replicate (size + 2) .main

/-- The first client is served and its entry zeroed; the second one, in the same entry, is
left to the clean-up. -/
theorem closed_once_of_reach_second_client : ∃ s : State,
    s.log = [.accept 4, .hand 0 4, .close (some 0) 4, .accept 5, .hand 0 5, .close none 5] ∧
      ClosedOnce (uses s.log) := by
  have hguarded : Guarded (step ⟨2, Nat.two_pos, fun _ => true⟩)
      (Released ⟨2, Nat.two_pos, fun _ => true⟩) init
      (clientTurn 2 4 ++ serve 0 ++ .main :: clientTurn 2 5 ++ shutdown 2) = true := by decide
  have hrun : (exec (step ⟨2, Nat.two_pos, fun _ => true⟩) init
      (clientTurn 2 4 ++ serve 0 ++ .main :: clientTurn 2 5 ++ shutdown 2)).map
        (fun s => (s.mainPc, s.log)) = some (.ended,
      [.accept 4, .hand 0 4, .close (some 0) 4, .accept 5, .hand 0 5, .close none 5]) := rfl
  obtain ⟨s, hs, hreach⟩ := Reach.of_guarded hguarded
  rw [hs] at hrun
  obtain ⟨hended, hlog⟩ := Prod.mk.inj (Option.some.inj hrun)
  exact ⟨s, hlog, closed_once_of_reach hreach hended⟩

/-- The worker closes its client in the last turn, and the clean-up closes it again. -/
theorem last_client_closed_twice : ∃ s,
    exec (step ⟨1, Nat.one_pos, fun _ => true⟩) init (clientTurn 1 4 ++ serve 0 ++ shutdown 1) =
      some s ∧ s.mainPc = .ended ∧ ¬ ClosedOnce (uses s.log) := by
  refine ⟨_, rfl, rfl, fun honce => ?_⟩
  have htwice := honce [] 4 [.closed 4, .closed 4] (by decide)
  exact absurd htwice (by decide)

end ThreadPool
end EltSummer
