import EltSummer.Framework.SlotTable
import EltSummer.HighloadServers.PoolHandOff
import Mathlib.Data.Finset.Card
import Mathlib.Data.Finset.SDiff
import Mathlib.Data.Finset.Range

/-!
# The entries of `clients_fd`

Who has to close a client's descriptor can be read off the entry `main` stored it in: it is
`main`'s until a cell has it, then the worker's until that has closed it, and then the entry
is stale until the scan at the head of a turn zeroes it.  `Tracks` says this with a lease
table (`SlotTable.Table`), and `Slots` says that some lease table tracks the state and is
sound.

The scan finds the entries through the cells, and a cell remembers one entry only.  So when
`main` gives an idle cell a client in another entry than its last one, the entry the cell
forgets stays stale for good.  `Released` is the guard that this does not happen, and that
nothing is left stale when the clean-up begins.  Under the guard the cells that were ever used
keep distinct entries (`Cells.apart`), and so the scan never zeroes an entry in use.
-/

namespace EltSummer
namespace ThreadPool

open Interleaving Function SlotTable

variable {cfg : Config} {s s' : State}

/-- The guard: an idle cell is used for the first time or again with its own entry, and when
the workers are gone no entry of an idle cell holds the descriptor the worker has closed. -/
def Released (cfg : Config) (s : State) : Action → Prop
  | .main => match s.mainPc with
    | .findTest k => (s.args k).flag = 0 →
        (s.args k).clientFd = 0 ∨ (s.args k).clientFdNo = s.clientsFdNo
    | .joinShutdown => ∀ k < cfg.startAllocSize, (s.args k).flag = 0 → (s.args k).clientFd ≠ 0 →
        s.clientsFd (s.args k).clientFdNo ≠ (s.args k).clientFd
    | _ => True
  | _ => True

/-! ## There is always a zero entry -/

/-- The entries that are not zero. -/
def nonzero (n : ℕ) (clientsFd : ℕ → ℤ) : Finset ℕ :=
  (Finset.range n).filter fun i => clientsFd i ≠ 0

lemma card_nonzero_update (n i : ℕ) (clientsFd : ℕ → ℤ) (fd : ℤ) :
    (nonzero n (update clientsFd i fd)).card ≤ (nonzero n clientsFd).card + 1 := by
  refine (Finset.card_le_card (t := insert i (nonzero n clientsFd)) fun j hj => ?_).trans
    (Finset.card_insert_le _ _)
  obtain ⟨hjn, hj⟩ := Finset.mem_filter.mp hj
  by_cases hji : j = i
  · simp [hji]
  · rw [update_of_ne hji] at hj
    exact Finset.mem_insert_of_mem (Finset.mem_filter.mpr ⟨hjn, hj⟩)

lemma card_nonzero_zero (n i : ℕ) (clientsFd : ℕ → ℤ) :
    (nonzero n (update clientsFd i 0)).card ≤ (nonzero n clientsFd).card := by
  refine Finset.card_le_card fun j hj => ?_
  obtain ⟨hjn, hj⟩ := Finset.mem_filter.mp hj
  have hji : j ≠ i := by
    rintro rfl
    simp at hj
  rw [update_of_ne hji] at hj
  exact Finset.mem_filter.mpr ⟨hjn, hj⟩

/-- With fewer entries in use than there are, the search finds a zero. -/
lemma exists_firstFree {n : ℕ} {clientsFd : ℕ → ℤ} (h : (nonzero n clientsFd).card < n) :
    ∃ i, firstFree clientsFd n = some i ∧ i < n ∧ clientsFd i = 0 := by
  cases hfind : firstFree clientsFd n with
  | none =>
      have hall : ∀ i < n, clientsFd i ≠ 0 := by simpa [firstFree] using hfind
      have hfull : nonzero n clientsFd = Finset.range n :=
        Finset.filter_true_of_mem fun i hi => hall i (Finset.mem_range.mp hi)
      simp [hfull] at h
  | some i =>
      have hin := List.mem_of_find?_eq_some hfind
      have hzero := List.find?_some hfind
      exact ⟨i, rfl, List.mem_range.mp hin, by simpa using hzero⟩

/-- The entries taken in this turn that `count` does not count yet. -/
def MainPc.taken (pc : MainPc) : ℕ := if pc.carries then 1 else pc.slack

/-- Every turn takes at most one entry, so there is a zero entry when `main` searches. -/
structure Space (cfg : Config) (s : State) : Prop where
  few : (nonzero cfg.startAllocSize s.clientsFd).card ≤ s.count + s.mainPc.taken
  free : s.mainPc = .accept →
    s.clientsFdNo < cfg.startAllocSize ∧ s.clientsFd s.clientsFdNo = 0
  slot : s.mainPc.carries = true → s.clientsFdNo < cfg.startAllocSize

lemma space_init : Space cfg init := by
  refine ⟨?_, ?_, ?_⟩ <;> simp [init, MainPc.carries, nonzero]

/-- A step that leaves the entries, `count` and `clients_fd_no` alone. -/
lemma Space.frame (h : Space cfg s) (hentries : s'.clientsFd = s.clientsFd)
    (hcount : s'.count = s.count) (hno : s'.clientsFdNo = s.clientsFdNo)
    (htaken : s.mainPc.taken ≤ s'.mainPc.taken) (haccept : s'.mainPc ≠ .accept)
    (hcarries : s'.mainPc.carries = true → s.mainPc.carries = true) : Space cfg s' := by
  refine ⟨?_, fun hpc => absurd hpc haccept, fun hc => hno ▸ h.slot (hcarries hc)⟩
  rw [hentries, hcount]
  exact h.few.trans (Nat.add_le_add_left htaken _)

lemma Space.control {ml : ℕ → Bool} {pc : MainPc} (h : Space cfg s)
    (hc : Control cfg s s.mainPc ml pc) : Space cfg ({ s with ml := ml }.goto pc) := by
  have hframe : s.mainPc.taken ≤ pc.taken → pc ≠ .accept →
      (pc.carries = true → s.mainPc.carries = true) → Space cfg ({ s with ml := ml }.goto pc) :=
    fun htaken haccept hcarries => h.frame rfl rfl rfl htaken haccept hcarries
  generalize s.mainPc = pc₀ at hc hframe
  cases hc with
  | _ => exact hframe (by simp [MainPc.taken, MainPc.carries, MainPc.slack]) (by simp)
          (by simp [MainPc.carries])

lemma space_step {a : Action} (hroom : Room cfg s) (h : Space cfg s)
    (hstep : step cfg s a = some s') : Space cfg s' := by
  have hnoTaken : ∀ {pc}, s.mainPc = pc → pc.carries = false → pc.slack = 0 →
      (nonzero cfg.startAllocSize s.clientsFd).card ≤ s.count := fun hpc hc hslack => by
    simpa [hpc, MainPc.taken, hc, hslack] using h.few
  cases moves_of_step hstep with
  | control hc => exact h.control hc
  | zero hpc hflag hfd hno =>
      refine ⟨?_, by simp, by simp [MainPc.carries]⟩
      exact (card_nonzero_zero _ _ _).trans
        ((hnoTaken hpc rfl rfl).trans (Nat.le_add_right _ _))
  | listen hpc hpc' =>
      refine h.frame rfl rfl rfl (by simp [hpc, MainPc.taken, MainPc.carries, MainPc.slack]) ?_ ?_
      all_goals rcases hpc' with rfl | rfl <;> simp [MainPc.carries]
  | search hpc =>
      have hloop : s.count < cfg.startAllocSize := hroom.inLoop (by rw [hpc]; rfl)
      have hfew := hnoTaken hpc rfl rfl
      obtain ⟨i, hi, hlt, hzero⟩ := exists_firstFree (lt_of_le_of_lt hfew hloop)
      refine ⟨hfew.trans (Nat.le_add_right _ _), fun _ => ?_, by simp [MainPc.carries]⟩
      simpa [hi] using ⟨hlt, hzero⟩
  | acceptFails hpc hno =>
      refine ⟨?_, by simp, by simp [MainPc.carries]⟩
      exact (card_nonzero_update _ _ _ _).trans (Nat.succ_le_succ (hnoTaken hpc rfl rfl))
  | accepts hpc hno hfd =>
      refine ⟨?_, by simp, fun _ => hno⟩
      exact (card_nonzero_update _ _ _ _).trans (Nat.succ_le_succ (hnoTaken hpc rfl rfl))
  | setFd hpc =>
      exact h.frame rfl rfl rfl (by rw [hpc]; exact le_rfl) (by simp) (fun _ => by rw [hpc]; rfl)
  | setFdNo hpc =>
      exact h.frame rfl rfl rfl (by rw [hpc]; exact le_rfl) (by simp) (fun _ => by rw [hpc]; rfl)
  | setFlag hpc =>
      exact h.frame rfl rfl rfl (by rw [hpc]; exact le_rfl) (by simp) (by simp [MainPc.carries])
  | bump hpc hpc' =>
      have hfew : (nonzero cfg.startAllocSize s.clientsFd).card ≤ s.count + 1 := by
        simpa [hpc, MainPc.taken, MainPc.carries, MainPc.slack] using h.few
      rcases hpc' with ⟨-, rfl⟩ | ⟨-, rfl⟩
      all_goals
        exact ⟨hfew.trans (Nat.le_add_right _ _), by simp, by simp [MainPc.carries]⟩
  | exit hpc =>
      exact h.frame rfl rfl rfl (by rw [hpc]; exact le_rfl) (by simp) (by simp [MainPc.carries])
  | clean hpc hi hfd =>
      exact h.frame rfl rfl rfl (by rw [hpc]; exact le_rfl) (by simp) (by simp [MainPc.carries])
  | worker hw hc => exact ⟨h.few, h.free, h.slot⟩
  | sends hpc => exact ⟨h.few, h.free, h.slot⟩
  | clearFlag hpc => exact ⟨h.few, h.free, h.slot⟩
  | close hpc => exact ⟨h.few, h.free, h.slot⟩
  | signal ha => exact ⟨h.few, h.free, h.slot⟩

/-! ## Leases and cells -/

/-- The standard streams and the server's socket. -/
def stdFds : Finset ℤ := {0, 1, 2, 3}

/-- Cell `k` has been handed a client. -/
abbrev State.Handed (s : State) (k : ℕ) : Prop := k ∈ (handed s.log).map Prod.fst

/-- Entry `i` still holds the descriptor that worker `k` has closed. -/
structure State.Stale (s : State) (i k : ℕ) : Prop where
  handed : s.Handed k
  idle : ¬ s.Has k
  no : (s.args k).clientFdNo = i
  entry : s.clientsFd i = (s.args k).clientFd

/-- How many cells the search for a worker has passed. -/
def MainPc.passed : MainPc → Option ℕ
  | .findLock i | .findTest i | .setFd i | .setFdNo i | .setFlag i => some i
  | .findUnlock i => some (i + 1)
  | _ => none

/-- The lease table read off a state: an entry is `main`'s, a worker's, stale, or free. -/
structure Tracks (s : State) (t : Table (Option ℕ) ℕ ℤ) : Prop where
  main : ∀ i, t.lease i = .live none ↔ s.mainPc.carries = true ∧ s.clientsFdNo = i
  cell : ∀ i k, t.lease i = .live (some k) ↔ s.Has k ∧ (s.args k).clientFdNo = i
  closed : ∀ i k, t.lease i = .closed k → s.Stale i k
  rest : ∀ i, t.lease i = .rest → s.clientsFd i = 0 ∨ s.clientsFd i = -1
  entry : t.entry = s.clientsFd
  openSet : t.openSet = s.openFds \ stdFds
  lost : t.lost = ∅

/-- The cells that were used come first, keep distinct entries, and are passed by the search
only when they are busy. -/
structure Cells (cfg : Config) (s : State) : Prop where
  held : ∀ k, s.Has k → s.clientsFd (s.args k).clientFdNo = (s.args k).clientFd
  within : ∀ k, s.Handed k → k < cfg.startAllocSize ∧
    (s.args k).clientFdNo < cfg.startAllocSize ∧ (s.args k).clientFd ≠ 0
  fresh : ∀ k, (s.args k).clientFd ≠ 0 → s.Handed k ∨ s.mainPc.writes = some k
  down : ∀ j k, j < k → s.Handed k → s.Handed j
  apart : ∀ j k, s.Handed j → s.Handed k → (s.args j).clientFdNo = (s.args k).clientFdNo → j = k
  passed : ∀ i, s.mainPc.passed = some i →
    ∀ j < i, s.Handed j ∧ (s.args j).clientFdNo ≠ s.clientsFdNo
  choice : ∀ k, s.mainPc = .setFd k ∨ s.mainPc = .setFdNo k → s.Handed k →
    (s.args k).clientFdNo = s.clientsFdNo

/-- The invariant of the entries. -/
structure Slots (cfg : Config) (s : State) : Prop where
  leases : ∃ t, Tracks s t ∧ t.Ok
  cells : Cells cfg s
  std : stdFds ⊆ s.openFds
  natural : -1 ∉ s.openFds

lemma slots_init : Slots cfg init where
  leases := by
    refine ⟨⟨fun _ => .rest, fun _ => 0, ∅, ∅⟩, ⟨?_, ?_, ?_, ?_, rfl, rfl, rfl⟩, ⟨?_, ?_, ?_⟩⟩
    all_goals simp [init, MainPc.carries]
  cells := by constructor <;> simp [init, handed, MainPc.passed]
  std := Finset.Subset.refl _
  natural := by simp [init]

section Reading

variable {t : Table (Option ℕ) ℕ ℤ}

/-- An entry in use is an open descriptor, and none of the server's own. -/
lemma Tracks.live_open (htr : Tracks s t) (hok : t.Ok) {i : ℕ} {p : Option ℕ}
    (hlive : t.lease i = .live p) : s.clientsFd i ∈ s.openFds ∧ s.clientsFd i ∉ stdFds := by
  have hin := hok.entry_open i p hlive
  rw [htr.entry, htr.openSet] at hin
  exact Finset.mem_sdiff.mp hin

lemma Tracks.live_ne_zero (htr : Tracks s t) (hok : t.Ok) {i : ℕ} {p : Option ℕ}
    (hlive : t.lease i = .live p) : s.clientsFd i ≠ 0 := by
  intro hzero
  have hout := (htr.live_open hok hlive).2
  simp [hzero, stdFds] at hout

/-- A zero entry is free. -/
lemma Tracks.rest_of_zero (htr : Tracks s t) (hok : t.Ok) (hcells : Cells cfg s) {i : ℕ}
    (hzero : s.clientsFd i = 0) : t.lease i = .rest := by
  cases hl : t.lease i with
  | rest => rfl
  | live p => exact absurd hzero (htr.live_ne_zero hok hl)
  | closed k =>
      have hstale := htr.closed i k hl
      exact absurd (hstale.entry.symm.trans hzero) (hcells.within k hstale.handed).2.2

end Reading

/-! ## Steps that move no entry -/

/-- A step that leaves the entries, what is open and who has which client alone. -/
lemma Slots.transport (h : Slots cfg s) (hhas : ∀ k, s'.Has k ↔ s.Has k)
    (hhanded : handed s'.log = handed s.log)
    (hcell : ∀ k, (s'.args k).clientFd = (s.args k).clientFd ∧
      (s'.args k).clientFdNo = (s.args k).clientFdNo)
    (hentries : s'.clientsFd = s.clientsFd) (hopen : s'.openFds = s.openFds)
    (hmain : ∀ i, (s'.mainPc.carries = true ∧ s'.clientsFdNo = i) ↔
      (s.mainPc.carries = true ∧ s.clientsFdNo = i))
    (hwrites : ∀ k, s.mainPc.writes = some k → s'.mainPc.writes = some k)
    (hpassed : ∀ i, s'.mainPc.passed = some i →
      ∀ j < i, s.Handed j ∧ (s.args j).clientFdNo ≠ s'.clientsFdNo)
    (hchoice : ∀ k, s'.mainPc = .setFd k ∨ s'.mainPc = .setFdNo k → s.Handed k →
      (s.args k).clientFdNo = s'.clientsFdNo) : Slots cfg s' := by
  obtain ⟨t, htr, hok⟩ := h.leases
  have hHanded : ∀ k, s'.Handed k ↔ s.Handed k := fun k => by rw [State.Handed, hhanded]
  refine ⟨⟨t, ?_, hok⟩, ?_, hopen ▸ h.std, hopen ▸ h.natural⟩
  · exact {
      main := fun i => (htr.main i).trans (hmain i).symm
      cell := fun i k => by rw [hhas, (hcell k).2]; exact htr.cell i k
      closed := fun i k hl => by
        have hstale := htr.closed i k hl
        exact ⟨(hHanded k).mpr hstale.handed, fun hk => hstale.idle ((hhas k).mp hk),
          (hcell k).2.trans hstale.no, by rw [hentries, (hcell k).1]; exact hstale.entry⟩
      rest := fun i hl => by rw [hentries]; exact htr.rest i hl
      entry := htr.entry.trans hentries.symm
      openSet := by rw [hopen]; exact htr.openSet
      lost := htr.lost }
  · exact {
      held := fun k hk => by
        rw [hentries, (hcell k).1, (hcell k).2]
        exact h.cells.held k ((hhas k).mp hk)
      within := fun k hk => by
        rw [(hcell k).1, (hcell k).2]
        exact h.cells.within k ((hHanded k).mp hk)
      fresh := fun k hk => by
        rw [(hcell k).1] at hk
        exact (h.cells.fresh k hk).imp (hHanded k).mpr (hwrites k)
      down := fun j k hjk hk => (hHanded j).mpr (h.cells.down j k hjk ((hHanded k).mp hk))
      apart := fun j k hj hk heq => by
        rw [(hcell j).2, (hcell k).2] at heq
        exact h.cells.apart j k ((hHanded j).mp hj) ((hHanded k).mp hk) heq
      passed := fun i hi j hj => by
        rw [(hcell j).2, hHanded]
        exact hpassed i hi j hj
      choice := fun k hpc hk => by
        rw [(hcell k).2]
        exact hchoice k hpc ((hHanded k).mp hk) }

lemma Slots.control {ml : ℕ → Bool} {pc : MainPc} (h : Slots cfg s) (hkept : Kept cfg s)
    (hok : Released cfg s .main) (hc : Control cfg s s.mainPc ml pc) :
    Slots cfg ({ s with ml := ml }.goto pc) := by
  have hcarries := (hc.carries fun _ => hkept.room.no_full_pool).1
  have hpass := h.cells.passed
  have hframe : (∀ k, s.mainPc.writes = some k → pc.writes = some k) →
      (∀ i, pc.passed = some i →
        ∀ j < i, s.Handed j ∧ (s.args j).clientFdNo ≠ s.clientsFdNo) →
      (∀ k, pc = .setFd k ∨ pc = .setFdNo k → s.Handed k →
        (s.args k).clientFdNo = s.clientsFdNo) →
      Slots cfg ({ s with ml := ml }.goto pc) := fun hwrites hpassed hchoice =>
    h.transport (fun _ => Iff.rfl) rfl (fun _ => ⟨rfl, rfl⟩) rfl rfl
      (fun i => by simp [hcarries]) hwrites hpassed hchoice
  obtain ⟨t, htr, hokt⟩ := h.leases
  have hmain := htr.main
  generalize hpc : s.mainPc = pc₀ at hc hframe hpass hmain
  cases hc with
  | findLock hi hml => exact hframe (by simp [MainPc.writes]) hpass (by simp)
  | findUnlock => exact hframe (by simp [MainPc.writes]) hpass (by simp)
  | @idle i hflag =>
      refine hframe (by simp [MainPc.writes]) hpass fun k hk hhanded => ?_
      obtain rfl : i = k := by simpa using hk
      simp only [Released, hpc] at hok
      exact (hok hflag).resolve_left (h.cells.within i hhanded).2.2
  | @busy i hflag =>
      refine hframe (by simp [MainPc.writes]) (fun k hk j hj => ?_) (by simp)
      obtain rfl := Option.some.inj hk
      rcases Nat.lt_succ_iff_lt_or_eq.mp hj with hj | rfl
      · exact hpass i rfl j hj
      · -- a busy cell is in use by its worker, and so has another entry than `main`
        have hhas : s.Has j := Or.inl ((hkept.flags.bit j).resolve_left hflag)
        refine ⟨hkept.books.handed_of_has hhas, fun heq => ?_⟩
        have hcell := (htr.cell s.clientsFdNo j).mpr ⟨hhas, heq⟩
        rw [(hmain s.clientsFdNo).mpr ⟨rfl, rfl⟩] at hcell
        cases hcell
  | _ => exact hframe (by simp [MainPc.writes]) (by simp [MainPc.passed]) (by simp)

/-- A step of worker `w` that leaves its client alone. -/
lemma Slots.workerAt (h : Slots cfg s) {w : ℕ} {k : Worker}
    (hcell : ∀ i, (s'.args i).clientFd = (s.args i).clientFd ∧
      (s'.args i).clientFdNo = (s.args i).clientFdNo)
    (hflag : ∀ i, i ≠ w → (s'.args i).flag = (s.args i).flag)
    (hmain : s'.mainPc = s.mainPc) (hno : s'.clientsFdNo = s.clientsFdNo)
    (hentries : s'.clientsFd = s.clientsFd) (hopen : s'.openFds = s.openFds)
    (hlog : s'.log = s.log) (hworker : s'.worker = update s.worker w k)
    (hhas : (s'.args w).flag = 1 ∨ k.pc = .close ↔ s.Has w) : Slots cfg s' := by
  refine h.transport (fun i => ?_) (by rw [hlog]) hcell hentries hopen
    (fun i => by rw [hmain, hno]) (fun i hi => by rw [hmain]; exact hi)
    (fun i hi j hj => by rw [hno]; exact h.cells.passed i (hmain ▸ hi) j hj)
    (fun i hi hhanded => by rw [hno]; exact h.cells.choice i (hmain ▸ hi) hhanded)
  by_cases hi : i = w
  · subst hi
    rw [State.Has, hworker, update_self]
    exact hhas
  · rw [State.Has, hworker, update_of_ne hi, hflag i hi]

/-! ## Steps that move an entry -/

/-- `main` may write an entry that no worker has. -/
lemma Cells.setEntry (h : Cells cfg s) {i : ℕ} {fd : ℤ} {pc : MainPc}
    (hother : ∀ k, s.Has k → (s.args k).clientFdNo ≠ i) (hwrites : s.mainPc.writes = none)
    (hpassed : pc.passed = none) : Cells cfg ((s.setEntry i fd).goto pc) where
  held k hk := (update_of_ne (hother k hk) _ _).trans (h.held k hk)
  within := h.within
  fresh k hk := Or.inl (by simpa [hwrites] using h.fresh k hk)
  down := h.down
  apart := h.apart
  passed j hj := by simp [hpassed] at hj
  choice k hk := by
    rcases hk with hk | hk
    · obtain rfl : pc = .setFd k := hk
      cases hpassed
    · obtain rfl : pc = .setFdNo k := hk
      cases hpassed

/-- The scan zeroes the entry of an idle cell: it is stale or free already. -/
lemma Slots.zero (h : Slots cfg s) (hkept : Kept cfg s) {i : ℕ} (hpc : s.mainPc = .scanBody i)
    (hflag : (s.args i).flag = 0) (hfd : (s.args i).clientFd ≠ 0) :
    Slots cfg ((s.setEntry (s.args i).clientFdNo 0).goto (.scanUnlock i)) := by
  obtain ⟨t, htr, hok⟩ := h.leases
  have hout : (s.worker i).pc.holds = false := hkept.locked.apart i (by rw [hpc]; rfl)
  have hidle : ¬ s.Has i := by
    rintro (hup | hclose)
    · simp [hflag] at hup
    · simp [hclose, WorkerPc.holds] at hout
  have hhanded : s.Handed i := by simpa [hpc, MainPc.writes] using h.cells.fresh i hfd
  have hother : ∀ k, s.Has k → (s.args k).clientFdNo ≠ (s.args i).clientFdNo := by
    intro k hk heq
    obtain rfl := h.cells.apart k i (hkept.books.handed_of_has hk) hhanded heq
    exact hidle hk
  have hdead : ∀ p, t.lease (s.args i).clientFdNo ≠ .live p := by
    rintro (_ | k) hlive
    · have := ((htr.main _).mp hlive).1
      simp [hpc, MainPc.carries] at this
    · obtain ⟨hk, heq⟩ := (htr.cell _ k).mp hlive
      exact hother k hk heq
  refine ⟨⟨t.release (s.args i).clientFdNo 0, ?_, hok.release hdead⟩, ?_, h.std, h.natural⟩
  · exact {
      main := Table.update_lease_iff (by simp [MainPc.carries]) fun j hj => by
        simp [htr.main, hpc, MainPc.carries]
      cell := fun j k => Table.update_lease_iff
        (Q := fun j => s.Has k ∧ (s.args k).clientFdNo = j)
        (by simpa using fun hk => hother k hk) (fun j _ => htr.cell j k) j
      closed := fun j k hl => by
        have hj : j ≠ (s.args i).clientFdNo := by
          rintro rfl
          simp [Table.release] at hl
        have hstale := htr.closed j k (by simpa [Table.release, hj] using hl)
        exact ⟨hstale.handed, hstale.idle, hstale.no,
          (update_of_ne hj _ _).trans hstale.entry⟩
      rest := fun j hl => by
        by_cases hj : j = (s.args i).clientFdNo
        · exact Or.inl (by simp [hj])
        · simpa [hj] using htr.rest j (by simpa [Table.release, hj] using hl)
      entry := congrArg (update · (s.args i).clientFdNo 0) htr.entry
      openSet := htr.openSet
      lost := htr.lost }
  · exact h.cells.setEntry hother (by rw [hpc]; rfl) rfl

/-- A failed `accept` writes -1 into a free entry. -/
lemma Slots.acceptFails (h : Slots cfg s) (hpc : s.mainPc = .accept)
    (hzero : s.clientsFd s.clientsFdNo = 0) :
    Slots cfg ((s.setEntry s.clientsFdNo (-1)).goto .bump) := by
  obtain ⟨t, htr, hok⟩ := h.leases
  have hrest := htr.rest_of_zero hok h.cells hzero
  have hother : ∀ k, s.Has k → (s.args k).clientFdNo ≠ s.clientsFdNo := fun k hk heq => by
    have hlive := (htr.cell _ k).mpr ⟨hk, heq⟩
    simp [hrest] at hlive
  refine ⟨⟨t.overwrite s.clientsFdNo (-1), ?_, hok.overwrite hrest⟩, ?_, h.std, h.natural⟩
  · exact {
      main := fun i => by simpa [hpc, MainPc.carries, Table.overwrite] using htr.main i
      cell := htr.cell
      closed := fun i k hl => by
        have hstale := htr.closed i k hl
        have hi : i ≠ s.clientsFdNo := by
          rintro rfl
          exact absurd (hrest.symm.trans hl) (by simp)
        exact ⟨hstale.handed, hstale.idle, hstale.no,
          (update_of_ne hi _ _).trans hstale.entry⟩
      rest := fun i hl => by
        by_cases hi : i = s.clientsFdNo
        · exact Or.inr (by simp [hi])
        · simpa [hi] using htr.rest i hl
      entry := congrArg (update · s.clientsFdNo (-1)) htr.entry
      openSet := htr.openSet
      lost := htr.lost }
  · exact h.cells.setEntry hother (by rw [hpc]; rfl) rfl

/-- `accept` leases a free entry to `main`. -/
lemma Slots.accepts (h : Slots cfg s) (hpc : s.mainPc = .accept)
    (hzero : s.clientsFd s.clientsFdNo = 0) {fd : ℕ} (hfd : (fd : ℤ) ∉ s.openFds) :
    Slots cfg (({ s with openFds := insert (fd : ℤ) s.openFds }.setEntry s.clientsFdNo fd
      |>.record (.accept fd)).goto (.findLock 0)) := by
  obtain ⟨t, htr, hok⟩ := h.leases
  have hrest := htr.rest_of_zero hok h.cells hzero
  have hother : ∀ k, s.Has k → (s.args k).clientFdNo ≠ s.clientsFdNo := fun k hk heq => by
    have hlive := (htr.cell _ k).mpr ⟨hk, heq⟩
    simp [hrest] at hlive
  have hnew : (fd : ℤ) ∉ t.openSet := by
    rw [htr.openSet]
    exact fun hin => hfd (Finset.mem_sdiff.mp hin).1
  have hstd : (fd : ℤ) ∉ stdFds := fun hin => hfd (h.std hin)
  have hHanded : ∀ k, k ∈ (handed (s.log ++ [.accept fd])).map Prod.fst ↔ s.Handed k := by simp
  refine ⟨⟨t.acquire s.clientsFdNo none fd, ?_, hok.acquire hrest hnew⟩, ?_,
    h.std.trans (Finset.subset_insert _ _), ?_⟩
  · exact {
      main := Table.update_lease_iff (by simp [MainPc.carries]) fun i hi => by
        simp [htr.main, hpc, MainPc.carries, Ne.symm hi]
      cell := fun i k => Table.update_lease_iff
        (Q := fun i => s.Has k ∧ (s.args k).clientFdNo = i)
        (by simpa using fun hk => hother k hk) (fun j _ => htr.cell j k) i
      closed := fun i k hl => by
        have hi : i ≠ s.clientsFdNo := by
          rintro rfl
          simp [Table.acquire] at hl
        have hstale := htr.closed i k (by simpa [Table.acquire, hi] using hl)
        exact ⟨(hHanded k).mpr hstale.handed, hstale.idle, hstale.no,
          (update_of_ne hi _ _).trans hstale.entry⟩
      rest := fun i hl => by
        have hi : i ≠ s.clientsFdNo := by
          rintro rfl
          simp [Table.acquire] at hl
        simpa [hi] using htr.rest i (by simpa [Table.acquire, hi] using hl)
      entry := by
        rw [Table.acquire, htr.entry]
        rfl
      openSet := by
        rw [Table.acquire, htr.openSet]
        exact (Finset.insert_sdiff_of_notMem _ hstd).symm
      lost := htr.lost }
  · exact {
      held := fun k hk => (update_of_ne (hother k hk) _ _).trans (h.cells.held k hk)
      within := fun k hk => h.cells.within k ((hHanded k).mp hk)
      fresh := fun k hk => Or.inl ((hHanded k).mpr
        (by simpa [hpc, MainPc.writes] using h.cells.fresh k hk))
      down := fun j k hjk hk => (hHanded j).mpr (h.cells.down j k hjk ((hHanded k).mp hk))
      apart := fun j k hj hk heq =>
        h.cells.apart j k ((hHanded j).mp hj) ((hHanded k).mp hk) heq
      passed := by simp [MainPc.passed]
      choice := by simp }
  · simp [h.natural]

/-- `main` writes the descriptor into the cell of an idle worker. -/
lemma Slots.setFd (h : Slots cfg s) (hkept : Kept cfg s) {i : ℕ} (hpc : s.mainPc = .setFd i) :
    Slots cfg ((s.setCell i { s.args i with clientFd := s.clientsFd s.clientsFdNo }).goto
      (.setFdNo i)) := by
  obtain ⟨t, htr, hok⟩ := h.leases
  have hwrites : s.mainPc.writes = some i := by rw [hpc]; rfl
  have hidle := not_has_of_writes hkept.locked hkept.flags hwrites
  have hcarried : t.lease s.clientsFdNo = .live none :=
    (htr.main _).mpr ⟨by rw [hpc]; rfl, rfl⟩
  have hchoice := h.cells.choice i (Or.inl hpc)
  have hcell : ∀ k, k ≠ i →
      update s.args i { s.args i with clientFd := s.clientsFd s.clientsFdNo } k = s.args k :=
    fun k hk => update_of_ne hk _ _
  have hno : ∀ k, (update s.args i { s.args i with clientFd := s.clientsFd s.clientsFdNo }
      k).clientFdNo = (s.args k).clientFdNo := by
    intro k
    by_cases hk : k = i
    · subst hk
      simp
    · rw [hcell k hk]
  have hhas : ∀ k, ((s.setCell i { s.args i with clientFd := s.clientsFd s.clientsFdNo }).goto
      (.setFdNo i)).Has k ↔ s.Has k := setCell_has rfl
  refine ⟨⟨t, ?_, hok⟩, ?_, h.std, h.natural⟩
  · exact {
      main := fun j => by simpa [hpc, MainPc.carries] using htr.main j
      cell := fun j k => by
        rw [hhas]
        exact (htr.cell j k).trans (and_congr_right fun _ => by rw [← hno k]; rfl)
      closed := fun j k hl => by
        have hstale := htr.closed j k hl
        have hk : k ≠ i := by
          rintro rfl
          have hj := hstale.no.symm.trans (hchoice hstale.handed)
          rw [hj, hcarried] at hl
          cases hl
        exact ⟨hstale.handed, fun hh => hstale.idle ((hhas k).mp hh), (hno k).trans hstale.no,
          hstale.entry.trans (by simp [hk])⟩
      rest := htr.rest
      entry := htr.entry
      openSet := htr.openSet
      lost := htr.lost }
  · exact {
      held := fun k hk => by
        have hk' := (hhas k).mp hk
        have hne : k ≠ i := by
          rintro rfl
          exact hidle hk'
        simpa [hne] using h.cells.held k hk'
      within := fun k hk => by
        obtain ⟨hlt, hslot, hfd⟩ := h.cells.within k hk
        refine ⟨hlt, (hno k).symm ▸ hslot, ?_⟩
        by_cases hne : k = i
        · simpa [hne] using htr.live_ne_zero hok hcarried
        · simpa [hne] using hfd
      fresh := fun k hk => by
        by_cases hne : k = i
        · exact Or.inr (by simp [MainPc.writes, hne])
        · have hold := h.cells.fresh k (by simpa [hne] using hk)
          simpa [hpc, MainPc.writes] using hold
      down := h.cells.down
      apart := fun j k hj hk heq => h.cells.apart j k hj hk ((hno j).symm.trans (heq.trans (hno k)))
      passed := fun j hj k hk => by
        obtain ⟨hh, hne⟩ := h.cells.passed j (by rw [hpc]; exact hj) k hk
        exact ⟨hh, fun heq => hne ((hno k).symm.trans heq)⟩
      choice := fun k hk hh => by
        obtain rfl : i = k := by simpa using hk
        exact (hno i).trans (hchoice hh) }

/-- `main` writes the entry's number into the cell.  A cell that was used has it already. -/
lemma Slots.setFdNo (h : Slots cfg s) (hkept : Kept cfg s) {i : ℕ} (hpc : s.mainPc = .setFdNo i) :
    Slots cfg ((s.setCell i { s.args i with clientFdNo := s.clientsFdNo }).goto (.setFlag i)) := by
  obtain ⟨t, htr, hok⟩ := h.leases
  have hwrites : s.mainPc.writes = some i := by rw [hpc]; rfl
  have hidle := not_has_of_writes hkept.locked hkept.flags hwrites
  have hchoice := h.cells.choice i (Or.inr hpc)
  have hno : ∀ k, k ≠ i ∨ s.Handed k →
      (update s.args i { s.args i with clientFdNo := s.clientsFdNo } k).clientFdNo =
        (s.args k).clientFdNo := by
    intro k hk
    by_cases hki : k = i
    · subst hki
      simp [hchoice (hk.resolve_left (not_not.mpr rfl))]
    · simp [hki]
  have hfd : ∀ k, (update s.args i { s.args i with clientFdNo := s.clientsFdNo } k).clientFd =
      (s.args k).clientFd := by
    intro k
    by_cases hki : k = i
    · subst hki
      simp
    · simp [hki]
  have hhas : ∀ k, ((s.setCell i { s.args i with clientFdNo := s.clientsFdNo }).goto
      (.setFlag i)).Has k ↔ s.Has k := setCell_has rfl
  have hne : ∀ k, s.Has k → k ≠ i := by
    rintro k hk rfl
    exact hidle hk
  refine ⟨⟨t, ?_, hok⟩, ?_, h.std, h.natural⟩
  · exact {
      main := fun j => by simpa [hpc, MainPc.carries] using htr.main j
      cell := fun j k => by
        rw [hhas]
        exact (htr.cell j k).trans
          (and_congr_right fun hk => by rw [← hno k (Or.inl (hne k hk))]; rfl)
      closed := fun j k hl => by
        have hstale := htr.closed j k hl
        exact ⟨hstale.handed, fun hh => hstale.idle ((hhas k).mp hh),
          (hno k (Or.inr hstale.handed)).trans hstale.no, hstale.entry.trans (hfd k).symm⟩
      rest := htr.rest
      entry := htr.entry
      openSet := htr.openSet
      lost := htr.lost }
  · exact {
      held := fun k hk => by
        have hk' := (hhas k).mp hk
        simpa [hne k hk'] using h.cells.held k hk'
      within := fun k hk => by
        obtain ⟨hlt, hslot, hzero⟩ := h.cells.within k hk
        exact ⟨hlt, (hno k (Or.inr hk)).symm ▸ hslot, (hfd k).symm ▸ hzero⟩
      fresh := fun k hk => by
        simpa [hpc, MainPc.writes] using h.cells.fresh k (hfd k ▸ hk)
      down := h.cells.down
      apart := fun j k hj hk heq => h.cells.apart j k hj hk
        ((hno j (Or.inr hj)).symm.trans (heq.trans (hno k (Or.inr hk))))
      passed := fun j hj k hk => by
        obtain ⟨hh, hother⟩ := h.cells.passed j (by rw [hpc]; exact hj) k hk
        exact ⟨hh, fun heq => hother ((hno k (Or.inr hh)).symm.trans heq)⟩
      choice := by simp }

/-- The flag goes up: the entry `main` carried becomes the worker's. -/
lemma Slots.setFlag (h : Slots cfg s) (hkept : Kept cfg s) (hspace : Space cfg s) {i : ℕ}
    (hpc : s.mainPc = .setFlag i) :
    Slots cfg (((s.setCell i { s.args i with flag := 1 }).record
      (.hand i (s.args i).clientFd)).goto (.foundUnlock i)) := by
  obtain ⟨t, htr, hok⟩ := h.leases
  have hwrites : s.mainPc.writes = some i := by rw [hpc]; rfl
  have hidle := not_has_of_writes hkept.locked hkept.flags hwrites
  have hcarried : t.lease s.clientsFdNo = .live none :=
    (htr.main _).mpr ⟨by rw [hpc]; rfl, rfl⟩
  have hfdNo := hkept.books.numbered i hpc
  have hfd := hkept.books.copied i (Or.inr hpc)
  have hpassed := h.cells.passed i (by rw [hpc]; rfl)
  have hcell : ∀ k, (update s.args i { s.args i with flag := 1 } k).clientFd =
      (s.args k).clientFd ∧
      (update s.args i { s.args i with flag := 1 } k).clientFdNo = (s.args k).clientFdNo := by
    intro k
    by_cases hk : k = i
    · subst hk
      simp
    · simp [hk]
  have hhas : ∀ k, (((s.setCell i { s.args i with flag := 1 }).record
      (.hand i (s.args i).clientFd)).goto (.foundUnlock i)).Has k ↔ k = i ∨ s.Has k := by
    intro k
    by_cases hk : k = i
    · subst hk
      simp [State.Has]
    · simp [State.Has, hk]
  have hHanded : ∀ k, k ∈ (handed (s.log ++ [.hand i (s.args i).clientFd])).map Prod.fst ↔
      k = i ∨ s.Handed k := by
    intro k
    simp only [handed_append, handed_singleton, List.map_append, List.mem_append, List.map_cons,
      List.map_nil, List.mem_singleton]
    exact or_comm
  -- no cell with a client has the entry `main` carries
  have hother : ∀ k, s.Has k → (s.args k).clientFdNo ≠ s.clientsFdNo := fun k hk heq => by
    have hlive := (htr.cell _ k).mpr ⟨hk, heq⟩
    rw [hcarried] at hlive
    cases hlive
  -- nor does another used cell: the earlier ones were passed, a later one came after cell `i`
  have hdistinct : ∀ k, s.Handed k → (s.args k).clientFdNo = (s.args i).clientFdNo → k = i := by
    intro k hk heq
    rcases Nat.lt_trichotomy k i with hlt | heq' | hlt
    · exact absurd (heq.trans hfdNo) (hpassed k hlt).2
    · exact heq'
    · exact h.cells.apart k i hk (h.cells.down i k hlt hk) heq
  refine ⟨⟨t.transfer s.clientsFdNo (some i), ?_, hok.transfer hcarried⟩, ?_, h.std, h.natural⟩
  · exact {
      main := Table.update_lease_iff (by simp [MainPc.carries]) fun j hj => by
        simp [htr.main, MainPc.carries, Ne.symm hj]
      cell := fun j k => by
        rw [hhas]
        refine Table.update_lease_iff (Q := fun j => (k = i ∨ s.Has k) ∧ _ = j) ?_
          (fun j hj => ?_) j
        · rw [State.goto_args, State.record_args, State.setCell_args, (hcell k).2]
          constructor
          · intro hk
            obtain rfl : i = k := by simpa using hk
            exact ⟨Or.inl rfl, hfdNo⟩
          · rintro ⟨rfl | hk, heq⟩
            · rfl
            · exact absurd heq (hother k hk)
        · rw [State.goto_args, State.record_args, State.setCell_args, (hcell k).2, htr.cell]
          refine and_congr_left fun heq => ⟨Or.inr, fun hk => hk.resolve_left ?_⟩
          rintro rfl
          exact hj (heq.symm.trans hfdNo)
      closed := fun j k hl => by
        have hj : j ≠ s.clientsFdNo := by
          rintro rfl
          simp [Table.transfer] at hl
        have hstale := htr.closed j k (by simpa [Table.transfer, hj] using hl)
        have hk : k ≠ i := by
          rintro rfl
          exact hj (hstale.no.symm.trans hfdNo)
        exact ⟨(hHanded k).mpr (Or.inr hstale.handed),
          fun hh => hstale.idle (((hhas k).mp hh).resolve_left hk),
          (hcell k).2.trans hstale.no, hstale.entry.trans (hcell k).1.symm⟩
      rest := fun j hl => by
        have hj : j ≠ s.clientsFdNo := by
          rintro rfl
          simp [Table.transfer] at hl
        exact htr.rest j (by simpa [Table.transfer, hj] using hl)
      entry := htr.entry
      openSet := htr.openSet
      lost := htr.lost }
  · exact {
      held := fun k hk => by
        show s.clientsFd (update s.args i _ k).clientFdNo = (update s.args i _ k).clientFd
        rw [(hcell k).1, (hcell k).2]
        rcases (hhas k).mp hk with rfl | hk
        · rw [hfdNo, hfd]
        · exact h.cells.held k hk
      within := fun k hk => by
        show k < _ ∧ (update s.args i _ k).clientFdNo < _ ∧ (update s.args i _ k).clientFd ≠ 0
        rw [(hcell k).1, (hcell k).2]
        rcases (hHanded k).mp hk with rfl | hk
        · refine ⟨hkept.inside.cell k (by rw [hpc]; rfl), ?_, ?_⟩
          · exact hfdNo.symm ▸ hspace.slot (by rw [hpc]; rfl)
          · exact hfd.symm ▸ htr.live_ne_zero hok hcarried
        · exact h.cells.within k hk
      fresh := fun k hk => by
        have hold := h.cells.fresh k ((hcell k).1 ▸ hk)
        refine Or.inl ((hHanded k).mpr (hold.symm.imp_left fun hk => ?_))
        exact (Option.some.inj (hwrites.symm.trans hk)).symm
      down := fun j k hjk hk => (hHanded j).mpr (Or.inr (by
        rcases (hHanded k).mp hk with rfl | hk
        · exact (hpassed j hjk).1
        · exact h.cells.down j k hjk hk))
      apart := fun j k hj hk heq => by
        replace heq := (hcell j).2.symm.trans (heq.trans (hcell k).2)
        rcases (hHanded j).mp hj with rfl | hj' <;> rcases (hHanded k).mp hk with rfl | hk'
        · rfl
        · exact (hdistinct k hk' heq.symm).symm
        · exact hdistinct j hj' heq
        · exact h.cells.apart j k hj' hk' heq
      passed := by simp [MainPc.passed]
      choice := by simp }

/-- The worker closes its client, and the entry is stale. -/
lemma Slots.close (h : Slots cfg s) (hkept : Kept cfg s) {w : ℕ}
    (hpc : (s.worker w).pc = .close) :
    Slots cfg ((s.closeFd (some w) (s.args w).clientFd).setWorker w
      { s.worker w with pc := .unlock }) := by
  obtain ⟨t, htr, hok⟩ := h.leases
  have hw : s.Has w := Or.inr hpc
  have hlive : t.lease (s.args w).clientFdNo = .live (some w) := (htr.cell _ w).mpr ⟨hw, rfl⟩
  have hentry : t.entry (s.args w).clientFdNo = (s.args w).clientFd := by
    rw [htr.entry]
    exact h.cells.held w hw
  have hopen := htr.live_open hok hlive
  rw [h.cells.held w hw] at hopen
  have hhas : ∀ k, ((s.closeFd (some w) (s.args w).clientFd).setWorker w
      { s.worker w with pc := .unlock }).Has k ↔ k ≠ w ∧ s.Has k := by
    intro k
    by_cases hk : k = w
    · subst hk
      simp [State.Has, hkept.flags.closing k hpc]
    · simp [State.Has, hk]
  have hHanded : ∀ k, k ∈ (handed (s.log ++ [.close (some w) (s.args w).clientFd])).map Prod.fst ↔
      s.Handed k := by simp
  refine ⟨⟨t.close (s.args w).clientFdNo w, ?_, hok.close hlive⟩, ?_, ?_, ?_⟩
  · exact {
      main := Table.update_lease_iff (by simpa [hlive] using htr.main (s.args w).clientFdNo)
        fun j _ => htr.main j
      cell := fun j k => by
        rw [hhas]
        refine Table.update_lease_iff (Q := fun j => (k ≠ w ∧ s.Has k) ∧ (s.args k).clientFdNo = j)
          ?_ (fun j hj => ?_) j
        · refine iff_of_false (by simp) ?_
          rintro ⟨⟨hne, hk⟩, heq⟩
          have hlive' := (htr.cell _ k).mpr ⟨hk, heq⟩
          rw [hlive] at hlive'
          cases hlive'
          exact hne rfl
        · refine (htr.cell j k).trans (and_congr_left fun heq => ⟨fun hk => ⟨?_, hk⟩, And.right⟩)
          rintro rfl
          exact hj heq.symm
      closed := fun j k hl => by
        by_cases hj : j = (s.args w).clientFdNo
        · subst hj
          obtain rfl : w = k := by simpa [Table.close] using hl
          exact ⟨(hHanded w).mpr (hkept.books.handed_of_has hw), fun hh => ((hhas w).mp hh).1 rfl,
            rfl, h.cells.held w hw⟩
        · have hstale := htr.closed j k (by simpa [Table.close, hj] using hl)
          exact ⟨(hHanded k).mpr hstale.handed, fun hh => hstale.idle ((hhas k).mp hh).2,
            hstale.no, hstale.entry⟩
      rest := fun j hl => by
        have hj : j ≠ (s.args w).clientFdNo := by
          rintro rfl
          simp [Table.close] at hl
        exact htr.rest j (by simpa [Table.close, hj] using hl)
      entry := htr.entry
      openSet := by
        rw [Table.close, hentry, htr.openSet]
        exact (Finset.erase_sdiff_comm _ _ _).symm
      lost := htr.lost }
  · exact {
      held := fun k hk => h.cells.held k ((hhas k).mp hk).2
      within := fun k hk => h.cells.within k ((hHanded k).mp hk)
      fresh := fun k hk => (h.cells.fresh k hk).imp_left (hHanded k).mpr
      down := fun j k hjk hk => (hHanded j).mpr (h.cells.down j k hjk ((hHanded k).mp hk))
      apart := fun j k hj hk heq =>
        h.cells.apart j k ((hHanded j).mp hj) ((hHanded k).mp hk) heq
      passed := fun i hi j hj => (h.cells.passed i hi j hj).imp_left (hHanded j).mpr
      choice := fun k hpc' hk => h.cells.choice k hpc' ((hHanded k).mp hk) }
  · exact fun fd hfd => Finset.mem_erase.mpr
      ⟨fun heq => hopen.2 (heq ▸ hfd), h.std hfd⟩
  · exact fun hin => h.natural (Finset.mem_of_mem_erase hin)

/-- A step under the guard keeps the entries in order until the clean-up. -/
theorem slots_step {a : Action} (hkept : Kept cfg s) (hspace : Space cfg s) (h : Slots cfg s)
    (hok : Released cfg s a) (hbefore : ∀ i, s.mainPc ≠ .cleanup i)
    (hstep : step cfg s a = some s') : Slots cfg s' := by
  -- steps of `main` outside the search for a worker
  have hframe : ∀ {pc pc' : MainPc} {t : State}, s.mainPc = pc → t.mainPc = pc' →
      pc.carries = false → pc.writes = none → pc'.carries = false → pc'.passed = none →
      (∀ k, pc' ≠ .setFd k ∧ pc' ≠ .setFdNo k) → t.log = s.log → t.args = s.args →
      t.worker = s.worker → t.clientsFd = s.clientsFd → t.openFds = s.openFds → Slots cfg t := by
    intro pc pc' t hpc hpc' hc hw hc' hp hchoice hlog hargs hworker hentries hopen
    refine h.transport (fun k => by rw [State.Has, hargs, hworker]) (by rw [hlog])
      (fun k => by simp [hargs]) hentries hopen (fun i => by simp [hpc, hpc', hc, hc'])
      (fun k hk => by simp [hpc, hw] at hk) (fun i hi => by simp [hpc', hp] at hi) (fun k hk => ?_)
    rw [hpc'] at hk
    exact absurd hk (by simp [hchoice k])
  cases moves_of_step hstep with
  | control hc => exact h.control hkept hok hc
  | zero hpc hflag hfd hno => exact h.zero hkept hpc hflag hfd
  | @listen ok pc hpc hpc' =>
      rcases hpc' with rfl | rfl
      all_goals exact hframe hpc rfl rfl rfl rfl rfl (by simp) rfl rfl rfl rfl rfl
  | search hpc => exact hframe hpc rfl rfl rfl rfl rfl (by simp) rfl rfl rfl rfl rfl
  | acceptFails hpc hno => exact h.acceptFails hpc (hspace.free hpc).2
  | accepts hpc hno hfd => exact h.accepts hpc (hspace.free hpc).2 hfd
  | setFd hpc => exact h.setFd hkept hpc
  | setFdNo hpc => exact h.setFdNo hkept hpc
  | setFlag hpc => exact h.setFlag hkept hspace hpc
  | @bump pc hpc hpc' =>
      rcases hpc' with ⟨-, rfl⟩ | ⟨-, rfl⟩
      all_goals exact hframe hpc rfl rfl rfl rfl rfl (by simp) rfl rfl rfl rfl rfl
  | exit hpc => exact hframe hpc rfl rfl rfl rfl rfl (by simp) rfl rfl rfl rfl rfl
  | clean hpc hi hfd => exact absurd hpc (hbefore _)
  | worker hw hc =>
      obtain ⟨hclose', hclose⟩ := hc.notClose
      exact h.workerAt (fun _ => ⟨rfl, rfl⟩) (fun _ _ => rfl) rfl rfl rfl rfl rfl rfl
        (by simp [State.Has, hclose, hclose'])
  | sends hpc =>
      exact h.workerAt (fun _ => ⟨rfl, rfl⟩) (fun _ _ => rfl) rfl rfl rfl rfl rfl rfl
        (by simp [State.Has, hpc])
  | @clearFlag w ok hpc =>
      have hup : (s.args w).flag = 1 := hkept.flags.serving w (by rw [hpc]; rfl)
      refine h.workerAt (fun i => ?_) (fun i hi => ?_) rfl rfl rfl rfl rfl rfl
        (by simp [State.Has, hup])
      · by_cases hi : i = w
        · subst hi
          simp
        · simp [hi]
      · simp [hi]
  | close hpc => exact h.close hkept hpc
  | signal ha =>
      exact h.transport (fun _ => Iff.rfl) rfl (fun _ => ⟨rfl, rfl⟩) rfl rfl (fun _ => Iff.rfl)
        (fun _ => id) h.cells.passed h.cells.choice

end ThreadPool
end EltSummer
