import EltSummer.HighloadServers.PoolHandOff

/-!
# Whose entry of `clients_fd` it is

A worker with a client owns the entry its cell names, and the release scan zeroes the entries
of the cells whose worker is idle.  The cell of an idle worker keeps the number of its last
entry.  So when that entry was zeroed and given to another worker, the scan zeroes it again,
this time under that worker's client, and the next client gets the entry a second time
(`two_workers_own_one_entry`).

On the runs where no client is handed over in an entry that another used cell still names
(`Unshared`) the cells keep distinct entries, and every busy worker is the only owner of
its own (`owned_of_reach`).
-/

namespace EltSummer
namespace ThreadPool

open Interleaving Function

variable {cfg : Config} {s s' : State}

/-- The guard: when `main` takes an idle cell for the client in entry `clients_fd_no`, no other
cell that was ever used names this entry. -/
def Unshared (cfg : Config) (s : State) : Action → Prop
  | .main => match s.mainPc with
    | .findTest k => (s.args k).flag = 0 → ∀ j < cfg.startAllocSize, j ≠ k →
        (s.args j).clientFd ≠ 0 → (s.args j).clientFdNo ≠ s.clientsFdNo
    | _ => True
  | _ => True

/-! ## Which cells have been used -/

/-- The scan takes a cell for used when its `client_fd` is not zero, and that is right: a client
is never descriptor 0. -/
structure Used (cfg : Config) (s : State) : Prop where
  stdin : 0 ∈ s.openFds
  carried : s.mainPc.carries = true → s.clientsFd s.clientsFdNo ≠ 0
  busy : ∀ i, s.Has i → (s.args i).clientFd ≠ 0
  inPool : ∀ i, (s.args i).clientFd ≠ 0 → i < cfg.startAllocSize

lemma used_init : Used cfg init := by
  refine ⟨by simp [init], ?_, ?_, ?_⟩ <;> simp [init, MainPc.carries, State.Has]

/-- A step that leaves the entries and the cells alone, and gives no worker a client. -/
lemma Used.frame (h : Used cfg s) (hopen : 0 ∈ s'.openFds)
    (hcarries : s'.mainPc.carries = true →
      s.mainPc.carries = true ∧ s'.clientsFd s'.clientsFdNo = s.clientsFd s.clientsFdNo)
    (hcell : ∀ i, (s'.args i).clientFd = (s.args i).clientFd) (hhas : ∀ i, s'.Has i → s.Has i) :
    Used cfg s' := by
  refine ⟨hopen, fun hc => ?_, fun i hi => ?_, fun i hi => h.inPool i (hcell i ▸ hi)⟩
  · obtain ⟨hc, hentry⟩ := hcarries hc
    rw [hentry]
    exact h.carried hc
  · rw [hcell]
    exact h.busy i (hhas i hi)

lemma Control.carried {ml : ℕ → Bool} {pc : MainPc} (hc : Control cfg s s.mainPc ml pc)
    (hcarries : pc.carries = true) : s.mainPc.carries = true := by
  generalize s.mainPc = pc₀ at hc
  cases hc <;> simp_all [MainPc.carries]

/-- A new client is not standard input, which is open. -/
lemma Used.accepts (h : Used cfg s) {fd : ℕ} (hfd : (fd : ℤ) ∉ s.openFds) :
    Used cfg (({ s with openFds := insert (fd : ℤ) s.openFds }.setEntry s.clientsFdNo fd
      |>.record (.accept fd)).goto (.findLock 0)) := by
  have hne : (fd : ℤ) ≠ 0 := by
    intro hzero
    rw [hzero] at hfd
    exact hfd h.stdin
  refine ⟨Finset.mem_insert_of_mem h.stdin, fun _ => ?_, h.busy, h.inPool⟩
  simpa using hne

/-- The cell `main` writes is in the pool, and its worker has no client yet. -/
lemma Used.setFd (h : Used cfg s) (hkept : Kept cfg s) {i : ℕ} (hpc : s.mainPc = .setFd i) :
    Used cfg ((s.setCell i { s.args i with clientFd := s.clientsFd s.clientsFdNo }).goto
      (.setFdNo i)) := by
  have hidle := not_has_of_writes hkept.locked hkept.flags (i := i) (by rw [hpc]; rfl)
  refine ⟨h.stdin, fun _ => h.carried (by rw [hpc]; rfl), fun j hj => ?_, fun j hj => ?_⟩
  · have hj' : s.Has j := (setCell_has (by rfl) j).mp hj
    have hne : j ≠ i := by
      rintro rfl
      exact hidle hj'
    simpa [hne] using h.busy j hj'
  · by_cases hne : j = i
    · subst hne
      exact hkept.inside.cell j (by rw [hpc]; rfl)
    · exact h.inPool j (by simpa [hne] using hj)

lemma Used.setFdNo (h : Used cfg s) {i : ℕ} (hpc : s.mainPc = .setFdNo i) :
    Used cfg ((s.setCell i { s.args i with clientFdNo := s.clientsFdNo }).goto (.setFlag i)) := by
  refine h.frame h.stdin (fun _ => ⟨by rw [hpc]; rfl, rfl⟩) (fun j => ?_) fun j hj => ?_
  · by_cases hne : j = i <;> simp [hne]
  · exact (setCell_has (by rfl) j).mp hj

/-- The flag goes up: the worker's cell has the client `main` carried. -/
lemma Used.setFlag (h : Used cfg s) (hkept : Kept cfg s) {i : ℕ} (hpc : s.mainPc = .setFlag i) :
    Used cfg (((s.setCell i { s.args i with flag := 1 }).record
      (.hand i (s.args i).clientFd)).goto (.foundUnlock i)) := by
  have hfilled : (s.args i).clientFd ≠ 0 := by
    rw [hkept.books.copied i (Or.inr hpc)]
    exact h.carried (by rw [hpc]; rfl)
  refine ⟨h.stdin, by simp [MainPc.carries], fun j hj => ?_, fun j hj => ?_⟩
  · by_cases hne : j = i
    · simpa [hne] using hfilled
    · simpa [hne] using h.busy j (by simpa [State.Has, hne] using hj)
  · by_cases hne : j = i
    · exact hne ▸ h.inPool i hfilled
    · exact h.inPool j (by simpa [hne] using hj)

/-- A step of worker `w`, which had a client if it has one now. -/
lemma Used.workerAt (h : Used cfg s) {w : ℕ} {k : Worker} (hopen : 0 ∈ s'.openFds)
    (hmain : s'.mainPc = s.mainPc) (hentries : s'.clientsFd = s.clientsFd)
    (hno : s'.clientsFdNo = s.clientsFdNo) (hworker : s'.worker = update s.worker w k)
    (hcell : ∀ i, (s'.args i).clientFd = (s.args i).clientFd)
    (hflag : ∀ i, i ≠ w → (s'.args i).flag = (s.args i).flag) (hhas : s'.Has w → s.Has w) :
    Used cfg s' := by
  refine h.frame hopen (fun hcarries => ?_) hcell fun i hi => ?_
  · rw [hmain] at hcarries
    rw [hentries, hno]
    exact ⟨hcarries, rfl⟩
  · by_cases hiw : i = w
    · subst hiw
      exact hhas hi
    · rw [State.Has, hflag i hiw, hworker, update_of_ne hiw] at hi
      exact hi

lemma used_step {a : Action} (hkept : Kept cfg s) (h : Used cfg s)
    (hstep : step cfg s a = some s') : Used cfg s' := by
  have hempty : ∀ {pc : MainPc}, pc.carries = false → pc.carries = true →
      s.mainPc.carries = true ∧ s'.clientsFd s'.clientsFdNo = s.clientsFd s.clientsFdNo :=
    fun hno hyes => by simp [hno] at hyes
  cases moves_of_step hstep with
  | control hc => exact h.frame h.stdin (fun hp => ⟨hc.carried hp, rfl⟩) (fun _ => rfl) fun _ => id
  | zero hpc hflag hfd hno => exact h.frame h.stdin (hempty rfl) (fun _ => rfl) fun _ => id
  | listen hpc hpc' =>
      refine h.frame h.stdin (hempty ?_) (fun _ => rfl) fun _ => id
      rcases hpc' with rfl | rfl <;> rfl
  | search hpc => exact h.frame h.stdin (hempty rfl) (fun _ => rfl) fun _ => id
  | acceptFails hpc hno => exact h.frame h.stdin (hempty rfl) (fun _ => rfl) fun _ => id
  | accepts hpc hno hfd => exact h.accepts hfd
  | setFd hpc => exact h.setFd hkept hpc
  | setFdNo hpc => exact h.setFdNo hpc
  | setFlag hpc => exact h.setFlag hkept hpc
  | bump hpc hpc' =>
      refine h.frame h.stdin (hempty ?_) (fun _ => rfl) fun _ => id
      rcases hpc' with ⟨-, rfl⟩ | ⟨-, rfl⟩ <;> rfl
  | exit hpc => exact h.frame h.stdin (hempty rfl) (fun _ => rfl) fun _ => id
  | clean hpc hi hfd =>
      exact h.frame (Finset.mem_erase_of_ne_of_mem (Ne.symm hfd) h.stdin) (hempty rfl)
        (fun _ => rfl) fun _ => id
  | @worker w ok ml pc hw hc =>
      have hclose := hc.notClose
      refine h.workerAt h.stdin rfl rfl rfl rfl (fun _ => rfl) (fun _ _ => rfl) fun hhas => ?_
      exact Or.inl (by simpa [State.Has, hclose] using hhas)
  | @sends w ok hpc =>
      refine h.workerAt h.stdin rfl rfl rfl rfl (fun _ => rfl) (fun _ _ => rfl) fun hhas => ?_
      exact Or.inl (by simpa [State.Has] using hhas)
  | @clearFlag w ok hpc =>
      refine h.workerAt h.stdin rfl rfl rfl rfl (fun i => ?_) (fun i hi => ?_) fun _ => ?_
      · by_cases hi : i = w <;> simp [hi]
      · simp [hi]
      · exact Or.inl (hkept.flags.serving w (by rw [hpc]; rfl))
  | @close w ok hpc =>
      have hfd : (s.args w).clientFd ≠ 0 := h.busy w (Or.inr hpc)
      exact h.workerAt (Finset.mem_erase_of_ne_of_mem (Ne.symm hfd) h.stdin) rfl rfl rfl rfl
        (fun _ => rfl) (fun _ _ => rfl) fun _ => Or.inr hpc
  | signal ha => exact h.frame h.stdin (fun hp => ⟨hp, rfl⟩) (fun _ => rfl) fun _ => id

lemma used_of_reach {ok : State → Action → Prop} (h : Reach (step cfg) ok init s) :
    Used cfg s :=
  h.invariant_along used_init fun _ _ _ hrun hI _ hstep => used_step (kept_of_reach hrun) hI hstep

/-! ## The cells keep distinct entries -/

/-- Cell `i` has been used, and `main` is not writing it. -/
def State.Names (s : State) (i : ℕ) : Prop :=
  (s.args i).clientFd ≠ 0 ∧ s.mainPc.writes ≠ some i

/-- The used cells name distinct entries, and none of them the one a new client is in. -/
structure Distinct (s : State) : Prop where
  apart : ∀ i j, i ≠ j → s.Names i → s.Names j → (s.args i).clientFdNo ≠ (s.args j).clientFdNo
  fresh : ∀ k, s.mainPc.writes = some k → ∀ i, i ≠ k → (s.args i).clientFd ≠ 0 →
    (s.args i).clientFdNo ≠ s.clientsFdNo

lemma distinct_init : Distinct init := by
  refine ⟨?_, ?_⟩ <;> simp [init, MainPc.writes, State.Names]

/-- A step that leaves alone which entries the cells name. -/
lemma Distinct.frame (h : Distinct s)
    (hcell : ∀ i, (s'.args i).clientFd = (s.args i).clientFd ∧
      (s'.args i).clientFdNo = (s.args i).clientFdNo)
    (hwrites : s'.mainPc.writes = s.mainPc.writes)
    (hno : s'.clientsFdNo = s.clientsFdNo ∨ s'.mainPc.writes = none) : Distinct s' := by
  have hnames : ∀ i, s'.Names i ↔ s.Names i := fun i => by
    rw [State.Names, (hcell i).1, hwrites, State.Names]
  refine ⟨fun i j hij hi hj => ?_, fun k hk i hik hi => ?_⟩
  · rw [(hcell i).2, (hcell j).2]
    exact h.apart i j hij ((hnames i).mp hi) ((hnames j).mp hj)
  · rcases hno with hno | hno
    · rw [(hcell i).2, hno]
      exact h.fresh k (hwrites ▸ hk) i hik ((hcell i).1 ▸ hi)
    · simp [hno] at hk

/-- A write to the cell of the new client. -/
lemma Distinct.write (h : Distinct s) {k : ℕ} (hk : s.mainPc.writes = some k)
    (hcell : ∀ i, i ≠ k → s'.args i = s.args i) (hwrites : s'.mainPc.writes = some k)
    (hno : s'.clientsFdNo = s.clientsFdNo) : Distinct s' := by
  refine ⟨fun i j hij hi hj => ?_, fun k' hk' i hik hi => ?_⟩
  · have hnames : ∀ {i}, s'.Names i → i ≠ k ∧ s.Names i := by
      rintro i ⟨hused, hnot⟩
      have hne : i ≠ k := fun heq => hnot (heq ▸ hwrites)
      exact ⟨hne, hcell i hne ▸ hused, fun hw => hne (Option.some.inj (hw.symm.trans hk))⟩
    obtain ⟨hi', hi⟩ := hnames hi
    obtain ⟨hj', hj⟩ := hnames hj
    rw [hcell i hi', hcell j hj']
    exact h.apart i j hij hi hj
  · obtain rfl : k = k' := Option.some.inj (hwrites.symm.trans hk')
    rw [hcell i hik, hno]
    rw [hcell i hik] at hi
    exact h.fresh k hk i hik hi

/-- `main` takes an idle cell. -/
lemma Distinct.takes (h : Distinct s) (hinPool : ∀ i, (s.args i).clientFd ≠ 0 →
    i < cfg.startAllocSize) {k : ℕ} (hpc : s.mainPc = .findTest k) (hflag : (s.args k).flag = 0)
    (hok : Unshared cfg s .main) : Distinct (s.goto (.setFd k)) := by
  rw [Unshared, hpc] at hok
  refine ⟨fun i j hij hi hj => ?_, fun k' hk' i hik hi => ?_⟩
  · have hwrites : ∀ i, s.mainPc.writes ≠ some i := fun i => by simp [hpc, MainPc.writes]
    exact h.apart i j hij ⟨hi.1, hwrites i⟩ ⟨hj.1, hwrites j⟩
  · obtain rfl : k = k' := Option.some.inj hk'
    exact hok hflag i (hinPool i hi) hik hi

/-- The flag goes up: the cell names the new client's entry, which no other cell names. -/
lemma Distinct.setFlag (h : Distinct s) {k : ℕ} (hpc : s.mainPc = .setFlag k)
    (hnumbered : (s.args k).clientFdNo = s.clientsFdNo) :
    Distinct (((s.setCell k { s.args k with flag := 1 }).record
      (.hand k (s.args k).clientFd)).goto (.foundUnlock k)) := by
  have hwrites : s.mainPc.writes = some k := by rw [hpc]; rfl
  have hcell : ∀ i, (update s.args k { s.args k with flag := 1 } i).clientFd = (s.args i).clientFd ∧
      (update s.args k { s.args k with flag := 1 } i).clientFdNo = (s.args i).clientFdNo := by
    intro i
    by_cases hi : i = k
    · subst hi
      simp
    · simp [hi]
  refine ⟨fun i j hij hi hj => ?_, by simp [MainPc.writes]⟩
  have hi' : (s.args i).clientFd ≠ 0 := by simpa [hcell] using hi.1
  have hj' : (s.args j).clientFd ≠ 0 := by simpa [hcell] using hj.1
  suffices hne : (s.args i).clientFdNo ≠ (s.args j).clientFdNo by simpa [hcell] using hne
  by_cases hik : i = k
  · subst hik
    rw [hnumbered]
    exact Ne.symm (h.fresh i hwrites j (Ne.symm hij) hj')
  · by_cases hjk : j = k
    · subst hjk
      rw [hnumbered]
      exact h.fresh j hwrites i hij hi'
    · have hnot : ∀ {l}, l ≠ k → s.mainPc.writes ≠ some l := fun hl hw =>
        hl (Option.some.inj (hw.symm.trans hwrites))
      exact h.apart i j hij ⟨hi', hnot hik⟩ ⟨hj', hnot hjk⟩

lemma Distinct.control {ml : ℕ → Bool} {pc : MainPc} (h : Distinct s)
    (hinPool : ∀ i, (s.args i).clientFd ≠ 0 → i < cfg.startAllocSize)
    (hok : Unshared cfg s .main) (hc : Control cfg s s.mainPc ml pc) :
    Distinct ({ s with ml := ml }.goto pc) := by
  have hframe : pc.writes = s.mainPc.writes → Distinct ({ s with ml := ml }.goto pc) :=
    fun hwrites => h.frame (fun _ => ⟨rfl, rfl⟩) hwrites (Or.inl rfl)
  generalize hpc : s.mainPc = pc₀ at hc hframe
  cases hc with
  | idle hflag => exact h.takes hinPool hpc hflag hok
  | _ => exact hframe rfl

lemma distinct_step {a : Action} (hkept : Kept cfg s) (hused : Used cfg s) (h : Distinct s)
    (hok : Unshared cfg s a) (hstep : step cfg s a = some s') : Distinct s' := by
  have hframe : s'.args = s.args → s'.mainPc.writes = none → s.mainPc.writes = none →
      Distinct s' := fun hargs hnone hnone' =>
    h.frame (fun _ => by rw [hargs]; exact ⟨rfl, rfl⟩) (hnone.trans hnone'.symm) (Or.inr hnone)
  cases moves_of_step hstep with
  | control hc => exact h.control hused.inPool hok hc
  | setFd hpc =>
      refine h.write (by rw [hpc]; rfl) (fun i hi => ?_) rfl rfl
      simp [hi]
  | setFdNo hpc =>
      refine h.write (by rw [hpc]; rfl) (fun i hi => ?_) rfl rfl
      simp [hi]
  | setFlag hpc => exact h.setFlag hpc (hkept.books.numbered _ hpc)
  | @clearFlag w ok hpc =>
      refine h.frame (fun i => ?_) rfl (Or.inl rfl)
      by_cases hi : i = w
      · subst hi
        simp
      · simp [hi]
  | worker hw hc => exact h.frame (fun _ => ⟨rfl, rfl⟩) rfl (Or.inl rfl)
  | sends hpc => exact h.frame (fun _ => ⟨rfl, rfl⟩) rfl (Or.inl rfl)
  | close hpc => exact h.frame (fun _ => ⟨rfl, rfl⟩) rfl (Or.inl rfl)
  | signal ha => exact h.frame (fun _ => ⟨rfl, rfl⟩) rfl (Or.inl rfl)
  | zero hpc hflag hfd hno => exact hframe rfl rfl (by rw [hpc]; rfl)
  | listen hpc hpc' => exact hframe rfl (by rcases hpc' with rfl | rfl <;> rfl) (by rw [hpc]; rfl)
  | search hpc => exact hframe rfl rfl (by rw [hpc]; rfl)
  | acceptFails hpc hno => exact hframe rfl rfl (by rw [hpc]; rfl)
  | accepts hpc hno hfd => exact hframe rfl rfl (by rw [hpc]; rfl)
  | bump hpc hpc' =>
      exact hframe rfl (by rcases hpc' with ⟨-, rfl⟩ | ⟨-, rfl⟩ <;> rfl) (by rw [hpc]; rfl)
  | exit hpc => exact hframe rfl rfl (by rw [hpc]; rfl)
  | clean hpc hi hfd => exact hframe rfl rfl (by rw [hpc]; rfl)

/-! ## Every entry has one owner -/

/-- No two busy workers have one entry, and the entry the scan is about to zero is no busy
worker's. -/
structure Owned (s : State) : Prop where
  apart : ∀ v w, v ≠ w → (s.args v).flag = 1 → (s.args w).flag = 1 →
    (s.args v).clientFdNo ≠ (s.args w).clientFdNo
  scan : ∀ i, s.mainPc = .scanBody i → (s.args i).flag = 0 → (s.args i).clientFd ≠ 0 →
    ∀ w, (s.args w).flag = 1 → (s.args w).clientFdNo ≠ (s.args i).clientFdNo

/-- **Every busy worker is the only owner of its entry**, in every state of every run in which
each client is handed over in an entry that no other used cell names. -/
theorem owned_of_reach (h : Reach (step cfg) (Unshared cfg) init s) : Owned s := by
  have hdistinct : Distinct s :=
    h.invariant_along distinct_init fun _ _ _ hrun hI hok hstep =>
      distinct_step (kept_of_reach hrun) (used_of_reach hrun) hI hok hstep
  have hflags := (kept_of_reach h).flags
  have hnames : ∀ w, (s.args w).flag = 1 → s.Names w := fun w hup =>
    ⟨(used_of_reach h).busy w (Or.inl hup), fun hw => by simp [hflags.writing w hw] at hup⟩
  refine ⟨fun v w hvw hv hw => ?_, fun i hpc hidle hused w hw => ?_⟩
  · exact hdistinct.apart v w hvw (hnames v hv) (hnames w hw)
  · have hne : w ≠ i := by
      rintro rfl
      simp [hidle] at hw
    exact hdistinct.apart w i hne (hnames w hw) ⟨hused, by simp [hpc, MainPc.writes]⟩

instance (cfg : Config) (s : State) : (a : Action) → Decidable (Unshared cfg s a)
  | .main => by
      have hat : ∀ pc, Decidable (Unshared cfg { s with mainPc := pc } .main) := by
        intro pc
        unfold Unshared
        cases pc <;> exact inferInstance
      exact hat s.mainPc
  | .listen _ | .accept _ | .worker _ _ | .line _ | .interrupt => isTrue trivial

/-- The turn when worker 0 is busy and worker 1 is not. -/
def clientTurnSecond (size fd : ℕ) : List Action :=
  clientTurn size fd ++ List.replicate 3 .main

/-- Two workers have a client each. -/
theorem owned_of_reach_two_clients : ∃ s : State,
    (s.args 0).flag = 1 ∧ (s.args 1).flag = 1 ∧ Owned s := by
  have hguarded : Guarded (step ⟨2, Nat.two_pos, fun _ => true⟩)
      (Unshared ⟨2, Nat.two_pos, fun _ => true⟩) init
      (clientTurn 2 4 ++ .main :: clientTurnSecond 2 5) = true := by decide +kernel
  have hrun : (exec (step ⟨2, Nat.two_pos, fun _ => true⟩) init
      (clientTurn 2 4 ++ .main :: clientTurnSecond 2 5)).map
        (fun s => ((s.args 0).flag, (s.args 1).flag)) = some (1, 1) := by decide +kernel
  obtain ⟨s, hs, hreach⟩ := Reach.of_guarded hguarded
  rw [hs] at hrun
  obtain ⟨hzero, hone⟩ := Prod.mk.inj (Option.some.inj hrun)
  exact ⟨s, hzero, hone, owned_of_reach hreach⟩

/-- Worker 1 is idle when the scan zeroes its entry, and keeps its number; the entry goes to
worker 0, which becomes idle behind the scan, is zeroed again and goes to worker 1 as well. -/
theorem two_workers_own_one_entry :
    ¬ ∀ (cfg : Config) (s : State), Reach (step cfg) Anything init s → Owned s := by
  intro hclaim
  have hrun : (exec (step ⟨4, Nat.succ_pos 3, fun _ => true⟩) init
      (clientTurn 4 4 ++ .main :: clientTurnSecond 4 5 ++ serve 1 ++
        .main :: List.replicate 14 .main ++ serve 0 ++ [.listen true, .main, .accept (some 6)] ++
          List.replicate 6 .main ++ .main :: clientTurnSecond 4 7)).map
        (fun s => (s.args 0, s.args 1)) = some (⟨6, 1, 1⟩, ⟨7, 1, 1⟩) := by decide +kernel
  obtain ⟨s, hs, hcells⟩ := Option.map_eq_some_iff.mp hrun
  obtain ⟨hzero, hone⟩ := Prod.mk.inj hcells
  have howned := hclaim _ s (Reach.of_exec hs)
  refine howned.apart 0 1 Nat.zero_ne_one ?_ ?_ ?_
  · rw [hzero]
  · rw [hone]
  · rw [hzero, hone]

end ThreadPool
end EltSummer
