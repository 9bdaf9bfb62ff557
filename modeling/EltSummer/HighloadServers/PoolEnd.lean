import EltSummer.Framework.RangeSum
import EltSummer.HighloadServers.PoolSlots

/-!
# The end of the thread pool

`main` leaves its loop after `start_alloc_size` turns at the latest, sets `stop_threads` and joins
the workers and the thread that reads lines.  So `main` has a bounded number of steps, however the
workers and the network behave, and so has a worker behind `stop_threads`.

That somebody can go on rests on the calls: each of them returns, if only with -1.  A worker whose
client stays silent is kept in `recv`, which waits for all 128 bytes, and `main` is kept in
`accept` as long as nobody connects.  Where the calls return, nothing keeps `main` from its end but
the lines.  A mutex that is locked is held by `main` or by the worker of its number, who waits for
no other thread until it unlocks it; and when `main` joins a worker it holds no mutex, so the
worker goes on.  What is left is `pthread_join(thread_shutdown)`: after CTRL-C, or when the turns
are used up, `main` waits there for a line.
-/

namespace EltSummer
namespace ThreadPool

open Interleaving Function Finset

variable {cfg : Config} {s s' : State}

/-! ## Who holds a mutex -/

/-- A mutex is held by `main` or by the worker of its number; the workers are those that were
created; and the cells have numbers of the table. -/
structure Manned (cfg : Config) (s : State) : Prop where
  held : ∀ i, s.ml i = true → s.mainPc.holds = some i ∨ (s.worker i).pc.holds = true
  real : ∀ w, (s.worker w).pc ≠ .head → w < cfg.startAllocSize ∧ cfg.created w = true
  slots : ∀ i, (s.args i).clientFdNo < cfg.startAllocSize

lemma manned_init : Manned cfg init := by
  refine ⟨fun i hi => ?_, fun w hw => absurd rfl hw, fun i => cfg.size_pos⟩
  cases hi

lemma Control.held {ml : ℕ → Bool} {pc : MainPc} (hc : Control cfg s s.mainPc ml pc) {i : ℕ}
    (hi : ml i = true) : pc.holds = some i ∨ s.ml i = true ∧ s.mainPc.holds ≠ some i := by
  generalize s.mainPc = pc₀ at hc
  cases hc with
  | @scanLock j hj hml | @findLock j hj hml =>
      by_cases hij : i = j
      · exact Or.inl (congrArg some hij.symm)
      · rw [update_of_ne hij] at hi
        exact Or.inr ⟨hi, by simp [MainPc.holds]⟩
  | @scanUnlock j | @foundUnlock j | @findUnlock j =>
      have hij : i ≠ j := by
        rintro rfl
        simp at hi
      rw [update_of_ne hij] at hi
      exact Or.inr ⟨hi, by simpa [MainPc.holds] using hij.symm⟩
  | @scanKeep j | @idle j hflag | @busy j hflag =>
      by_cases hij : j = i
      · exact Or.inl (congrArg some hij)
      · exact Or.inr ⟨hi, by simpa [MainPc.holds] using hij⟩
  | _ => exact Or.inr ⟨hi, by simp [MainPc.holds]⟩

lemma WorkerControl.held {w : ℕ} {ml : ℕ → Bool} {pc₀ pc : WorkerPc}
    (hc : WorkerControl s w pc₀ ml pc) {i : ℕ} (hi : ml i = true) :
    i = w ∧ pc.holds = true ∨ s.ml i = true ∧ (i = w → pc₀.holds = false) := by
  cases hc with
  | lock hml =>
      by_cases hiw : i = w
      · exact Or.inl ⟨hiw, rfl⟩
      · rw [update_of_ne hiw] at hi
        exact Or.inr ⟨hi, fun _ => rfl⟩
  | unlock =>
      have hiw : i ≠ w := by
        rintro rfl
        simp at hi
      rw [update_of_ne hiw] at hi
      exact Or.inr ⟨hi, fun h => absurd h hiw⟩
  | _ => exact Or.inr ⟨hi, fun _ => rfl⟩

/-- `main` goes on with the mutexes as they are. -/
lemma Manned.mainAt (h : Manned cfg s) (hml : s'.ml = s.ml) (hworker : s'.worker = s.worker)
    (hholds : s.mainPc.holds = s'.mainPc.holds)
    (hslots : ∀ i, (s'.args i).clientFdNo < cfg.startAllocSize) : Manned cfg s' := by
  refine ⟨fun i hi => ?_, fun w hw => h.real w (hworker ▸ hw), hslots⟩
  rw [← hholds, hworker]
  exact h.held i (hml ▸ hi)

/-- A step of worker `w` that keeps its mutex. -/
lemma Manned.workerAt (h : Manned cfg s) {w : ℕ} {k : Worker} (hml : s'.ml = s.ml)
    (hmain : s'.mainPc = s.mainPc) (hworker : s'.worker = update s.worker w k)
    (hholds : (s.worker w).pc.holds = k.pc.holds) (hruns : (s.worker w).pc ≠ .head)
    (hslots : ∀ i, (s'.args i).clientFdNo < cfg.startAllocSize) : Manned cfg s' := by
  refine ⟨fun i hi => ?_, fun v hv => ?_, hslots⟩
  · rw [hml] at hi
    rw [hmain, hworker]
    by_cases hiw : i = w
    · subst hiw
      rw [update_self, ← hholds]
      exact h.held i hi
    · rw [update_of_ne hiw]
      exact h.held i hi
  · by_cases hvw : v = w
    · rw [hvw]
      exact h.real w hruns
    · rw [hworker, update_of_ne hvw] at hv
      exact h.real v hv

lemma manned_step {a : Action} (hspace : Space cfg s) (h : Manned cfg s)
    (hstep : step cfg s a = some s') : Manned cfg s' := by
  have hcell : ∀ (i : ℕ) (c : Cell), c.clientFdNo < cfg.startAllocSize →
      ∀ j, (update s.args i c j).clientFdNo < cfg.startAllocSize := by
    intro i c hc j
    by_cases hj : j = i
    · rw [hj, update_self]
      exact hc
    · rw [update_of_ne hj]
      exact h.slots j
  cases moves_of_step hstep with
  | control hc =>
      refine ⟨fun i hi => ?_, h.real, h.slots⟩
      rcases hc.held hi with hpc | ⟨hbefore, hother⟩
      · exact Or.inl hpc
      · exact Or.inr ((h.held i hbefore).resolve_left hother)
  | zero hpc hflag hfd hno => exact h.mainAt rfl rfl (by rw [hpc]; rfl) h.slots
  | listen hpc hpc' =>
      refine h.mainAt rfl rfl ?_ h.slots
      rcases hpc' with rfl | rfl
      · rw [hpc]
        rfl
      · rw [hpc]
        rfl
  | search hpc => exact h.mainAt rfl rfl (by rw [hpc]; rfl) h.slots
  | acceptFails hpc hno => exact h.mainAt rfl rfl (by rw [hpc]; rfl) h.slots
  | accepts hpc hno hfd => exact h.mainAt rfl rfl (by rw [hpc]; rfl) h.slots
  | setFd hpc => exact h.mainAt rfl rfl (by rw [hpc]; rfl) (hcell _ _ (h.slots _))
  | setFdNo hpc =>
      exact h.mainAt rfl rfl (by rw [hpc]; rfl) (hcell _ _ (hspace.slot (by rw [hpc]; rfl)))
  | setFlag hpc => exact h.mainAt rfl rfl (by rw [hpc]; rfl) (hcell _ _ (h.slots _))
  | bump hpc hpc' =>
      refine h.mainAt rfl rfl ?_ h.slots
      rcases hpc' with ⟨-, rfl⟩ | ⟨-, rfl⟩
      · rw [hpc]
        rfl
      · rw [hpc]
        rfl
  | exit hpc => exact h.mainAt rfl rfl (by rw [hpc]; rfl) h.slots
  | clean hpc hi hfd => exact h.mainAt rfl rfl (by rw [hpc]; rfl) h.slots
  | @worker w ok ml pc hw hc =>
      refine ⟨fun i hi => ?_, fun v hv => ?_, h.slots⟩
      · rcases hc.held hi with ⟨rfl, hpc⟩ | ⟨hbefore, hother⟩
        · exact Or.inr (by simpa using hpc)
        · rcases h.held i hbefore with hmain | hworker
          · exact Or.inl hmain
          · have hiw : i ≠ w := by
              rintro rfl
              simp [hother rfl] at hworker
            exact Or.inr (by simpa [hiw] using hworker)
      · by_cases hvw : v = w
        · exact hvw ▸ hw
        · exact h.real v (by simpa [hvw] using hv)
  | sends hpc =>
      exact h.workerAt rfl rfl rfl (by rw [hpc]; rfl) (by simp [hpc]) h.slots
  | clearFlag hpc =>
      exact h.workerAt rfl rfl rfl (by rw [hpc]; rfl) (by simp [hpc]) (hcell _ _ (h.slots _))
  | close hpc =>
      exact h.workerAt rfl rfl rfl (by rw [hpc]; rfl) (by simp [hpc]) h.slots
  | signal ha => exact ⟨h.held, h.real, h.slots⟩

lemma space_of_reach {ok : State → Action → Prop} (h : Reach (step cfg) ok init s) : Space cfg s :=
  h.invariant_along space_init fun _ _ _ hu hspace _ hstep =>
    space_step (kept_of_reach hu).room hspace hstep

lemma manned_of_reach {ok : State → Action → Prop} (h : Reach (step cfg) ok init s) :
    Manned cfg s :=
  h.invariant_along manned_init fun _ _ _ hu hmanned _ hstep =>
    manned_step (space_of_reach hu) hmanned hstep

/-! ## The network's answers -/

lemma listen_of_step {ok : Bool} (h : step cfg s (.listen ok) = some s') :
    s.mainPc = .listen ∧ s' = s.goto (if ok = true then .search else .bump) := by
  cases hpc : s.mainPc with
  | listen =>
      simp only [step, mainStep, hpc, Option.some.injEq] at h
      exact ⟨rfl, h.symm⟩
  | _ => simp [step, mainStep, hpc] at h

/-- What `accept` leaves alone. -/
lemma accept_of_step {fd : Option ℕ} (h : step cfg s (.accept fd) = some s') :
    s.mainPc = .accept ∧ (s'.mainPc = .bump ∨ s'.mainPc = .findLock 0) ∧ s'.count = s.count ∧
      s'.worker = s.worker ∧ s'.stopThreads = s.stopThreads := by
  cases hpc : s.mainPc with
  | accept =>
      simp only [step, mainStep, hpc, acceptStep] at h
      obtain ⟨-, h⟩ := Option.ite_none_right_eq_some.mp h
      cases fd with
      | none =>
          obtain rfl := Option.some.inj h
          exact ⟨rfl, Or.inl rfl, rfl, rfl, rfl⟩
      | some fd =>
          obtain ⟨-, h⟩ := Option.ite_none_left_eq_some.mp h
          obtain rfl := Option.some.inj h
          exact ⟨rfl, Or.inr rfl, rfl, rfl, rfl⟩
  | _ => simp [step, mainStep, hpc] at h

/-! ## How far `main` has to go -/

/-- The most steps of a turn of `main`. -/
def turnCost (n : ℕ) : ℕ := 6 * n + 10

/-- The most steps of `main` behind the turn `count` counts next. -/
def afterTurn (n count : ℕ) : ℕ := (n - (count + 1)) * turnCost n + (2 * n + 4)

/-- The most steps `main` takes to its end. -/
def MainPc.left (n count : ℕ) : MainPc → ℕ
  | .head => afterTurn n count + turnCost n
  | .scanLock i => afterTurn n count + 3 * n + 9 + 3 * (n - i)
  | .scanBody i => afterTurn n count + 3 * n + 8 + 3 * (n - i)
  | .scanUnlock i => afterTurn n count + 3 * n + 7 + 3 * (n - i)
  | .listen => afterTurn n count + 3 * n + 8
  | .search => afterTurn n count + 3 * n + 7
  | .accept => afterTurn n count + 3 * n + 6
  | .findLock i => afterTurn n count + 5 + 3 * (n - i)
  | .findTest i => afterTurn n count + 4 + 3 * (n - i)
  | .findUnlock i => afterTurn n count + 3 + 3 * (n - i)
  | .setFd _ => afterTurn n count + 5
  | .setFdNo _ => afterTurn n count + 4
  | .setFlag _ => afterTurn n count + 3
  | .foundUnlock _ => afterTurn n count + 2
  | .bump => afterTurn n count + 1
  | .exit => 2 * n + 4
  | .join i => n + 3 + (n - i)
  | .joinShutdown => n + 2
  | .cleanup i => n - i + 1
  | .ended => 0

lemma afterTurn_succ {n count : ℕ} (h : count + 1 < n) :
    afterTurn n (count + 1) + turnCost n = afterTurn n count := by
  have hturns : n - (count + 1) = n - (count + 1 + 1) + 1 := by omega
  rw [afterTurn, afterTurn, hturns, Nat.add_mul]
  omega

lemma le_afterTurn (n count : ℕ) : 2 * n + 4 ≤ afterTurn n count := Nat.le_add_left _ _

lemma MainPc.left_le {n count : ℕ} (hn : 0 < n) (pc : MainPc) :
    pc.left n count ≤ n * turnCost n + (2 * n + 4) := by
  have hturns : afterTurn n count + turnCost n ≤ n * turnCost n + (2 * n + 4) := by
    have hmul : (n - (count + 1) + 1) * turnCost n ≤ n * turnCost n :=
      Nat.mul_le_mul_right _ (by omega)
    rw [Nat.add_mul] at hmul
    rw [afterTurn]
    omega
  have htail := le_afterTurn n count
  cases pc <;> simp only [MainPc.left, turnCost] at hturns ⊢ <;> omega

/-- The steps of `main`. -/
def ofMain : Action → Bool
  | .main | .listen _ | .accept _ => true
  | _ => false

lemma Control.left {ml : ℕ → Bool} {pc : MainPc} (hinside : Inside cfg s)
    (hclean : ∀ i, s.mainPc = .cleanup i → pc = .cleanup (i + 1) → i < cfg.startAllocSize)
    (hc : Control cfg s s.mainPc ml pc) :
    pc.left cfg.startAllocSize s.count < s.mainPc.left cfg.startAllocSize s.count := by
  have hcell := hinside.cell
  have htail := le_afterTurn cfg.startAllocSize s.count
  generalize s.mainPc = pc₀ at hc hcell hclean
  cases hc with
  | @cleanKeep i hzero =>
      have hi := hclean i rfl rfl
      simp only [MainPc.left]
      omega
  | @scanUnlock i | @findUnlock i | @idle i hflag =>
      have hi := hcell i rfl
      simp only [MainPc.left]
      omega
  | enter | leave =>
      simp only [MainPc.left, turnCost]
      omega
  | _ =>
      simp only [MainPc.left]
      omega

/-- What `main` has to do yet. -/
def State.mainLeft (cfg : Config) (s : State) : ℕ := s.mainPc.left cfg.startAllocSize s.count

/-- Each step of `main` brings it nearer to its end, and nobody takes it back. -/
lemma mainLeft_step {a : Action} (hkept : Kept cfg s) (hstep : step cfg s a = some s') :
    s'.mainLeft cfg + (ofMain a).toNat ≤ s.mainLeft cfg := by
  have hgoes : ∀ {pc : MainPc}, s.mainPc = pc → s'.count = s.count →
      s'.mainPc.left cfg.startAllocSize s.count < pc.left cfg.startAllocSize s.count →
      s'.mainLeft cfg + (ofMain a).toNat ≤ s.mainLeft cfg := by
    intro pc hpc hcount hless
    have hone := Bool.toNat_le (ofMain a)
    rw [State.mainLeft, State.mainLeft, hpc, hcount]
    omega
  cases a with
  | listen ok =>
      obtain ⟨hpc, rfl⟩ := listen_of_step hstep
      refine hgoes hpc rfl ?_
      rw [State.goto_mainPc]
      split
      · simp only [MainPc.left]
        omega
      · simp only [MainPc.left]
        omega
  | accept fd =>
      obtain ⟨hpc, hs' | hs', hcount, -⟩ := accept_of_step hstep
      · exact hgoes hpc hcount (by rw [hs']; simp only [MainPc.left]; omega)
      · exact hgoes hpc hcount (by rw [hs']; simp only [MainPc.left]; omega)
  | main =>
      cases moves_of_step hstep with
      | @control ml pc hc =>
          apply hgoes rfl rfl
          refine Control.left hkept.inside (fun i hpc hpc' => ?_) hc
          by_contra hi
          simp only [step, mainStep, hpc, if_neg hi, Option.some.injEq] at hstep
          have hended := congrArg State.mainPc hstep
          exact MainPc.noConfusion (hended.trans hpc')
      | zero hpc hflag hfd hno =>
          exact hgoes hpc rfl (by simp only [State.goto_mainPc, MainPc.left]; omega)
      | search hpc => exact hgoes hpc rfl (by simp only [State.goto_mainPc, MainPc.left]; omega)
      | setFd hpc => exact hgoes hpc rfl (by simp only [State.goto_mainPc, MainPc.left]; omega)
      | setFdNo hpc => exact hgoes hpc rfl (by simp only [State.goto_mainPc, MainPc.left]; omega)
      | setFlag hpc => exact hgoes hpc rfl (by simp only [State.goto_mainPc, MainPc.left]; omega)
      | bump hpc hpc' =>
          have hcount : s.count < cfg.startAllocSize := hkept.room.inLoop (by rw [hpc]; rfl)
          have htail := le_afterTurn cfg.startAllocSize s.count
          rw [State.mainLeft, State.mainLeft, hpc]
          rcases hpc' with ⟨-, rfl⟩ | ⟨hmore, rfl⟩
          · simp only [State.goto_mainPc, MainPc.left, ofMain, Bool.toNat_true]
            omega
          · have hsucc : afterTurn cfg.startAllocSize (s.count + 1) +
                turnCost cfg.startAllocSize = afterTurn cfg.startAllocSize s.count :=
              afterTurn_succ (by omega)
            simp only [State.goto_mainPc, State.goto_count, MainPc.left, ofMain, Bool.toNat_true]
            omega
      | exit hpc => exact hgoes hpc rfl (by simp only [State.goto_mainPc, MainPc.left]; omega)
      | clean hpc hi hfd =>
          exact hgoes hpc rfl (by simp only [State.goto_mainPc, MainPc.left]; omega)
      | signal ha => exact absurd rfl ha
  | worker w ok =>
      have hmain : s'.mainPc = s.mainPc ∧ s'.count = s.count := by
        cases moves_of_step hstep with
        | _ => exact ⟨rfl, rfl⟩
      rw [State.mainLeft, State.mainLeft, hmain.1, hmain.2]
      exact le_rfl
  | line exit =>
      obtain ⟨-, hstep⟩ := Option.ite_none_left_eq_some.mp hstep
      split at hstep
      · obtain rfl := Option.some.inj hstep
        exact le_rfl
      · obtain rfl := Option.some.inj hstep
        exact le_rfl
  | interrupt =>
      obtain rfl := Option.some.inj hstep
      exact le_rfl

/-! ## How far a worker has to go -/

/-- The most steps a worker takes to its end once `stop_threads` is set. -/
def WorkerPc.left : WorkerPc → ℕ
  | .exited => 0
  | .head => 1
  | .unlock | .inner => 2
  | .close | .send => 3
  | .clearFlag | .recv => 4
  | .lock | .test => 5

lemma WorkerPc.left_le (pc : WorkerPc) : pc.left ≤ 5 := by
  cases pc <;> decide

/-- A worker's step. -/
def ofWorker : Action → Bool
  | .worker _ _ => true
  | _ => false

/-- What the workers have to do yet. -/
def State.workersLeft (cfg : Config) (s : State) : ℕ :=
  ∑ w ∈ range cfg.startAllocSize, (s.worker w).pc.left

lemma left_workerStep {w : ℕ} {ok : Bool} (hstop : s.stopThreads = true)
    (h : workerStep s w ok = some s') : s'.stopThreads = true ∧
      ∃ k, s'.worker = update s.worker w k ∧ k.pc.left < (s.worker w).pc.left := by
  cases hpc : (s.worker w).pc with
  | exited => simp [workerStep, hpc] at h
  | send =>
      simp only [workerStep, hpc] at h
      split at h
      · obtain rfl := Option.some.inj h
        exact ⟨hstop, _, rfl, by simp [WorkerPc.left]⟩
      · obtain rfl := Option.some.inj h
        exact ⟨hstop, _, rfl, by simp [WorkerPc.left]⟩
  | lock =>
      simp only [workerStep, hpc, Option.ite_none_left_eq_some, Option.some.injEq] at h
      obtain ⟨-, rfl⟩ := h
      exact ⟨hstop, _, rfl, by simp [WorkerPc.left]⟩
  | test =>
      simp only [workerStep, hpc, Option.some.injEq] at h
      subst h
      refine ⟨hstop, _, rfl, ?_⟩
      dsimp only
      split
      · decide
      · decide
  | head | inner =>
      simp only [workerStep, hpc, hstop, if_true, Option.some.injEq] at h
      subst h
      exact ⟨hstop, _, rfl, by simp [WorkerPc.left]⟩
  | _ =>
      simp only [workerStep, hpc, Option.some.injEq] at h
      subst h
      exact ⟨hstop, _, rfl, by simp [WorkerPc.left]⟩

/-- The steps of `main` and the signals leave the workers alone. -/
lemma worker_of_step {a : Action} (ha : ofWorker a = false) (hstep : step cfg s a = some s') :
    s'.worker = s.worker ∧ (s.stopThreads = true → s'.stopThreads = true) := by
  cases a with
  | worker w ok => cases ha
  | listen ok =>
      obtain ⟨-, rfl⟩ := listen_of_step hstep
      exact ⟨rfl, id⟩
  | accept fd =>
      obtain ⟨-, -, -, hworker, hstop⟩ := accept_of_step hstep
      exact ⟨hworker, fun h => hstop.trans h⟩
  | line exit =>
      obtain ⟨-, hstep⟩ := Option.ite_none_left_eq_some.mp hstep
      split at hstep
      · obtain rfl := Option.some.inj hstep
        exact ⟨rfl, id⟩
      · obtain rfl := Option.some.inj hstep
        exact ⟨rfl, id⟩
  | interrupt =>
      obtain rfl := Option.some.inj hstep
      exact ⟨rfl, fun _ => rfl⟩
  | main =>
      cases moves_of_step hstep with
      | exit hpc => exact ⟨rfl, fun _ => rfl⟩
      | signal ha => exact absurd rfl ha
      | _ => exact ⟨rfl, id⟩

/-- `stop_threads` is not taken back, and each step of a worker brings it nearer to its end. -/
lemma workersLeft_step {a : Action} (hstop : s.stopThreads = true)
    (hstep : step cfg s a = some s') : s'.stopThreads = true ∧
      s'.workersLeft cfg + (ofWorker a).toNat ≤ s.workersLeft cfg := by
  cases hkind : ofWorker a with
  | false =>
      obtain ⟨hworker, hstop'⟩ := worker_of_step hkind hstep
      rw [State.workersLeft, State.workersLeft, hworker]
      exact ⟨hstop' hstop, le_rfl⟩
  | true =>
      cases a with
      | worker w ok =>
          obtain ⟨⟨hw, -⟩, hstep⟩ := Option.ite_none_right_eq_some.mp hstep
          obtain ⟨hstop', k, hworker, hless⟩ := left_workerStep hstop hstep
          refine ⟨hstop', ?_⟩
          apply RangeSum.sum_lt_of_one hw
          · rwa [hworker, update_self]
          · intro v hv
            rw [hworker, update_of_ne hv]
      | _ => cases hkind

/-! ## Who can go on -/

/-- The step of a worker. -/
def WorkerGoes (cfg : Config) (s : State) (w : ℕ) : Prop :=
  ∃ s', step cfg s (.worker w true) = some s'

/-- Some step of `main`. -/
def MainGoes (cfg : Config) (s : State) : Prop := ∃ a s', ofMain a = true ∧ step cfg s a = some s'

lemma mainGoes_of_main (h : (mainStep cfg s s.mainPc .main).isSome = true) : MainGoes cfg s := by
  obtain ⟨s', hs'⟩ := Option.isSome_iff_exists.mp h
  exact ⟨.main, s', rfl, hs'⟩

/-- `main` goes on, or waits for a mutex, a worker or a line. -/
lemma mainGoes_or_waits (hmanned : Manned cfg s) (hspace : Space cfg s)
    (hruns : s.mainPc ≠ .ended) : MainGoes cfg s ∨
      (∃ i < cfg.startAllocSize, (s.mainPc = .scanLock i ∨ s.mainPc = .findLock i) ∧
        s.ml i = true) ∨
      (∃ i < cfg.startAllocSize, s.mainPc = .join i ∧ (s.worker i).pc ≠ .exited ∧
        cfg.created i = true) ∨
      s.mainPc = .joinShutdown ∧ s.shutdownExited = false := by
  have hmain : (mainStep cfg s s.mainPc .main).isSome = true → MainGoes cfg s :=
    mainGoes_of_main
  cases hpc : s.mainPc with
  | ended => exact absurd hpc hruns
  | scanLock i | findLock i =>
      by_cases hi : i < cfg.startAllocSize
      · by_cases hml : s.ml i = true
        · exact Or.inr (Or.inl ⟨i, hi, by simp, hml⟩)
        · exact Or.inl (hmain (by simp [hpc, mainStep, if_pos hi, if_neg hml]))
      · exact Or.inl (hmain (by simp [hpc, mainStep, if_neg hi]))
  | scanBody i =>
      apply Or.inl
      by_cases hidle : (s.args i).flag = 0 ∧ (s.args i).clientFd ≠ 0
      · exact hmain (by simp [hpc, mainStep, if_pos hidle, if_pos (hmanned.slots i)])
      · exact hmain (by simp [hpc, mainStep, if_neg hidle])
  | listen => exact Or.inl ⟨.listen true, s.goto .search, rfl, by simp [step, mainStep, hpc]⟩
  | accept =>
      refine Or.inl ⟨.accept none, (s.setEntry s.clientsFdNo (-1)).goto .bump, rfl, ?_⟩
      simp [step, mainStep, hpc, acceptStep, (hspace.free hpc).1]
  | join i =>
      by_cases hi : i < cfg.startAllocSize
      · by_cases hjoin : (s.worker i).pc = .exited ∨ cfg.created i = false
        · exact Or.inl (hmain (by simp [hpc, mainStep, if_pos hi, if_pos hjoin]))
        · obtain ⟨hexited, hcreated⟩ := not_or.mp hjoin
          exact Or.inr (Or.inr (Or.inl ⟨i, hi, rfl, hexited, (Bool.not_eq_false _).mp hcreated⟩))
      · exact Or.inl (hmain (by simp [hpc, mainStep, if_neg hi]))
  | joinShutdown =>
      cases hexited : s.shutdownExited with
      | true => exact Or.inl (hmain (by simp [hpc, mainStep, hexited]))
      | false => exact Or.inr (Or.inr (Or.inr ⟨rfl, rfl⟩))
  | cleanup i =>
      by_cases hi : i < cfg.startAllocSize
      · exact Or.inl (hmain (by simp [hpc, mainStep, if_pos hi]))
      · exact Or.inl (hmain (by simp [hpc, mainStep, if_neg hi]))
  | _ => exact Or.inl (hmain (by simp [hpc, mainStep]))

/-- A worker goes on, or waits for its mutex. -/
lemma workerGoes_or_waits {w : ℕ} (hw : w < cfg.startAllocSize ∧ cfg.created w = true)
    (hruns : (s.worker w).pc ≠ .exited) :
    WorkerGoes cfg s w ∨ (s.worker w).pc = .lock ∧ s.ml w = true := by
  have hgoes : (workerStep s w true).isSome = true → WorkerGoes cfg s w := by
    intro h
    obtain ⟨s', hs'⟩ := Option.isSome_iff_exists.mp h
    exact ⟨s', by rw [step, if_pos hw, hs']⟩
  cases hpc : (s.worker w).pc with
  | exited => exact absurd hpc hruns
  | lock =>
      by_cases hml : s.ml w = true
      · exact Or.inr ⟨rfl, hml⟩
      · exact Or.inl (hgoes (by simp [workerStep, hpc, hml]))
  | _ => exact Or.inl (hgoes (by simp [workerStep, hpc]))

lemma mainGoes_of_holds (hmanned : Manned cfg s) (hspace : Space cfg s) {i : ℕ}
    (hholds : s.mainPc.holds = some i) : MainGoes cfg s := by
  have hruns : s.mainPc ≠ .ended := fun hpc => by simp [hpc, MainPc.holds] at hholds
  rcases mainGoes_or_waits hmanned hspace hruns with
    hgoes | ⟨j, -, hpc | hpc, -⟩ | ⟨j, -, hpc, -⟩ | ⟨hpc, -⟩
  · exact hgoes
  all_goals simp [hpc, MainPc.holds] at hholds

/-- Who holds a mutex as a worker goes on. -/
lemma workerGoes_of_holds (hmanned : Manned cfg s) {w : ℕ}
    (hholds : (s.worker w).pc.holds = true) : WorkerGoes cfg s w := by
  have hne : ∀ {pc : WorkerPc}, pc.holds = false → (s.worker w).pc ≠ pc := by
    rintro pc hpc rfl
    rw [hholds] at hpc
    cases hpc
  rcases workerGoes_or_waits (hmanned.real w (hne rfl)) (hne rfl) with hgoes | ⟨hpc, -⟩
  · exact hgoes
  · exact absurd hpc (hne rfl)

/-- `stop_threads` is set when `main` joins the workers. -/
lemma stopped_of_reach {ok : State → Action → Prop} (h : Reach (step cfg) ok init s) :
    ∀ i, s.mainPc = .join i → s.stopThreads = true := by
  refine h.invariant (I := fun u => ∀ i, u.mainPc = .join i → u.stopThreads = true)
    (fun i hi => by cases hi) fun u a v hu _ hstep i hi => ?_
  have hkeeps : u.stopThreads = true → v.stopThreads = true :=
    fun hstop => (workersLeft_step hstop hstep).1
  cases moves_of_step hstep with
  | control hc =>
      rw [State.goto_mainPc] at hi
      subst hi
      generalize hpc : u.mainPc = pc at hc
      cases hc with
      | join hi hexit => exact hkeeps (hu _ hpc)
  | exit hpc => rfl
  | listen hpc hpc' => rcases hpc' with rfl | rfl <;> cases hi
  | bump hpc hpc' => rcases hpc' with ⟨-, rfl⟩ | ⟨-, rfl⟩ <;> cases hi
  | worker hw hc => exact hkeeps (hu i hi)
  | sends hpc => exact hkeeps (hu i hi)
  | clearFlag hpc => exact hkeeps (hu i hi)
  | close hpc => exact hkeeps (hu i hi)
  | signal ha => exact hkeeps (hu i hi)
  | _ => cases hi

/-- **The end of the pool.**  In any order of the steps and whatever the calls return, `main` takes
a bounded number of steps, and so do the workers behind `stop_threads`.  As long as each call
returns: until `main` has ended it can go on, or the worker can whose mutex or end it waits for, or
it waits for a line; and a worker that waits for another thread waits for `main`, which can go
on. -/
theorem pool_ends (h : Reach (step cfg) Anything init s) {acts : List Action} {t : State}
    (hexec : exec (step cfg) s acts = some t) :
    acts.countP ofMain ≤
      cfg.startAllocSize * turnCost cfg.startAllocSize + (2 * cfg.startAllocSize + 4) ∧
    (s.stopThreads = true → acts.countP ofWorker ≤ 5 * cfg.startAllocSize) ∧
    (t.mainPc = .ended ∨ MainGoes cfg t ∨
      (∃ i, ((t.mainPc = .scanLock i ∨ t.mainPc = .findLock i) ∧ (t.worker i).pc.holds = true ∨
        t.mainPc = .join i ∧ t.stopThreads = true) ∧ WorkerGoes cfg t i) ∨
      t.mainPc = .joinShutdown ∧ t.shutdownExited = false) ∧
    ∀ w < cfg.startAllocSize, cfg.created w = true → (t.worker w).pc = .exited ∨
      WorkerGoes cfg t w ∨ t.mainPc.holds = some w ∧ MainGoes cfg t := by
  have hreach : Reach (step cfg) Anything init t := h.trans (Reach.of_exec hexec)
  have hmanned := manned_of_reach hreach
  have hspace := space_of_reach hreach
  refine ⟨?_, fun hstop => ?_, ?_, fun w hw hcreated => ?_⟩
  · have hcount : Reach (step cfg) Anything init t ∧
        t.mainLeft cfg + acts.countP ofMain ≤ s.mainLeft cfg := by
      refine rank_of_exec (fun u a v hu hstep => ?_) h hexec
      exact ⟨hu.tail trivial hstep, mainLeft_step (kept_of_reach hu) hstep⟩
    have hbound : s.mainLeft cfg ≤ _ := MainPc.left_le cfg.size_pos s.mainPc
    omega
  · have hcount : t.stopThreads = true ∧
        t.workersLeft cfg + acts.countP ofWorker ≤ s.workersLeft cfg :=
      rank_of_exec (fun u a v hu hstep => workersLeft_step hu hstep) hstop hexec
    have hbound : s.workersLeft cfg ≤ 5 * cfg.startAllocSize := by
      calc
        s.workersLeft cfg ≤ ∑ _w ∈ range cfg.startAllocSize, 5 :=
          sum_le_sum fun w _ => WorkerPc.left_le _
        _ = 5 * cfg.startAllocSize := by
          rw [sum_const_nat fun _ _ => rfl, card_range, Nat.mul_comm]
    omega
  · by_cases hended : t.mainPc = .ended
    · exact Or.inl hended
    refine Or.inr ?_
    rcases mainGoes_or_waits hmanned hspace hended with
      hgoes | ⟨i, -, hpc, hml⟩ | ⟨i, hi, hpc, hruns, hcreated⟩ | hline
    · exact Or.inl hgoes
    · have hholds : (t.worker i).pc.holds = true := by
        rcases hmanned.held i hml with hmain | hworker
        · rcases hpc with hpc | hpc <;> simp [hpc, MainPc.holds] at hmain
        · exact hworker
      exact Or.inr (Or.inl ⟨i, Or.inl ⟨hpc, hholds⟩, workerGoes_of_holds hmanned hholds⟩)
    · refine Or.inr (Or.inl ⟨i, Or.inr ⟨hpc, stopped_of_reach hreach i hpc⟩, ?_⟩)
      rcases workerGoes_or_waits ⟨hi, hcreated⟩ hruns with hgoes | ⟨hlock, hml⟩
      · exact hgoes
      · rcases hmanned.held i hml with hmain | hworker
        · simp [hpc, MainPc.holds] at hmain
        · simp [hlock, WorkerPc.holds] at hworker
    · exact Or.inr (Or.inr hline)
  · by_cases hexited : (t.worker w).pc = .exited
    · exact Or.inl hexited
    rcases workerGoes_or_waits ⟨hw, hcreated⟩ hexited with hgoes | ⟨hlock, hml⟩
    · exact Or.inr (Or.inl hgoes)
    · rcases hmanned.held w hml with hmain | hworker
      · exact Or.inr (Or.inr ⟨hmain, mainGoes_of_holds hmanned hspace hmain⟩)
      · simp [hlock, WorkerPc.holds] at hworker

/-- The only turn is used up, the worker has exited without serving its client, and no line has
been typed. -/
theorem pool_ends_no_line : ∃ t, exec (step ⟨1, Nat.one_pos, fun _ => true⟩) init
      (clientTurn 1 4 ++ [.main, .main, .worker 0 true, .main, .main]) = some t ∧
    t.mainPc = .joinShutdown ∧
    ∀ w < 1, (t.worker w).pc = .exited ∨ WorkerGoes ⟨1, Nat.one_pos, fun _ => true⟩ t w ∨
      t.mainPc.holds = some w ∧ MainGoes ⟨1, Nat.one_pos, fun _ => true⟩ t := by
  obtain ⟨t, ht, hpc⟩ : ∃ t, exec (step ⟨1, Nat.one_pos, fun _ => true⟩) init
      (clientTurn 1 4 ++ [.main, .main, .worker 0 true, .main, .main]) = some t ∧
      t.mainPc = .joinShutdown := ⟨_, rfl, rfl⟩
  exact ⟨t, ht, hpc, fun w hw => (pool_ends (Reach.refl _ _ _) ht).2.2.2 w hw rfl⟩

end ThreadPool
end EltSummer
