import EltSummer.HighloadServers.ThreadPool
import Mathlib.Data.List.Nodup
import Mathlib.Data.List.Range

/-!
# Handing a client to a worker

`main` looks for a worker whose flag is 0, writes the client's descriptor into that worker's
cell and raises the flag; there is no branch for the case that every worker is busy.  That
case does not occur: a busy worker has been handed a client, every turn of the loop hands
over at most one, and the loop ends after as many turns as there are workers
(`Room.no_full_pool`).

The rest is the protocol of the flag and the mutex of one cell.  The worker closes behind
`flag = 0` but before it gives the mutex back, and `main` writes under the same mutex, so the
descriptor the worker closes is still the one it was handed (`Books.served`).

`handOff_of_reach` puts this together, for any pool and any schedule.
-/

namespace EltSummer
namespace ThreadPool

open Interleaving Function

variable {cfg : Config} {s s' : State}

/-! ## What the log says -/

/-- The descriptors that `accept` has returned. -/
def accepted (log : List Event) : List ℤ :=
  log.filterMap fun
    | .accept fd => some fd
    | _ => none

/-- The cells that were handed a client, with its descriptor. -/
def handed (log : List Event) : List (ℕ × ℤ) :=
  log.filterMap fun
    | .hand i fd => some (i, fd)
    | _ => none

/-- The descriptors that cell `i` was handed. -/
def handedTo (log : List Event) (i : ℕ) : List ℤ :=
  ((handed log).filter fun p => p.1 = i).map Prod.snd

/-- The descriptors that worker `w` has closed. -/
def closedBy (log : List Event) (w : ℕ) : List ℤ :=
  log.filterMap fun
    | .close (some v) fd => if v = w then some fd else none
    | _ => none

@[simp] lemma accepted_append (log log' : List Event) :
    accepted (log ++ log') = accepted log ++ accepted log' := List.filterMap_append

@[simp] lemma handed_append (log log' : List Event) :
    handed (log ++ log') = handed log ++ handed log' := List.filterMap_append

@[simp] lemma closedBy_append (log log' : List Event) (w : ℕ) :
    closedBy (log ++ log') w = closedBy log w ++ closedBy log' w := List.filterMap_append

@[simp] lemma accepted_singleton (e : Event) :
    accepted [e] = match e with
      | .accept fd => [fd]
      | _ => [] := by
  cases e <;> rfl

@[simp] lemma handed_singleton (e : Event) :
    handed [e] = match e with
      | .hand i fd => [(i, fd)]
      | _ => [] := by
  cases e <;> rfl

@[simp] lemma closedBy_accept (fd : ℤ) (w : ℕ) : closedBy [.accept fd] w = [] := rfl

@[simp] lemma closedBy_hand (i : ℕ) (fd : ℤ) (w : ℕ) : closedBy [.hand i fd] w = [] := rfl

@[simp] lemma closedBy_cleanup (fd : ℤ) (w : ℕ) : closedBy [.close none fd] w = [] := rfl

@[simp] lemma closedBy_worker (v : ℕ) (fd : ℤ) (w : ℕ) :
    closedBy [.close (some v) fd] w = if v = w then [fd] else [] := by
  by_cases hv : v = w <;> simp [closedBy, hv]

@[simp] lemma handedTo_concat (log : List Event) (e : Event) (i : ℕ) :
    handedTo (log ++ [e]) i = handedTo log i ++ match e with
      | .hand j fd => if j = i then [fd] else []
      | _ => [] := by
  cases e with
  | hand j fd => by_cases hj : j = i <;> simp [handedTo, hj]
  | accept fd => simp [handedTo]
  | close w fd => simp [handedTo]

/-! ## The mutexes -/

/-- The mutex `main` holds. -/
def MainPc.holds : MainPc → Option ℕ
  | .scanBody i | .scanUnlock i | .findTest i | .setFd i | .setFdNo i | .setFlag i
  | .foundUnlock i | .findUnlock i => some i
  | _ => none

/-- The worker holds its mutex. -/
def WorkerPc.holds : WorkerPc → Bool
  | .clearFlag | .close | .unlock => true
  | _ => false

/-- Who is in a critical section has locked it, and is alone there. -/
structure Locked (s : State) : Prop where
  main : ∀ i, s.mainPc.holds = some i → s.ml i = true
  worker : ∀ w, (s.worker w).pc.holds = true → s.ml w = true
  apart : ∀ i, s.mainPc.holds = some i → (s.worker i).pc.holds = false

lemma locked_init : Locked init := by
  refine ⟨?_, ?_, ?_⟩ <;> simp [init, MainPc.holds, WorkerPc.holds]

/-- `main` goes on without locking or unlocking. -/
lemma Locked.mainAt (h : Locked s) (hml : s'.ml = s.ml) (hworker : s'.worker = s.worker)
    (hpc : ∀ i, s'.mainPc.holds = some i → s.mainPc.holds = some i) : Locked s' :=
  ⟨fun i hi => hml ▸ h.main i (hpc i hi), fun w hw => hml ▸ h.worker w (hworker ▸ hw),
    fun i hi => hworker ▸ h.apart i (hpc i hi)⟩

/-- `main` locks a mutex that is free. -/
lemma Locked.mainLocks (h : Locked s) {i : ℕ} (hfree : s.ml i = false)
    (hml : s'.ml = update s.ml i true) (hworker : s'.worker = s.worker)
    (hpc : s'.mainPc.holds = some i) : Locked s' := by
  have hout : (s.worker i).pc.holds = false := by
    by_contra hin
    have := h.worker i (by simpa using hin)
    simp [hfree] at this
  refine ⟨fun j hj => ?_, fun w hw => ?_, fun j hj => ?_⟩
  · obtain rfl := Option.some.inj (hpc.symm.trans hj)
    simp [hml]
  · rw [hworker] at hw
    rw [hml, update_apply, h.worker w hw]
    simp
  · obtain rfl := Option.some.inj (hpc.symm.trans hj)
    rw [hworker]
    exact hout

/-- `main` unlocks the mutex it holds. -/
lemma Locked.mainUnlocks (h : Locked s) {i : ℕ} (hholds : s.mainPc.holds = some i)
    (hml : s'.ml = update s.ml i false) (hworker : s'.worker = s.worker)
    (hpc : s'.mainPc.holds = none) : Locked s' := by
  refine ⟨fun j hj => by simp [hpc] at hj, fun w hw => ?_, fun j hj => by simp [hpc] at hj⟩
  rw [hworker] at hw
  have hne : w ≠ i := by
    rintro rfl
    simp [h.apart w hholds] at hw
  rw [hml, update_of_ne hne]
  exact h.worker w hw

lemma Locked.control {ml : ℕ → Bool} {pc : MainPc} (h : Locked s)
    (hc : Control cfg s s.mainPc ml pc) : Locked ({ s with ml := ml }.goto pc) := by
  generalize hpc : s.mainPc = pc₀ at hc
  cases hc with
  | scanLock hi hml => exact h.mainLocks hml rfl rfl rfl
  | findLock hi hml => exact h.mainLocks hml rfl rfl rfl
  | scanUnlock => exact h.mainUnlocks (by rw [hpc]; rfl) rfl rfl rfl
  | foundUnlock => exact h.mainUnlocks (by rw [hpc]; rfl) rfl rfl rfl
  | findUnlock => exact h.mainUnlocks (by rw [hpc]; rfl) rfl rfl rfl
  | _ => exact h.mainAt rfl rfl fun i hi => by rw [hpc]; exact hi

/-- Worker `w` goes on without locking or unlocking. -/
lemma Locked.workerAt (h : Locked s) {w : ℕ} {k : Worker} (hml : s'.ml = s.ml)
    (hmain : s'.mainPc = s.mainPc) (hworker : s'.worker = update s.worker w k)
    (hpc : k.pc.holds = (s.worker w).pc.holds) : Locked s' := by
  have hsame : ∀ v, (s'.worker v).pc.holds = (s.worker v).pc.holds := by
    intro v
    rw [hworker, update_apply]
    split
    · rename_i hv
      rw [hv, hpc]
    · rfl
  exact ⟨fun i hi => hml ▸ h.main i (hmain ▸ hi), fun v hv => hml ▸ h.worker v (hsame v ▸ hv),
    fun i hi => (hsame i).trans (h.apart i (hmain ▸ hi))⟩

lemma Locked.workerControl {w : ℕ} {ml : ℕ → Bool} {pc : WorkerPc} (h : Locked s)
    (hc : WorkerControl s w (s.worker w).pc ml pc) :
    Locked ({ s with ml := ml }.setWorker w { s.worker w with pc := pc }) := by
  generalize hpc : (s.worker w).pc = pc₀ at hc
  cases hc with
  | lock hml =>
      refine ⟨fun i hi => ?_, fun v hv => ?_, fun i hi => ?_⟩
      · show update s.ml w true i = true
        rw [update_apply, h.main i hi]
        simp
      · show update s.ml w true v = true
        rw [update_apply]
        split
        · rfl
        · rename_i hv'
          refine h.worker v ?_
          simpa [State.setWorker, hv'] using hv
      · have hne : i ≠ w := by
          rintro rfl
          have := h.main i hi
          simp [hml] at this
        simpa [State.setWorker, hne] using h.apart i hi
  | unlock =>
      have hout : s.mainPc.holds ≠ some w := by
        intro hmain
        have := h.apart w hmain
        simp [hpc, WorkerPc.holds] at this
      refine ⟨fun i hi => ?_, fun v hv => ?_, fun i hi => ?_⟩
      · have hne : i ≠ w := by
          rintro rfl
          exact hout hi
        show update s.ml w false i = true
        rw [update_of_ne hne]
        exact h.main i hi
      · have hne : v ≠ w := by
          rintro rfl
          simp [State.setWorker, WorkerPc.holds] at hv
        show update s.ml w false v = true
        rw [update_of_ne hne]
        refine h.worker v ?_
        simpa [State.setWorker, hne] using hv
      · by_cases hne : i = w
        · subst hne
          simp [State.setWorker, WorkerPc.holds]
        · simpa [State.setWorker, hne] using h.apart i hi
  | _ => exact h.workerAt rfl rfl rfl (by rw [hpc]; rfl)

lemma locked_step {a : Action} (h : Locked s) (hstep : step cfg s a = some s') : Locked s' := by
  have hout : ∀ {pc : MainPc} (i : ℕ), pc.holds = none → pc.holds = some i →
      s.mainPc.holds = some i := fun i hnone hsome => by simp [hnone] at hsome
  cases moves_of_step hstep with
  | control hc => exact h.control hc
  | zero hpc hflag hfd hno => exact h.mainAt rfl rfl fun i hi => by rw [hpc]; exact hi
  | listen hpc hpc' =>
      refine h.mainAt rfl rfl fun i => hout i ?_
      rcases hpc' with rfl | rfl <;> rfl
  | search hpc => exact h.mainAt rfl rfl fun i => hout i rfl
  | acceptFails hpc hno => exact h.mainAt rfl rfl fun i => hout i rfl
  | accepts hpc hno hfd => exact h.mainAt rfl rfl fun i => hout i rfl
  | setFd hpc => exact h.mainAt rfl rfl fun i hi => by rw [hpc]; exact hi
  | setFdNo hpc => exact h.mainAt rfl rfl fun i hi => by rw [hpc]; exact hi
  | setFlag hpc => exact h.mainAt rfl rfl fun i hi => by rw [hpc]; exact hi
  | bump hpc hpc' =>
      refine h.mainAt rfl rfl fun i => hout i ?_
      rcases hpc' with ⟨-, rfl⟩ | ⟨-, rfl⟩ <;> rfl
  | exit hpc => exact h.mainAt rfl rfl fun i => hout i rfl
  | clean hpc hi hfd => exact h.mainAt rfl rfl fun i => hout i rfl
  | worker hw hc => exact h.workerControl hc
  | sends hpc => exact h.workerAt rfl rfl rfl (by rw [hpc]; rfl)
  | clearFlag hpc => exact h.workerAt rfl rfl rfl (by rw [hpc]; rfl)
  | close hpc => exact h.workerAt rfl rfl rfl (by rw [hpc]; rfl)
  | signal ha => exact h.mainAt rfl rfl fun i hi => hi

/-! ## The flag of a cell -/

/-- The cell `main` is writing to. -/
def MainPc.writes : MainPc → Option ℕ
  | .setFd i | .setFdNo i | .setFlag i => some i
  | _ => none

/-- The worker has seen its flag up and has not taken it down. -/
def WorkerPc.serves : WorkerPc → Bool
  | .recv | .send | .inner | .lock | .clearFlag => true
  | _ => false

lemma MainPc.holds_of_writes {pc : MainPc} {i : ℕ} (h : pc.writes = some i) :
    pc.holds = some i := by
  cases pc <;> simp_all [MainPc.writes, MainPc.holds]

/-- The protocol of a cell's flag: up while its worker serves, down while the worker closes
and while `main` writes the cell. -/
structure Flags (s : State) : Prop where
  bit : ∀ i, (s.args i).flag = 0 ∨ (s.args i).flag = 1
  writing : ∀ i, s.mainPc.writes = some i → (s.args i).flag = 0
  serving : ∀ w, (s.worker w).pc.serves = true → (s.args w).flag = 1
  closing : ∀ w, (s.worker w).pc = .close → (s.args w).flag = 0

lemma flags_init : Flags init := by
  refine ⟨?_, ?_, ?_, ?_⟩ <;> simp [init, MainPc.writes, WorkerPc.serves]

/-- `main` goes on without touching a flag. -/
lemma Flags.mainAt (h : Flags s) (hflag : ∀ i, (s'.args i).flag = (s.args i).flag)
    (hworker : s'.worker = s.worker)
    (hpc : ∀ i, s'.mainPc.writes = some i → (s.args i).flag = 0) : Flags s' :=
  ⟨fun i => hflag i ▸ h.bit i, fun i hi => (hflag i).trans (hpc i hi),
    fun w hw => (hflag w).trans (h.serving w (hworker ▸ hw)),
    fun w hw => (hflag w).trans (h.closing w (hworker ▸ hw))⟩

/-- Worker `w` goes on without touching its flag. -/
lemma Flags.workerAt (h : Flags s) {w : ℕ} {k : Worker} (hargs : s'.args = s.args)
    (hmain : s'.mainPc = s.mainPc) (hworker : s'.worker = update s.worker w k)
    (hserves : k.pc.serves = true → (s.args w).flag = 1) (hclose : k.pc ≠ .close) : Flags s' := by
  refine ⟨fun i => hargs ▸ h.bit i, fun i hi => hargs ▸ h.writing i (hmain ▸ hi), fun v hv => ?_,
    fun v hv => ?_⟩
  · rw [hworker, update_apply] at hv
    rw [hargs]
    split at hv
    · rename_i hvw
      exact hvw ▸ hserves hv
    · exact h.serving v hv
  · rw [hworker, update_apply] at hv
    rw [hargs]
    split at hv
    · exact absurd hv hclose
    · exact h.closing v hv

lemma setCell_flag {i : ℕ} {c : Cell} (hc : c.flag = (s.args i).flag) (j : ℕ) :
    ((s.setCell i c).args j).flag = (s.args j).flag := by
  by_cases hj : j = i
  · subst hj
    simp [State.setCell, hc]
  · simp [State.setCell, hj]

lemma Control.writes {ml : ℕ → Bool} {pc : MainPc} {i : ℕ}
    (hc : Control cfg s s.mainPc ml pc) (hi : pc.writes = some i) : (s.args i).flag = 0 := by
  generalize s.mainPc = pc₀ at hc
  cases hc with
  | idle hflag =>
      obtain rfl := Option.some.inj hi
      exact hflag
  | _ => simp [MainPc.writes] at hi

lemma WorkerControl.serves {w : ℕ} {ml : ℕ → Bool} {pc : WorkerPc} (h : Flags s)
    (hc : WorkerControl s w (s.worker w).pc ml pc) :
    (pc.serves = true → (s.args w).flag = 1) ∧ pc ≠ .close := by
  have hold := h.serving w
  generalize (s.worker w).pc = pc₀ at hc hold
  cases hc with
  | called hflag => exact ⟨fun _ => hflag, by simp⟩
  | recv => exact ⟨fun _ => hold rfl, by simp⟩
  | finish => exact ⟨fun _ => hold rfl, by simp⟩
  | lock hml => exact ⟨fun _ => hold rfl, by simp⟩
  | _ => exact ⟨by simp [WorkerPc.serves], by simp⟩

lemma flags_step {a : Action} (hlocked : Locked s) (h : Flags s) (hstep : step cfg s a = some s') :
    Flags s' := by
  have hnone : ∀ {pc : MainPc} (i : ℕ), pc.writes = none → pc.writes = some i →
      (s.args i).flag = 0 := fun i hn hi => by simp [hn] at hi
  cases moves_of_step hstep with
  | control hc => exact h.mainAt (fun _ => rfl) rfl fun i => hc.writes
  | zero hpc hflag hfd hno => exact h.mainAt (fun _ => rfl) rfl fun i => hnone i rfl
  | listen hpc hpc' =>
      refine h.mainAt (fun _ => rfl) rfl fun i => hnone i ?_
      rcases hpc' with rfl | rfl <;> rfl
  | search hpc => exact h.mainAt (fun _ => rfl) rfl fun i => hnone i rfl
  | acceptFails hpc hno => exact h.mainAt (fun _ => rfl) rfl fun i => hnone i rfl
  | accepts hpc hno hfd => exact h.mainAt (fun _ => rfl) rfl fun i => hnone i rfl
  | setFd hpc =>
      exact h.mainAt (setCell_flag rfl) rfl fun i hi => h.writing i (by rw [hpc]; exact hi)
  | setFdNo hpc =>
      exact h.mainAt (setCell_flag rfl) rfl fun i hi => h.writing i (by rw [hpc]; exact hi)
  | @setFlag i hpc =>
      have hdown : (s.args i).flag = 0 := h.writing i (by rw [hpc]; rfl)
      have hout : (s.worker i).pc.holds = false := hlocked.apart i (by rw [hpc]; rfl)
      have hother : ∀ {j}, j ≠ i →
          (((s.setCell i { s.args i with flag := 1 }).args j).flag = (s.args j).flag) :=
        fun hj => by simp [State.setCell, hj]
      refine ⟨fun j => ?_, fun j hj => ?_, fun w hw => ?_, fun w hw => ?_⟩
      · by_cases hj : j = i
        · exact Or.inr (by simp [State.goto, State.record, State.setCell, hj])
        · exact (hother hj).symm ▸ h.bit j
      · simp [State.goto, MainPc.writes] at hj
      · by_cases hj : w = i
        · simp [State.goto, State.record, State.setCell, hj]
        · exact (hother hj).trans (h.serving w hw)
      · have hne : w ≠ i := by
          rintro rfl
          have hclose : (s.worker w).pc = .close := hw
          simp [hclose, WorkerPc.holds] at hout
        exact (hother hne).trans (h.closing w hw)
  | bump hpc hpc' =>
      refine h.mainAt (fun _ => rfl) rfl fun i => hnone i ?_
      rcases hpc' with ⟨-, rfl⟩ | ⟨-, rfl⟩ <;> rfl
  | exit hpc => exact h.mainAt (fun _ => rfl) rfl fun i => hnone i rfl
  | clean hpc hi hfd => exact h.mainAt (fun _ => rfl) rfl fun i => hnone i rfl
  | worker hw hc =>
      obtain ⟨hserves, hclose⟩ := hc.serves h
      exact h.workerAt rfl rfl rfl hserves hclose
  | sends hpc =>
      exact h.workerAt rfl rfl rfl (fun _ => h.serving _ (by rw [hpc]; rfl)) (by simp)
  | @clearFlag w ok hpc =>
      have hother : ∀ {j}, j ≠ w →
          (((s.setCell w { s.args w with flag := 0 }).args j).flag = (s.args j).flag) :=
        fun hj => by simp [State.setCell, hj]
      refine ⟨fun j => ?_, fun j hj => ?_, fun v hv => ?_, fun v hv => ?_⟩
      · by_cases hj : j = w
        · exact Or.inl (by simp [State.setWorker, State.setCell, hj])
        · exact (hother hj).symm ▸ h.bit j
      · by_cases hne : j = w
        · simp [State.setWorker, State.setCell, hne]
        · exact (hother hne).trans (h.writing j hj)
      · have hne : v ≠ w := by
          rintro rfl
          simp [State.setWorker, WorkerPc.serves] at hv
        refine (hother hne).trans (h.serving v ?_)
        simpa [State.setWorker, State.setCell, hne] using hv
      · by_cases hne : v = w
        · simp [State.setWorker, State.setCell, hne]
        · refine (hother hne).trans (h.closing v ?_)
          simpa [State.setWorker, State.setCell, hne] using hv
  | close hpc => exact h.workerAt rfl rfl rfl (by simp [WorkerPc.serves]) (by simp)
  | signal ha => exact h.mainAt (fun _ => rfl) rfl h.writing

/-! ## The books -/

/-- `main` has accepted a client and has not raised a flag for it. -/
def MainPc.carries : MainPc → Bool
  | .findLock _ | .findTest _ | .findUnlock _ | .setFd _ | .setFdNo _ | .setFlag _ => true
  | _ => false

/-- The client `main` carries. -/
def State.pending (s : State) : List ℤ :=
  if s.mainPc.carries then [s.clientsFd s.clientsFdNo] else []

/-- Worker `i` has a client it has not closed. -/
abbrev State.Has (s : State) (i : ℕ) : Prop := (s.args i).flag = 1 ∨ (s.worker i).pc = .close

/-- The client worker `i` has and has not closed. -/
def State.inService (s : State) (i : ℕ) : List ℤ :=
  if s.Has i then [(s.args i).clientFd] else []

/-- It depends on the worker's cell and on where the worker is. -/
lemma inService_congr {i : ℕ} (hcell : s'.args i = s.args i)
    (hpc : (s'.worker i).pc = (s.worker i).pc) : s'.inService i = s.inService i := by
  simp only [State.inService, State.Has, hcell, hpc]

/-- Every client accepted was handed over once, or `main` still carries it; every client
handed to a worker was closed by it, or is the one it has. -/
structure Books (s : State) : Prop where
  once : accepted s.log = (handed s.log).map Prod.snd ++ s.pending
  served : ∀ i, handedTo s.log i = closedBy s.log i ++ s.inService i
  copied : ∀ i, s.mainPc = .setFdNo i ∨ s.mainPc = .setFlag i →
    (s.args i).clientFd = s.clientsFd s.clientsFdNo
  numbered : ∀ i, s.mainPc = .setFlag i → (s.args i).clientFdNo = s.clientsFdNo

lemma books_init : Books init := by
  refine ⟨?_, ?_, ?_, ?_⟩ <;>
    simp [init, accepted, handed, handedTo, closedBy, State.pending, State.inService, State.Has,
      MainPc.carries]

/-- A step that neither accepts, hands over nor closes, and ends nowhere in the writing of a
cell. -/
lemma Books.frame (h : Books s) (hlog : s'.log = s.log) (hpending : s'.pending = s.pending)
    (hservice : ∀ i, s'.inService i = s.inService i)
    (hpc : ∀ i, s'.mainPc ≠ .setFdNo i ∧ s'.mainPc ≠ .setFlag i) : Books s' := by
  refine ⟨by rw [hlog, hpending]; exact h.once, fun i => by rw [hlog, hservice]; exact h.served i,
    fun i hi => ?_, fun i hi => absurd hi (hpc i).2⟩
  rcases hi with hi | hi
  · exact absurd hi (hpc i).1
  · exact absurd hi (hpc i).2

lemma Control.carries {ml : ℕ → Bool} {pc : MainPc} (hc : Control cfg s s.mainPc ml pc)
    (hroom : ∀ i, s.mainPc = .findLock i → i < cfg.startAllocSize) :
    pc.carries = s.mainPc.carries ∧ ∀ i, pc ≠ .setFdNo i ∧ pc ≠ .setFlag i := by
  generalize s.mainPc = pc₀ at hc hroom
  cases hc with
  | findNone hi => exact absurd (hroom _ rfl) hi
  | _ => exact ⟨rfl, by simp⟩

/-- A step of worker `w` that leaves its cell alone and does not go to or from `close`. -/
lemma Books.workerAt (h : Books s) {w : ℕ} {k : Worker} (hargs : s'.args = s.args)
    (hmain : s'.mainPc = s.mainPc) (hentries : s'.clientsFd = s.clientsFd)
    (hno : s'.clientsFdNo = s.clientsFdNo) (hlog : s'.log = s.log)
    (hworker : s'.worker = update s.worker w k)
    (hpc : k.pc ≠ .close ∧ (s.worker w).pc ≠ .close) : Books s' := by
  have hservice : ∀ i, s'.inService i = s.inService i := by
    intro i
    unfold State.inService State.Has
    rw [hargs, hworker, update_apply]
    split
    · rename_i hi
      rw [hi]
      simp [hpc]
    · rfl
  have hpending : s'.pending = s.pending := by
    unfold State.pending
    rw [hmain, hentries, hno]
  exact ⟨by rw [hlog, hpending]; exact h.once, fun i => by rw [hlog, hservice]; exact h.served i,
    fun i hi => by rw [hargs, hentries, hno]; exact h.copied i (hmain ▸ hi),
    fun i hi => by rw [hargs, hno]; exact h.numbered i (hmain ▸ hi)⟩

lemma WorkerControl.notClose {w : ℕ} {ml : ℕ → Bool} {pc₀ pc : WorkerPc}
    (hc : WorkerControl s w pc₀ ml pc) : pc ≠ .close ∧ pc₀ ≠ .close := by
  cases hc <;> simp

/-- While `main` writes a cell, its worker has no client. -/
lemma not_has_of_writes (hlocked : Locked s) (hflags : Flags s) {i : ℕ}
    (hi : s.mainPc.writes = some i) : ¬ s.Has i := by
  rintro (hup | hclose)
  · simp [hflags.writing i hi] at hup
  · have hout := hlocked.apart i (MainPc.holds_of_writes hi)
    simp [hclose, WorkerPc.holds] at hout

/-- Writing a cell without touching its flag gives no worker a client, and takes none. -/
lemma setCell_has {i : ℕ} {c : Cell} (hc : c.flag = (s.args i).flag) (k : ℕ) :
    (s.setCell i c).Has k ↔ s.Has k := by
  rw [State.Has, setCell_flag hc, State.setCell_worker]

/-- Writing a cell without touching its flag leaves each worker the client it has. -/
lemma inService_setCell {i j : ℕ} {c : Cell} {pc : MainPc} (hflag : c.flag = (s.args i).flag)
    (hfd : s.Has i → c.clientFd = (s.args i).clientFd) :
    ((s.setCell i c).goto pc).inService j = s.inService j := by
  by_cases hj : j = i
  · subst hj
    have hhas : ((s.setCell j c).goto pc).Has j ↔ s.Has j := setCell_has hflag j
    unfold State.inService
    by_cases hidle : s.Has j
    · rw [if_pos (hhas.mpr hidle), if_pos hidle]
      simp [hfd hidle]
    · rw [if_neg (mt hhas.mp hidle), if_neg hidle]
  · apply inService_congr
    · simp [hj]
    · rfl

lemma Books.setFd (h : Books s) (hlocked : Locked s) (hflags : Flags s) {i : ℕ}
    (hpc : s.mainPc = .setFd i) :
    Books ((s.setCell i { s.args i with clientFd := s.clientsFd s.clientsFdNo }).goto
      (.setFdNo i)) := by
  have hi : s.mainPc.writes = some i := by rw [hpc]; rfl
  have hidle := not_has_of_writes hlocked hflags hi
  refine ⟨?_, fun j => ?_, fun j hj => ?_, fun j hj => ?_⟩
  · simpa [State.pending, hpc, MainPc.carries] using h.once
  · rw [State.goto_log, State.setCell_log, h.served j]
    congr 1
    symm
    apply inService_setCell
    · rfl
    · exact fun hhas => absurd hhas hidle
  · obtain rfl : i = j := by simpa using hj
    simp
  · simp at hj

lemma Books.setFdNo (h : Books s) {i : ℕ} (hpc : s.mainPc = .setFdNo i) :
    Books ((s.setCell i { s.args i with clientFdNo := s.clientsFdNo }).goto (.setFlag i)) := by
  refine ⟨?_, fun j => ?_, fun j hj => ?_, fun j hj => ?_⟩
  · simpa [State.pending, hpc, MainPc.carries] using h.once
  · rw [State.goto_log, State.setCell_log, h.served j]
    congr 1
    symm
    apply inService_setCell
    · rfl
    · exact fun _ => rfl
  · obtain rfl : i = j := by simpa using hj
    simpa using h.copied i (Or.inl hpc)
  · obtain rfl : i = j := by simpa using hj
    simp

/-- The flag goes up: the client `main` carries becomes the worker's. -/
lemma Books.setFlag (h : Books s) (hlocked : Locked s) (hflags : Flags s) {i : ℕ}
    (hpc : s.mainPc = .setFlag i) :
    Books (((s.setCell i { s.args i with flag := 1 }).record
      (.hand i (s.args i).clientFd)).goto (.foundUnlock i)) := by
  have hidle := not_has_of_writes hlocked hflags (i := i) (by rw [hpc]; rfl)
  refine ⟨?_, fun j => ?_, fun j hj => ?_, fun j hj => ?_⟩
  · have hcarries : s.mainPc.carries = true := by rw [hpc]; rfl
    have honce := h.once
    rw [State.pending, if_pos hcarries, ← h.copied i (Or.inr hpc)] at honce
    simp [State.pending, MainPc.carries, honce]
  · simp only [State.goto_log, State.record_log, State.setCell_log, handedTo_concat,
      closedBy_append]
    rw [h.served j]
    by_cases hj : i = j
    · subst hj
      rw [State.inService, if_neg hidle]
      simp [State.inService, State.Has]
    · simp [State.inService, State.Has, hj, Ne.symm hj]
  · simp at hj
  · simp at hj

/-- The flag goes down: the client is still the worker's until it is closed. -/
lemma Books.clearFlag (h : Books s) (hflags : Flags s) {w : ℕ}
    (hpc : (s.worker w).pc = .clearFlag) :
    Books ((s.setCell w { s.args w with flag := 0 }).setWorker w
      { s.worker w with pc := .close }) := by
  have hup : (s.args w).flag = 1 := hflags.serving w (by rw [hpc]; rfl)
  have hcell : ∀ j, (update s.args w { s.args w with flag := 0 } j).clientFd = (s.args j).clientFd ∧
      (update s.args w { s.args w with flag := 0 } j).clientFdNo = (s.args j).clientFdNo := by
    intro j
    by_cases hj : j = w
    · subst hj
      simp
    · simp [hj]
  refine ⟨h.once, fun j => ?_, fun j hj => (hcell j).1.trans (h.copied j hj),
    fun j hj => (hcell j).2.trans (h.numbered j hj)⟩
  rw [State.setWorker_log, State.setCell_log, h.served j]
  congr 1
  by_cases hj : j = w
  · subst hj
    simp [State.inService, State.Has, hup]
  · symm
    apply inService_congr <;> simp [hj]

/-- The worker closes what it was handed. -/
lemma Books.close (h : Books s) (hflags : Flags s) {w : ℕ} (hpc : (s.worker w).pc = .close) :
    Books ((s.closeFd (some w) (s.args w).clientFd).setWorker w
      { s.worker w with pc := .unlock }) := by
  refine ⟨?_, fun j => ?_, fun j hj => h.copied j hj, fun j hj => h.numbered j hj⟩
  · simpa [State.pending] using h.once
  · simp only [State.setWorker_log, State.closeFd_log, handedTo_concat, closedBy_append]
    rw [h.served j]
    by_cases hj : w = j
    · subst hj
      simp [State.inService, State.Has, hpc, hflags.closing w hpc]
    · simp [State.inService, State.Has, hj, Ne.symm hj]

theorem books_step {a : Action} (hlocked : Locked s) (hflags : Flags s)
    (hroom : ∀ i, s.mainPc = .findLock i → i < cfg.startAllocSize) (h : Books s)
    (hstep : step cfg s a = some s') : Books s' := by
  have hempty : ∀ {pc : MainPc}, s.mainPc = pc → pc.carries = false → s.pending = [] :=
    fun hpc hno => by simp [State.pending, hpc, hno]
  cases moves_of_step hstep with
  | control hc =>
      obtain ⟨hcarries, hpc⟩ := hc.carries hroom
      exact h.frame rfl (by simp [State.pending, hcarries]) (fun _ => rfl) hpc
  | zero hpc hflag hfd hno =>
      exact h.frame rfl (hempty hpc rfl).symm (fun _ => rfl) (by simp)
  | @listen ok pc hpc hpc' =>
      have hno : pc.carries = false ∧ ∀ i, pc ≠ .setFdNo i ∧ pc ≠ .setFlag i := by
        rcases hpc' with rfl | rfl <;> simp [MainPc.carries]
      exact h.frame rfl ((hempty hpc rfl).symm ▸ by simp [State.pending, hno.1])
        (fun _ => rfl) hno.2
  | search hpc =>
      exact h.frame rfl (hempty hpc rfl).symm (fun _ => rfl) (by simp)
  | acceptFails hpc hno =>
      exact h.frame rfl (hempty hpc rfl).symm (fun _ => rfl) (by simp)
  | accepts hpc hno hfd =>
      refine ⟨?_, fun i => ?_, by simp, by simp⟩
      · have honce := h.once
        rw [hempty hpc rfl, List.append_nil] at honce
        simp [State.pending, MainPc.carries, honce]
      · simpa [State.inService, State.Has] using h.served i
  | setFd hpc => exact h.setFd hlocked hflags hpc
  | setFdNo hpc => exact h.setFdNo hpc
  | setFlag hpc => exact h.setFlag hlocked hflags hpc
  | @bump pc hpc hpc' =>
      have hno : pc.carries = false ∧ ∀ i, pc ≠ .setFdNo i ∧ pc ≠ .setFlag i := by
        rcases hpc' with ⟨-, rfl⟩ | ⟨-, rfl⟩ <;> simp [MainPc.carries]
      exact h.frame rfl ((hempty hpc rfl).symm ▸ by simp [State.pending, hno.1])
        (fun _ => rfl) hno.2
  | exit hpc => exact h.frame rfl (hempty hpc rfl).symm (fun _ => rfl) (by simp)
  | clean hpc hi hfd =>
      refine ⟨?_, fun j => ?_, by simp, by simp⟩
      · have honce := h.once
        rw [hempty hpc rfl] at honce
        simpa [State.pending, MainPc.carries] using honce
      · simpa [State.inService, State.Has] using h.served j
  | worker hw hc => exact h.workerAt rfl rfl rfl rfl rfl rfl hc.notClose
  | sends hpc => exact h.workerAt rfl rfl rfl rfl rfl rfl (by simp [hpc])
  | clearFlag hpc => exact h.clearFlag hflags hpc
  | close hpc => exact h.close hflags hpc
  | signal ha => exact ⟨h.once, h.served, h.copied, h.numbered⟩

/-! ## There is always an idle worker -/

/-- `main` has not left its loop. -/
def MainPc.inLoop : MainPc → Bool
  | .exit | .join _ | .joinShutdown | .cleanup _ | .ended => false
  | _ => true

/-- The hand-overs of this turn that `count` does not count yet. -/
def MainPc.slack : MainPc → ℕ
  | .foundUnlock _ | .bump => 1
  | _ => 0

/-- How many cells the search for a worker has found busy. -/
def MainPc.tried : MainPc → Option ℕ
  | .findLock i | .findTest i => some i
  | .findUnlock i => some (i + 1)
  | _ => none

/-- The turns bound the hand-overs, and the cells found busy have been handed a client. -/
structure Room (cfg : Config) (s : State) : Prop where
  inLoop : s.mainPc.inLoop = true → s.count < cfg.startAllocSize
  turns : (handed s.log).length ≤ s.count + s.mainPc.slack
  tried : ∀ i, s.mainPc.tried = some i → ∀ j < i, j ∈ (handed s.log).map Prod.fst

/-- **The search for an idle worker does not come to its end**: there are fewer hand-overs
than workers. -/
theorem Room.no_full_pool (h : Room cfg s) {i : ℕ} (hpc : s.mainPc = .findLock i) :
    i < cfg.startAllocSize := by
  have hloop : s.count < cfg.startAllocSize := h.inLoop (by rw [hpc]; rfl)
  have hturns : (handed s.log).length ≤ s.count := by
    simpa [hpc, MainPc.slack] using h.turns
  have hsub : List.range i ⊆ (handed s.log).map Prod.fst :=
    fun j hj => h.tried i (by rw [hpc]; rfl) j (List.mem_range.mp hj)
  have hlen := (List.nodup_range.subperm hsub).length_le
  rw [List.length_range, List.length_map] at hlen
  omega

lemma room_init : Room cfg init := by
  refine ⟨fun _ => cfg.size_pos, ?_, ?_⟩ <;> simp [init, handed, MainPc.tried]

/-- A worker that has a client has been handed one. -/
lemma Books.handed_of_has (h : Books s) {i : ℕ} (hhas : s.Has i) :
    i ∈ (handed s.log).map Prod.fst := by
  have hmem : (s.args i).clientFd ∈ handedTo s.log i := by
    rw [h.served i, State.inService, if_pos hhas]
    simp
  obtain ⟨p, hp, -⟩ := List.mem_map.mp hmem
  obtain ⟨hp, hi⟩ := List.mem_filter.mp hp
  exact List.mem_map.mpr ⟨p, hp, of_decide_eq_true hi⟩

/-- A step that hands nothing over, and before or after the search for a worker. -/
lemma Room.frame (h : Room cfg s) (hlog : handed s'.log = handed s.log)
    (hcount : s'.count = s.count) (hloop : s'.mainPc.inLoop = true → s.mainPc.inLoop = true)
    (hslack : s.mainPc.slack ≤ s'.mainPc.slack)
    (htried : ∀ i, s'.mainPc.tried = some i → ∀ j < i, j ∈ (handed s.log).map Prod.fst) :
    Room cfg s' := by
  refine ⟨fun hl => hcount ▸ h.inLoop (hloop hl), ?_, fun i hi => hlog ▸ htried i hi⟩
  rw [hlog, hcount]
  exact h.turns.trans (Nat.add_le_add_left hslack _)

lemma Room.control {ml : ℕ → Bool} {pc : MainPc} (h : Room cfg s) (hflags : Flags s)
    (hbooks : Books s) (hc : Control cfg s s.mainPc ml pc) :
    Room cfg ({ s with ml := ml }.goto pc) := by
  have hframe : (pc.inLoop = true → s.mainPc.inLoop = true) → s.mainPc.slack ≤ pc.slack →
      (∀ i, pc.tried = some i → ∀ j < i, j ∈ (handed s.log).map Prod.fst) →
      Room cfg ({ s with ml := ml }.goto pc) :=
    fun hloop hslack htried => h.frame rfl rfl hloop hslack htried
  have htried := h.tried
  generalize s.mainPc = pc₀ at hc htried hframe
  cases hc with
  | findLock hi hml => exact hframe (fun _ => rfl) le_rfl htried
  | findUnlock => exact hframe (fun _ => rfl) le_rfl htried
  | @busy i hflag =>
      refine hframe (fun _ => rfl) le_rfl fun k hk j hj => ?_
      obtain rfl := Option.some.inj hk
      rcases Nat.lt_succ_iff_lt_or_eq.mp hj with hj | rfl
      · exact htried i rfl j hj
      · exact hbooks.handed_of_has (Or.inl ((hflags.bit j).resolve_left hflag))
  | _ => exact hframe (by simp [MainPc.inLoop]) (by simp [MainPc.slack]) (by simp [MainPc.tried])

lemma room_step {a : Action} (hflags : Flags s) (hbooks : Books s) (h : Room cfg s)
    (hstep : step cfg s a = some s') : Room cfg s' := by
  cases moves_of_step hstep with
  | control hc => exact h.control hflags hbooks hc
  | zero hpc hflag hfd hno =>
      exact h.frame rfl rfl (by simp [hpc, MainPc.inLoop]) (by simp [hpc, MainPc.slack])
        (by simp [MainPc.tried])
  | listen hpc hpc' =>
      refine h.frame rfl rfl (by simp [hpc, MainPc.inLoop]) (by simp [hpc, MainPc.slack]) ?_
      rcases hpc' with rfl | rfl <;> simp [MainPc.tried]
  | search hpc =>
      exact h.frame rfl rfl (by simp [hpc, MainPc.inLoop]) (by simp [hpc, MainPc.slack])
        (by simp [MainPc.tried])
  | acceptFails hpc hno =>
      exact h.frame rfl rfl (by simp [hpc, MainPc.inLoop]) (by simp [hpc, MainPc.slack])
        (by simp [MainPc.tried])
  | accepts hpc hno hfd =>
      exact h.frame (by simp) rfl (by simp [hpc, MainPc.inLoop]) (by simp [hpc, MainPc.slack])
        (by simp [MainPc.tried])
  | setFd hpc =>
      exact h.frame rfl rfl (by simp [hpc, MainPc.inLoop]) (by simp [hpc, MainPc.slack])
        (by simp [MainPc.tried])
  | setFdNo hpc =>
      exact h.frame rfl rfl (by simp [hpc, MainPc.inLoop]) (by simp [hpc, MainPc.slack])
        (by simp [MainPc.tried])
  | setFlag hpc =>
      refine ⟨fun _ => h.inLoop (by rw [hpc]; rfl), ?_, by simp [MainPc.tried]⟩
      have hturns : (handed s.log).length ≤ s.count := by simpa [hpc, MainPc.slack] using h.turns
      simpa [MainPc.slack] using hturns
  | bump hpc hpc' =>
      have hloop : s.count < cfg.startAllocSize := h.inLoop (by rw [hpc]; rfl)
      have hturns : (handed s.log).length ≤ s.count + 1 := by
        simpa [hpc, MainPc.slack] using h.turns
      rcases hpc' with ⟨hlast, rfl⟩ | ⟨hlast, rfl⟩
      · exact ⟨by simp [MainPc.inLoop], hturns, by simp [MainPc.tried]⟩
      · exact ⟨fun _ => by simp; omega, hturns, by simp [MainPc.tried]⟩
  | exit hpc =>
      exact h.frame rfl rfl (by simp [MainPc.inLoop]) (by simp [hpc, MainPc.slack])
        (by simp [MainPc.tried])
  | clean hpc hi hfd =>
      exact h.frame (by simp) rfl (by simp [MainPc.inLoop]) (by simp [hpc, MainPc.slack])
        (by simp [MainPc.tried])
  | worker hw hc => exact ⟨h.inLoop, h.turns, h.tried⟩
  | sends hpc => exact ⟨h.inLoop, h.turns, h.tried⟩
  | clearFlag hpc => exact ⟨h.inLoop, h.turns, h.tried⟩
  | close hpc => exact h.frame (by simp) rfl id le_rfl h.tried
  | signal ha => exact ⟨h.inLoop, h.turns, h.tried⟩

/-! ## The cells are the pool's -/

/-- `main` works on cells of the pool only, and so hands clients over to its workers. -/
structure Inside (cfg : Config) (s : State) : Prop where
  cell : ∀ i, s.mainPc.holds = some i → i < cfg.startAllocSize
  handed : ∀ p ∈ handed s.log, p.1 < cfg.startAllocSize

lemma inside_init : Inside cfg init := by
  refine ⟨?_, ?_⟩ <;> simp [init, MainPc.holds, ThreadPool.handed]

/-- A step that hands nothing over and goes to no other cell. -/
lemma Inside.frame (h : Inside cfg s) (hlog : ThreadPool.handed s'.log = ThreadPool.handed s.log)
    (hholds : ∀ i, s'.mainPc.holds = some i → s.mainPc.holds = some i) : Inside cfg s' :=
  ⟨fun i hi => h.cell i (hholds i hi), fun p hp => h.handed p (hlog ▸ hp)⟩

lemma Inside.control {ml : ℕ → Bool} {pc : MainPc} (h : Inside cfg s)
    (hc : Control cfg s s.mainPc ml pc) : Inside cfg ({ s with ml := ml }.goto pc) := by
  generalize hpc : s.mainPc = pc₀ at hc
  cases hc with
  | scanLock hi hml =>
      exact ⟨fun j hj => by obtain rfl := Option.some.inj hj; exact hi, h.handed⟩
  | findLock hi hml =>
      exact ⟨fun j hj => by obtain rfl := Option.some.inj hj; exact hi, h.handed⟩
  | scanUnlock | foundUnlock | findUnlock => exact h.frame rfl (by simp [MainPc.holds])
  | _ => exact h.frame rfl fun i hi => by rw [hpc]; exact hi

lemma inside_step {a : Action} (h : Inside cfg s) (hstep : step cfg s a = some s') :
    Inside cfg s' := by
  cases moves_of_step hstep with
  | control hc => exact h.control hc
  | zero hpc hflag hfd hno => exact h.frame rfl fun i hi => by rw [hpc]; exact hi
  | listen hpc hpc' =>
      refine h.frame rfl ?_
      rcases hpc' with rfl | rfl <;> simp [MainPc.holds]
  | search hpc => exact h.frame rfl (by simp [MainPc.holds])
  | acceptFails hpc hno => exact h.frame rfl (by simp [MainPc.holds])
  | accepts hpc hno hfd => exact h.frame (by simp) (by simp [MainPc.holds])
  | setFd hpc => exact h.frame rfl fun i hi => by rw [hpc]; exact hi
  | setFdNo hpc => exact h.frame rfl fun i hi => by rw [hpc]; exact hi
  | setFlag hpc =>
      refine ⟨fun i hi => h.cell i (by rw [hpc]; exact hi), fun p hp => ?_⟩
      rw [State.goto_log, State.record_log, State.setCell_log, handed_append] at hp
      rcases List.mem_append.mp hp with hp | hp
      · exact h.handed p hp
      · obtain rfl := List.mem_singleton.mp hp
        exact h.cell _ (by rw [hpc]; rfl)
  | bump hpc hpc' =>
      refine h.frame rfl ?_
      rcases hpc' with ⟨-, rfl⟩ | ⟨-, rfl⟩ <;> simp [MainPc.holds]
  | exit hpc => exact h.frame rfl (by simp [MainPc.holds])
  | clean hpc hi hfd => exact h.frame (by simp) (by simp [MainPc.holds])
  | worker hw hc => exact ⟨h.cell, h.handed⟩
  | sends hpc => exact ⟨h.cell, h.handed⟩
  | clearFlag hpc => exact ⟨h.cell, h.handed⟩
  | close hpc => exact h.frame (by simp) fun i hi => hi
  | signal ha => exact ⟨h.cell, h.handed⟩

/-! ## The hand-over -/

/-- What every run keeps. -/
structure Kept (cfg : Config) (s : State) : Prop where
  locked : Locked s
  flags : Flags s
  books : Books s
  room : Room cfg s
  inside : Inside cfg s

theorem kept_of_reach {ok : State → Action → Prop} (h : Reach (step cfg) ok init s) :
    Kept cfg s := by
  refine h.invariant ⟨locked_init, flags_init, books_init, room_init, inside_init⟩
    fun u a v hu _ hstep => ⟨locked_step hu.locked hstep, flags_step hu.locked hu.flags hstep, ?_,
      room_step hu.flags hu.books hu.room hstep, inside_step hu.inside hstep⟩
  exact books_step hu.locked hu.flags (fun _ => hu.room.no_full_pool) hu.books hstep

/-- A cell whose flag is up changes in one way only: its worker takes the flag down. -/
lemma Flags.cell_kept (h : Flags s) {a : Action} (hstep : step cfg s a = some s') {i : ℕ}
    (hflag : (s.args i).flag = 1) : s'.args i = s.args i ∨
      (∃ ok, a = .worker i ok) ∧ s'.args i = { s.args i with flag := 0 } := by
  have hwrite : ∀ {j : ℕ} (c : Cell), s.mainPc.writes = some j →
      update s.args j c i = s.args i := by
    intro j c hj
    refine update_of_ne ?_ _ _
    rintro rfl
    simp [h.writing i hj] at hflag
  cases moves_of_step hstep with
  | setFd hpc => exact Or.inl (hwrite _ (by rw [hpc]; rfl))
  | setFdNo hpc => exact Or.inl (hwrite _ (by rw [hpc]; rfl))
  | setFlag hpc => exact Or.inl (hwrite _ (by rw [hpc]; rfl))
  | @clearFlag w ok hpc =>
      by_cases hi : i = w
      · subst hi
        exact Or.inr ⟨⟨ok, rfl⟩, by simp⟩
      · exact Or.inl (by simp [hi])
  | _ => exact Or.inl rfl

/-- The hand-over of clients in a state of a run: every accepted descriptor has been handed to
exactly one worker of the pool, or `main` carries it; `main` writes only cells whose flag is
down; a cell whose flag is up is not written until its worker has taken the flag down; and what
a worker closes is what it was handed, hand-over by hand-over. -/
structure HandsOver (cfg : Config) (s : State) : Prop where
  once : accepted s.log = (handed s.log).map Prod.snd ++ s.pending
  worker : ∀ p ∈ handed s.log, p.1 < cfg.startAllocSize
  idle : ∀ i, s.mainPc.writes = some i → (s.args i).flag = 0
  kept : ∀ a s' i, step cfg s a = some s' → (s.args i).flag = 1 → s'.args i = s.args i ∨
    (∃ ok, a = .worker i ok) ∧ s'.args i = { s.args i with flag := 0 }
  closes : ∀ i, handedTo s.log i = closedBy s.log i ++ s.inService i

/-- **The hand-over is sound** in every state of every run, for every size of the pool, under
any schedule and any failures of `listen`, `accept` and `send`. -/
theorem handOff_of_reach (h : Reach (step cfg) Anything init s) : HandsOver cfg s := by
  have hkept := kept_of_reach h
  exact ⟨hkept.books.once, hkept.inside.handed, hkept.flags.writing,
    fun _ _ _ hstep => hkept.flags.cell_kept hstep, hkept.books.served⟩

/-- A turn of `main` up to its end: the scan of the cells, `listen`, `accept` and the hand-over
to the first worker. -/
def clientTurn (size fd : ℕ) : List Action :=
  List.replicate (3 * size + 2) .main ++ [.listen true, .main, .accept (some fd)] ++
    List.replicate 6 .main

/-- A worker serves a client. -/
def serve (w : ℕ) : List Action := List.replicate 9 (.worker w true)

/-- The worker has served its client. -/
theorem handOff_of_reach_first_client : ∃ s,
    exec (step ⟨1, Nat.one_pos, fun _ => true⟩) init
      (clientTurn 1 4 ++ serve 0) = some s ∧
    closedBy s.log 0 = [4] ∧ HandsOver ⟨1, Nat.one_pos, fun _ => true⟩ s := by
  obtain ⟨s, hs, hclosed⟩ : ∃ s, exec (step ⟨1, Nat.one_pos, fun _ => true⟩) init
      (clientTurn 1 4 ++ serve 0) = some s ∧ closedBy s.log 0 = [4] :=
    ⟨_, rfl, by decide⟩
  exact ⟨s, hs, hclosed, handOff_of_reach (Reach.of_exec hs)⟩

end ThreadPool
end EltSummer
