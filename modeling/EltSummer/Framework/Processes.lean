import EltSummer.Framework.Interleaving
import EltSummer.Framework.RangeSum
import Mathlib.Algebra.BigOperators.Group.List.Basic
import Mathlib.Logic.Function.Basic

/-!
# Processes that fork and wait

`fork` makes a process that goes on with a copy of the variables, `waitpid` waits until a child
has exited, and `exit` leaves behind a process that is still to be waited for.  `Code` is a
program of these, without loops, and a `System` the processes it has become: any of them may go
on next, and whether a `fork` succeeds is part of the action.

A process whose parent has exited is an orphan, and `getppid` no longer tells where it comes
from.  Whether there can be one is seen from the code: it is `tidy` if every process waits for
the children it has before it exits.  Then, whatever the order of the steps,

* no process is left by its parent (`noOrphans_of_tidy`);
* some process can go on as long as there is one, and all of them come to their end after no
  more steps than the code is long (`exists_step`, `length_le_of_exec`);
* and if no `fork` fails, exactly the lines of the code have been printed, each by the process
  it belongs to and with its parent (`printed_of_exec`).
-/

namespace Processes

open Interleaving Function Finset RangeSum

/-- What a process still has to do.  `ret` names the variable with the result of `fork`. -/
inductive Code (β : Type*)
  | exit
  | say (line : β) (next : Code β)
  | fork (ret : ℕ) (child parent failed : Code β)
  | waitpid (ret : ℕ) (next : Code β)
  deriving DecidableEq

/-- A process that runs, one that has exited, and one that has been waited for. -/
inductive Status (β : Type*)
  | running (code : Code β)
  | zombie
  | reaped
  deriving DecidableEq

/-- A process.  `path` is a ghost: the forks it comes from. -/
structure Process (β : Type*) where
  parent : Option ℕ
  ret : ℕ → ℕ
  status : Status β
  path : List ℕ

/-- A line, and what `getppid` and `getpid` say when it is printed, with the ghost of the process
that prints it. -/
structure Line (β : Type*) where
  text : β
  ppid : Option ℕ
  pid : ℕ
  path : List ℕ
  deriving DecidableEq

/-- The processes made so far, and what they have printed. -/
structure System (β : Type*) where
  count : ℕ
  proc : ℕ → Process β
  printed : List (Line β)

variable {β : Type*}

/-- The first process, which has been made by something else. -/
def boot (code : Code β) : System β where
  count := 1
  proc p := ⟨none, fun _ => 0, if p = 0 then .running code else .reaped, []⟩
  printed := []

/-- A process takes a step.  `ok` is read by `fork` only. -/
structure Action where
  pid : ℕ
  ok : Bool
  deriving DecidableEq, Repr

def System.setStatus (s : System β) (p : ℕ) (status : Status β) : System β :=
  { s with proc := update s.proc p { s.proc p with status := status } }

def Status.isRunning : Status β → Bool
  | .running _ => true
  | _ => false

/-- The parent, as long as it has not exited. -/
def System.getppid (s : System β) (p : ℕ) : Option ℕ :=
  (s.proc p).parent.filter fun q => (s.proc q).status.isRunning

/-- `fork` in process `p`. -/
def System.fork (s : System β) (p ret : ℕ) (child parent : Code β) : System β where
  count := s.count + 1
  proc := update
    (update s.proc s.count ⟨some p, (s.proc p).ret, .running child, (s.proc p).path ++ [ret]⟩) p
    { s.proc p with ret := update (s.proc p).ret ret s.count, status := .running parent }
  printed := s.printed

/-- `waitpid (q, 0, 0)` in process `p`: it waits for a child that runs, and returns at once if
`q` is no child or has been waited for. -/
def System.waitpid (s : System β) (p q : ℕ) (next : Code β) : Option (System β) :=
  if (s.proc q).parent = some p then
    match (s.proc q).status with
    | .running _ => none
    | .zombie => some ((s.setStatus q .reaped).setStatus p (.running next))
    | .reaped => some (s.setStatus p (.running next))
  else some (s.setStatus p (.running next))

/-- The next step of a process. -/
def step (s : System β) (a : Action) : Option (System β) :=
  match (s.proc a.pid).status with
  | .running .exit => some (s.setStatus a.pid .zombie)
  | .running (.say line next) =>
      some { s.setStatus a.pid (.running next) with
        printed := s.printed ++ [⟨line, s.getppid a.pid, a.pid, (s.proc a.pid).path⟩] }
  | .running (.fork ret child parent failed) =>
      some (if a.ok then s.fork a.pid ret child parent else s.setStatus a.pid (.running failed))
  | .running (.waitpid ret next) => s.waitpid a.pid ((s.proc a.pid).ret ret) next
  | _ => none

/-- Only the forks of `mayFail` fail. -/
def Fails (mayFail : ℕ → Bool) (s : System β) (a : Action) : Prop :=
  a.ok = false → ∀ ret child parent failed,
    (s.proc a.pid).status = .running (.fork ret child parent failed) → mayFail ret = true

/-- A process has exited, or its parent has not. -/
def NoOrphans (s : System β) : Prop :=
  ∀ p q, (s.proc q).parent = some p → (s.proc q).status ≠ .reaped →
    (s.proc p).status.isRunning = true

/-- Every process waits for its children before it exits.  `held` are the variables with
children that have not been waited for. -/
def tidy (mayFail : ℕ → Bool) (held : List ℕ) : Code β → Bool
  | .exit => held.isEmpty
  | .say _ next => tidy mayFail held next
  | .fork ret child parent failed =>
      !held.contains ret && tidy mayFail [] child && tidy mayFail (ret :: held) parent &&
        (!mayFail ret || tidy mayFail held failed)
  | .waitpid ret next => tidy mayFail (held.erase ret) next

/-! ## One step -/

variable {s s' : System β} {a : Action} {p q : ℕ} {mayFail : ℕ → Bool}

@[simp] lemma setStatus_count (s : System β) (p : ℕ) (status : Status β) :
    (s.setStatus p status).count = s.count := rfl

@[simp] lemma setStatus_parent (s : System β) (p q : ℕ) (status : Status β) :
    ((s.setStatus p status).proc q).parent = (s.proc q).parent := by
  simp only [System.setStatus, update_apply]
  split
  · rename_i heq
    rw [heq]
  · rfl

@[simp] lemma setStatus_ret (s : System β) (p q : ℕ) (status : Status β) :
    ((s.setStatus p status).proc q).ret = (s.proc q).ret := by
  simp only [System.setStatus, update_apply]
  split
  · rename_i heq
    rw [heq]
  · rfl

@[simp] lemma setStatus_path (s : System β) (p q : ℕ) (status : Status β) :
    ((s.setStatus p status).proc q).path = (s.proc q).path := by
  simp only [System.setStatus, update_apply]
  split
  · rename_i heq
    rw [heq]
  · rfl

lemma setStatus_status (s : System β) (p q : ℕ) (status : Status β) :
    ((s.setStatus p status).proc q).status = if q = p then status else (s.proc q).status := by
  simp only [System.setStatus, update_apply]
  split
  · rfl
  · rfl

/-- What a process can do. -/
inductive Moves (s : System β) (a : Action) : System β → Prop
  | exits (h : (s.proc a.pid).status = .running .exit) : Moves s a (s.setStatus a.pid .zombie)
  | prints {line next} (h : (s.proc a.pid).status = .running (.say line next)) :
      Moves s a { s.setStatus a.pid (.running next) with
        printed := s.printed ++ [⟨line, s.getppid a.pid, a.pid, (s.proc a.pid).path⟩] }
  | forks {ret child parent failed}
      (h : (s.proc a.pid).status = .running (.fork ret child parent failed)) :
      Moves s a (s.fork a.pid ret child parent)
  | fails {ret child parent failed}
      (h : (s.proc a.pid).status = .running (.fork ret child parent failed)) (hok : a.ok = false) :
      Moves s a (s.setStatus a.pid (.running failed))
  | reaps {ret next} (h : (s.proc a.pid).status = .running (.waitpid ret next))
      (hchild : (s.proc ((s.proc a.pid).ret ret)).parent = some a.pid)
      (hzombie : (s.proc ((s.proc a.pid).ret ret)).status = .zombie) :
      Moves s a
        ((s.setStatus ((s.proc a.pid).ret ret) .reaped).setStatus a.pid (.running next))
  | passes {ret next} (h : (s.proc a.pid).status = .running (.waitpid ret next))
      (hgone : (s.proc ((s.proc a.pid).ret ret)).parent = some a.pid →
        (s.proc ((s.proc a.pid).ret ret)).status = .reaped) :
      Moves s a (s.setStatus a.pid (.running next))

lemma moves_of_step (h : step s a = some s') : Moves s a s' := by
  unfold step at h
  split at h
  · rename_i hcode
    obtain rfl := Option.some.inj h
    exact .exits hcode
  · rename_i hcode
    obtain rfl := Option.some.inj h
    exact .prints hcode
  · rename_i hcode
    obtain rfl := Option.some.inj h
    cases hok : a.ok with
    | true => exact .forks hcode
    | false => exact .fails hcode hok
  · rename_i hcode
    unfold System.waitpid at h
    split at h
    · rename_i hchild
      split at h
      · cases h
      · rename_i hzombie
        obtain rfl := Option.some.inj h
        exact .reaps hcode hchild hzombie
      · rename_i hreaped
        obtain rfl := Option.some.inj h
        exact .passes hcode fun _ => hreaped
    · rename_i hother
      obtain rfl := Option.some.inj h
      exact .passes hcode fun hchild => absurd hchild hother
  · cases h

/-! ## Processes are made one after the other -/

/-- There are `count` of them, and a child is younger than its parent. -/
structure Formed (s : System β) : Prop where
  absent : ∀ q, s.count ≤ q → (s.proc q).status = .reaped ∧ (s.proc q).parent = none
  later : ∀ p q, (s.proc q).parent = some p → p < q

lemma formed_boot (code : Code β) : Formed (boot code) where
  absent q hq := by
    have hne : q ≠ 0 := by
      simp only [boot] at hq
      omega
    exact ⟨if_neg hne, rfl⟩
  later p q hpq := by cases hpq

lemma Formed.lt_count (h : Formed s) (hp : (s.proc p).status ≠ .reaped) : p < s.count := by
  by_contra hle
  exact hp (h.absent p (not_lt.mp hle)).1

/-- Nothing can go on when the processes made so far have come to their ends. -/
lemma Formed.step_eq_none (h : Formed s)
    (hend : ∀ p < s.count, (s.proc p).status.isRunning = false) (a : Action) : step s a = none := by
  have hstopped : (s.proc a.pid).status.isRunning = false := by
    by_cases hp : a.pid < s.count
    · exact hend a.pid hp
    · rw [(h.absent a.pid (not_lt.mp hp)).1]
      rfl
  unfold step
  cases hstatus : (s.proc a.pid).status with
  | running code =>
      rw [hstatus] at hstopped
      cases hstopped
  | zombie => rfl
  | reaped => rfl

lemma Formed.setStatus (h : Formed s) (hlive : (s.proc p).status ≠ .reaped)
    (status : Status β) : Formed (s.setStatus p status) := by
  constructor
  · intro q hq
    obtain ⟨hreaped, hnone⟩ := h.absent q hq
    refine ⟨?_, by rw [setStatus_parent, hnone]⟩
    rw [setStatus_status, if_neg]
    · exact hreaped
    · rintro rfl
      exact hlive hreaped
  · intro p' q hpq
    rw [setStatus_parent] at hpq
    exact h.later p' q hpq

section Fork

variable {ret : ℕ} {child parent : Code β}

lemma fork_proc (s : System β) (p q : ℕ) : (s.fork p ret child parent).proc q =
    if q = p then
      { s.proc p with ret := update (s.proc p).ret ret s.count, status := .running parent }
    else if q = s.count then ⟨some p, (s.proc p).ret, .running child, (s.proc p).path ++ [ret]⟩
    else s.proc q := by
  simp only [System.fork, update_apply]

lemma fork_parent (hp : p < s.count) (q : ℕ) : ((s.fork p ret child parent).proc q).parent =
    if q = s.count then some p else (s.proc q).parent := by
  rw [fork_proc]
  split
  · rename_i heq
    rw [if_neg (by omega), heq]
  · split
    · rfl
    · rfl

lemma Formed.fork (h : Formed s) (hp : p < s.count) : Formed (s.fork p ret child parent) := by
  constructor
  · intro q hq
    have hle : s.count + 1 ≤ q := hq
    rw [fork_proc, if_neg (by omega), if_neg (by omega)]
    exact h.absent q (by omega)
  · intro p' q hpq
    rw [fork_parent hp] at hpq
    split at hpq
    · cases hpq
      omega
    · exact h.later p' q hpq

end Fork

lemma not_reaped {c : Code β} (h : (s.proc p).status = .running c) :
    (s.proc p).status ≠ .reaped := by
  rw [h]
  nofun

lemma Formed.step (h : Formed s) (hstep : Processes.step s a = some s') : Formed s' := by
  cases moves_of_step hstep with
  | exits hcode => exact h.setStatus (not_reaped hcode) _
  | @prints line next hcode =>
      have hgoes := h.setStatus (not_reaped hcode) (.running next)
      exact ⟨hgoes.absent, hgoes.later⟩
  | forks hcode => exact h.fork (h.lt_count (not_reaped hcode))
  | fails hcode hok => exact h.setStatus (not_reaped hcode) _
  | reaps hcode hchild hzombie =>
      have hne := (h.later _ _ hchild).ne
      apply (h.setStatus (by rw [hzombie]; nofun) _).setStatus
      rw [setStatus_status, if_neg hne]
      exact not_reaped hcode
  | passes hcode hgone => exact h.setStatus (not_reaped hcode) _

/-! ## All come to their end -/

/-- **No deadlock.**  As long as a process runs, some process can go on: the youngest one, which
waits for nobody. -/
theorem exists_step (h : Formed s) {c : Code β} (hp : (s.proc p).status = .running c) :
    ∃ q s', Processes.step s ⟨q, true⟩ = some s' := by
  have hmem : ((range s.count).filter fun q => (s.proc q).status.isRunning = true).Nonempty := by
    refine ⟨p, mem_filter.mpr ⟨mem_range.mpr (h.lt_count (not_reaped hp)), ?_⟩⟩
    rw [hp]
    rfl
  obtain ⟨q, hq, hmax⟩ := exists_max_image _ id hmem
  obtain ⟨hlt, hrunning⟩ := mem_filter.mp hq
  refine ⟨q, ?_⟩
  cases hstatus : (s.proc q).status with
  | zombie =>
      rw [hstatus] at hrunning
      cases hrunning
  | reaped =>
      rw [hstatus] at hrunning
      cases hrunning
  | running code =>
      simp only [Processes.step, hstatus]
      cases code with
      | exit => exact ⟨_, rfl⟩
      | say line next => exact ⟨_, rfl⟩
      | fork ret child parent failed => exact ⟨_, rfl⟩
      | waitpid ret next =>
          simp only [System.waitpid]
          split
          · rename_i hchild
            split
            · -- a child that runs would be younger
              rename_i hrun
              have hlater := h.later _ _ hchild
              have hle := hmax _ (mem_filter.mpr
                ⟨mem_range.mpr (h.lt_count (not_reaped hrun)), by rw [hrun]; rfl⟩)
              simp only [id_eq] at hle
              omega
            · exact ⟨_, rfl⟩
            · exact ⟨_, rfl⟩
          · exact ⟨_, rfl⟩

/-- How many steps a program can take. -/
def Code.size : Code β → ℕ
  | .exit => 1
  | .say _ next => 1 + next.size
  | .fork _ child parent failed => 1 + child.size + parent.size + failed.size
  | .waitpid _ next => 1 + next.size

def Status.size : Status β → ℕ
  | .running code => code.size
  | _ => 0

/-- What the processes amount to. -/
def System.total (s : System β) (g : Process β → ℕ) : ℕ := ∑ p ∈ range s.count, g (s.proc p)

lemma total_setStatus (g : Process β → ℕ) (hp : p < s.count) (status : Status β) :
    (s.setStatus p status).total g + g (s.proc p) =
      s.total g + g { s.proc p with status := status } := by
  have hterm : (fun q => g ((s.setStatus p status).proc q)) =
      update (fun q => g (s.proc q)) p (g { s.proc p with status := status }) := by
    funext q
    simp only [System.setStatus, update_apply]
    split
    · rfl
    · rfl
  rw [System.total, setStatus_count, hterm]
  exact sum_update_add (fun q => g (s.proc q)) hp _

lemma total_fork (g : Process β → ℕ) (ret : ℕ) (child parent : Code β) (hp : p < s.count) :
    (s.fork p ret child parent).total g + g (s.proc p) =
      s.total g + g ⟨some p, (s.proc p).ret, .running child, (s.proc p).path ++ [ret]⟩ +
        g { s.proc p with
          ret := update (s.proc p).ret ret s.count, status := .running parent } := by
  have hterm : ∀ q ∈ range s.count, g ((s.fork p ret child parent).proc q) =
      update (fun q => g (s.proc q)) p (g { s.proc p with
        ret := update (s.proc p).ret ret s.count, status := .running parent }) q := by
    intro q hq
    rw [fork_proc, update_apply]
    split
    · rfl
    · rw [if_neg (mem_range.mp hq).ne]
  have hrest : ∑ q ∈ range s.count, g ((s.fork p ret child parent).proc q) =
      ∑ q ∈ range s.count, update (fun q => g (s.proc q)) p (g { s.proc p with
        ret := update (s.proc p).ret ret s.count, status := .running parent }) q :=
    sum_congr rfl hterm
  have hnew : (s.fork p ret child parent).proc s.count =
      ⟨some p, (s.proc p).ret, .running child, (s.proc p).path ++ [ret]⟩ := by
    rw [fork_proc, if_neg hp.ne', if_pos rfl]
  have hcount : (s.fork p ret child parent).count = s.count + 1 := rfl
  have hsum := sum_update_add (fun q => g (s.proc q)) hp (g { s.proc p with
    ret := update (s.proc p).ret ret s.count, status := .running parent })
  rw [System.total, hcount, sum_range_succ, hnew, hrest, System.total]
  omega

/-- How many steps the processes can take. -/
def System.size (s : System β) : ℕ := s.total fun q => q.status.size

lemma size_setStatus (hp : p < s.count) (status : Status β) :
    (s.setStatus p status).size + (s.proc p).status.size = s.size + status.size :=
  total_setStatus (fun q => q.status.size) hp status

lemma size_fork {ret : ℕ} {child parent : Code β} (hp : p < s.count) :
    (s.fork p ret child parent).size + (s.proc p).status.size =
      s.size + child.size + parent.size :=
  total_fork (fun q => q.status.size) ret child parent hp

/-- Each step is one step less to take. -/
lemma Formed.size_lt (h : Formed s) (hstep : Processes.step s a = some s') :
    s'.size < s.size := by
  have hlt : ∀ {c}, (s.proc a.pid).status = .running c → a.pid < s.count :=
    fun hc => h.lt_count (not_reaped hc)
  cases moves_of_step hstep with
  | exits hcode =>
      have hsize := size_setStatus (hlt hcode) .zombie
      rw [hcode] at hsize
      simp only [Status.size, Code.size] at hsize
      omega
  | @prints line next hcode =>
      have hsize := size_setStatus (hlt hcode) (.running next)
      rw [hcode] at hsize
      simp only [Status.size, Code.size] at hsize
      have hsame : ({ s.setStatus a.pid (.running next) with
          printed := s.printed ++ [⟨line, s.getppid a.pid, a.pid, (s.proc a.pid).path⟩] } :
            System β).size = (s.setStatus a.pid (.running next)).size := rfl
      omega
  | @forks ret child parent failed hcode =>
      have hsize : (s.fork a.pid ret child parent).size + _ = _ := size_fork (hlt hcode)
      rw [hcode] at hsize
      simp only [Status.size, Code.size] at hsize
      omega
  | @fails ret child parent failed hcode hok =>
      have hsize := size_setStatus (hlt hcode) (.running failed)
      rw [hcode] at hsize
      simp only [Status.size, Code.size] at hsize
      omega
  | @reaps ret next hcode hchild hzombie =>
      have hne := (h.later _ _ hchild).ne
      have hsize := size_setStatus (h.lt_count (by rw [hzombie]; nofun)) .reaped
      have hsize' := size_setStatus (s := s.setStatus ((s.proc a.pid).ret ret) .reaped)
        (hlt hcode) (.running next)
      rw [setStatus_status, if_neg hne, hcode] at hsize'
      rw [hzombie] at hsize
      simp only [Status.size, Code.size] at hsize hsize'
      omega
  | @passes ret next hcode hgone =>
      have hsize := size_setStatus (hlt hcode) (.running next)
      rw [hcode] at hsize
      simp only [Status.size, Code.size] at hsize
      omega

/-- **No endless run.**  A program takes no more steps than it has. -/
theorem length_le_of_exec {code : Code β} {acts : List Action}
    (hexec : exec step (boot code) acts = some s) : acts.length ≤ code.size := by
  have hsize : (boot code).size = code.size := by
    simp [System.size, System.total, boot, Status.size]
  rw [← hsize]
  have hrank := Interleaving.rank_of_exec_all
    (fun _ _ _ hs hstep => And.intro (hs.step hstep) (hs.size_lt hstep)) (formed_boot code) hexec
  exact (Nat.le_add_left _ _).trans hrank.2

/-! ## No orphans -/

/-- The children of `p` that have not been waited for are in the variables `held`. -/
def Covers (s : System β) (p : ℕ) (held : List ℕ) : Prop :=
  ∀ q, (s.proc q).parent = some p → (s.proc q).status ≠ .reaped →
    ∃ ret ∈ held, (s.proc p).ret ret = q

/-- A process waits for its children. -/
def Waits (mayFail : ℕ → Bool) (s : System β) (p : ℕ) (code : Code β) : Prop :=
  ∃ held, tidy mayFail held code = true ∧ Covers s p held

/-- What tidy code keeps. -/
structure Sound (mayFail : ℕ → Bool) (s : System β) : Prop where
  formed : Formed s
  waits : ∀ p code, (s.proc p).status = .running code → Waits mayFail s p code
  noOrphans : NoOrphans s

lemma sound_boot {code : Code β} (h : tidy mayFail [] code = true) :
    Sound mayFail (boot code) where
  formed := formed_boot code
  waits p c hp := by
    simp only [boot] at hp
    split at hp
    · cases hp
      exact ⟨[], h, fun q hq => by cases hq⟩
    · cases hp
  noOrphans p q hpq := by cases hpq

/-- Nothing more is to be waited for where no process becomes one that has not been. -/
lemma Covers.mono {held : List ℕ} (h : Covers s p held)
    (hparent : ∀ q, (s'.proc q).parent = some p → (s.proc q).parent = some p)
    (hret : (s'.proc p).ret = (s.proc p).ret)
    (hstatus : ∀ q, (s.proc q).status = .reaped → (s'.proc q).status = .reaped) :
    Covers s' p held := by
  intro q hq hlive
  rw [hret]
  exact h q (hparent q hq) (mt (hstatus q) hlive)

lemma Covers.setStatus {held : List ℕ} (h : Covers s p held)
    (hq : (s.proc q).status ≠ .reaped) (status : Status β) :
    Covers (s.setStatus q status) p held := by
  apply h.mono
  · exact fun q' hq' => by rwa [setStatus_parent] at hq'
  · exact setStatus_ret ..
  · intro q' hq'
    rw [setStatus_status, if_neg]
    · exact hq'
    · rintro rfl
      exact hq hq'

/-- A process goes on and waits for its children, or it has none and stops. -/
lemma Sound.setStatus (h : Sound mayFail s) (hlive : (s.proc p).status ≠ .reaped)
    (status : Status β) (hwaits : ∀ code, status = .running code → Waits mayFail s p code)
    (hleft : status.isRunning = true ∨ Covers s p []) : Sound mayFail (s.setStatus p status) := by
  have hbefore : ∀ q, ((s.setStatus p status).proc q).status ≠ .reaped →
      (s.proc q).status ≠ .reaped := by
    intro q hq hreaped
    rw [setStatus_status] at hq
    split at hq
    · rename_i heq
      rw [heq] at hreaped
      exact hlive hreaped
    · exact hq hreaped
  refine ⟨h.formed.setStatus hlive _, fun p' code hcode => ?_, fun p' q hpq hq => ?_⟩
  · rw [setStatus_status] at hcode
    split at hcode
    · rename_i heq
      subst heq
      obtain ⟨held, htidy, hcovers⟩ := hwaits code hcode
      exact ⟨held, htidy, hcovers.setStatus hlive _⟩
    · obtain ⟨held, htidy, hcovers⟩ := h.waits p' code hcode
      exact ⟨held, htidy, hcovers.setStatus hlive _⟩
  · rw [setStatus_parent] at hpq
    have hrunning := h.noOrphans p' q hpq (hbefore q hq)
    rw [setStatus_status]
    split
    · rename_i heq
      subst heq
      apply hleft.resolve_right
      intro hcovers
      obtain ⟨ret, hmem, -⟩ := hcovers q hpq (hbefore q hq)
      cases hmem
    · exact hrunning

/-- What has exited has no children. -/
lemma Sound.covers_nil (h : Sound mayFail s) (hp : (s.proc p).status.isRunning = false) :
    Covers s p [] := by
  intro q hq hlive
  have hrunning := h.noOrphans p q hq hlive
  rw [hp] at hrunning
  cases hrunning

/-- The new process is waited for. -/
lemma Sound.fork (h : Sound mayFail s) {ret : ℕ} {child parent c : Code β}
    (hp : (s.proc p).status = .running c) {held : List ℕ} (hcovers : Covers s p held)
    (hret : ret ∉ held)
    (hchild : tidy mayFail [] child = true) (hparent : tidy mayFail (ret :: held) parent = true) :
    Sound mayFail (s.fork p ret child parent) := by
  have hlt : p < s.count := h.formed.lt_count (not_reaped hp)
  have hlive : ∀ q, q ≠ s.count → ((s.fork p ret child parent).proc q).status ≠ .reaped →
      (s.proc q).status ≠ .reaped := by
    intro q hq
    rw [fork_proc]
    split
    · rename_i heq
      rw [heq, hp]
      exact fun _ => nofun
    · exact id
  refine ⟨h.formed.fork hlt, fun p' code hcode => ?_, fun p' q hpq hq => ?_⟩
  · rw [fork_proc] at hcode
    split at hcode
    · -- the parent has a child more
      rename_i heq
      subst heq
      cases hcode
      refine ⟨ret :: held, hparent, fun q hpq hq => ?_⟩
      rw [fork_parent hlt] at hpq
      rw [fork_proc, if_pos rfl]
      split at hpq
      · rename_i hnew
        exact ⟨ret, List.mem_cons_self, (update_self ret _ _).trans hnew.symm⟩
      · rename_i hold
        obtain ⟨r, hr, hrq⟩ := hcovers q hpq (hlive q hold hq)
        have hne : r ≠ ret := fun heq => hret (heq ▸ hr)
        exact ⟨r, List.mem_cons_of_mem _ hr, (update_of_ne hne _ _).trans hrq⟩
    split at hcode
    · -- the child has none
      rename_i hne heq
      subst heq
      cases hcode
      refine ⟨[], hchild, fun q hpq _ => ?_⟩
      rw [fork_parent hlt] at hpq
      split at hpq
      · cases hpq
        omega
      · have hlater := h.formed.later _ q hpq
        rw [(h.formed.absent q hlater.le).2] at hpq
        cases hpq
    · rename_i hne hold
      obtain ⟨held', htidy, hcovers'⟩ := h.waits p' code hcode
      refine ⟨held', htidy, fun q hpq hq => ?_⟩
      rw [fork_parent hlt] at hpq
      rw [fork_proc, if_neg hne, if_neg hold]
      split at hpq
      · cases hpq
        exact absurd rfl hne
      · rename_i hq'
        exact hcovers' q hpq (hlive q hq' hq)
  · rw [fork_parent hlt] at hpq
    split at hpq
    · cases hpq
      rw [fork_proc, if_pos rfl]
      rfl
    · rename_i hold
      have hrunning := h.noOrphans p' q hpq (hlive q hold hq)
      have hlt' : p' < s.count := by
        apply h.formed.lt_count
        intro hreaped
        rw [hreaped] at hrunning
        cases hrunning
      rw [fork_proc]
      split
      · rfl
      · rw [if_neg (by omega)]
        exact hrunning

/-- A step of tidy code. -/
lemma Sound.step (h : Sound mayFail s) (hfails : Fails mayFail s a)
    (hstep : Processes.step s a = some s') : Sound mayFail s' := by
  cases moves_of_step hstep with
  | exits hcode =>
      obtain ⟨held, htidy, hcovers⟩ := h.waits _ _ hcode
      have hnone : held = [] := List.isEmpty_iff.mp htidy
      exact h.setStatus (not_reaped hcode) _ nofun (Or.inr (hnone ▸ hcovers))
  | @prints line next hcode =>
      obtain ⟨held, htidy, hcovers⟩ := h.waits _ _ hcode
      have hgoes := h.setStatus (not_reaped hcode) (.running next)
        (fun c hc => by cases hc; exact ⟨held, htidy, hcovers⟩) (Or.inl rfl)
      exact ⟨⟨hgoes.formed.absent, hgoes.formed.later⟩, hgoes.waits, hgoes.noOrphans⟩
  | forks hcode =>
      obtain ⟨held, htidy, hcovers⟩ := h.waits _ _ hcode
      simp only [tidy, Bool.and_eq_true, Bool.not_eq_eq_eq_not, Bool.not_true,
        List.contains_eq_mem, decide_eq_false_iff_not] at htidy
      exact h.fork hcode hcovers htidy.1.1.1 htidy.1.1.2 htidy.1.2
  | @fails ret child parent failed hcode hok =>
      obtain ⟨held, htidy, hcovers⟩ := h.waits _ _ hcode
      have hmay := hfails hok _ _ _ _ hcode
      simp only [tidy, hmay, Bool.and_eq_true, Bool.not_true, Bool.false_or] at htidy
      exact h.setStatus (not_reaped hcode) (.running failed)
        (fun c hc => by cases hc; exact ⟨held, htidy.2, hcovers⟩) (Or.inl rfl)
  | @reaps ret next hcode hchild hzombie =>
      have hreaped := h.setStatus (p := (s.proc a.pid).ret ret) (by rw [hzombie]; nofun) .reaped
        nofun (Or.inr (h.covers_nil (by rw [hzombie]; rfl)))
      have hne : a.pid ≠ (s.proc a.pid).ret ret := (h.formed.later _ _ hchild).ne
      obtain ⟨held, htidy, hcovers⟩ := h.waits _ _ hcode
      have hcode' : ((s.setStatus ((s.proc a.pid).ret ret) .reaped).proc a.pid).status =
          .running (.waitpid ret next) := by rw [setStatus_status, if_neg hne, hcode]
      refine hreaped.setStatus (by rw [hcode']; nofun) (.running next) (fun c hc => ?_) (Or.inl rfl)
      cases hc
      refine ⟨_, htidy, fun q hq hlive' => ?_⟩
      obtain ⟨r, hr, hrq⟩ := hcovers.setStatus (by rw [hzombie]; nofun) .reaped q hq hlive'
      refine ⟨r, (List.mem_erase_of_ne ?_).mpr hr, hrq⟩
      rintro rfl
      rw [setStatus_ret] at hrq
      apply hlive'
      rw [setStatus_status, if_pos hrq.symm]
  | @passes ret next hcode hgone =>
      obtain ⟨held, htidy, hcovers⟩ := h.waits _ _ hcode
      refine h.setStatus (not_reaped hcode) (.running next) (fun c hc => ?_) (Or.inl rfl)
      cases hc
      refine ⟨_, htidy, fun q hq hlive' => ?_⟩
      obtain ⟨r, hr, rfl⟩ := hcovers q hq hlive'
      refine ⟨r, (List.mem_erase_of_ne ?_).mpr hr, rfl⟩
      rintro rfl
      exact hlive' (hgone hq)

/-- **No orphans.**  However the steps are ordered and whichever of the forks in `mayFail` fail,
no process of tidy code is left by its parent. -/
theorem noOrphans_of_tidy {code : Code β} (htidy : tidy mayFail [] code = true)
    (h : Reach step (Fails mayFail) (boot code) s) : NoOrphans s :=
  (h.invariant (sound_boot htidy) fun _ _ _ hs hfails hstep => hs.step hfails hstep).noOrphans

/-- No process that runs has lost its parent. -/
lemma Sound.getppid (h : Sound mayFail s) {c : Code β} (hp : (s.proc p).status = .running c) :
    s.getppid p = (s.proc p).parent := by
  unfold System.getppid
  cases hparent : (s.proc p).parent with
  | none => rfl
  | some q => rw [Option.filter_some, h.noOrphans q p hparent (not_reaped hp), if_pos rfl]

/-! ## What is printed -/

/-- The lines of a program, each with the forks of the process it belongs to. -/
def family (path : List ℕ) : Code β → List (List ℕ × β)
  | .exit => []
  | .say line next => (path, line) :: family path next
  | .fork ret child parent _ => family (path ++ [ret]) child ++ family path parent
  | .waitpid _ next => family path next

/-- The lines a process and its children to come still have to print. -/
def Process.family (q : Process β) : List (List ℕ × β) :=
  match q.status with
  | .running code => Processes.family q.path code
  | _ => []

def Line.key (l : Line β) : List ℕ × β := (l.path, l.text)

/-- A line is printed by the process it says, and with its parent. -/
def Line.Signed (s : System β) (l : Line β) : Prop :=
  l.pid < s.count ∧ l.path = (s.proc l.pid).path ∧ l.ppid = (s.proc l.pid).parent

variable [DecidableEq β]

/-- What has been printed, what is still to be printed, and where the processes come from. -/
structure Told (code : Code β) (s : System β) : Prop where
  lines : ∀ k, (s.printed.map Line.key).count k + s.total (fun q => q.family.count k) =
    (family [] code).count k
  signed : ∀ l ∈ s.printed, l.Signed s
  paths : ∀ p q, (s.proc q).parent = some p → ∃ ret, (s.proc q).path = (s.proc p).path ++ [ret]

lemma told_boot (code : Code β) : Told code (boot code) where
  lines k := by simp [System.total, boot, Process.family]
  signed l hl := by cases hl
  paths p q hpq := by cases hpq

/-- A process goes on without printing. -/
lemma Told.setStatus {code : Code β} (h : Told code s) (hp : p < s.count) {status : Status β}
    (hfamily : Process.family { s.proc p with status := status } = (s.proc p).family) :
    Told code (s.setStatus p status) := by
  constructor
  · intro k
    have htotal := total_setStatus (fun q => q.family.count k) hp status
    have hlines := h.lines k
    simp only [hfamily] at htotal
    have hprinted : (s.setStatus p status).printed = s.printed := rfl
    rw [hprinted]
    omega
  · intro l hl
    obtain ⟨hlt, hpath, hppid⟩ := h.signed l hl
    exact ⟨hlt, by rw [hpath, setStatus_path], by rw [hppid, setStatus_parent]⟩
  · intro p' q hpq
    rw [setStatus_parent] at hpq
    rw [setStatus_path, setStatus_path]
    exact h.paths p' q hpq

lemma Told.prints {code next : Code β} {line : β} (h : Told code s) (hs : Sound mayFail s)
    (hp : (s.proc p).status = .running (.say line next)) :
    Told code { s.setStatus p (.running next) with
      printed := s.printed ++ [⟨line, s.getppid p, p, (s.proc p).path⟩] } := by
  have hlt := hs.formed.lt_count (not_reaped hp)
  constructor
  · intro k
    have htotal := total_setStatus (fun q => q.family.count k) hlt (.running next)
    have hlines := h.lines k
    have hbefore : (s.proc p).family = ((s.proc p).path, line) :: family (s.proc p).path next := by
      simp only [Process.family, hp, family]
    have hafter : Process.family { s.proc p with status := .running next } =
        family (s.proc p).path next := rfl
    have hsame : ∀ printed, ({ s.setStatus p (.running next) with printed := printed } :
        System β).total (fun q => q.family.count k) =
          (s.setStatus p (.running next)).total fun q => q.family.count k := fun _ => rfl
    simp only [hbefore, hafter, List.count_cons] at htotal
    have hkey : Line.key ⟨line, s.getppid p, p, (s.proc p).path⟩ = ((s.proc p).path, line) := rfl
    rw [hsame, List.map_append, List.count_append, List.map_singleton, hkey, List.count_singleton]
    omega
  · intro l hl
    rcases List.mem_append.mp hl with hl | hl
    · obtain ⟨hlt', hpath, hppid⟩ := h.signed l hl
      exact ⟨hlt', hpath.trans (setStatus_path ..).symm, hppid.trans (setStatus_parent ..).symm⟩
    · obtain rfl := List.mem_singleton.mp hl
      refine ⟨hlt, (setStatus_path ..).symm, ?_⟩
      exact (hs.getppid hp).trans (setStatus_parent ..).symm
  · intro p' q hpq
    obtain ⟨ret, hret⟩ := h.paths p' q ((setStatus_parent ..).symm.trans hpq)
    refine ⟨ret, (setStatus_path ..).trans (hret.trans ?_)⟩
    congr 1
    exact (setStatus_path ..).symm

lemma Told.fork {code child parent failed : Code β} {ret : ℕ} (h : Told code s) (hs : Formed s)
    (hp : (s.proc p).status = .running (.fork ret child parent failed)) :
    Told code (s.fork p ret child parent) := by
  have hlt := hs.lt_count (not_reaped hp)
  have hpath : ∀ q, q ≠ s.count →
      ((s.fork p ret child parent).proc q).path = (s.proc q).path := by
    intro q hq
    rw [fork_proc]
    split
    · rename_i heq
      rw [heq]
    · rfl
  constructor
  · intro k
    have htotal := total_fork (fun q => q.family.count k) ret child parent hlt
    have hlines := h.lines k
    have hbefore : (s.proc p).family =
        family ((s.proc p).path ++ [ret]) child ++ family (s.proc p).path parent := by
      simp only [Process.family, hp, family]
    simp only [hbefore, List.count_append] at htotal
    simp only [Process.family] at htotal hlines ⊢
    have hprinted : (s.fork p ret child parent).printed = s.printed := rfl
    rw [hprinted]
    omega
  · intro l hl
    obtain ⟨hlt', hline, hppid⟩ := h.signed l hl
    refine ⟨Nat.lt_succ_of_lt hlt', hline.trans (hpath _ hlt'.ne).symm, ?_⟩
    rw [hppid, fork_parent hlt, if_neg hlt'.ne]
  · intro p' q hpq
    rw [fork_parent hlt] at hpq
    split at hpq
    · rename_i hnew
      cases hpq
      refine ⟨ret, ?_⟩
      rw [hpath p hlt.ne, fork_proc, if_neg (by omega), if_pos hnew]
    · rename_i hold
      have hlt' := hs.later p' q hpq
      have hq : q < s.count := by
        by_contra hle
        rw [(hs.absent q (not_lt.mp hle)).2] at hpq
        cases hpq
      rw [hpath q hold, hpath p' (by omega)]
      exact h.paths p' q hpq

/-- A step in which no fork fails. -/
lemma Told.step {code : Code β} (h : Told code s) (hs : Sound (fun _ => false) s)
    (hok : a.ok = true) (hstep : Processes.step s a = some s') : Told code s' := by
  have hlt : ∀ {c}, (s.proc a.pid).status = .running c → a.pid < s.count :=
    fun hc => hs.formed.lt_count (not_reaped hc)
  cases moves_of_step hstep with
  | exits hcode => exact h.setStatus (hlt hcode) (by simp only [Process.family, hcode, family])
  | prints hcode => exact h.prints hs hcode
  | forks hcode => exact h.fork hs.formed hcode
  | fails hcode hfailed =>
      rw [hok] at hfailed
      cases hfailed
  | @reaps ret next hcode hchild hzombie =>
      have hne := (hs.formed.later _ _ hchild).ne
      have hcode' : ((s.setStatus ((s.proc a.pid).ret ret) .reaped).proc a.pid).status =
          .running (.waitpid ret next) := by rw [setStatus_status, if_neg hne, hcode]
      apply (h.setStatus (hs.formed.lt_count (by rw [hzombie]; nofun)) ?_).setStatus (hlt hcode)
      · simp only [Process.family, hcode', family]
      · simp only [Process.family, hzombie]
  | passes hcode hgone =>
      exact h.setStatus (hlt hcode) (by simp only [Process.family, hcode, family])

/-- **What is printed.**  If no fork fails and all processes have come to their end, the lines of
the code have been printed, in some order: each by a process that comes from the forks it stands
behind, and with the parent of that process, which the last of these forks has made. -/
theorem printed_of_exec {code : Code β} (htidy : tidy (fun _ => false) [] code = true)
    {acts : List Action} (hok : ∀ a ∈ acts, a.ok = true)
    (hexec : exec step (boot code) acts = some s)
    (hend : ∀ p, (s.proc p).status.isRunning = false) :
    (s.printed.map Line.key).Perm (family [] code) ∧ (∀ l ∈ s.printed, l.Signed s) ∧
      ∀ p q, (s.proc q).parent = some p → ∃ ret, (s.proc q).path = (s.proc p).path ++ [ret] := by
  have hreach : Reach step (fun _ a => a.ok = true) (boot code) s :=
    Reach.of_exec_guarded hexec fun _ _ htakes => hok _ htakes.mem
  have hboth := hreach.invariant
    (I := fun u => Sound (fun _ => false) u ∧ Told code u) ⟨sound_boot htidy, told_boot code⟩
    (fun u a v hu hoka hstep => ⟨hu.1.step (fun hno => by rw [hoka] at hno; cases hno) hstep,
      hu.2.step hu.1 hoka hstep⟩)
  obtain ⟨-, htold⟩ := hboth
  refine ⟨List.perm_iff_count.mpr fun k => ?_, htold.signed, htold.paths⟩
  have hlines := htold.lines k
  have hnone : s.total (fun q => q.family.count k) = 0 := by
    apply sum_eq_zero
    intro q _
    have hfamily : (s.proc q).family = [] := by
      have hq := hend q
      unfold Process.family
      cases hstatus : (s.proc q).status with
      | running c =>
          rw [hstatus] at hq
          cases hq
      | zombie => rfl
      | reaped => rfl
    exact (congrArg (List.count k) hfamily).trans List.count_nil
  omega

end Processes
