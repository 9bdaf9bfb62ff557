import EltSummer.QueueChat.Order

/-!
# What a server thread has in its buffer

A message is received without a terminator over whatever the buffer holds: the zeros of the
last `memset`, or, for the first message, what was on the stack (`bufferBefore`).  This file
follows the buffer, `prio` and the log of handled messages around the thread's loop
(`Thread.Faithful`).
-/

namespace EltSummer
namespace QueueChat

open Interleaving PosixQueue CString

variable {cfg : Config} {s s' : State}

/-- The buffer a thread receives into when it has handled the messages of `log`. -/
def bufferBefore (cfg : Config) (k : ℕ) (log : List Msg) : List UInt8 :=
  if log = [] then cfg.stack k else List.replicate qSize 0

/-- The thread is between two messages. -/
def Pc.idle : Pc → Bool
  | .head | .trylock | .receive | .retry => true
  | _ => false

/-- The thread is behind the tests of `prio`. -/
def Pc.past : Pc → Bool
  | .forTest _ | .lock _ | .send _ | .release _ | .clear => true
  | _ => false

/-- The locals of thread `k`, whose log is `log`. -/
structure Thread.Faithful (cfg : Config) (k : ℕ) (log : List Msg) (t : Thread) : Prop where
  idle : t.pc.idle → t.msgBuff = bufferBefore cfg k log
  holds : t.pc.holds →
    t.msgBuff = received (bufferBefore cfg k log) t.got.text ∧ t.prio = t.got.prio
  past : t.pc.past → ∃ before, log = before ++ [t.got] ∧
    t.msgBuff = received (bufferBefore cfg k before) t.got.text ∧ t.prio = t.got.prio

/-- A control step stays where it is on the thread's way around the loop. -/
lemma Control.zone {k : ℕ} {pc : Pc} {mutex : ℕ → Bool} (h : Locked s)
    (hc : Control cfg s k (s.thread k).pc mutex pc) :
    (pc.idle → (s.thread k).pc.idle) ∧ (pc.holds → (s.thread k).pc.holds) ∧
      (pc.past → (s.thread k).pc.past) := by
  have hown := h.own k
  generalize (s.thread k).pc = pc₀ at hc hown
  cases hc with
  | busy hm => simp [hm, Pc.ownsMutex] at hown
  | _ => refine ⟨?_, ?_, ?_⟩ <;> simp [Pc.idle, Pc.holds, Pc.past]

/-- The locals of every thread. -/
def Faithful (cfg : Config) (s : State) : Prop :=
  ∀ k, (s.thread k).Faithful cfg k (s.handled k)

lemma faithful_init (cfg : Config) : Faithful cfg (init cfg) :=
  fun _ => ⟨fun _ => rfl, nofun, nofun⟩

/-- A step of thread `k`. -/
lemma Faithful.thread (h : Faithful cfg s) {k : ℕ} {t : Thread} {u : State}
    (hthread : u.thread = s.thread) (hhandled : ∀ j ≠ k, u.handled j = s.handled j)
    (ht : t.Faithful cfg k (u.handled k)) : Faithful cfg (u.setThread k t) := by
  intro j
  rw [setThread_thread]
  split
  · rename_i hj
    exact hj ▸ ht
  · rename_i hj
    rw [hthread]
    exact (hhandled j hj).symm ▸ h j

/-- Handling a message: the thread gets past it with its buffer as it is. -/
lemma Faithful.handles (h : Faithful cfg s) {k : ℕ} {t : Thread} {u : State}
    (hpc : (s.thread k).pc = .handle) (hthread : u.thread = s.thread)
    (hhandled : u.handled = (s.markHandled k (s.thread k).got).handled)
    (ht : t.msgBuff = (s.thread k).msgBuff ∧ t.prio = (s.thread k).prio ∧
      t.got = (s.thread k).got) (hpast : t.pc.past) : Faithful cfg (u.setThread k t) := by
  obtain ⟨hbuff, hprio⟩ := (h k).holds (by rw [hpc]; rfl)
  have hlog : u.handled k = s.handled k ++ [(s.thread k).got] := by
    rw [hhandled]
    exact Function.update_self _ _ _
  refine h.thread hthread (fun j hj => ?_) ⟨fun hi => ?_, fun hh => ?_, fun _ => ?_⟩
  · rw [hhandled]
    exact Function.update_of_ne hj _ _
  · cases hz : t.pc <;> simp [hz, Pc.idle, Pc.past] at hi hpast
  · cases hz : t.pc <;> simp [hz, Pc.holds, Pc.past] at hh hpast
  · obtain ⟨h₁, h₂, h₃⟩ := ht
    exact ⟨s.handled k, by rw [hlog, h₃], by rw [h₁, h₃, hbuff], by rw [h₂, h₃, hprio]⟩

/-- Moving on behind a message, towards `clear`. -/
lemma Faithful.passes (h : Faithful cfg s) {k : ℕ} {t : Thread} {u : State}
    (hpc : (s.thread k).pc.past) (hthread : u.thread = s.thread) (hhandled : u.handled = s.handled)
    (ht : t.msgBuff = (s.thread k).msgBuff ∧ t.prio = (s.thread k).prio ∧
      t.got = (s.thread k).got) (hpast : t.pc.past) : Faithful cfg (u.setThread k t) := by
  obtain ⟨before, hlog, hbuff, hprio⟩ := (h k).past hpc
  obtain ⟨h₁, h₂, h₃⟩ := ht
  refine h.thread hthread (fun j _ => by rw [hhandled]) ⟨fun hi => ?_, fun hh => ?_, fun _ => ?_⟩
  · cases hz : t.pc <;> simp [hz, Pc.idle, Pc.past] at hi hpast
  · cases hz : t.pc <;> simp [hz, Pc.holds, Pc.past] at hh hpast
  · exact ⟨before, by rw [hhandled, hlog, h₃], by rw [h₁, h₃, hbuff], by rw [h₂, h₃, hprio]⟩

theorem faithful_step {a : Action} (h : Faithful cfg s) (hlocked : Locked s)
    (hstep : step cfg s a = some s') : Faithful cfg s' := by
  cases moves_of_step hstep with
  | @control k pc mutex hc =>
      obtain ⟨hidle, hholds, hpast⟩ := hc.zone hlocked
      exact h.thread rfl (fun _ _ => rfl) ⟨fun hz => (h k).idle (hidle hz),
        fun hz => (h k).holds (hholds hz), fun hz => (h k).past (hpast hz)⟩
  | @receive k m q hpc hq =>
      have hbuff := (h k).idle (by rw [hpc]; rfl)
      exact h.thread rfl (fun _ _ => rfl) ⟨nofun, fun _ => ⟨by rw [hbuff]; rfl, rfl⟩, nofun⟩
  | service hpc hprio hu =>
      obtain ⟨info, count, rfl⟩ := service_frame hu
      exact h.handles hpc rfl rfl ⟨rfl, rfl, rfl⟩ rfl
  | regular hpc hprio htext => exact h.handles hpc rfl rfl ⟨rfl, rfl, rfl⟩ rfl
  | other hpc hservice hregular => exact h.handles hpc rfl rfl ⟨rfl, rfl, rfl⟩ rfl
  | loopEnd hpc hi => exact h.passes (by rw [hpc]; rfl) rfl rfl ⟨rfl, rfl, rfl⟩ rfl
  | cast hpc htext hq => exact h.passes (by rw [hpc]; rfl) rfl rfl ⟨rfl, rfl, rfl⟩ rfl
  | castFull hpc htext hq => exact h.passes (by rw [hpc]; rfl) rfl rfl ⟨rfl, rfl, rfl⟩ rfl
  | @clear k hpc =>
      obtain ⟨before, hlog, -⟩ := (h k).past (by rw [hpc]; rfl)
      refine h.thread rfl (fun _ _ => rfl) ⟨fun _ => ?_, nofun, nofun⟩
      rw [hlog, bufferBefore, if_neg (by simp)]
  | stop => exact h
  | start _ _ => exact h
  | say _ _ => exact h
  | quit _ _ _ => exact h
  | quitFull _ => exact h
  | leave _ => exact h
  | take _ => exact h
  | nothing _ => exact h

/-- Mutexes, logs and locals of every run. -/
theorem faithful_of_reach {ok : State → Action → Prop}
    (h : Reach (step cfg) ok (init cfg) s) : Kept s ∧ Faithful cfg s :=
  h.invariant (I := fun u => Kept u ∧ Faithful cfg u) ⟨kept_init cfg, faithful_init cfg⟩
    fun _ _ _ hI _ hstep => ⟨hI.1.step hstep, faithful_step hI.2 hI.1.locked hstep⟩

end QueueChat
end EltSummer
