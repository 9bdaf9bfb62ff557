import EltSummer.HighloadServers.PoolHandOff

/-!
# What the clients of the thread pool receive

A worker fills `buff_output` with `SERVER_MSG` before its loop, and after each `send` that
succeeds it zeroes the buffer.  So its first client receives the message and every other one
128 zeros (`Spoken`).

The replies of a worker are for the clients it was handed, in that order, and no client is
closed before it has one (`answered_of_reach`).  So all of them receive the message exactly
when there is at most one (`greeted_of_reach`).
-/

namespace EltSummer
namespace ThreadPool

open Interleaving Function

variable {cfg : Config} {s s' : State}

/-! ## The bytes -/

/-- The buffer after the `memset`. -/
def zeroReply : List UInt8 := List.replicate buffSize 0

/-- The replies of a worker so far, and its buffer: the message, until it has been sent. -/
inductive Spoken : List (ℤ × List UInt8) → List UInt8 → Prop
  | silent : Spoken [] serverReply
  | spoken (fd : ℤ) (rest : List (ℤ × List UInt8)) (hrest : ∀ r ∈ rest, r.2 = zeroReply) :
      Spoken ((fd, serverReply) :: rest) zeroReply

lemma Spoken.send {replies : List (ℤ × List UInt8)} {buff : List UInt8} (h : Spoken replies buff)
    (fd : ℤ) : Spoken (replies ++ [(fd, buff)]) zeroReply := by
  cases h with
  | silent => exact .spoken fd [] (by simp)
  | spoken fd₀ rest hrest =>
      refine .spoken fd₀ _ fun r hr => ?_
      rcases List.mem_append.mp hr with hr | hr
      · exact hrest r hr
      · rw [List.mem_singleton.mp hr]

/-- All replies are the message exactly when there is no second one. -/
lemma Spoken.forall_iff {replies : List (ℤ × List UInt8)} {buff : List UInt8}
    (h : Spoken replies buff) :
    (∀ r ∈ replies, r.2 = serverReply) ↔ replies.length ≤ 1 := by
  cases h with
  | silent => simp
  | spoken fd rest hrest =>
      cases rest with
      | nil => simp
      | cons r rest =>
          refine iff_of_false (fun hall => ?_) (by simp)
          have hzero := hrest r List.mem_cons_self
          rw [hall r (by simp)] at hzero
          exact absurd hzero (by decide +kernel)

lemma spoken_init (w : ℕ) : Spoken (init.worker w).replies (init.worker w).buffOutput := .silent

/-- Only `send` adds a reply or touches the buffer. -/
lemma spoken_step {a : Action} (h : ∀ w, Spoken (s.worker w).replies (s.worker w).buffOutput)
    (hstep : step cfg s a = some s') (v : ℕ) :
    Spoken (s'.worker v).replies (s'.worker v).buffOutput := by
  have hframe : ∀ {w k}, k.replies = (s.worker w).replies →
      k.buffOutput = (s.worker w).buffOutput →
      Spoken (update s.worker w k v).replies (update s.worker w k v).buffOutput := by
    intro w k hreplies hbuff
    by_cases hv : v = w
    · subst hv
      rw [update_self, hreplies, hbuff]
      exact h v
    · rw [update_of_ne hv]
      exact h v
  cases moves_of_step hstep with
  | worker hw hc => exact hframe rfl rfl
  | clearFlag hpc => exact hframe rfl rfl
  | close hpc => exact hframe rfl rfl
  | @sends w ok hpc =>
      by_cases hv : v = w
      · subst hv
        rw [State.setWorker_worker, update_self]
        exact (h v).send _
      · rw [State.setWorker_worker, update_of_ne hv]
        exact h v
  | _ => exact h v

lemma spoken_of_reach {ok : State → Action → Prop} (h : Reach (step cfg) ok init s) (w : ℕ) :
    Spoken (s.worker w).replies (s.worker w).buffOutput := by
  have hspoken : ∀ v, Spoken (s.worker v).replies (s.worker v).buffOutput :=
    h.invariant (I := fun u => ∀ v, Spoken (u.worker v).replies (u.worker v).buffOutput)
      spoken_init fun _ _ _ hI _ hstep => spoken_step hI hstep
  exact hspoken w

/-! ## The clients -/

/-- A client has been answered and not yet closed. -/
def WorkerPc.replied : WorkerPc → Bool
  | .inner | .lock | .clearFlag | .close => true
  | _ => false

/-- The replies of worker `w` are for the clients it has closed. -/
def State.Settled (s : State) (w : ℕ) : Prop :=
  (s.worker w).replies.map Prod.fst = closedBy s.log w

/-- They are for these and the client it has. -/
def State.Ahead (s : State) (w : ℕ) : Prop :=
  (s.worker w).replies.map Prod.fst = closedBy s.log w ++ s.inService w

/-- Where a worker stands with its clients.  One that is stopped behind `send` leaves its
client answered and not closed. -/
structure Answered (s : State) (w : ℕ) : Prop where
  replied : (s.worker w).pc.replied = true → s.Ahead w
  other : (s.worker w).pc.replied = false → s.Settled w ∨
    s.Ahead w ∧ s.stopThreads = true ∧ ((s.worker w).pc = .head ∨ (s.worker w).pc = .exited)

lemma answered_init (w : ℕ) : Answered init w :=
  ⟨by simp [init, WorkerPc.replied], fun _ => Or.inl rfl⟩

/-- A worker that goes on has answered none but the clients it has closed. -/
lemma Answered.settled {w : ℕ} (h : Answered s w) (hpc : (s.worker w).pc.replied = false)
    (hgoes : s.stopThreads = false ∨ (s.worker w).pc ≠ .head ∧ (s.worker w).pc ≠ .exited) :
    s.Settled w := by
  rcases h.other hpc with hsettled | ⟨-, hstop, hat⟩
  · exact hsettled
  · rcases hgoes with hgoes | ⟨hhead, hexited⟩
    · simp [hstop] at hgoes
    · exact absurd hat (not_or.mpr ⟨hhead, hexited⟩)

/-- A step that leaves the worker, its cell and what it has closed alone. -/
lemma Answered.frame {w : ℕ} (h : Answered s w) (hworker : s'.worker w = s.worker w)
    (hclosed : closedBy s'.log w = closedBy s.log w) (hcell : s'.args w = s.args w)
    (hstop : s.stopThreads = true → s'.stopThreads = true) : Answered s' w := by
  have hservice : s'.inService w = s.inService w := inService_congr hcell (by rw [hworker])
  have hsettled : s'.Settled w ↔ s.Settled w := by
    rw [State.Settled, hworker, hclosed, State.Settled]
  have hahead : s'.Ahead w ↔ s.Ahead w := by
    rw [State.Ahead, hworker, hclosed, hservice, State.Ahead]
  refine ⟨fun hpc => hahead.mpr (h.replied (hworker ▸ hpc)), fun hpc => ?_⟩
  rw [hsettled, hahead, hworker]
  exact (h.other (hworker ▸ hpc)).imp_right fun ⟨hs, hstopped, hat⟩ => ⟨hs, hstop hstopped, hat⟩

/-! ## `stop_threads` -/

lemma workerStep_stopThreads {w : ℕ} {ok : Bool} (h : workerStep s w ok = some s') :
    s'.stopThreads = s.stopThreads := by
  simp only [workerStep] at h
  split at h
  case h_4 =>
    split at h <;> obtain rfl := Option.some.inj h <;> rfl
  case h_6 =>
    obtain ⟨-, h⟩ := Option.ite_none_left_eq_some.mp h
    obtain rfl := Option.some.inj h
    rfl
  case h_10 => simp at h
  all_goals
    obtain rfl := Option.some.inj h
    rfl

/-- `stop_threads` is never taken back. -/
lemma stop_kept {a : Action} (hstep : step cfg s a = some s') (hstop : s.stopThreads = true) :
    s'.stopThreads = true := by
  cases a with
  | main =>
      cases moves_of_step hstep with
      | exit hpc => rfl
      | signal ha => exact absurd rfl ha
      | _ => exact hstop
  | listen ok =>
      cases hpc : s.mainPc <;> simp [step, mainStep, hpc] at hstep
      subst hstep
      exact hstop
  | accept fd =>
      cases hpc : s.mainPc <;> simp [step, mainStep, acceptStep, hpc] at hstep
      obtain ⟨-, h⟩ := hstep
      split at h
      · obtain rfl := Option.some.inj h
        exact hstop
      · obtain ⟨-, h⟩ := Option.ite_none_left_eq_some.mp h
        obtain rfl := Option.some.inj h
        exact hstop
  | worker w ok =>
      obtain ⟨-, h⟩ := Option.ite_none_right_eq_some.mp hstep
      rw [workerStep_stopThreads h, hstop]
  | line exit =>
      obtain ⟨-, h⟩ := Option.ite_none_left_eq_some.mp hstep
      split at h <;> obtain rfl := Option.some.inj h <;> exact hstop
  | interrupt =>
      obtain rfl := Option.some.inj hstep
      rfl

/-- At the two loop heads a worker reads `stop_threads`. -/
lemma worker_reads_stop {w : ℕ} {ok : Bool} (hstep : step cfg s (.worker w ok) = some s') :
    ((s.worker w).pc = .head → (s'.worker w).pc = .test → s.stopThreads = false) ∧
      ((s.worker w).pc = .inner → (s'.worker w).pc = .head → s.stopThreads = true) := by
  obtain ⟨-, h⟩ := Option.ite_none_right_eq_some.mp hstep
  constructor <;> intro hpc hpc' <;>
    · simp only [workerStep, hpc, Option.some.injEq] at h
      subst h
      cases hstop : s.stopThreads <;> simp [hstop] at hpc' ⊢

/-! ## The clients of one worker -/

/-- A control step of the worker. -/
lemma Answered.control {w : ℕ} {ml : ℕ → Bool} {pc : WorkerPc} (h : Answered s w)
    (hc : WorkerControl s w (s.worker w).pc ml pc)
    (henter : (s.worker w).pc = .head → pc = .test → s.stopThreads = false)
    (hquits : (s.worker w).pc = .inner → pc = .head → s.stopThreads = true) :
    Answered ({ s with ml := ml }.setWorker w { s.worker w with pc := pc }) w := by
  obtain ⟨s', hs'⟩ : ∃ s', s' = { s with ml := ml }.setWorker w { s.worker w with pc := pc } :=
    ⟨_, rfl⟩
  rw [← hs']
  have hat : (s'.worker w).pc = pc := by simp [hs']
  have hsettled : s'.Settled w ↔ s.Settled w := by simp [State.Settled, hs']
  have hahead : s'.Ahead w ↔ s.Ahead w := by
    simp [State.Ahead, State.inService, State.Has, hs', hc.notClose]
  have hboth : (pc.replied = true → s.Ahead w) → (pc.replied = false → s.Settled w ∨
      s.Ahead w ∧ s.stopThreads = true ∧ (pc = .head ∨ pc = .exited)) → Answered s' w := by
    intro hreplied hother
    rw [← hahead] at hreplied
    have hstop : s'.stopThreads = s.stopThreads := by rw [hs']; rfl
    rw [← hahead, ← hsettled, ← hstop] at hother
    subst hat
    exact ⟨hreplied, hother⟩
  generalize hpc : (s.worker w).pc = pc₀ at hc henter hquits
  have hstays : pc.replied = false → pc₀.replied = false →
      (s.stopThreads = false ∨ pc₀ ≠ .head ∧ pc₀ ≠ .exited) → Answered s' w := by
    intro hno hno' hgoes
    subst hpc
    exact hboth (fun hyes => by simp [hno] at hyes) fun _ => Or.inl (h.settled hno' hgoes)
  cases hc with
  | stopped hstop =>
      refine hboth (by simp [WorkerPc.replied]) fun _ => ?_
      refine (h.other (by rw [hpc]; rfl)).imp_right ?_
      rintro ⟨hrun, -, -⟩
      exact ⟨hrun, hstop, Or.inr rfl⟩
  | enter => exact hstays rfl rfl (Or.inl (henter rfl rfl))
  | quits =>
      refine hboth (by simp [WorkerPc.replied]) fun _ => Or.inr ⟨?_, hquits rfl rfl, Or.inl rfl⟩
      exact h.replied (by rw [hpc]; rfl)
  | finish => exact hboth (fun _ => h.replied (by rw [hpc]; rfl)) (by simp [WorkerPc.replied])
  | lock hml => exact hboth (fun _ => h.replied (by rw [hpc]; rfl)) (by simp [WorkerPc.replied])
  | _ => exact hstays rfl rfl (Or.inr (by simp))

/-- `send` succeeds: the worker's client is answered. -/
lemma Answered.sends {w : ℕ} (h : Answered s w) (hflags : Flags s)
    (hpc : (s.worker w).pc = .send) :
    Answered (s.setWorker w ⟨.inner, List.replicate buffSize 0,
      (s.worker w).replies ++ [((s.args w).clientFd, (s.worker w).buffOutput)]⟩) w := by
  have hup : (s.args w).flag = 1 := hflags.serving w (by rw [hpc]; rfl)
  have hsettled : s.Settled w := h.settled (by rw [hpc]; rfl) (Or.inr (by simp [hpc]))
  rw [State.Settled] at hsettled
  refine ⟨fun _ => ?_, by simp [WorkerPc.replied]⟩
  simp [State.Ahead, State.inService, State.Has, hup, hsettled]

/-- The flag goes down: the client is answered and still the worker's. -/
lemma Answered.clearFlag {w : ℕ} (h : Answered s w) (hflags : Flags s)
    (hpc : (s.worker w).pc = .clearFlag) :
    Answered ((s.setCell w { s.args w with flag := 0 }).setWorker w
      { s.worker w with pc := .close }) w := by
  have hup : (s.args w).flag = 1 := hflags.serving w (by rw [hpc]; rfl)
  have hahead : s.Ahead w := h.replied (by rw [hpc]; rfl)
  rw [State.Ahead, State.inService, if_pos (Or.inl hup)] at hahead
  refine ⟨fun _ => ?_, by simp [WorkerPc.replied]⟩
  simp [State.Ahead, State.inService, State.Has, hahead]

/-- The worker closes the client it has answered. -/
lemma Answered.close {w : ℕ} (h : Answered s w) (hpc : (s.worker w).pc = .close) :
    Answered ((s.closeFd (some w) (s.args w).clientFd).setWorker w
      { s.worker w with pc := .unlock }) w := by
  have hahead : s.Ahead w := h.replied (by rw [hpc]; rfl)
  rw [State.Ahead, State.inService, if_pos (Or.inr hpc)] at hahead
  refine ⟨by simp [WorkerPc.replied], fun _ => Or.inl ?_⟩
  simp [State.Settled, hahead]

/-- `main` writes a cell whose worker has no client; that worker has answered what it has
closed. -/
lemma Answered.written {w : ℕ} (h : Answered s w) (hlocked : Locked s) (hflags : Flags s)
    (hwrites : s.mainPc.writes = some w) (hworker : s'.worker w = s.worker w)
    (hclosed : closedBy s'.log w = closedBy s.log w) : Answered s' w := by
  have hidle := not_has_of_writes hlocked hflags hwrites
  have hsettled : s.Settled w := by
    cases hpc : (s.worker w).pc.replied with
    | false =>
        rcases h.other hpc with hsettled | ⟨hahead, -, -⟩
        · exact hsettled
        · rwa [State.Ahead, State.inService, if_neg hidle, List.append_nil] at hahead
    | true =>
        have hahead := h.replied hpc
        rwa [State.Ahead, State.inService, if_neg hidle, List.append_nil] at hahead
  have hno : (s.worker w).pc.replied = false := by
    have hserves := hflags.serving w
    by_contra hyes
    refine hidle ?_
    cases hpc : (s.worker w).pc <;> simp_all [WorkerPc.replied, WorkerPc.serves, State.Has]
  rw [State.Settled, ← hclosed, ← hworker] at hsettled
  exact ⟨fun hyes => by simp [hworker, hno] at hyes, fun _ => Or.inl hsettled⟩

lemma answered_step {a : Action} (hlocked : Locked s) (hflags : Flags s)
    (h : ∀ w, Answered s w) (hstep : step cfg s a = some s') (v : ℕ) : Answered s' v := by
  have hstop := stop_kept hstep
  have hframe : s'.worker v = s.worker v → closedBy s'.log v = closedBy s.log v →
      s'.args v = s.args v → Answered s' v :=
    fun hworker hclosed hcell => (h v).frame hworker hclosed hcell hstop
  cases moves_of_step hstep with
  | accepts hpc hno hfd => exact hframe rfl (by simp) rfl
  | clean hpc hi hfd => exact hframe rfl (by simp) rfl
  | @setFd i hpc =>
      by_cases hv : v = i
      · subst hv
        exact (h v).written hlocked hflags (by rw [hpc]; rfl) rfl rfl
      · exact hframe rfl rfl (by simp [hv])
  | @setFdNo i hpc =>
      by_cases hv : v = i
      · subst hv
        exact (h v).written hlocked hflags (by rw [hpc]; rfl) rfl rfl
      · exact hframe rfl rfl (by simp [hv])
  | @setFlag i hpc =>
      by_cases hv : v = i
      · subst hv
        exact (h v).written hlocked hflags (by rw [hpc]; rfl) rfl (by simp)
      · exact hframe rfl (by simp) (by simp [hv])
  | @worker w ok ml pc hw hc =>
      by_cases hv : v = w
      · subst hv
        have hreads := worker_reads_stop hstep
        refine (h v).control hc (fun hpc hpc' => hreads.1 hpc ?_) fun hpc hpc' => hreads.2 hpc ?_
        · simpa using hpc'
        · simpa using hpc'
      · exact hframe (by simp [hv]) rfl rfl
  | @sends w ok hpc =>
      by_cases hv : v = w
      · subst hv
        exact (h v).sends hflags hpc
      · exact hframe (by simp [hv]) rfl rfl
  | @clearFlag w ok hpc =>
      by_cases hv : v = w
      · subst hv
        exact (h v).clearFlag hflags hpc
      · exact hframe (by simp [hv]) rfl (by simp [hv])
  | @close w ok hpc =>
      by_cases hv : v = w
      · subst hv
        exact (h v).close hpc
      · exact hframe (by simp [hv]) (by simp [Ne.symm hv]) rfl
  | _ => exact hframe rfl rfl rfl

/-- The clients a worker has answered are the ones it was handed, in that order, and among
them all those it has closed. -/
theorem answered_of_reach {ok : State → Action → Prop} (h : Reach (step cfg) ok init s) (w : ℕ) :
    closedBy s.log w <+: (s.worker w).replies.map Prod.fst ∧
      (s.worker w).replies.map Prod.fst <+: handedTo s.log w := by
  have hanswered : ∀ v, Answered s v :=
    h.invariant_along (I := fun u => ∀ v, Answered u v) answered_init
      fun _ _ _ hrun hI _ hstep =>
        answered_step (kept_of_reach hrun).locked (kept_of_reach hrun).flags hI hstep
  have hserved := (kept_of_reach h).books.served w
  have hcases : s.Settled w ∨ s.Ahead w := by
    cases hpc : (s.worker w).pc.replied with
    | true => exact Or.inr ((hanswered w).replied hpc)
    | false => exact ((hanswered w).other hpc).imp_right And.left
  rw [hserved]
  rcases hcases with hsettled | hahead
  · rw [State.Settled] at hsettled
    rw [hsettled]
    exact ⟨List.prefix_rfl, List.prefix_append _ _⟩
  · rw [State.Ahead] at hahead
    rw [hahead]
    exact ⟨List.prefix_append _ _, List.prefix_rfl⟩

/-! ## The reply -/

/-- The clients worker `w` has answered are the first it was handed, those it has closed among
them, and each of them received the message. -/
def State.Greeted (s : State) (w : ℕ) : Prop :=
  ∃ fds, closedBy s.log w <+: fds ∧ fds <+: handedTo s.log w ∧
    (s.worker w).replies = fds.map fun fd => (fd, serverReply)

lemma greeted_iff_forall {ok : State → Action → Prop} (h : Reach (step cfg) ok init s) (w : ℕ) :
    s.Greeted w ↔ ∀ r ∈ (s.worker w).replies, r.2 = serverReply := by
  constructor
  · rintro ⟨fds, -, -, hreplies⟩ r hr
    rw [hreplies] at hr
    obtain ⟨fd, -, rfl⟩ := List.mem_map.mp hr
    rfl
  · intro hall
    obtain ⟨hclosed, hhanded⟩ := answered_of_reach h w
    refine ⟨_, hclosed, hhanded, ?_⟩
    rw [List.map_map]
    refine (List.map_id _).symm.trans (List.map_congr_left fun r hr => ?_)
    exact Prod.ext rfl (hall r hr)

/-- **Who receives the message.**  In every state of every run, all clients a worker has
answered have received the message if and only if it has answered at most one. -/
theorem greeted_of_reach (h : Reach (step cfg) Anything init s) (w : ℕ) :
    s.Greeted w ↔ (s.worker w).replies.length ≤ 1 := by
  rw [greeted_iff_forall h]
  exact (spoken_of_reach h w).forall_iff

/-- A worker's first client is greeted, and its second one is not. -/
theorem greeted_of_reach_first_client : ∃ s t,
    exec (step ⟨2, Nat.two_pos, fun _ => true⟩) init (clientTurn 2 4 ++ serve 0) = some s ∧
      (s.worker 0).replies = [(4, serverReply)] ∧ s.Greeted 0 ∧
      exec (step ⟨2, Nat.two_pos, fun _ => true⟩) init
        (clientTurn 2 4 ++ serve 0 ++ .main :: clientTurn 2 5 ++ serve 0) = some t ∧
      (t.worker 0).replies = [(4, serverReply), (5, zeroReply)] ∧ ¬ t.Greeted 0 := by
  have hone : (exec (step ⟨2, Nat.two_pos, fun _ => true⟩) init (clientTurn 2 4 ++ serve 0)).map
      (fun s => (s.worker 0).replies) = some [(4, serverReply)] := by
    decide +kernel
  have htwo : (exec (step ⟨2, Nat.two_pos, fun _ => true⟩) init
      (clientTurn 2 4 ++ serve 0 ++ .main :: clientTurn 2 5 ++ serve 0)).map
      (fun s => (s.worker 0).replies) = some [(4, serverReply), (5, zeroReply)] := by
    decide +kernel
  obtain ⟨s, hs, hone⟩ := Option.map_eq_some_iff.mp hone
  obtain ⟨t, ht, htwo⟩ := Option.map_eq_some_iff.mp htwo
  refine ⟨s, t, hs, hone, (greeted_of_reach (Reach.of_exec hs) 0).mpr ?_, ht, htwo, fun hall => ?_⟩
  · rw [hone]
    exact le_rfl
  · have hshort := (greeted_of_reach (Reach.of_exec ht) 0).mp hall
    rw [htwo] at hshort
    exact absurd hshort (by decide)

/-- The second client of the first worker receives zeros. -/
theorem second_client_gets_zeros :
    ¬ ∀ (cfg : Config) (s : State), Reach (step cfg) Anything init s → ∀ w, s.Greeted w := by
  intro hclaim
  have hrun : (exec (step ⟨2, Nat.two_pos, fun _ => true⟩) init
      (clientTurn 2 4 ++ serve 0 ++ .main :: clientTurn 2 5 ++ serve 0)).map
        (fun s => (s.worker 0).replies.all fun r => decide (r.2 = serverReply)) = some false := by
    decide +kernel
  obtain ⟨s, hs, hwrong⟩ := Option.map_eq_some_iff.mp hrun
  have hreach := Reach.of_exec hs
  have hall := (greeted_iff_forall hreach 0).mp (hclaim _ s hreach 0)
  rw [List.all_eq_false] at hwrong
  obtain ⟨r, hr, hne⟩ := hwrong
  exact hne (by simpa using hall r hr)

end ThreadPool
end EltSummer
