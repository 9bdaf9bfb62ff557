import EltSummer.HighloadServers.IndexMessages

/-!
# The producer-consumer server with texts in its queue

The machine of the server has the indices themselves in its queue.  Here it has the texts beside
them: `main` appends what `encode` makes of `count`, a worker takes the first text into its
`msg_from_que_buff` and reads it, and zeroes the buffer behind the exchange.  Both run on the
same schedule, and the texts alone decide what a worker reads.

Every run of the machine is one of the two together, and wherever it comes the texts are those
of the indices and the workers have read the indices (`spelled_of_exec`).
-/

namespace EltSummer
namespace ProducerConsumer

open Block CString Interleaving Function

/-! ## The texts -/

/-- The queue, and two locals of each worker. -/
structure Texts where
  que : List (List UInt8)
  msgFromQueBuff : ℕ → List UInt8
  cliFdNoFromQue : ℕ → ℤ

/-- Nothing has been sent; `cli_fd_no_from_que` is not initialised. -/
def Texts.init (stack : ℕ → ℤ) : Texts := ⟨[], fun _ => zeros, stack⟩

/-- `mq_receive` and `atoi` in worker `w`. -/
def Texts.receive (x : Texts) (w : ℕ) (interrupted : Bool) : Option Texts :=
  match x.que, interrupted with
  | bytes :: rest, false =>
      (decode (x.msgFromQueBuff w) bytes).map fun (buff, no) =>
        { que := rest
          msgFromQueBuff := update x.msgFromQueBuff w buff
          cliFdNoFromQue := update x.cliFdNoFromQue w no }
  | _, _ => some x

/-- What a statement of the machine in state `s` does to the texts. -/
def textStep (s : State) (x : Texts) : Action → Option Texts
  | .mqSend =>
      if x.que.length < maxMsg then
        (encode s.count).map fun bytes => { x with que := x.que ++ [bytes] }
      else some x
  | .worker w interrupted =>
      match (s.worker w).pc with
      | .receive => x.receive w interrupted
      -- `memset`, behind the last statement of the turn
      | .unmark => some { x with msgFromQueBuff := update x.msgFromQueBuff w zeros }
      | _ => some x
  | _ => some x

/-- The machine and the texts. -/
def bothStep (cfg : Config) (p : State × Texts) (a : Action) : Option (State × Texts) :=
  (step cfg p.1 a).bind fun s => (textStep p.1 p.2 a).map fun x => (s, x)

/-! ## How they belong together -/

/-- The worker has no index. -/
def WorkerPc.waits : WorkerPc → Bool
  | .head | .receive | .exited => true
  | _ => false

/-- A worker, its buffer and the index it has read. -/
structure Worker.Reads (k : Worker) (buff : List UInt8) (no : ℤ) : Prop where
  waits : k.pc.waits = true → buff = zeros
  reads : k.pc.waits = false → no = k.cliFdNoFromQue
  flag : k.pc = .check → k.flagConnect = 1

/-- The texts are those of the machine. -/
structure Spelled (pool : Pool) (s : State) (x : Texts) : Prop where
  que : x.que = s.que.map decimal
  small : ∀ i ∈ s.que, i < pool.startAllocSize
  count : s.mainPc = .mqSend → s.count < pool.startAllocSize
  worker : ∀ w, (s.worker w).Reads (x.msgFromQueBuff w) (x.cliFdNoFromQue w)

variable {pool : Pool} {cfg : Config} {s s' : State} {x : Texts}

lemma spelled_init (pool : Pool) (stack : ℕ → ℤ) : Spelled pool init (.init stack) :=
  ⟨rfl, by simp [init], by simp [init],
    fun _ => ⟨fun _ => rfl, by simp [init, WorkerPc.waits], by simp [init]⟩⟩

/-! ## Steps of `main` -/

lemma Spelled.frame (h : Spelled pool s x) (hque : s'.que = s.que)
    (hworker : s'.worker = s.worker)
    (hcount : s'.mainPc = .mqSend → s'.count < pool.startAllocSize) : Spelled pool s' x :=
  ⟨hque ▸ h.que, hque ▸ h.small, hcount, hworker ▸ h.worker⟩

/-- `mq_send` appends the index where there is room, and gives the connection up elsewhere. -/
lemma mqSend_cases (h : step cfg s .mqSend = some s') : s.mainPc = .mqSend ∧
    (s.que.length < maxMsg ∧ s' = { s with mainPc := .bump, que := s.que ++ [s.count] } ∨
      ¬ s.que.length < maxMsg ∧
        s' = { s with mainPc := .bump, lost := insert (s.clientsFd s.count) s.lost }) := by
  cases hpc : s.mainPc <;> simp only [step, mainStep, hpc, reduceCtorEq] at h
  refine ⟨rfl, ?_⟩
  by_cases hroom : s.que.length < maxMsg
  · rw [if_pos hroom] at h
    exact Or.inl ⟨hroom, (Option.some.inj h).symm⟩
  · rw [if_neg hroom] at h
    exact Or.inr ⟨hroom, (Option.some.inj h).symm⟩

/-- `mq_send`. -/
lemma Spelled.sends (h : Spelled pool s x) (hstep : step pool.toConfig s .mqSend = some s') :
    ∃ x', textStep s x .mqSend = some x' ∧ Spelled pool s' x' := by
  obtain ⟨hpc, hcases⟩ := mqSend_cases hstep
  have hlt := h.count hpc
  have hlen : x.que.length = s.que.length := by rw [h.que, List.length_map]
  rw [textStep, hlen, encode_eq (hlt.trans pool.isInt)]
  rcases hcases with ⟨hroom, rfl⟩ | ⟨hfull, rfl⟩
  · refine ⟨{ x with que := x.que ++ [decimal s.count] }, if_pos hroom, ?_, ?_, by simp, h.worker⟩
    · rw [h.que, List.map_append, List.map_singleton]
    · intro i hi
      rcases List.mem_append.mp hi with hi | hi
      · exact h.small i hi
      · rwa [List.mem_singleton.mp hi]
  · exact ⟨x, if_neg hfull, h.que, h.small, by simp, h.worker⟩

/-! ## Steps of a worker -/

/-- How a worker moves, and what it leaves in the queue. -/
inductive Worked (s : State) (k : Worker) (interrupted : Bool) : Worker → List ℕ → Prop
  | receives {i : ℕ} {rest : List ℕ} (hpc : k.pc = .receive) (hque : s.que = i :: rest)
      (hread : interrupted = false) :
      Worked s k interrupted { k with pc := .fill, cliFdNoFromQue := i } rest
  | misses (hpc : k.pc = .receive) (hno : s.que = [] ∨ interrupted = true) :
      Worked s k interrupted { k with pc := .head } s.que
  | unmarks (hpc : k.pc = .unmark) :
      Worked s k interrupted { k with pc := .head, flagConnect := 0 } s.que
  | goesOn {k' : Worker} (hreceive : k.pc ≠ .receive) (hunmark : k.pc ≠ .unmark)
      (hwaits : k'.pc.waits = k.pc.waits) (hno : k'.cliFdNoFromQue = k.cliFdNoFromQue)
      (hflag : k'.pc = .check → k'.flagConnect = 1) : Worked s k interrupted k' s.que

lemma worked {w : ℕ} {k : Worker} {interrupted : Bool} (hflag : k.pc = .check → k.flagConnect = 1)
    (h : workerStep cfg s w k interrupted = some s') :
    ∃ k', Worked s k interrupted k' s'.que ∧ s'.worker = update s.worker w k' ∧
      s'.mainPc = s.mainPc ∧ s'.count = s.count := by
  have hgoes : ∀ {pc : WorkerPc} {k' : Worker}, k.pc = pc → pc ≠ .receive → pc ≠ .unmark →
      s'.worker = update s.worker w k' → s'.que = s.que → s'.mainPc = s.mainPc →
      s'.count = s.count → k'.pc.waits = pc.waits → k'.cliFdNoFromQue = k.cliFdNoFromQue →
      (k'.pc = .check → k'.flagConnect = 1) →
      ∃ k', Worked s k interrupted k' s'.que ∧ s'.worker = update s.worker w k' ∧
        s'.mainPc = s.mainPc ∧ s'.count = s.count := by
    rintro pc k' rfl hreceive hunmark hworker hque hmain hcount hwaits hno hcheck
    exact ⟨k', hque ▸ .goesOn hreceive hunmark hwaits hno hcheck, hworker, hmain, hcount⟩
  cases hpc : k.pc with
  | head =>
      simp only [workerStep, hpc, Option.some.injEq] at h
      subst h
      refine hgoes hpc nofun nofun rfl rfl rfl rfl ?_ rfl ?_
      · cases s.stopThreads <;> rfl
      · cases s.stopThreads <;> nofun
  | receive =>
      cases hque : s.que with
      | nil =>
          simp only [workerStep, hpc, hque, Option.some.injEq] at h
          subst h
          exact ⟨_, .misses hpc (Or.inl hque), rfl, rfl, rfl⟩
      | cons i rest =>
          cases interrupted with
          | false =>
              simp only [workerStep, hpc, hque, Option.some.injEq] at h
              subst h
              exact ⟨_, .receives hpc hque rfl, rfl, rfl, rfl⟩
          | true =>
              simp only [workerStep, hpc, hque, Option.some.injEq] at h
              subst h
              exact ⟨_, .misses hpc (Or.inr rfl), rfl, rfl, rfl⟩
  | fill =>
      simp only [workerStep, hpc, Option.ite_none_right_eq_some, Option.some.injEq] at h
      obtain ⟨-, rfl⟩ := h
      exact hgoes hpc nofun nofun rfl rfl rfl rfl rfl rfl nofun
  | mark =>
      simp only [workerStep, hpc, Option.some.injEq] at h
      subst h
      exact hgoes hpc nofun nofun rfl rfl rfl rfl rfl rfl fun _ => rfl
  | check =>
      -- the flag is up, so the test does not send the worker back to the head of its loop
      simp only [workerStep, hpc, hflag hpc, if_true, Option.some.injEq] at h
      subst h
      exact hgoes hpc nofun nofun rfl rfl rfl rfl rfl rfl nofun
  | unmark =>
      simp only [workerStep, hpc, Option.some.injEq] at h
      subst h
      exact ⟨_, .unmarks hpc, rfl, rfl, rfl⟩
  | exited => simp [workerStep, hpc] at h
  | _ =>
      simp only [workerStep, hpc, Option.some.injEq] at h
      subst h
      exact hgoes hpc nofun nofun rfl rfl rfl rfl rfl rfl nofun

/-- The texts, where one worker has moved and reads what is in `x'`. -/
lemma Spelled.moves {x' : Texts} (h : Spelled pool s x) {w : ℕ} {k : Worker}
    (hworker : s'.worker = update s.worker w k) (hmain : s'.mainPc = s.mainPc)
    (hcount : s'.count = s.count) (hque : x'.que = s'.que.map decimal) (hsmall : s'.que ⊆ s.que)
    (hreads : k.Reads (x'.msgFromQueBuff w) (x'.cliFdNoFromQue w))
    (hframe : ∀ v, v ≠ w → x'.msgFromQueBuff v = x.msgFromQueBuff v ∧
      x'.cliFdNoFromQue v = x.cliFdNoFromQue v) : Spelled pool s' x' := by
  refine ⟨hque, fun i hi => h.small i (hsmall hi), ?_, fun v => ?_⟩
  · rw [hmain, hcount]
    exact h.count
  · rw [hworker]
    by_cases hv : v = w
    · subst hv
      rwa [update_self]
    · rw [update_of_ne hv, (hframe v hv).1, (hframe v hv).2]
      exact h.worker v

/-- A worker that receives nothing. -/
lemma Texts.receive_eq_self {w : ℕ} {interrupted : Bool} (hno : x.que = [] ∨ interrupted = true) :
    x.receive w interrupted = some x := by
  unfold Texts.receive
  rcases hno with hno | rfl
  · rw [hno]
  · cases x.que <;> rfl

/-- A worker. -/
lemma Spelled.works (h : Spelled pool s x) {w : ℕ} {interrupted : Bool}
    (hstep : workerStep pool.toConfig s w (s.worker w) interrupted = some s') :
    ∃ x', textStep s x (.worker w interrupted) = some x' ∧ Spelled pool s' x' := by
  have hw := h.worker w
  obtain ⟨k, hk, hworker, hmain, hcount⟩ := worked hw.flag hstep
  generalize hque : s'.que = que at hk
  cases hk with
  | @receives i rest hpc hrest hread =>
      have hsmall : i < pool.startAllocSize := h.small i (hrest ▸ List.mem_cons_self)
      obtain ⟨buff, hbuff⟩ := exists_decode (hsmall.trans pool.isInt)
      have hzeros : x.msgFromQueBuff w = zeros := hw.waits (by rw [hpc]; rfl)
      have hx : x.que = decimal i :: que.map decimal := by rw [h.que, hrest, List.map_cons]
      refine ⟨⟨que.map decimal, update x.msgFromQueBuff w buff, update x.cliFdNoFromQue w i⟩, ?_,
        h.moves hworker hmain hcount (by rw [hque]) ?_ ?_ fun v hv => ?_⟩
      · simp only [textStep, hpc, Texts.receive, hx, hread, hzeros, hbuff, Option.map_some]
      · rw [hque, hrest]
        exact List.subset_cons_self i que
      · exact ⟨nofun, fun _ => update_self .., nofun⟩
      · exact ⟨update_of_ne hv .., update_of_ne hv ..⟩
  | misses hpc hno =>
      have hx : x.que = [] ∨ interrupted = true := hno.imp_left fun hnil => by rw [h.que, hnil]; rfl
      refine ⟨x, ?_, h.moves hworker hmain hcount (by rw [hque, h.que]) ?_ ?_ fun _ _ => ⟨rfl, rfl⟩⟩
      · simp only [textStep, hpc, Texts.receive_eq_self hx]
      · exact hque ▸ List.Subset.refl _
      · exact ⟨fun _ => hw.waits (by rw [hpc]; rfl), nofun, nofun⟩
  | unmarks hpc =>
      refine ⟨{ x with msgFromQueBuff := update x.msgFromQueBuff w zeros }, ?_,
        h.moves hworker hmain hcount (by rw [hque, h.que]) ?_ ?_ fun v hv => ?_⟩
      · simp only [textStep, hpc]
      · exact hque ▸ List.Subset.refl _
      · exact ⟨fun _ => update_self .., nofun, nofun⟩
      · exact ⟨update_of_ne hv .., rfl⟩
  | goesOn hreceive hunmark hwaits hno hflag =>
      refine ⟨x, ?_, h.moves hworker hmain hcount (by rw [hque, h.que]) ?_ ?_ fun _ _ => ⟨rfl, rfl⟩⟩
      · cases hpc : (s.worker w).pc <;> simp only [textStep, hpc]
        · exact absurd hpc hreceive
        · exact absurd hpc hunmark
      · exact hque ▸ List.Subset.refl _
      · exact ⟨fun hk => hw.waits (hwaits ▸ hk), fun hk => hno ▸ hw.reads (hwaits ▸ hk), hflag⟩

/-! ## Runs -/

/-- Whatever step the machine takes, the texts take it too. -/
lemma Spelled.step {a : Action} (h : Spelled pool s x) (hstep : step pool.toConfig s a = some s') :
    ∃ x', textStep s x a = some x' ∧ Spelled pool s' x' := by
  cases a with
  | keyboard =>
      obtain rfl := Option.some.inj hstep
      exact ⟨x, rfl, h.frame rfl rfl h.count⟩
  | worker w interrupted =>
      obtain ⟨-, hstep⟩ := Option.ite_none_right_eq_some.mp hstep
      exact h.works hstep
  | mqSend => exact h.sends hstep
  | _ =>
      obtain ⟨hworker, hque, hcount⟩ := frame_mainStep hstep
      exact ⟨x, rfl, h.frame (hque nofun) hworker hcount⟩

lemma Spelled.run {as : List Action} (h : Spelled pool s x)
    (hrun : exec (ProducerConsumer.step pool.toConfig) s as = some s') :
    ∃ x', exec (bothStep pool.toConfig) (s, x) as = some (s', x') ∧ Spelled pool s' x' := by
  induction as generalizing s x with
  | nil =>
      obtain rfl := Option.some.inj hrun
      exact ⟨x, rfl, h⟩
  | cons a as ih =>
      obtain ⟨s₁, hs₁, hrun⟩ := Option.bind_eq_some_iff.mp hrun
      obtain ⟨x₁, hx₁, h₁⟩ := h.step hs₁
      obtain ⟨x', hx', h'⟩ := ih h₁ hrun
      refine ⟨x', ?_, h'⟩
      have hboth : bothStep pool.toConfig (s, x) a = some (s₁, x₁) := by
        rw [bothStep, hs₁, Option.bind_some, hx₁, Option.map_some]
      rw [exec_cons, hboth, Option.bind_some, hx']

/-- **The texts never fail**: whatever run the machine makes, the texts make it too, and what is
in the queue is the indices written out, and a worker that has an index has read it. -/
theorem spelled_of_exec (pool : Pool) (stack : ℕ → ℤ) {as : List Action}
    (hrun : exec (ProducerConsumer.step pool.toConfig) init as = some s) :
    ∃ x, exec (bothStep pool.toConfig) (init, .init stack) as = some (s, x) ∧ Spelled pool s x :=
  (spelled_init pool stack).run hrun

end ProducerConsumer
end EltSummer
