import EltSummer.HighloadServers.ClientThreads

/-!
# Every thread serves its own client

In any interleaving.  What `main` does to its arrays is what it does in `ThreadPerClient`, so its
invariant holds between any two steps (`Hand`); a thread runs only while the arrays are there
(`Alive`).  So each call of a thread is about the client whose arrival it was created for, and the
calls of a thread are those of its function, in their order (`Contacted`).
-/

namespace EltSummer
namespace ClientThreads

open Block Interleaving RacyCounter Function
open ThreadPerClient (Server Config Create created created_append created_storesEntry
  created_storesArg created_creates mem_created)

variable {srv : Server} {cfg : Config} {w : Worker srv} {s s' : State srv} {k : ℕ}

/-! ## The hand-over -/

/-- The invariant holds for more turns than have been taken. -/
lemma inv_append {turns : List (ThreadPerClient.Turn srv)} {mem : ThreadPerClient.State srv}
    (h : ThreadPerClient.Inv cfg turns mem) (more : List (ThreadPerClient.Turn srv)) :
    ThreadPerClient.Inv cfg (turns ++ more) mem := by
  refine { h with given := fun k i thread hc => ?_ }
  obtain ⟨c, hturn, hok, hentry, harg⟩ := h.given k i thread hc
  refine ⟨c, ?_, hok, hentry, harg⟩
  rw [List.getElem?_append_left (List.getElem?_eq_some_iff.mp hturn).1]
  exact hturn

/-- The arrays between two steps, and what the turn in hand has brought. -/
structure Hand (cfg : Config) (s : State srv) : Prop where
  inv : ThreadPerClient.Inv cfg s.turns s.mem
  turns : s.turns.length = s.mem.count
  room : s.mem.count < cfg.startAllocSize
  inLoop : s.mainPc.inLoop = true → s.mem.count + 1 < cfg.startAllocSize
  idle : s.mainPc.holds = false → s.brought = none
  brought : s.mainPc.holds = true → ∃ c, s.brought = some c ∧ srv.failed c = false ∧
    s.mem.clients[s.mem.count]? = some (srv.entry c)
  prepared : s.mainPc = .create → ∀ c, s.brought = some c →
    s.mem.args[s.mem.countThreads]? = some (srv.prepare s.mem.count (srv.entry c))

/-- Only four parts of the state matter. -/
lemma Hand.of_eq (h : Hand cfg s) (hmem : s'.mem = s.mem) (hmain : s'.mainPc = s.mainPc)
    (hturns : s'.turns = s.turns) (hbrought : s'.brought = s.brought) : Hand cfg s' := by
  constructor
  · rw [hmem, hturns]
    exact h.inv
  · rw [hmem, hturns]
    exact h.turns
  · rw [hmem]
    exact h.room
  · rw [hmem, hmain]
    exact h.inLoop
  · rw [hmain, hbrought]
    exact h.idle
  · rw [hmem, hmain, hbrought]
    exact h.brought
  · rw [hmem, hmain, hbrought]
    exact h.prepared

lemma hand_start (srv : Server) (cfg : Config) : Hand cfg (start srv cfg) where
  inv := ThreadPerClient.inv_init cfg []
  turns := rfl
  room := Nat.lt_of_lt_of_le Nat.zero_lt_two cfg.two_le
  inLoop := fun _ => cfg.two_le
  idle := fun _ => rfl
  brought := nofun
  prepared := nofun

/-- Behind a turn, whatever became of it. -/
lemma hand_endTurn {turn : ThreadPerClient.Turn srv} {mem : ThreadPerClient.State srv}
    (hinv : ThreadPerClient.Inv cfg (s.turns ++ [turn]) mem.bump)
    (hturns : s.turns.length = mem.count) (hroom : mem.count + 1 < cfg.startAllocSize) :
    Hand cfg (s.endTurn cfg turn mem) where
  inv := hinv
  turns := by
    show (s.turns ++ [turn]).length = mem.count + 1
    rw [List.length_append, hturns, List.length_singleton]
  room := hroom
  inLoop := by
    intro hin
    have hne : mem.bump.count ≠ cfg.startAllocSize - 1 := by
      intro hfull
      simp [State.endTurn, hfull, MainPc.inLoop] at hin
    have hcount : mem.bump.count = mem.count + 1 := rfl
    show mem.bump.count + 1 < cfg.startAllocSize
    omega
  idle := fun _ => rfl
  brought := by
    intro hholds
    simp only [State.endTurn] at hholds
    split at hholds <;> cases hholds
  prepared := by
    intro hpc
    simp only [State.endTurn] at hpc
    split at hpc <;> cases hpc

/-- Only the cells in front of `count_threads` are given away. -/
lemma Hand.cell_lt {x : ℕ × ℕ × ℕ} (h : Hand cfg s) (hx : x ∈ created s.mem.log) :
    x.1 < s.mem.countThreads := by
  have hmem : x.1 ∈ (created s.mem.log).map fun x => x.1 := List.mem_map_of_mem hx
  rwa [h.inv.cells, List.mem_range] at hmem

/-- `pthread_create` for what the turn has brought. -/
lemma Hand.pthreadCreate {c : srv.Call} {create : Create} {mem : ThreadPerClient.State srv}
    (h : Hand cfg s) (hpc : s.mainPc = .create) (hc : s.brought = some c)
    (hmem : s.mem.pthreadCreate create = some mem) :
    ThreadPerClient.Inv cfg (s.turns ++ [.called c create]) mem.bump ∧ mem.count = s.mem.count := by
  obtain ⟨d, hd, hok, hentry⟩ := h.brought (by rw [hpc]; rfl)
  obtain rfl := Option.some.inj (hd.symm.trans hc)
  have hturn : (s.turns ++ [.called d create])[s.mem.count]? = some (.called d create) := by
    rw [← h.turns]
    exact List.getElem?_concat_length
  obtain ⟨t, ht, hinv, hcount⟩ :=
    (inv_append h.inv _).pthreadCreate h.room hturn hok hentry (h.prepared hpc d hc)
  obtain rfl := Option.some.inj (hmem.symm.trans ht)
  exact ⟨hinv, hcount⟩

lemma Hand.mainMove {o : Outcome srv} (h : Hand cfg s) (hmove : MainMove cfg w s o s') :
    Hand cfg s' := by
  cases hmove with
  | control hc =>
      constructor
      · rw [hc.mem, hc.turns]
        exact h.inv
      · rw [hc.mem, hc.turns]
        exact h.turns
      · rw [hc.mem]
        exact h.room
      · rw [hc.mem]
        exact fun hin => h.inLoop (hc.pc.inLoop hin)
      · rw [hc.brought]
        exact fun _ => h.idle hc.pc.holds.1
      · rw [hc.pc.holds.2]
        nofun
      · intro hpc
        have hholds := hc.pc.holds.2
        rw [hpc] at hholds
        cases hholds
  | refused hpc =>
      refine (hand_endTurn ?_ h.turns (h.inLoop (by rw [hpc]; rfl))).of_eq rfl rfl rfl rfl
      exact (inv_append h.inv _).bump
  | @misses c mem hpc hmem hfailed =>
      have hroom := h.inLoop (by rw [hpc]; rfl)
      obtain ⟨t, ht, hinv, hcount, -⟩ := h.inv.storeEntry h.room (srv.entry c)
      obtain rfl := Option.some.inj (hmem.symm.trans ht)
      refine (hand_endTurn ?_ (h.turns.trans hcount.symm) (hcount ▸ hroom)).of_eq rfl rfl rfl rfl
      exact (inv_append hinv _).bump
  | @brings c mem opened hpc hmem hok hopened =>
      have hroom := h.inLoop (by rw [hpc]; rfl)
      obtain ⟨t, ht, hinv, hcount, hentry⟩ := h.inv.storeEntry h.room (srv.entry c)
      obtain rfl := Option.some.inj (hmem.symm.trans ht)
      refine ⟨hinv, h.turns.trans hcount.symm, hcount ▸ h.room, fun _ => hcount ▸ hroom, nofun,
        fun _ => ⟨c, rfl, hok, ?_⟩, nofun⟩
      rw [hcount]
      exact hentry
  | @prepares mem hpc hmem =>
      obtain ⟨c, hc, hok, hentry⟩ := h.brought (by rw [hpc]; rfl)
      obtain ⟨t, ht, hinv, hcount, hentry', harg⟩ := h.inv.storeArg h.room hentry
      obtain rfl := Option.some.inj (hmem.symm.trans ht)
      refine ⟨hinv, h.turns.trans hcount.symm, hcount ▸ h.room,
        fun _ => hcount ▸ h.inLoop (by rw [hpc]; rfl), nofun, fun _ => ⟨c, hc, hok, ?_⟩,
        fun _ c' hc' => ?_⟩
      · rw [hcount]
        exact hentry'
      · obtain rfl := Option.some.inj (hc.symm.trans hc')
        rw [hcount]
        exact harg
  | @fails c left mem hpc hc hmem =>
      obtain ⟨hinv, hcount⟩ := h.pthreadCreate hpc hc hmem
      refine (hand_endTurn hinv (h.turns.trans hcount.symm) ?_).of_eq rfl rfl rfl rfl
      rw [hcount]
      exact h.inLoop (by rw [hpc]; rfl)
  | @creates c thread mem hpc hc hmem =>
      obtain ⟨hinv, hcount⟩ := h.pthreadCreate hpc hc hmem
      refine (hand_endTurn hinv (h.turns.trans hcount.symm) ?_).of_eq rfl rfl rfl rfl
      rw [hcount]
      exact h.inLoop (by rw [hpc]; rfl)

/-! ## What the arrays know of the threads -/

/-- The store of an arrival creates nothing. -/
lemma storeEntry_created {mem mem' : ThreadPerClient.State srv} {e : srv.Entry}
    (h : mem.storeEntry e = some mem') :
    mem'.countThreads = mem.countThreads ∧ created mem'.log = created mem.log := by
  obtain ⟨clients, -, rfl⟩ := Option.map_eq_some_iff.mp h
  exact ⟨rfl, by simp⟩

lemma storeArg_created {mem mem' : ThreadPerClient.State srv} (h : mem.storeArg = some mem') :
    mem'.countThreads = mem.countThreads ∧ created mem'.log = created mem.log := by
  obtain ⟨e, -, h⟩ := Option.bind_eq_some_iff.mp h
  obtain ⟨args, -, rfl⟩ := Option.map_eq_some_iff.mp h
  exact ⟨rfl, by simp⟩

lemma fails_created {mem mem' : ThreadPerClient.State srv} {left : ℕ}
    (h : mem.pthreadCreate (.fails left) = some mem') :
    mem'.countThreads = mem.countThreads ∧ created mem'.log = created mem.log := by
  obtain ⟨threads, -, rfl⟩ := Option.map_eq_some_iff.mp h
  exact ⟨rfl, rfl⟩

lemma succeeds_created {mem mem' : ThreadPerClient.State srv} {thread : ℕ}
    (h : mem.pthreadCreate (.succeeds thread) = some mem') :
    mem'.countThreads = mem.countThreads + 1 ∧
      created mem'.log = created mem.log ++ [(mem.countThreads, mem.count, thread)] := by
  obtain ⟨threads, -, rfl⟩ := Option.map_eq_some_iff.mp h
  exact ⟨rfl, by simp⟩

/-! ## Which threads run -/

/-- A thread runs between its creation and its join, and the counters are touched by threads at
the head of their loop. -/
structure Alive (s : State srv) : Prop where
  absent : ∀ k, s.client k = .absent ↔ s.mem.countThreads ≤ k
  join : ∀ i, s.mainPc = .join i → ∀ k < i, (s.client k).running = false
  joined : s.mainPc.joined = true → ∀ k, (s.client k).running = false
  freed : s.freed = true → s.mainPc.joined = true
  counts : ∀ k, s.counts (some k) = true → s.client k = .head
  countsMain : none ∉ s.clientsConnectedCount.inside
  errorFlag : Sound s.errorFlag
  clientsConnectedCount : Sound s.clientsConnectedCount

lemma alive_start (srv : Server) (cfg : Config) : Alive (start srv cfg) where
  absent := fun _ => ⟨fun _ => Nat.zero_le _, fun _ => rfl⟩
  join := nofun
  joined := nofun
  freed := nofun
  counts := nofun
  countsMain := Finset.notMem_empty _
  errorFlag := sound_zero
  clientsConnectedCount := sound_zero

lemma not_mem_of_counts {thread : Option ℕ} (h : ¬ s.counts thread = true) :
    thread ∉ s.errorFlag.inside ∧ thread ∉ s.clientsConnectedCount.inside := by
  simpa [State.counts] using h

lemma counts_eq_true {thread : Option ℕ} : s.counts thread = true ↔
    thread ∈ s.errorFlag.inside ∨ thread ∈ s.clientsConnectedCount.inside := by
  simp [State.counts]

lemma Alive.not_joined_of_running (h : Alive s) (hrun : (s.client k).running = true) :
    s.mainPc.joined = false := by
  by_contra hjoined
  rw [h.joined ((Bool.not_eq_false _).mp hjoined) k] at hrun
  cases hrun

lemma Alive.not_freed_of_running (h : Alive s) (hrun : (s.client k).running = true) :
    s.freed = false := by
  by_contra hfreed
  have hjoined := h.freed ((Bool.not_eq_false _).mp hfreed)
  rw [h.not_joined_of_running hrun] at hjoined
  cases hjoined

lemma Alive.lt_of_running (h : Alive s) (hrun : (s.client k).running = true) :
    k < s.mem.countThreads := by
  by_contra hge
  rw [(h.absent k).mpr (Nat.le_of_not_lt hge)] at hrun
  cases hrun

lemma ClientPc.ne_exited {pc : ClientPc} (h : pc.running = true) : pc ≠ .exited := by
  rintro rfl
  cases h

/-- Where all threads are once they are joined. -/
lemma Alive.exited_of_joined (h : Alive s) (hjoined : s.mainPc.joined = true)
    (hk : k < s.mem.countThreads) : s.client k = .exited := by
  have hdone := h.joined hjoined k
  cases hpc : s.client k with
  | absent => exact absurd ((h.absent k).mp hpc) (Nat.not_le_of_lt hk)
  | exited => rfl
  | _ =>
      rw [hpc] at hdone
      cases hdone

lemma Worker.Next.running {pc pc' : ClientPc} {calls : List Call} (h : w.Next pc calls pc') :
    pc.running = true ∧ pc' ≠ .absent := by
  cases h with
  | leave => exact ⟨rfl, by cases w.connected <;> nofun⟩
  | _ => exact ⟨rfl, nofun⟩

lemma Worker.Next.of_send {pc : ClientPc} {calls : List Call} (h : w.Next .send calls pc) :
    pc = .head := by
  cases h
  rfl

/-- A thread's own statement. -/
lemma Alive.clientMove {r : Result} {calls : List Call} {pc : ClientPc} (h : Alive s)
    (hcounts : ¬ s.counts (some k) = true) (hmove : ClientMove w s s' k r calls pc) : Alive s' := by
  obtain ⟨hrun, hpc⟩ := hmove.next.running
  obtain ⟨herror, hcount⟩ := not_mem_of_counts hcounts
  have hjoined := h.not_joined_of_running hrun
  constructor
  · intro j
    rw [hmove.client, hmove.mem]
    by_cases hj : j = k
    · rw [hj, update_self]
      exact iff_of_false hpc (Nat.not_le_of_lt (h.lt_of_running hrun))
    · rw [update_of_ne hj]
      exact h.absent j
  · intro i hi j hj
    rw [hmove.mainPc] at hi
    rw [hmove.client]
    by_cases hjk : j = k
    · rw [hjk] at hj
      rw [h.join i hi k hj] at hrun
      cases hrun
    · rw [update_of_ne hjk]
      exact h.join i hi j hj
  · rw [hmove.mainPc, hjoined]
    nofun
  · rw [hmove.freed, hmove.mainPc]
    exact h.freed
  · intro j hj
    rw [counts_eq_true, hmove.errorFlag, hmove.clientsConnectedCount] at hj
    rw [hmove.client]
    by_cases hjk : j = k
    · have hbegins : (r.fails w || r.sent) = true := by
        by_contra hnone
        obtain ⟨hfails, hsent⟩ := Bool.or_eq_false_iff.mp ((Bool.not_eq_true _).mp hnone)
        rw [hjk, hfails, hsent] at hj
        exact hj.elim herror hcount
      rw [hjk, update_self]
      exact (hmove.counts hbegins ▸ hmove.next).of_send
    · rw [update_of_ne hjk]
      refine h.counts j (counts_eq_true.mpr ?_)
      have hne : some j ≠ some k := fun heq => hjk (Option.some.inj heq)
      refine hj.imp (fun hmem => ?_) (fun hmem => ?_)
      · split at hmem
        · exact (Finset.mem_insert.mp hmem).resolve_left hne
        · exact hmem
      · split at hmem
        · exact (Finset.mem_insert.mp hmem).resolve_left hne
        · exact hmem
  · rw [hmove.clientsConnectedCount]
    split
    · exact fun hmem => h.countsMain ((Finset.mem_insert.mp hmem).resolve_left (by simp))
    · exact h.countsMain
  · rw [hmove.errorFlag]
    split
    · exact h.errorFlag.enter herror
    · exact h.errorFlag
  · rw [hmove.clientsConnectedCount]
    split
    · exact h.clientsConnectedCount.enter hcount
    · exact h.clientsConnectedCount

/-- `main` counts the calls that fail. -/
lemma MainMove.counters {o : Outcome srv} (h : MainMove cfg w s o s') :
    s'.errorFlag = (if o.fails then s.errorFlag.enter none else s.errorFlag) ∧
      s'.clientsConnectedCount = s.clientsConnectedCount := by
  cases h with
  | control h herror hcount hfails => exact ⟨herror, hcount⟩
  | refused => exact ⟨rfl, rfl⟩
  | misses hpc hmem hfailed => exact ⟨(if_pos hfailed).symm, rfl⟩
  | brings hpc hmem hok => exact ⟨(if_neg ((Bool.not_eq_true _).mpr hok)).symm, rfl⟩
  | prepares => exact ⟨rfl, rfl⟩
  | fails => exact ⟨rfl, rfl⟩
  | creates => exact ⟨rfl, rfl⟩

/-- Turns are taken while the threads are not joined. -/
lemma Alive.inLoop (h : Alive s) (hpc : s.mainPc.joined = false) (hclient : s'.client = s.client)
    (hmem : s'.mem.countThreads = s.mem.countThreads) (hfreed : s'.freed = s.freed)
    (hjoin : ∀ i, s'.mainPc ≠ .join i) (hjoined : s'.mainPc.joined = false)
    (hcounts : (∀ k, s'.counts (some k) = true → s'.client k = .head) ∧
      none ∉ s'.clientsConnectedCount.inside ∧ Sound s'.errorFlag ∧
      Sound s'.clientsConnectedCount) : Alive s' where
  absent := by
    intro k
    rw [hclient, hmem]
    exact h.absent k
  join := fun i hi => absurd hi (hjoin i)
  joined := by
    rw [hjoined]
    nofun
  freed := by
    rw [hfreed]
    intro hf
    rw [h.freed hf] at hpc
    cases hpc
  counts := hcounts.1
  countsMain := hcounts.2.1
  errorFlag := hcounts.2.2.1
  clientsConnectedCount := hcounts.2.2.2

lemma endTurn_pc (s : State srv) (cfg : Config) (turn : ThreadPerClient.Turn srv)
    (mem : ThreadPerClient.State srv) :
    (s.endTurn cfg turn mem).mainPc.joined = false ∧
      ∀ i, (s.endTurn cfg turn mem).mainPc ≠ .join i := by
  simp only [State.endTurn]
  split <;> exact ⟨rfl, nofun⟩

lemma Alive.mainMove {o : Outcome srv} (h : Alive s) (hcounts : ¬ s.counts none = true)
    (hmove : MainMove cfg w s o s') : Alive s' := by
  obtain ⟨herror, hcount⟩ := hmove.counters
  have hsound : Sound s'.errorFlag := by
    rw [herror]
    split
    · exact h.errorFlag.enter (not_mem_of_counts hcounts).1
    · exact h.errorFlag
  have hsound' : Sound s'.clientsConnectedCount := hcount ▸ h.clientsConnectedCount
  have hnone : none ∉ s'.clientsConnectedCount.inside := hcount ▸ h.countsMain
  have hsome (k : ℕ) (hk : s'.counts (some k) = true) : s.client k = .head := by
    rw [counts_eq_true, herror, hcount] at hk
    refine h.counts k (counts_eq_true.mpr (hk.imp_left fun hmem => ?_))
    split at hmem
    · exact (Finset.mem_insert.mp hmem).resolve_left (by simp)
    · exact hmem
  cases hmove with
  | control hc =>
      refine ⟨?_, ?_, ?_, ?_, ?_, hnone, hsound, hsound'⟩
      · rw [hc.client, hc.mem]
        exact h.absent
      · intro i hi k hk
        have hpc := hc.pc
        rw [hi] at hpc
        rw [hc.client]
        generalize hfrom : s.mainPc = pc at hpc
        cases hpc with
        | stops => cases hk
        | @joins j hj hdone =>
            rcases Nat.lt_succ_iff_lt_or_eq.mp hk with hlt | rfl
            · exact h.join j hfrom k hlt
            · exact hdone
      · intro hjoined k
        have hpc := hc.pc
        rw [hc.client]
        generalize hfrom : s.mainPc = pc at hpc
        generalize s'.mainPc = pc' at hpc hjoined
        cases hpc with
        | @joinsAll i hall =>
            by_cases hk : k < i
            · exact h.join i hfrom k hk
            · rw [(h.absent k).mpr (by omega)]
              rfl
        | joinsShutdown => exact h.joined (by rw [hfrom]; rfl) k
        | frees => exact h.joined (by rw [hfrom]; rfl) k
        | exits => exact h.joined (by rw [hfrom]; rfl) k
        | _ => cases hjoined
      · intro hfreed
        rcases hc.freed hfreed with hpc | hfreed
        · rw [hpc]
          rfl
        · exact hc.pc.joined (h.freed hfreed)
      · rw [hc.client]
        exact hsome
  | @refused r hpc =>
      obtain ⟨hjoined, hjoin⟩ := endTurn_pc s cfg (.refused r) s.mem
      exact h.inLoop (by rw [hpc]; rfl) rfl rfl rfl hjoin hjoined ⟨hsome, hnone, hsound, hsound'⟩
  | @misses c mem hpc hmem =>
      obtain ⟨hjoined, hjoin⟩ := endTurn_pc s cfg (.called c (.fails 0)) mem
      exact h.inLoop (by rw [hpc]; rfl) rfl (storeEntry_created hmem).1 rfl hjoin hjoined
        ⟨hsome, hnone, hsound, hsound'⟩
  | brings hpc hmem =>
      exact h.inLoop (by rw [hpc]; rfl) rfl (storeEntry_created hmem).1 rfl nofun rfl
        ⟨hsome, hnone, hsound, hsound'⟩
  | prepares hpc hmem =>
      exact h.inLoop (by rw [hpc]; rfl) rfl (storeArg_created hmem).1 rfl nofun rfl
        ⟨hsome, hnone, hsound, hsound'⟩
  | @fails c left mem hpc hc hmem =>
      obtain ⟨hjoined, hjoin⟩ := endTurn_pc s cfg (.called c (.fails left)) mem
      exact h.inLoop (by rw [hpc]; rfl) rfl (fails_created hmem).1 rfl hjoin hjoined
        ⟨hsome, hnone, hsound, hsound'⟩
  | @creates c thread mem hpc hc hmem =>
      obtain ⟨hjoined, hjoin⟩ := endTurn_pc s cfg (.called c (.succeeds thread)) mem
      have hfresh : s.client s.mem.countThreads = .absent := (h.absent _).mpr le_rfl
      refine ⟨fun k => ?_, fun i hi => absurd hi (hjoin i), ?_, ?_, fun k hk => ?_, hnone, hsound,
        hsound'⟩
      · show update s.client s.mem.countThreads _ k = _ ↔ mem.countThreads ≤ k
        rw [(succeeds_created hmem).1]
        by_cases hk : k = s.mem.countThreads
        · rw [hk, update_self]
          exact iff_of_false (by cases w.connected <;> nofun) (Nat.not_succ_le_self _)
        · rw [update_of_ne hk, h.absent k]
          omega
      · intro hj
        exact absurd (hj.symm.trans hjoined) (by simp)
      · intro hfreed
        have hjoined' := h.freed hfreed
        rw [hpc] at hjoined'
        cases hjoined'
      · have hhead := hsome k hk
        have hne : k ≠ s.mem.countThreads := by
          rintro rfl
          rw [hfresh] at hhead
          cases hhead
        show update s.client s.mem.countThreads _ k = _
        rw [update_of_ne hne, hhead]

/-- The steps of the other two kinds: the thread at the terminal, and the parts of an `x++`. -/
structure SideMove (s s' : State srv) : Prop where
  mem : s'.mem = s.mem
  client : s'.client = s.client
  mainPc : s'.mainPc = s.mainPc
  freed : s'.freed = s.freed
  turns : s'.turns = s.turns
  brought : s'.brought = s.brought
  contacts : s'.contacts = s.contacts
  opened : s'.opened = s.opened
  stopThreads : s'.stopThreads = s.stopThreads
  errorFlag : s'.errorFlag = s.errorFlag ∨
    ∃ thread, s.errorFlag.go thread = some s'.errorFlag
  clientsConnectedCount : s'.clientsConnectedCount = s.clientsConnectedCount ∨
    ∃ thread, s.clientsConnectedCount.go thread = some s'.clientsConnectedCount

lemma sideMove_of_shutdownStep {word : Option (List UInt8)} (h : shutdownStep s word = some s') :
    SideMove s s' := by
  cases hpc : s.shutdown with
  | head =>
      simp only [shutdownStep, hpc, Option.some.injEq] at h
      subst h
      exact ⟨rfl, rfl, rfl, rfl, rfl, rfl, rfl, rfl, rfl, Or.inl rfl, Or.inl rfl⟩
  | scan =>
      cases word with
      | none =>
          simp only [shutdownStep, hpc, Option.some.injEq] at h
          subst h
          exact ⟨rfl, rfl, rfl, rfl, rfl, rfl, rfl, rfl, rfl, Or.inl rfl, Or.inl rfl⟩
      | some word =>
          simp only [shutdownStep, hpc] at h
          obtain ⟨-, h⟩ := Option.ite_none_right_eq_some.mp h
          split at h <;>
          · obtain rfl := Option.some.inj h
            exact ⟨rfl, rfl, rfl, rfl, rfl, rfl, rfl, rfl, rfl, Or.inl rfl, Or.inl rfl⟩
  | _ => simp [shutdownStep, hpc] at h

lemma sideMove_of_countStep {thread : Option ℕ} (h : countStep s thread = some s') :
    SideMove s s' := by
  unfold countStep at h
  split at h
  · obtain ⟨c, hc, rfl⟩ := Option.map_eq_some_iff.mp h
    exact ⟨rfl, rfl, rfl, rfl, rfl, rfl, rfl, rfl, rfl, Or.inr ⟨thread, hc⟩, Or.inl rfl⟩
  · obtain ⟨c, hc, rfl⟩ := Option.map_eq_some_iff.mp h
    exact ⟨rfl, rfl, rfl, rfl, rfl, rfl, rfl, rfl, rfl, Or.inl rfl, Or.inr ⟨thread, hc⟩⟩

lemma Alive.sideMove (h : Alive s) (hmove : SideMove s s') : Alive s' := by
  have herror : s'.errorFlag.inside ⊆ s.errorFlag.inside ∧ Sound s'.errorFlag := by
    rcases hmove.errorFlag with heq | ⟨thread, hgo⟩
    · rw [heq]
      exact ⟨Finset.Subset.refl _, h.errorFlag⟩
    · exact ⟨go_inside_subset hgo, h.errorFlag.go hgo⟩
  have hcount : s'.clientsConnectedCount.inside ⊆ s.clientsConnectedCount.inside ∧
      Sound s'.clientsConnectedCount := by
    rcases hmove.clientsConnectedCount with heq | ⟨thread, hgo⟩
    · rw [heq]
      exact ⟨Finset.Subset.refl _, h.clientsConnectedCount⟩
    · exact ⟨go_inside_subset hgo, h.clientsConnectedCount.go hgo⟩
  constructor
  · rw [hmove.client, hmove.mem]
    exact h.absent
  · rw [hmove.mainPc, hmove.client]
    exact h.join
  · rw [hmove.mainPc, hmove.client]
    exact h.joined
  · rw [hmove.freed, hmove.mainPc]
    exact h.freed
  · intro k hk
    rw [hmove.client]
    exact h.counts k (counts_eq_true.mpr
      ((counts_eq_true.mp hk).imp (fun hm => herror.1 hm) (fun hm => hcount.1 hm)))
  · exact fun hmem => h.countsMain (hcount.1 hmem)
  · exact herror.2
  · exact hcount.2

/-! ## One step -/

/-- Which of the three kinds a step is. -/
lemma step_cases {a : Action srv} (h : step cfg w s a = some s') : s.mainPc.ended = false ∧
    ((∃ o, a = .main o ∧ ¬ s.counts none = true ∧ MainMove cfg w s o s') ∨
      (∃ k r calls pc, a = .client k r ∧ ¬ s.counts (some k) = true ∧
        ClientMove w s s' k r calls pc) ∨
      ((∃ word, a = .shutdown word) ∨ ∃ thread, a = .count thread) ∧ SideMove s s') := by
  obtain ⟨hend, h⟩ := Option.ite_none_left_eq_some.mp h
  refine ⟨(Bool.not_eq_true _).mp hend, ?_⟩
  cases a with
  | main o =>
      obtain ⟨hcounts, h⟩ := Option.ite_none_left_eq_some.mp h
      exact Or.inl ⟨o, rfl, hcounts, mainMove_of_step h⟩
  | client k r =>
      obtain ⟨hcounts, h⟩ := Option.ite_none_left_eq_some.mp h
      obtain ⟨calls, pc, hmove⟩ := clientMove_of_step h
      exact Or.inr (Or.inl ⟨k, r, calls, pc, rfl, hcounts, hmove⟩)
  | shutdown word =>
      exact Or.inr (Or.inr ⟨Or.inl ⟨word, rfl⟩, sideMove_of_shutdownStep h⟩)
  | count thread =>
      exact Or.inr (Or.inr ⟨Or.inr ⟨thread, rfl⟩, sideMove_of_countStep h⟩)

lemma Hand.step {a : Action srv} (h : Hand cfg s) (hstep : step cfg w s a = some s') :
    Hand cfg s' := by
  obtain ⟨-, ⟨o, -, -, hmove⟩ | ⟨k, r, calls, pc, -, -, hmove⟩ | ⟨-, hmove⟩⟩ := step_cases hstep
  · exact h.mainMove hmove
  · exact h.of_eq hmove.mem hmove.mainPc hmove.turns hmove.brought
  · exact h.of_eq hmove.mem hmove.mainPc hmove.turns hmove.brought

lemma Alive.step {a : Action srv} (h : Alive s) (hstep : step cfg w s a = some s') :
    Alive s' := by
  obtain ⟨-, ⟨o, -, hcounts, hmove⟩ | ⟨k, r, calls, pc, -, hcounts, hmove⟩ | ⟨-, hmove⟩⟩ :=
    step_cases hstep
  · exact h.mainMove hcounts hmove
  · exact h.clientMove hcounts hmove
  · exact h.sideMove hmove

/-! ## Whom a thread serves -/

/-- Thread `k` was created for an arrival from `p`. -/
def Serves (w : Worker srv) (s : State srv) (k : ℕ) (p : Peer) : Prop :=
  ∃ i c thread, (k, i, thread) ∈ created s.mem.log ∧
    s.turns[i]? = some (.called c (.succeeds thread)) ∧ srv.failed c = false ∧
    p = w.arrived (srv.entry c)

lemma Serves.mono {p : Peer} (h : Serves w s k p)
    (hlog : ∀ x ∈ created s.mem.log, x ∈ created s'.mem.log)
    (hturns : s.turns <+: s'.turns) : Serves w s' k p := by
  obtain ⟨i, c, thread, hc, hturn, hok, hp⟩ := h
  obtain ⟨more, hmore⟩ := hturns
  refine ⟨i, c, thread, hlog _ hc, ?_, hok, hp⟩
  rw [← hmore, List.getElem?_append_left (List.getElem?_eq_some_iff.mp hturn).1]
  exact hturn

/-- What a running thread finds through its pointer. -/
lemma exists_peer (hand : Hand cfg s) (alive : Alive s) (hrun : (s.client k).running = true) :
    ∃ p, s.peer w k = some p ∧ Serves w s k p := by
  have hk : k ∈ (created s.mem.log).map fun x => x.1 := by
    rw [hand.inv.cells, List.mem_range]
    exact alive.lt_of_running hrun
  obtain ⟨⟨_, i, thread⟩, hc, rfl⟩ := List.mem_map.mp hk
  obtain ⟨c, hturn, hok, hentry, harg⟩ := hand.inv.given _ i thread hc
  refine ⟨_, ?_, i, c, thread, hc, hturn, hok, rfl⟩
  rw [State.peer, alive.not_freed_of_running hrun, if_neg Bool.false_ne_true, load_natCast]
  rw [harg, Option.bind_some]
  exact w.found _ i _ hentry

/-! ## What a thread calls -/

/-- The calls thread `k` has made. -/
def State.callsOf (s : State srv) (k : ℕ) : List Call :=
  (s.contacts.filter fun m => m.thread = k).map Contact.call

/-- The exchange before the loop. -/
def Worker.greeting (w : Worker srv) : List Call :=
  if w.connected then [.recv, .send w.answer] else [.send w.answer]

/-- The calls of a whole thread: a connection may be ended by `stop_threads` or in the first turn
of the loop. -/
def Worker.scripts (w : Worker srv) : List (List Call) :=
  if w.connected then [w.greeting ++ [.close], w.greeting ++ [.recv, .close]] else [w.greeting]

/-- The calls a thread has made when it comes to a statement. -/
def Worker.Made (w : Worker srv) : ClientPc → List Call → Prop
  | .absent, calls => calls = []
  | .recv, calls => w.connected = true ∧ calls = []
  | .send, calls => calls ++ [.send w.answer] = w.greeting
  | .head, calls => calls = w.greeting
  | .turn, calls => calls = w.greeting
  | .close, calls => w.connected = true ∧ (calls = w.greeting ∨ calls = w.greeting ++ [.recv])
  | .exited, calls => calls ∈ w.scripts

lemma Worker.Made.next {pc pc' : ClientPc} {calls new : List Call} (h : w.Made pc calls)
    (hnext : w.Next pc new pc') : w.Made pc' (calls ++ new) := by
  cases hnext with
  | recv =>
      obtain ⟨hconn, rfl⟩ := h
      simp [Worker.Made, Worker.greeting, hconn]
  | send => exact h
  | stay => simpa [Worker.Made] using h
  | leave =>
      obtain rfl : calls = w.greeting := h
      cases hconn : w.connected with
      | true => exact ⟨hconn, Or.inl (List.append_nil _)⟩
      | false => simp [Worker.Made, Worker.scripts, hconn]
  | ends hconn =>
      obtain rfl : calls = w.greeting := h
      exact ⟨hconn, Or.inr rfl⟩
  | sleeps hconn => simpa [Worker.Made] using h
  | close =>
      obtain ⟨hconn, rfl | rfl⟩ := h <;> simp [Worker.Made, Worker.scripts, hconn]

/-- Every call so far was about the client of its thread, and is in its place. -/
structure Contacted (w : Worker srv) (s : State srv) : Prop where
  served : ∀ m ∈ s.contacts, Serves w s m.thread m.peer
  made : ∀ k, w.Made (s.client k) (s.callsOf k)

lemma contacted_start (w : Worker srv) (cfg : Config) : Contacted w (start srv cfg) where
  served := nofun
  made := fun _ => rfl

/-- A step that adds no call and moves no thread. -/
lemma Contacted.of_eq (h : Contacted w s) (hclient : s'.client = s.client)
    (hcontacts : s'.contacts = s.contacts)
    (hlog : ∀ x ∈ created s.mem.log, x ∈ created s'.mem.log)
    (hturns : s.turns <+: s'.turns) : Contacted w s' where
  served := by
    intro m hm
    rw [hcontacts] at hm
    exact (h.served m hm).mono hlog hturns
  made := by
    intro k
    rw [hclient, State.callsOf, hcontacts]
    exact h.made k

lemma Contacted.clientMove {r : Result} {calls : List Call} {pc : ClientPc} (hand : Hand cfg s)
    (alive : Alive s) (h : Contacted w s) (hmove : ClientMove w s s' k r calls pc) :
    Contacted w s' := by
  obtain ⟨p, hp, hserves⟩ := exists_peer (w := w) hand alive hmove.next.running.1
  obtain ⟨new, hcontacts, hcalls, hnew⟩ := hmove.contacts
  have hmono {j : ℕ} {q : Peer} (hj : Serves w s j q) : Serves w s' j q :=
    hj.mono (fun x hx => by rw [hmove.mem]; exact hx) (by rw [hmove.turns])
  constructor
  · intro m hm
    rw [hcontacts, List.mem_append] at hm
    rcases hm with hm | hm
    · exact hmono (h.served m hm)
    · obtain ⟨hthread, hpeer⟩ := hnew m hm
      obtain rfl : p = m.peer := Option.some.inj (hp.symm.trans hpeer)
      rw [hthread]
      exact hmono hserves
  · intro j
    have hsplit : s'.callsOf j =
        s.callsOf j ++ (new.filter fun m => m.thread = j).map Contact.call := by
      rw [State.callsOf, hcontacts, List.filter_append, List.map_append]
      rfl
    rw [hsplit, hmove.client]
    by_cases hj : j = k
    · have hall : new.filter (fun m => decide (m.thread = j)) = new :=
        List.filter_eq_self.mpr fun m hm => decide_eq_true ((hnew m hm).1.trans hj.symm)
      rw [hall, hcalls, hj, update_self]
      exact (h.made k).next hmove.next
    · have hnone : new.filter (fun m => decide (m.thread = j)) = [] :=
        List.filter_eq_nil_iff.mpr fun m hm => by simp [(hnew m hm).1, Ne.symm hj]
      rw [hnone, List.map_nil, List.append_nil, update_of_ne hj]
      exact h.made j

lemma Contacted.mainMove {o : Outcome srv} (alive : Alive s) (h : Contacted w s)
    (hmove : MainMove cfg w s o s') : Contacted w s' := by
  cases hmove with
  | control hc =>
      refine h.of_eq hc.client hc.contacts (fun x hx => ?_) (by rw [hc.turns])
      rw [hc.mem]
      exact hx
  | refused hpc => exact h.of_eq rfl rfl (fun x hx => hx) (List.prefix_append _ _)
  | misses hpc hmem =>
      refine h.of_eq rfl rfl (fun x hx => ?_) (List.prefix_append _ _)
      exact (storeEntry_created hmem).2.symm ▸ hx
  | brings hpc hmem =>
      refine h.of_eq rfl rfl (fun x hx => ?_) List.prefix_rfl
      exact (storeEntry_created hmem).2.symm ▸ hx
  | prepares hpc hmem =>
      refine h.of_eq rfl rfl (fun x hx => ?_) List.prefix_rfl
      exact (storeArg_created hmem).2.symm ▸ hx
  | fails hpc hc hmem =>
      refine h.of_eq rfl rfl (fun x hx => ?_) (List.prefix_append _ _)
      exact (fails_created hmem).2.symm ▸ hx
  | @creates c thread mem hpc hc hmem =>
      have hlog : ∀ x ∈ created s.mem.log, x ∈ created mem.log := by
        rw [(succeeds_created hmem).2]
        exact fun x hx => List.mem_append_left _ hx
      constructor
      · exact fun m hm => (h.served m hm).mono hlog (List.prefix_append _ _)
      · intro k
        show w.Made (update s.client s.mem.countThreads _ k) (s.callsOf k)
        by_cases hk : k = s.mem.countThreads
        · have hnone : s.callsOf k = [] := by
            have hmade := h.made k
            rwa [(alive.absent k).mpr hk.ge] at hmade
          rw [hk, update_self, ← hk, hnone]
          cases hconn : w.connected <;> simp [Worker.Made, Worker.greeting, hconn]
        · rw [update_of_ne hk]
          exact h.made k

lemma Contacted.step {a : Action srv} (hand : Hand cfg s) (alive : Alive s) (h : Contacted w s)
    (hstep : step cfg w s a = some s') : Contacted w s' := by
  obtain ⟨-, ⟨o, -, -, hmove⟩ | ⟨k, r, calls, pc, -, -, hmove⟩ | ⟨-, hmove⟩⟩ := step_cases hstep
  · exact h.mainMove alive hmove
  · exact h.clientMove hand alive hmove
  · refine h.of_eq hmove.client hmove.contacts (fun x hx => ?_) (by rw [hmove.turns])
    rw [hmove.mem]
    exact hx

/-! ## Every run -/

/-- What holds between any two steps. -/
structure Formed (cfg : Config) (w : Worker srv) (s : State srv) : Prop where
  hand : Hand cfg s
  alive : Alive s
  contacted : Contacted w s

lemma formed_start (cfg : Config) (w : Worker srv) : Formed cfg w (start srv cfg) :=
  ⟨hand_start srv cfg, alive_start srv cfg, contacted_start w cfg⟩

lemma Formed.step {a : Action srv} (h : Formed cfg w s) (hstep : step cfg w s a = some s') :
    Formed cfg w s' :=
  ⟨h.hand.step hstep, h.alive.step hstep, h.contacted.step h.hand h.alive hstep⟩

lemma formed_of_reach (h : Reach (step cfg w) Anything (start srv cfg) s) : Formed cfg w s :=
  h.invariant (formed_start cfg w) fun _ _ _ hI _ hstep => hI.step hstep

lemma MainPc.joined_of_ended {pc : MainPc} (h : pc.ended = true) : pc.joined = true := by
  cases pc with
  | exited success => rfl
  | _ => cases h

lemma MainPc.holds_of_joined {pc : MainPc} (h : pc.joined = true) : pc.holds = false := by
  cases pc with
  | prepare => cases h
  | create => cases h
  | _ => rfl

/-- The UDP server with room for one turn: a datagram arrives, its thread answers, and all end. -/
def oneTurn : Config := ⟨2, le_rfl⟩

def oneDatagram : List (Action ThreadPerClient.udp) :=
  [.main .ok, .main .ok, .main (.called ⟨5, ⟨List.replicate 16 1, 16⟩⟩), .main .ok,
    .main (.created (.succeeds 7)), .client 0 (.send (List.replicate buffSize 9) true),
    .count (some 0), .main .ok, .count (some 0), .client 0 .ok, .main .ok, .main .ok,
    .shutdown none, .main .ok, .main .ok, .main .ok]

set_option maxRecDepth 4000 in
lemma exec_oneDatagram : ∃ s, exec (step oneTurn udp) (start _ oneTurn) oneDatagram = some s ∧
    s.mainPc = .exited true ∧ s.mem.countThreads = 1 := ⟨_, rfl, rfl, rfl⟩

end ClientThreads
end EltSummer
