import EltSummer.Framework.Block
import EltSummer.Framework.Loop

/-!
# How the one-thread-per-client servers hand arguments over

`sockets_highload_services_27July/server_one_thread_for_one_client_tcp.c` and its UDP sibling.
`main` counts its turns in `count` and the threads it has created in `count_threads`.  What
`accept` or `recvfrom` brings is stored at index `count`; the argument of the next thread is
prepared in cell `count_threads`, and the thread keeps a pointer to that cell while `main` goes
on.  A cell whose thread could not be created is used again, so the two counters drift apart.

The two loops are one definition over what they do differently (`Server`); every access to an
array is checked against `start_alloc_size`.  The log has the stores and the creations in the
order of the statements, so what happens behind a creation can be read off it
(`handedOver`).  `clients_connected_count`, `count_clients_fd` and `error_flag` (the exit status)
are left out.
-/

namespace EltSummer
namespace ThreadPerClient

open Block

/-! ## The two servers -/

/-- What a server keeps for one arrival, what it gives to a thread, and how it gets from one to
the other. -/
structure Server where
  /-- What can end a turn before the call. -/
  Refusal : Type
  /-- The outcome of the call that waits for a client. -/
  Call : Type
  /-- What the arrays indexed by `count` hold at one index. -/
  Entry : Type
  /-- A cell of the array of arguments. -/
  Arg : Type
  failed : Call → Bool
  /-- What the call leaves in the arrays. -/
  entry : Call → Entry
  /-- The argument prepared for a thread. -/
  prepare : ℕ → Entry → Arg
  callocEntry : Entry
  callocArg : Arg

/-- The bytes of a `struct sockaddr_in`. -/
abbrev SockaddrIn : Type := List UInt8

/-- `clients_fd[count]`, `addr_clients[count]` and `addr_clients_size[count]`. -/
structure TcpEntry where
  clientFd : ℤ
  addrClient : SockaddrIn
  addrClientSize : ℕ
  deriving DecidableEq

/-- The TCP server: `listen` may fail, `accept` returns -1 on failure, and the argument is
`count`. -/
def tcp : Server where
  Refusal := Unit
  Call := TcpEntry
  Entry := TcpEntry
  Arg := ℕ
  failed := fun e => e.clientFd = -1
  entry := id
  prepare := fun count _ => count
  callocEntry := ⟨0, List.replicate 16 0, 0⟩
  callocArg := 0

/-- `addr_clients[count]` and `addr_clients_size[count]`. -/
structure UdpEntry where
  addrClient : SockaddrIn
  addrClientSize : ℕ
  deriving DecidableEq

/-- `struct pthread_args`. -/
structure PthreadArgs where
  addrClient : SockaddrIn
  addrClientSize : ℕ
  structCount : ℕ
  deriving DecidableEq

/-- The result of `recvfrom`, and what it leaves in the arrays. -/
structure Recvfrom where
  res : ℤ
  left : UdpEntry
  deriving DecidableEq

/-- The UDP server: `recvfrom` returns -1 on failure, and the argument is a copy of what it
stored, with `count`. -/
def udp : Server where
  Refusal := Empty
  Call := Recvfrom
  Entry := UdpEntry
  Arg := PthreadArgs
  failed := fun r => r.res = -1
  entry := Recvfrom.left
  prepare := fun count e => ⟨e.addrClient, e.addrClientSize, count⟩
  callocEntry := ⟨List.replicate 16 0, 0⟩
  callocArg := ⟨List.replicate 16 0, 0, 0⟩

/-! ## The loop -/

/-- `start_alloc_size`. -/
structure Config where
  startAllocSize : ℕ
  two_le : 2 ≤ startAllocSize

/-- The outcome of `pthread_create`, with what it leaves in the `pthread_t`. -/
inductive Create
  | fails (left : ℕ)
  | succeeds (thread : ℕ)
  deriving DecidableEq

/-- What the environment decides in one turn. -/
inductive Turn (srv : Server)
  | refused (r : srv.Refusal)
  | called (c : srv.Call) (create : Create)

inductive Event
  /-- A store at this index of the arrays indexed by `count`. -/
  | storesEntry (i : ℕ)
  /-- A store into this cell of the arguments. -/
  | storesArg (k : ℕ)
  /-- `pthread_create` has created `thread`, with a pointer to cell `k`, prepared for `i`. -/
  | creates (k i thread : ℕ)
  deriving DecidableEq, Repr

/-- The arrays and the counters of `main`. -/
structure State (srv : Server) where
  clients : List srv.Entry
  threadsClients : List ℕ
  args : List srv.Arg
  count : ℕ
  countThreads : ℕ
  log : List Event

variable {srv : Server}

/-- The arrays as `calloc` leaves them. -/
def init (srv : Server) (cfg : Config) : State srv where
  clients := List.replicate cfg.startAllocSize srv.callocEntry
  threadsClients := List.replicate cfg.startAllocSize 0
  args := List.replicate cfg.startAllocSize srv.callocArg
  count := 0
  countThreads := 0
  log := []

/-- The call stores at index `count`. -/
def State.storeEntry (s : State srv) (e : srv.Entry) : Option (State srv) :=
  (store s.clients s.count e).map fun clients =>
    { s with clients := clients, log := s.log ++ [.storesEntry s.count] }

/-- The argument of the next thread is prepared in cell `count_threads`. -/
def State.storeArg (s : State srv) : Option (State srv) :=
  (load s.clients s.count).bind fun e =>
    (store s.args s.countThreads (srv.prepare s.count e)).map fun args =>
      { s with args := args, log := s.log ++ [.storesArg s.countThreads] }

/-- `pthread_create(&threads_clients[count_threads], ...)`. -/
def State.pthreadCreate (s : State srv) : Create → Option (State srv)
  | .fails left =>
      (store s.threadsClients s.countThreads left).map fun threads =>
        { s with threadsClients := threads }
  | .succeeds thread =>
      (store s.threadsClients s.countThreads thread).map fun threads =>
        { s with
          threadsClients := threads
          countThreads := s.countThreads + 1
          log := s.log ++ [.creates s.countThreads s.count thread] }

/-- `count++`. -/
def State.bump (s : State srv) : State srv := { s with count := s.count + 1 }

/-- One turn of the loop, up to `count++`. -/
def turn (s : State srv) : Turn srv → Option (State srv)
  | .refused _ => some s.bump
  | .called c create =>
      (s.storeEntry (srv.entry c)).bind fun s =>
        if srv.failed c then some s.bump
        else (s.storeArg.bind fun s => s.pthreadCreate create).map State.bump

/-- `while (main_while_var)`, cleared behind these turns; the loop also ends where the arrays
do. -/
def loop (cfg : Config) : List (Turn srv) → State srv → Option (State srv)
  | [], s => some s
  | t :: turns, s =>
      (turn s t).bind fun s =>
        if s.count = cfg.startAllocSize - 1 then some s else loop cfg turns s

/-- The threads that the loop behind `EXIT:` joins. -/
def join (s : State srv) : Option (List ℕ) :=
  Loop.forUpTo s.countThreads
    (fun i joined => (load s.threadsClients i).map fun thread => joined ++ [thread]) []

/-- `main`, and what it joins. -/
def main (srv : Server) (cfg : Config) (turns : List (Turn srv)) :
    Option (State srv × List ℕ) :=
  (loop cfg turns (init srv cfg)).bind fun s => (join s).map fun joined => (s, joined)

/-! ## What a hand-over should be -/

/-- The creations in a log: cell, index and thread. -/
def created (log : List Event) : List (ℕ × ℕ × ℕ) :=
  log.filterMap fun
    | .creates k i thread => some (k, i, thread)
    | _ => none

/-- What a later event must not do to an earlier creation. -/
def Event.Spares : Event → Event → Prop
  | .creates k i _, e => e ≠ .storesArg k ∧ e ≠ .storesEntry i
  | _, _ => True

/-- A thread was given cell `k` for connection `i`: the call of turn `i` and the creation
succeeded, and the cell and the entry hold what they brought. -/
def Given (turns : List (Turn srv)) (s : State srv) (k i thread : ℕ) : Prop :=
  ∃ c, turns[i]? = some (.called c (.succeeds thread)) ∧ srv.failed c = false ∧
    s.clients[i]? = some (srv.entry c) ∧ s.args[k]? = some (srv.prepare i (srv.entry c))

/-- Every thread has a cell and a connection of its own, which stay as they are. -/
structure HandedOver (turns : List (Turn srv)) (s : State srv) (joined : List ℕ) : Prop where
  given : ∀ k i thread, (k, i, thread) ∈ created s.log → Given turns s k i thread
  spared : s.log.Pairwise Event.Spares
  cells : ((created s.log).map fun c => c.1).Nodup
  indices : ((created s.log).map fun c => c.2.1).Nodup
  joined : joined = (created s.log).map fun c => c.2.2

/-! ## One turn -/

/-- The two counters, the arrays, and what has been handed over so far, at the top of the
loop. -/
structure Inv (cfg : Config) (turns : List (Turn srv)) (s : State srv) : Prop where
  clients : s.clients.length = cfg.startAllocSize
  threads : s.threadsClients.length = cfg.startAllocSize
  args : s.args.length = cfg.startAllocSize
  behind : s.countThreads ≤ s.count
  given : ∀ k i thread, (k, i, thread) ∈ created s.log → Given turns s k i thread
  spared : s.log.Pairwise Event.Spares
  cells : ((created s.log).map fun c => c.1) = List.range s.countThreads
  indices : ((created s.log).map fun c => c.2.1).Pairwise (· < ·)
  below : ∀ c ∈ created s.log, c.2.1 < s.count
  joined : ((created s.log).map fun c => c.2.2) = s.threadsClients.take s.countThreads

variable {cfg : Config} {turns : List (Turn srv)} {s s' : State srv}

@[simp] lemma created_nil : created [] = [] := rfl

@[simp] lemma created_append (log log' : List Event) :
    created (log ++ log') = created log ++ created log' := List.filterMap_append

@[simp] lemma created_storesEntry (i : ℕ) : created [.storesEntry i] = [] := rfl

@[simp] lemma created_storesArg (k : ℕ) : created [.storesArg k] = [] := rfl

@[simp] lemma created_creates (k i thread : ℕ) :
    created [.creates k i thread] = [(k, i, thread)] := rfl

lemma mem_created {log : List Event} {k i thread : ℕ} :
    (k, i, thread) ∈ created log ↔ .creates k i thread ∈ log := by
  simp only [created, List.mem_filterMap]
  constructor
  · rintro ⟨e, he, heq⟩
    cases e with
    | creates k' i' thread' =>
        obtain ⟨rfl, rfl, rfl⟩ : k' = k ∧ i' = i ∧ thread' = thread := by simpa using heq
        exact he
    | storesEntry j => simp at heq
    | storesArg j => simp at heq
  · exact fun he => ⟨_, he, rfl⟩

/-- A log may grow by an event that spares the creations in it. -/
lemma spared_concat {log : List Event} {e : Event} (h : log.Pairwise Event.Spares)
    (he : ∀ k i thread, .creates k i thread ∈ log → e ≠ .storesArg k ∧ e ≠ .storesEntry i) :
    (log ++ [e]).Pairwise Event.Spares := by
  refine List.pairwise_append.mpr ⟨h, List.pairwise_singleton _ _, fun a ha b hb => ?_⟩
  obtain rfl := List.mem_singleton.mp hb
  cases a with
  | creates k i thread => exact he k i thread ha
  | storesEntry j => trivial
  | storesArg j => trivial

lemma Inv.cell_lt (h : Inv cfg turns s) {k i thread : ℕ}
    (hc : .creates k i thread ∈ s.log) : k < s.countThreads := by
  have hmem : k ∈ (created s.log).map fun c => c.1 :=
    List.mem_map.mpr ⟨_, mem_created.mpr hc, rfl⟩
  rwa [h.cells, List.mem_range] at hmem

lemma Inv.index_lt (h : Inv cfg turns s) {k i thread : ℕ}
    (hc : .creates k i thread ∈ s.log) : i < s.count :=
  h.below _ (mem_created.mpr hc)

lemma inv_init (cfg : Config) (turns : List (Turn srv)) : Inv cfg turns (init srv cfg) := by
  refine ⟨?_, ?_, ?_, le_rfl, ?_, ?_, ?_, ?_, ?_, ?_⟩ <;> simp [init]

/-- The call stores where nothing has been handed over yet. -/
lemma Inv.storeEntry (h : Inv cfg turns s) (hin : s.count < cfg.startAllocSize) (e : srv.Entry) :
    ∃ s', s.storeEntry e = some s' ∧ Inv cfg turns s' ∧ s'.count = s.count ∧
      s'.clients[s.count]? = some e := by
  have hlt : s.count < s.clients.length := by rwa [h.clients]
  refine ⟨{ s with clients := s.clients.set s.count e, log := s.log ++ [.storesEntry s.count] },
    by rw [State.storeEntry, store_natCast hlt, Option.map_some], ?_, rfl, by simp [hlt]⟩
  refine ⟨by simpa using h.clients, h.threads, h.args, h.behind, fun k i thread hc => ?_,
    spared_concat h.spared fun k i thread hc => ?_, by simpa using h.cells,
    by simpa using h.indices, by simpa using h.below, by simpa using h.joined⟩
  · have hc : (k, i, thread) ∈ created s.log := by simpa using hc
    obtain ⟨c, hturn, hok, hentry, harg⟩ := h.given k i thread hc
    have hne : s.count ≠ i := (h.index_lt (mem_created.mp hc)).ne'
    exact ⟨c, hturn, hok, by simpa [List.getElem?_set_ne hne] using hentry, harg⟩
  · have hne : s.count ≠ i := (h.index_lt hc).ne'
    simpa using hne

/-- The argument is prepared in a cell no thread has. -/
lemma Inv.storeArg (h : Inv cfg turns s) (hin : s.count < cfg.startAllocSize) {e : srv.Entry}
    (he : s.clients[s.count]? = some e) :
    ∃ s', s.storeArg = some s' ∧ Inv cfg turns s' ∧ s'.count = s.count ∧
      s'.clients[s.count]? = some e ∧
      s'.args[s'.countThreads]? = some (srv.prepare s.count e) := by
  have hlt : s.countThreads < s.args.length := by
    rw [h.args]
    exact h.behind.trans_lt hin
  refine ⟨{ s with
      args := s.args.set s.countThreads (srv.prepare s.count e)
      log := s.log ++ [.storesArg s.countThreads] },
    by rw [State.storeArg, load_natCast, he, Option.bind_some, store_natCast hlt, Option.map_some],
    ?_, rfl, he, by simp [hlt]⟩
  refine ⟨h.clients, h.threads, by simpa using h.args, h.behind, fun k i thread hc => ?_,
    spared_concat h.spared fun k i thread hc => ?_, by simpa using h.cells,
    by simpa using h.indices, by simpa using h.below, by simpa using h.joined⟩
  · have hc : (k, i, thread) ∈ created s.log := by simpa using hc
    obtain ⟨c, hturn, hok, hentry, harg⟩ := h.given k i thread hc
    have hne : s.countThreads ≠ k := (h.cell_lt (mem_created.mp hc)).ne'
    exact ⟨c, hturn, hok, hentry, by simpa [List.getElem?_set_ne hne] using harg⟩
  · have hne : s.countThreads ≠ k := (h.cell_lt hc).ne'
    simpa using hne

/-- A thread that is created gets the cell just prepared; one that is not leaves it to the
next. -/
lemma Inv.pthreadCreate (h : Inv cfg turns s) (hin : s.count < cfg.startAllocSize) {c : srv.Call}
    {create : Create} (hturn : turns[s.count]? = some (.called c create))
    (hok : srv.failed c = false) (he : s.clients[s.count]? = some (srv.entry c))
    (harg : s.args[s.countThreads]? = some (srv.prepare s.count (srv.entry c))) :
    ∃ s', s.pthreadCreate create = some s' ∧ Inv cfg turns s'.bump ∧ s'.count = s.count := by
  have hlt : s.countThreads < s.threadsClients.length := by
    rw [h.threads]
    exact h.behind.trans_lt hin
  cases create with
  | fails left =>
      refine ⟨{ s with threadsClients := s.threadsClients.set s.countThreads left },
        by rw [State.pthreadCreate, store_natCast hlt, Option.map_some], ?_, rfl⟩
      refine ⟨h.clients, by simpa [State.bump] using h.threads, h.args, Nat.le_succ_of_le h.behind,
        h.given, h.spared, h.cells, h.indices, fun d hd => Nat.lt_succ_of_lt (h.below d hd), ?_⟩
      simpa [State.bump, List.take_set_of_le le_rfl] using h.joined
  | succeeds thread =>
      refine ⟨{ s with
          threadsClients := s.threadsClients.set s.countThreads thread
          countThreads := s.countThreads + 1
          log := s.log ++ [.creates s.countThreads s.count thread] },
        by rw [State.pthreadCreate, store_natCast hlt, Option.map_some], ?_, rfl⟩
      refine ⟨h.clients, by simpa [State.bump] using h.threads, h.args, Nat.succ_le_succ h.behind,
        fun k i thread' hc => ?_, spared_concat h.spared fun _ _ _ _ => by simp, ?_, ?_,
        fun d hd => ?_, ?_⟩
      · rw [State.bump, created_append, List.mem_append] at hc
        rcases hc with hc | hc
        · exact h.given k i thread' hc
        · obtain ⟨rfl, rfl, rfl⟩ : k = s.countThreads ∧ i = s.count ∧ thread' = thread := by
            simpa using hc
          exact ⟨c, hturn, hok, he, harg⟩
      · simp [State.bump, h.cells, List.range_succ]
      · simp only [State.bump, created_append, created_creates, List.map_append]
        refine List.pairwise_append.mpr ⟨h.indices, by simp, fun a ha b hb => ?_⟩
        obtain ⟨d, hd, rfl⟩ := List.mem_map.mp ha
        obtain rfl : b = s.count := by simpa using hb
        exact h.below d hd
      · rw [State.bump, created_append, List.mem_append] at hd
        rcases hd with hd | hd
        · exact Nat.lt_succ_of_lt (h.below d hd)
        · obtain rfl : d = (s.countThreads, s.count, thread) := by simpa using hd
          exact Nat.lt_succ_self _
      · simp [State.bump, h.joined, List.take_add_one, hlt, List.take_set_of_le le_rfl]

/-- A turn that ends early counts itself and nothing else. -/
lemma Inv.bump (h : Inv cfg turns s) : Inv cfg turns s.bump :=
  ⟨h.clients, h.threads, h.args, Nat.le_succ_of_le h.behind, h.given, h.spared, h.cells, h.indices,
    fun d hd => Nat.lt_succ_of_lt (h.below d hd), h.joined⟩

lemma Inv.turn (h : Inv cfg turns s) (hin : s.count < cfg.startAllocSize) {t : Turn srv}
    (ht : turns[s.count]? = some t) :
    ∃ s', turn s t = some s' ∧ Inv cfg turns s' ∧ s'.count = s.count + 1 := by
  cases t with
  | refused r => exact ⟨s.bump, rfl, h.bump, rfl⟩
  | called c create =>
      obtain ⟨s₁, hs₁, h₁, hcount₁, he₁⟩ := h.storeEntry hin (srv.entry c)
      cases hok : srv.failed c with
      | true => exact ⟨s₁.bump, by simp [ThreadPerClient.turn, hs₁, hok], h₁.bump,
          by rw [State.bump, hcount₁]⟩
      | false =>
          rw [← hcount₁] at hin he₁ ht
          obtain ⟨s₂, hs₂, h₂, hcount₂, he₂, harg₂⟩ := h₁.storeArg hin he₁
          rw [← hcount₂] at hin he₂ harg₂ ht
          obtain ⟨s₃, hs₃, h₃, hcount₃⟩ := h₂.pthreadCreate hin ht hok he₂ harg₂
          refine ⟨s₃.bump, by simp [ThreadPerClient.turn, hs₁, hok, hs₂, hs₃], h₃, ?_⟩
          rw [State.bump, hcount₃, hcount₂, hcount₁]

/-! ## The whole loop -/

lemma Inv.loop {rest : List (Turn srv)} (h : Inv cfg turns s)
    (hin : s.count < cfg.startAllocSize - 1) (hrest : rest = turns.drop s.count) :
    ∃ s', loop cfg rest s = some s' ∧ Inv cfg turns s' ∧ s'.count ≤ cfg.startAllocSize := by
  induction rest generalizing s with
  | nil => exact ⟨s, rfl, h, by omega⟩
  | cons t rest ih =>
      have ht : turns[s.count]? = some t := by
        rw [← List.head?_drop, ← hrest, List.head?_cons]
      obtain ⟨s', hs', h', hcount⟩ := h.turn (by omega) ht
      rw [ThreadPerClient.loop, hs', Option.bind_some]
      split
      · exact ⟨s', rfl, h', by omega⟩
      · refine ih h' (by omega) ?_
        rw [hcount, ← List.drop_drop, ← hrest, List.drop_one, List.tail_cons]

/-- The loop behind `EXIT:` finds a thread in each entry it looks at. -/
lemma Inv.join (h : Inv cfg turns s) (hin : s.count ≤ cfg.startAllocSize) :
    join s = some (s.threadsClients.take s.countThreads) := by
  obtain ⟨joined, hjoined, rfl⟩ : ∃ joined, ThreadPerClient.join s = some joined ∧
      joined = s.threadsClients.take s.countThreads := by
    refine Loop.forUpTo_total (I := fun n joined => joined = s.threadsClients.take n) rfl ?_
    intro i hi joined hI
    have hlt : i < s.threadsClients.length := by
      rw [h.threads]
      exact (hi.trans_le h.behind).trans_le hin
    refine ⟨_, by rw [load_natCast, List.getElem?_eq_getElem hlt, Option.map_some], ?_⟩
    rw [hI, List.take_append_getElem hlt]
  exact hjoined

/-- Whatever the turns bring, each thread that is created has a cell and a connection of its
own, and these are the threads that are joined. -/
theorem handedOver (srv : Server) (cfg : Config) (turns : List (Turn srv)) :
    ∃ s joined, main srv cfg turns = some (s, joined) ∧ HandedOver turns s joined := by
  have htwo := cfg.two_le
  have hroom : (init srv cfg).count < cfg.startAllocSize - 1 := by
    simp only [init]
    omega
  obtain ⟨s, hs, h, hcount⟩ : ∃ s, loop cfg turns (init srv cfg) = some s ∧ Inv cfg turns s ∧
      s.count ≤ cfg.startAllocSize := (inv_init cfg turns).loop hroom rfl
  refine ⟨s, s.threadsClients.take s.countThreads, by simp [main, hs, h.join hcount], ?_⟩
  refine ⟨h.given, h.spared, ?_, h.indices.imp ne_of_lt, h.joined.symm⟩
  rw [h.cells]
  exact List.nodup_range

/-- **Both servers hand their arguments over.** -/
theorem servers_hand_over (cfg : Config) :
    (∀ turns : List (Turn tcp), ∃ s joined,
      main tcp cfg turns = some (s, joined) ∧ HandedOver turns s joined) ∧
    (∀ turns : List (Turn udp), ∃ s joined,
      main udp cfg turns = some (s, joined) ∧ HandedOver turns s joined) :=
  ⟨handedOver tcp cfg, handedOver udp cfg⟩

end ThreadPerClient
end EltSummer
