import EltSummer.Framework.Block
import EltSummer.Framework.Loop
import EltSummer.Framework.Turns
import Mathlib.Data.Finset.Card
import Mathlib.Data.Finset.Filter
import Mathlib.Data.Finset.Range

/-!
# The connections of the load-test client

`sockets_highload_services_27July/client_for_load_test_tcp_udp.c`: `main` opens one socket
after the other and lets each exchange a message with the server, up to `size_alloc` of them.
The test that ends the loop at the end of the arrays stands behind the exchange, where a turn
that found no socket does not come by (`bounded_iff`).

Every access to `socks_fd` and `fds` is checked.  The texts and the printing are left out, and
with them `send` and `sendto`, whose failure is printed only.
-/

namespace EltSummer
namespace LoadClient

open Block Turns

/-- `type_transport_prot`. -/
inductive Protocol
  | tcp
  | udp
  deriving DecidableEq, Repr

/-- `size_alloc`. -/
structure Config where
  sizeAlloc : ℕ
  pos : 0 < sizeAlloc

/-- The results of the calls in one turn: `socket`, `connect`, `poll`, and `recv` or
`recvfrom`. -/
structure Attempt where
  socket : Option ℕ
  connected : Bool
  polled : Bool
  received : Bool
  deriving DecidableEq, Repr

/-- The results of all turns.  No descriptor is returned twice, for the loop closes none. -/
structure Calls where
  attempt : ℕ → Attempt
  fresh : ∀ i j fd, (attempt i).socket = some fd → (attempt j).socket = some fd → i = j

/-- The locals of `main`, with two ghosts: the turns begun, and the descriptors `socket` has
returned. -/
structure State where
  socksFd : List ℤ
  fds : List ℤ
  i : ℕ
  connectRes : ℕ
  connectsCount : ℕ
  turns : ℕ
  opened : List ℕ
  deriving DecidableEq, Repr

def init (cfg : Config) : State where
  socksFd := List.replicate cfg.sizeAlloc 0
  fds := List.replicate cfg.sizeAlloc 0
  i := 0
  connectRes := 0
  connectsCount := 0
  turns := 0
  opened := []

/-- What `socket` returns. -/
def Attempt.fd (a : Attempt) : ℤ := a.socket.elim (-1) fun fd => fd

/-! ## The loop -/

/-- How the body of the loop is left: to `i++`, or by `break`. -/
abbrev Flow := Turn State State

/-- `socks_fd[i] = socket(...)`. -/
def State.openSocket (s : State) (a : Attempt) : Option State :=
  (store s.socksFd s.i a.fd).map fun socksFd =>
    { s with socksFd := socksFd, turns := s.turns + 1, opened := s.opened ++ a.socket.toList }

/-- `if (i == size_alloc - 1) break;`, behind an exchange. -/
def State.boundTest (cfg : Config) (s : State) : Flow :=
  if s.i = cfg.sizeAlloc - 1 then .stop s else .next s

/-- `connects_count++`. -/
def State.count (s : State) : State := { s with connectsCount := s.connectsCount + 1 }

/-- The exchange over TCP: `connect`, `send`, `recv`. -/
def State.tcpExchange (cfg : Config) (s : State) (a : Attempt) : Flow :=
  if a.connected = false then .next { s with connectRes := 1 }
  else if a.received = false then .stop s
  else s.count.boundTest cfg

/-- The exchange over UDP: `sendto`, `poll`, `recvfrom`. -/
def State.udpExchange (cfg : Config) (s : State) (a : Attempt) : Option Flow :=
  (store s.fds s.i a.fd).map fun fds =>
    let s := { s with fds := fds }
    if a.polled = true ∧ a.received = true then s.count.boundTest cfg else s.boundTest cfg

/-- The body of the loop. -/
def body (p : Protocol) (cfg : Config) (s : State) (a : Attempt) : Option Flow :=
  (s.openSocket a).bind fun s =>
    if a.socket = none then some (.next s)
    else match p with
      | .tcp => some (s.tcpExchange cfg a)
      | .udp => s.udpExchange cfg a

/-- One turn of `for (int i = 0; !connect_res; i++)`. -/
def turn (p : Protocol) (cfg : Config) (calls : Calls) (s : State) : Option Flow :=
  if s.connectRes = 0 then
    (body p cfg s (calls.attempt s.i)).map fun
      | .next s => .next { s with i := s.i + 1 }
      | .stop s => .stop s
  else some (.stop s)

/-! ## What a turn does -/

/-- The exchange of a turn with a socket was complete. -/
def Attempt.exchanged (p : Protocol) (a : Attempt) : Bool :=
  match p with
  | .tcp => a.connected && a.received
  | .udp => a.polled && a.received

/-- The turn is counted in `connects_count`. -/
def Attempt.counted (p : Protocol) (a : Attempt) : Bool := a.socket.isSome && a.exchanged p

/-- Unless it is at the end of the arrays, the loop goes on behind the turn. -/
def Attempt.goesOn (p : Protocol) (a : Attempt) : Bool :=
  a.socket.isNone || (match p with
    | .tcp => a.connected && a.received
    | .udp => true)

/-- The arrays after `k` sockets have been asked for. -/
structure Stored (cfg : Config) (calls : Calls) (k : ℕ) (s : State) : Prop where
  socksFd : s.socksFd.length = cfg.sizeAlloc
  fds : s.fds.length = cfg.sizeAlloc
  turns : s.turns = k
  stored : ∀ j < k, s.socksFd[j]? = some (calls.attempt j).fd
  opened : ∀ fd, fd ∈ s.opened ↔ ∃ j < k, (calls.attempt j).socket = some fd

/-- The turns below `k` that are counted. -/
def countedTurns (p : Protocol) (calls : Calls) (k : ℕ) : Finset ℕ :=
  (Finset.range k).filter fun j => (calls.attempt j).counted p = true

/-- The state at the top of the loop or behind it, after `k` turns. -/
structure After (p : Protocol) (cfg : Config) (calls : Calls) (k : ℕ) (s : State) : Prop
    extends Stored cfg calls k s where
  counted : s.connectsCount = (countedTurns p calls k).card

/-- What one turn comes to, for each way to leave it. -/
inductive Turned (p : Protocol) (cfg : Config) (calls : Calls) (k : ℕ) : Flow → Prop
  | noSocket {s} (hs : After p cfg calls (k + 1) s) (hi : s.i = k) (hres : s.connectRes = 0)
      (hsocket : (calls.attempt k).socket = none) : Turned p cfg calls k (.next s)
  | refused {s} (hs : After p cfg calls (k + 1) s) (hi : s.i = k) (hres : s.connectRes = 1)
      (hend : (calls.attempt k).goesOn p = false) : Turned p cfg calls k (.next s)
  | unanswered {s} (hs : After p cfg calls (k + 1) s)
      (hend : (calls.attempt k).goesOn p = false) : Turned p cfg calls k (.stop s)
  | last {s} (hs : After p cfg calls (k + 1) s) (hk : k = cfg.sizeAlloc - 1)
      (hsocket : (calls.attempt k).socket ≠ none) : Turned p cfg calls k (.stop s)
  | done {s} (hs : After p cfg calls (k + 1) s) (hi : s.i = k) (hres : s.connectRes = 0)
      (hk : k ≠ cfg.sizeAlloc - 1) (hon : (calls.attempt k).goesOn p = true) :
      Turned p cfg calls k (.next s)

variable {p : Protocol} {cfg : Config} {calls : Calls} {k n : ℕ} {s : State}

lemma after_init (p : Protocol) (cfg : Config) (calls : Calls) :
    After p cfg calls 0 (init cfg) := by
  refine ⟨⟨?_, ?_, rfl, ?_, ?_⟩, ?_⟩ <;> simp [init, countedTurns]

lemma card_countedTurns_succ (p : Protocol) (calls : Calls) (k : ℕ) :
    (countedTurns p calls (k + 1)).card =
      (countedTurns p calls k).card + if (calls.attempt k).counted p = true then 1 else 0 := by
  rw [countedTurns, Finset.range_add_one, Finset.filter_insert, countedTurns]
  split
  · rw [Finset.card_insert_of_notMem (by simp)]
  · rw [Nat.add_zero]

lemma Stored.openSocket (h : Stored cfg calls k s) (hi : s.i = k) (hk : k < cfg.sizeAlloc) :
    ∃ s', s.openSocket (calls.attempt k) = some s' ∧ Stored cfg calls (k + 1) s' ∧ s'.i = k ∧
      s'.connectRes = s.connectRes ∧ s'.connectsCount = s.connectsCount := by
  have hlt : k < s.socksFd.length := by rwa [h.socksFd]
  refine ⟨{ s with
      socksFd := s.socksFd.set k (calls.attempt k).fd
      turns := s.turns + 1
      opened := s.opened ++ (calls.attempt k).socket.toList },
    by rw [State.openSocket, hi, store_natCast hlt, Option.map_some], ?_, hi, rfl, rfl⟩
  refine ⟨by simpa using h.socksFd, h.fds, by rw [h.turns], fun j hj => ?_, fun fd => ?_⟩
  · by_cases hjk : j = k
    · subst hjk
      simp [hlt]
    · rw [List.getElem?_set_ne (Ne.symm hjk)]
      exact h.stored j (by omega)
  · simp only [List.mem_append, h.opened, Option.mem_toList, Nat.lt_succ_iff_lt_or_eq]
    constructor
    · rintro (⟨j, hj, hfd⟩ | hfd)
      · exact ⟨j, Or.inl hj, hfd⟩
      · exact ⟨k, Or.inr rfl, hfd⟩
    · rintro ⟨j, hj | rfl, hfd⟩
      · exact Or.inl ⟨j, hj, hfd⟩
      · exact Or.inr hfd

/-- Of a state, `Stored` reads the arrays and the ghosts. -/
lemma Stored.congr {s' : State} (h : Stored cfg calls k s) (hsocks : s'.socksFd = s.socksFd)
    (hfds : s'.fds.length = s.fds.length) (hturns : s'.turns = s.turns)
    (hopened : s'.opened = s.opened) : Stored cfg calls k s' := by
  refine ⟨hsocks ▸ h.socksFd, hfds.trans h.fds, hturns.trans h.turns, ?_, ?_⟩
  · rw [hsocks]
    exact h.stored
  · rw [hopened]
    exact h.opened

/-- The test at the end of a turn with a socket. -/
lemma After.boundTest (h : After p cfg calls (k + 1) s) (hi : s.i = k) (hres : s.connectRes = 0)
    (hsocket : (calls.attempt k).socket ≠ none) (hon : (calls.attempt k).goesOn p = true) :
    Turned p cfg calls k (s.boundTest cfg) := by
  unfold State.boundTest
  split
  · rename_i hlast
    exact .last h (hi ▸ hlast) hsocket
  · rename_i hlast
    exact .done h hi hres (hi ▸ hlast) hon

lemma turned_tcpExchange (hkept : (calls.attempt k).counted .tcp = false →
      After .tcp cfg calls (k + 1) s)
    (hgrown : (calls.attempt k).counted .tcp = true → After .tcp cfg calls (k + 1) s.count)
    (hi : s.i = k) (hres : s.connectRes = 0) (hsocket : (calls.attempt k).socket ≠ none) :
    Turned .tcp cfg calls k (s.tcpExchange cfg (calls.attempt k)) := by
  unfold State.tcpExchange
  split
  · rename_i hconn
    have hafter := hkept (by simp [Attempt.counted, Attempt.exchanged, hconn])
    refine .refused ⟨hafter.toStored.congr rfl rfl rfl rfl, hafter.counted⟩ hi rfl ?_
    simp [Attempt.goesOn, Option.isSome_iff_ne_none, hsocket, hconn]
  · rename_i hconn
    split
    · rename_i hrecv
      refine .unanswered (hkept (by simp [Attempt.counted, Attempt.exchanged, hrecv])) ?_
      simp [Attempt.goesOn, Option.isSome_iff_ne_none, hsocket, hrecv]
    · rename_i hrecv
      rw [Bool.not_eq_false] at hconn hrecv
      refine (hgrown ?_).boundTest hi hres hsocket ?_
      · simp [Attempt.counted, Attempt.exchanged, Option.isSome_iff_ne_none, hsocket, hconn, hrecv]
      · simp [Attempt.goesOn, hconn, hrecv]

lemma turned_udpExchange (hfds : s.fds.length = cfg.sizeAlloc) (hk : k < cfg.sizeAlloc)
    (hkept : (calls.attempt k).counted .udp = false → After .udp cfg calls (k + 1) s)
    (hgrown : (calls.attempt k).counted .udp = true → After .udp cfg calls (k + 1) s.count)
    (hi : s.i = k) (hres : s.connectRes = 0) (hsocket : (calls.attempt k).socket ≠ none) :
    ∃ flow, s.udpExchange cfg (calls.attempt k) = some flow ∧ Turned .udp cfg calls k flow := by
  have hlt : k < s.fds.length := by rwa [hfds]
  have hon : (calls.attempt k).goesOn .udp = true := by simp [Attempt.goesOn]
  refine ⟨_, by rw [State.udpExchange, hi, store_natCast hlt, Option.map_some], ?_⟩
  dsimp only
  split
  · rename_i hboth
    have hafter := hgrown (by
      simp [Attempt.counted, Attempt.exchanged, Option.isSome_iff_ne_none, hsocket, hboth])
    refine After.boundTest ⟨?_, hafter.counted⟩ rfl hres hsocket hon
    exact hafter.toStored.congr rfl (by simp [State.count]) rfl rfl
  · rename_i hnot
    have hafter := hkept (by
      simpa [Attempt.counted, Attempt.exchanged, Option.isSome_iff_ne_none, hsocket] using hnot)
    refine After.boundTest ⟨?_, hafter.counted⟩ rfl hres hsocket hon
    exact hafter.toStored.congr rfl (by simp) rfl rfl

/-- From the top of the loop, inside the arrays, a turn comes to one of the five ends. -/
lemma After.body (h : After p cfg calls k s) (hi : s.i = k) (hres : s.connectRes = 0)
    (hk : k < cfg.sizeAlloc) :
    ∃ flow, body p cfg s (calls.attempt k) = some flow ∧ Turned p cfg calls k flow := by
  obtain ⟨s', hs', hstored, hi', hres', hcount'⟩ := h.toStored.openSocket hi hk
  rw [hres] at hres'
  have hkept : (calls.attempt k).counted p = false → After p cfg calls (k + 1) s' := fun hno =>
    ⟨hstored, by rw [hcount', h.counted, card_countedTurns_succ, hno]; rfl⟩
  have hgrown : (calls.attempt k).counted p = true → After p cfg calls (k + 1) s'.count :=
    fun hyes => ⟨hstored.congr rfl rfl rfl rfl,
      by rw [card_countedTurns_succ, if_pos hyes, ← h.counted, ← hcount', State.count]⟩
  rw [LoadClient.body, hs', Option.bind_some]
  by_cases hsocket : (calls.attempt k).socket = none
  · rw [if_pos hsocket]
    exact ⟨_, rfl, .noSocket (hkept (by simp [Attempt.counted, hsocket])) hi' hres' hsocket⟩
  · rw [if_neg hsocket]
    cases p with
    | tcp => exact ⟨_, rfl, turned_tcpExchange hkept hgrown hi' hres' hsocket⟩
    | udp => exact turned_udpExchange hstored.fds hk hkept hgrown hi' hres' hsocket

/-! ## The end of the arrays -/

/-- The top of the loop, with turn `k` ahead. -/
structure At (p : Protocol) (cfg : Config) (calls : Calls) (k : ℕ) (s : State) : Prop where
  after : After p cfg calls k s
  i : s.i = k
  connectRes : s.connectRes = 0

/-- `i++`. -/
lemma After.bump (h : After p cfg calls k s) (i : ℕ) : After p cfg calls k { s with i := i } :=
  ⟨h.toStored.congr rfl rfl rfl rfl, h.counted⟩

/-- A turn that is not the last one leads to the next. -/
lemma At.next (h : At p cfg calls k s) (hk : k < cfg.sizeAlloc)
    (hon : (calls.attempt k).goesOn p = true)
    (hpass : k ≠ cfg.sizeAlloc - 1 ∨ (calls.attempt k).socket = none) :
    ∃ s', At p cfg calls (k + 1) s' ∧ turn p cfg calls s = some (.next s') := by
  obtain ⟨flow, hbody, hturned⟩ := h.after.body h.i h.connectRes hk
  have hturn : ∀ s', flow = .next s' →
      turn p cfg calls s = some (.next { s' with i := s'.i + 1 }) := by
    rintro s' rfl
    rw [turn, if_pos h.connectRes, h.i, hbody, Option.map_some]
  cases hturned with
  | @noSocket s' hs hi hres hsocket =>
      exact ⟨{ s' with i := s'.i + 1 }, ⟨hs.bump _, by simp [hi], hres⟩, hturn s' rfl⟩
  | @done s' hs hi hres hk hon =>
      exact ⟨{ s' with i := s'.i + 1 }, ⟨hs.bump _, by simp [hi], hres⟩, hturn s' rfl⟩
  | refused hs hi hres hend => simp [hon] at hend
  | unanswered hs hend => simp [hon] at hend
  | last hs hlast hsocket => exact absurd hpass (not_or.mpr ⟨not_not.mpr hlast, hsocket⟩)

/-- A turn that ends the loop. -/
lemma At.ends (h : At p cfg calls k s) (hk : k < cfg.sizeAlloc)
    (hend : (calls.attempt k).goesOn p = false ∨
      k = cfg.sizeAlloc - 1 ∧ (calls.attempt k).socket ≠ none) :
    ∃ s', Ends (turn p cfg calls) s s' ∧ s'.turns = k + 1 := by
  obtain ⟨flow, hbody, hturned⟩ := h.after.body h.i h.connectRes hk
  have hstop : ∀ s', flow = .stop s' → Ends (turn p cfg calls) s s' := by
    rintro s' rfl
    exact ends_of_stop (by rw [turn, if_pos h.connectRes, h.i, hbody, Option.map_some])
  cases hturned with
  | @refused s' hs hi hres hend =>
      have hnext : turn p cfg calls s = some (.next { s' with i := s'.i + 1 }) := by
        rw [turn, if_pos h.connectRes, h.i, hbody, Option.map_some]
      refine ⟨{ s' with i := s'.i + 1 }, (ends_iff_of_next hnext).mpr (ends_of_stop ?_), hs.turns⟩
      simp [turn, hres]
  | unanswered hs hend => exact ⟨_, hstop _ rfl, hs.turns⟩
  | last hs hlast hsocket => exact ⟨_, hstop _ rfl, hs.turns⟩
  | noSocket hs hi hres hsocket => simp [Attempt.goesOn, hsocket] at hend
  | done hs hi hres hk hon => simp [hon, hk] at hend

/-- Behind the arrays there is no entry for a socket. -/
lemma Stored.body_eq_none (h : Stored cfg calls k s) (hi : cfg.sizeAlloc ≤ s.i) (a : Attempt) :
    LoadClient.body p cfg s a = none := by
  have hend : s.socksFd.length ≤ s.i := by rwa [h.socksFd]
  rw [LoadClient.body, State.openSocket, store_eq_none hend, Option.map_none, Option.bind_none]

/-- The loop comes to turn `k` when each turn before it goes on. -/
lemma exists_at (hk : k < cfg.sizeAlloc)
    (hon : ∀ j < k, (calls.attempt j).goesOn p = true) :
    ∃ s, At p cfg calls k s ∧ Leads (turn p cfg calls) (init cfg) s := by
  induction k with
  | zero => exact ⟨init cfg, ⟨after_init p cfg calls, rfl, rfl⟩, .refl _⟩
  | succ k ih =>
      obtain ⟨s, hat, hleads⟩ := ih (by omega) fun j hj => hon j (by omega)
      obtain ⟨s', hat', hturn⟩ := hat.next (by omega) (hon k (by omega)) (Or.inl (by omega))
      exact ⟨s', hat', hleads.step hturn⟩

/-- The loop keeps to its arrays: it ends, without an access outside them, behind at most
`size_alloc` turns. -/
def Bounded (p : Protocol) (cfg : Config) (calls : Calls) : Prop :=
  ∃ s, Ends (turn p cfg calls) (init cfg) s ∧ s.turns ≤ cfg.sizeAlloc

/-- A loop that leaves its arrays is not bounded. -/
lemma not_bounded_of_fails (h : Fails (turn p cfg calls) (init cfg)) : ¬ Bounded p cfg calls :=
  fun ⟨_, hends, _⟩ => hends.not_fails h

lemma bounded_of_ends (hk : k < cfg.sizeAlloc)
    (hon : ∀ j < k, (calls.attempt j).goesOn p = true)
    (hend : (calls.attempt k).goesOn p = false ∨
      k = cfg.sizeAlloc - 1 ∧ (calls.attempt k).socket ≠ none) : Bounded p cfg calls := by
  obtain ⟨s, hat, hleads⟩ := exists_at hk hon
  obtain ⟨s', hends, hturns⟩ := hat.ends hk hend
  exact ⟨s', hleads.ends_iff.mpr hends, by omega⟩

/-- The last turn for which there is room comes, and finds no socket. -/
def MissesEnd (p : Protocol) (cfg : Config) (calls : Calls) : Prop :=
  (∀ j < cfg.sizeAlloc - 1, (calls.attempt j).goesOn p = true) ∧
    (calls.attempt (cfg.sizeAlloc - 1)).socket = none

lemma fails_of_missesEnd (h : MissesEnd p cfg calls) : Fails (turn p cfg calls) (init cfg) := by
  have hpos := cfg.pos
  have hlast : cfg.sizeAlloc - 1 < cfg.sizeAlloc := by omega
  obtain ⟨s, hat, hleads⟩ := exists_at hlast h.1
  obtain ⟨s', hat', hturn⟩ := hat.next hlast (by simp [Attempt.goesOn, h.2]) (Or.inr h.2)
  have hsize : s'.i = cfg.sizeAlloc := by have := hat'.i; omega
  refine (hleads.step hturn).fails_iff.mpr (fails_of_none ?_)
  rw [turn, if_pos hat'.connectRes, hat'.after.body_eq_none hsize.ge, Option.map_none]

/-- **When the loop keeps to its arrays**: exactly when it does not come to its last turn, or
finds a socket there. -/
theorem bounded_iff (p : Protocol) (cfg : Config) (calls : Calls) :
    Bounded p cfg calls ↔ ¬ MissesEnd p cfg calls := by
  constructor
  · exact fun hbounded hmisses => not_bounded_of_fails (fails_of_missesEnd hmisses) hbounded
  · intro hend
    have hpos := cfg.pos
    by_cases hall : ∀ j < cfg.sizeAlloc - 1, (calls.attempt j).goesOn p = true
    · have hsocket : (calls.attempt (cfg.sizeAlloc - 1)).socket ≠ none := fun h => hend ⟨hall, h⟩
      exact bounded_of_ends (by omega) hall (Or.inr ⟨rfl, hsocket⟩)
    · -- the first turn that does not go on
      have hexists : ∃ j, j < cfg.sizeAlloc - 1 ∧ (calls.attempt j).goesOn p = false := by
        simpa using hall
      classical
      obtain ⟨hlt, hstops⟩ := Nat.find_spec hexists
      refine bounded_of_ends (by omega) (fun j hj => ?_) (Or.inl hstops)
      have hbefore := Nat.find_min hexists hj
      simpa [hj.trans hlt] using hbefore

/-- No socket at all. -/
def noSockets : Calls := ⟨fun _ => ⟨none, false, false, false⟩, nofun⟩

/-- Without sockets the loop does not find its end. -/
theorem no_socket_leaves_the_array :
    ¬ ∀ (p : Protocol) (cfg : Config) (calls : Calls), Bounded p cfg calls := by
  intro hclaim
  exact not_bounded_of_fails ⟨2, by decide⟩ (hclaim .tcp ⟨1, Nat.one_pos⟩ noSockets)

end LoadClient
end EltSummer
