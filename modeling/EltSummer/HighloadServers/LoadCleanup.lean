import EltSummer.HighloadServers.LoadClient

/-!
# The clean-up of the load-test client

`main` behind its loop, and `my_handler_CTRL_C` between two turns of it, close the descriptors
in the first `connects_count` entries of `socks_fd`.  The loop has stored a descriptor under
the number of its turn, and `connects_count` counts the exchanges, so the two agree exactly when
the turns that found a socket are the first ones and each of them was counted (`closes_iff`).

The printing and the `free`s are left out.  A `close` of the `-1` that stands for a failed
`socket` closes nothing.
-/

namespace EltSummer
namespace LoadClient

open Block Turns

/-- `for (int i = 0; i < connects_count; i++) close(socks_fd[i]);`: what `close` is called
with. -/
def State.closing (s : State) : Option (List ℤ) :=
  Loop.forUpTo s.connectsCount
    (fun i closed => (load s.socksFd (i : ℤ)).map fun fd => closed ++ [fd]) []

/-- The end of `main`. -/
def State.finish (s : State) : Option (List ℤ) := s.closing

/-- `my_handler_CTRL_C`. -/
def State.myHandlerCtrlC (s : State) : Option (List ℤ) := s.closing

/-- How the program ends, in which state, and what it closes: at the end of `main`, or by the
handler between two turns. -/
inductive Finished (p : Protocol) (cfg : Config) (calls : Calls) :
    State → Option (List ℤ) → Prop
  | byItself {s : State} (h : Ends (turn p cfg calls) (init cfg) s) :
      Finished p cfg calls s s.finish
  | interrupted {s : State} (h : Leads (turn p cfg calls) (init cfg) s) :
      Finished p cfg calls s s.myHandlerCtrlC

/-- The descriptors closed are the ones that `socket` has returned. -/
def ClosesAll (s : State) (closed : Option (List ℤ)) : Prop :=
  ∃ fds, closed = some fds ∧ ∀ fd : ℕ, (fd : ℤ) ∈ fds ↔ fd ∈ s.opened

/-- Of the first `k` turns, each that found a socket was counted, and none of them came behind
a turn that found none. -/
def Clean (p : Protocol) (calls : Calls) (k : ℕ) : Prop :=
  ∀ j < k, (calls.attempt j).socket.isSome →
    (calls.attempt j).counted p = true ∧ ∀ i < j, (calls.attempt i).socket.isSome

variable {p : Protocol} {cfg : Config} {calls : Calls} {k n : ℕ} {s s' : State}

/-! ## The loop keeps its count -/

/-- Between two turns, `i` is the number of the turns unless the loop is about to end. -/
structure Between (p : Protocol) (cfg : Config) (calls : Calls) (s : State) : Prop where
  after : After p cfg calls s.turns s
  i : s.connectRes = 0 → s.i = s.turns

lemma After.between (h : After p cfg calls (k + 1) s) (hi : s.connectRes = 0 → s.i = k) :
    Between p cfg calls { s with i := s.i + 1 } := by
  have hafter := h.bump (s.i + 1)
  rw [← h.turns] at hafter
  exact ⟨hafter, fun hres => by simp [hi hres, h.turns]⟩

/-- What a turn keeps, whether the loop goes on behind it or not. -/
lemma Between.turn {flow : Flow} (h : Between p cfg calls s)
    (hturn : turn p cfg calls s = some flow) :
    (∀ s', flow = .next s' → Between p cfg calls s') ∧
      ∀ s', flow = .stop s' → After p cfg calls s'.turns s' := by
  unfold LoadClient.turn at hturn
  split at hturn
  · rename_i hres
    obtain ⟨flow, hbody, rfl⟩ := Option.map_eq_some_iff.mp hturn
    have hi := h.i hres
    rw [hi] at hbody
    rcases lt_or_ge s.turns cfg.sizeAlloc with hk | hk
    · obtain ⟨flow', hbody', hturned⟩ := h.after.body hi hres hk
      obtain rfl : flow' = flow := Option.some.inj (hbody'.symm.trans hbody)
      cases hturned with
      | noSocket hs hi' hres' hsocket =>
          exact ⟨fun s' hs' => Turn.next.inj hs' ▸ hs.between fun _ => hi', nofun⟩
      | done hs hi' hres' hlast hon =>
          exact ⟨fun s' hs' => Turn.next.inj hs' ▸ hs.between fun _ => hi', nofun⟩
      | refused hs hi' hres' hend =>
          exact ⟨fun s' hs' => Turn.next.inj hs' ▸ hs.between fun _ => hi', nofun⟩
      | unanswered hs hend => exact ⟨nofun, fun s' hs' => Turn.stop.inj hs' ▸ hs.turns ▸ hs⟩
      | last hs hlast hsocket => exact ⟨nofun, fun s' hs' => Turn.stop.inj hs' ▸ hs.turns ▸ hs⟩
    · rw [h.after.body_eq_none (hi ▸ hk)] at hbody
      cases hbody
  · obtain rfl := Option.some.inj hturn
    exact ⟨nofun, fun s' hs' => Turn.stop.inj hs' ▸ h.after⟩

/-- Wherever the loop comes. -/
lemma between_of_leads (h : Leads (turn p cfg calls) (init cfg) s) : Between p cfg calls s := by
  induction h with
  | refl => exact ⟨after_init p cfg calls, fun _ => rfl⟩
  | tail _ hturn ih => exact (ih.turn hturn).1 _ rfl

lemma Finished.after {closed : Option (List ℤ)} (h : Finished p cfg calls s closed) :
    After p cfg calls s.turns s ∧ closed = s.closing := by
  cases h with
  | byItself h =>
      obtain ⟨s', hleads, hstop⟩ := ends_iff_leads.mp h
      exact ⟨((between_of_leads hleads).turn hstop).2 _ rfl, rfl⟩
  | interrupted h => exact ⟨(between_of_leads h).after, rfl⟩

/-! ## What is closed -/

/-- The turns below `k` that found a socket. -/
def openedTurns (calls : Calls) (k : ℕ) : Finset ℕ :=
  (Finset.range k).filter fun j => (calls.attempt j).socket.isSome = true

lemma countedTurns_subset (p : Protocol) (calls : Calls) (k : ℕ) :
    countedTurns p calls k ⊆ openedTurns calls k := by
  intro j hj
  rw [countedTurns, Finset.mem_filter, Attempt.counted, Bool.and_eq_true] at hj
  exact Finset.mem_filter.mpr ⟨hj.1, hj.2.1⟩

lemma After.connectsCount_le (h : After p cfg calls k s) : s.connectsCount ≤ k := by
  rw [h.counted, countedTurns]
  exact (Finset.card_filter_le _ _).trans (Finset.card_range k).le

/-- The clean-up closes what the first `connects_count` entries hold. -/
lemma After.closing (h : After p cfg calls k s) :
    ∃ fds, s.closing = some fds ∧
      ∀ fd, fd ∈ fds ↔ ∃ j < s.connectsCount, (calls.attempt j).fd = fd := by
  refine Loop.forUpTo_total
    (I := fun i fds => ∀ fd, fd ∈ fds ↔ ∃ j < i, (calls.attempt j).fd = fd) (by simp) ?_
  intro i hi fds hfds
  have hstored := h.stored i (hi.trans_le h.connectsCount_le)
  refine ⟨fds ++ [(calls.attempt i).fd], by rw [load_natCast, hstored, Option.map_some], ?_⟩
  intro fd
  simp only [List.mem_append, hfds, List.mem_singleton, Nat.lt_succ_iff_lt_or_eq]
  constructor
  · rintro (⟨j, hj, hfd⟩ | rfl)
    · exact ⟨j, Or.inl hj, hfd⟩
    · exact ⟨i, Or.inr rfl, rfl⟩
  · rintro ⟨j, hj | rfl, hfd⟩
    · exact Or.inl ⟨j, hj, hfd⟩
    · exact Or.inr hfd.symm

lemma Attempt.fd_eq_natCast {a : Attempt} {fd : ℕ} : a.fd = (fd : ℤ) ↔ a.socket = some fd := by
  cases ha : a.socket with
  | none => simp [Attempt.fd, ha]
  | some x => simp [Attempt.fd, ha]

/-- All is closed when every turn with a socket is one of the first `connects_count` ones. -/
lemma After.closesAll_iff (h : After p cfg calls k s) :
    ClosesAll s s.closing ↔ openedTurns calls k ⊆ Finset.range s.connectsCount := by
  obtain ⟨fds, hclosing, hfds⟩ := h.closing
  simp only [ClosesAll, hclosing, Option.some.injEq, exists_eq_left', hfds, h.opened,
    Attempt.fd_eq_natCast]
  constructor
  · intro hall j hj
    obtain ⟨hjk, hsocket⟩ := Finset.mem_filter.mp hj
    obtain ⟨fd, hfd⟩ := Option.isSome_iff_exists.mp hsocket
    obtain ⟨i, hi, hfd'⟩ := (hall fd).mpr ⟨j, Finset.mem_range.mp hjk, hfd⟩
    -- the same descriptor, so the same turn
    obtain rfl := calls.fresh i j fd hfd' hfd
    exact Finset.mem_range.mpr hi
  · intro hsub fd
    constructor
    · rintro ⟨j, hj, hfd⟩
      exact ⟨j, hj.trans_le h.connectsCount_le, hfd⟩
    · rintro ⟨j, hj, hfd⟩
      have hopened : j ∈ openedTurns calls k := by simp [openedTurns, hj, hfd]
      exact ⟨j, Finset.mem_range.mp (hsub hopened), hfd⟩

/-- The counted turns are as many as the first ones, so they fill them when all turns with a
socket are among these. -/
lemma clean_iff_subset (p : Protocol) (calls : Calls) (k : ℕ) :
    Clean p calls k ↔
      openedTurns calls k ⊆ Finset.range (countedTurns p calls k).card := by
  have hcounted := countedTurns_subset p calls k
  constructor
  · intro hclean j hj
    obtain ⟨hjk, hsocket⟩ := Finset.mem_filter.mp hj
    rw [Finset.mem_range] at hjk ⊢
    have hopen : openedTurns calls k ⊆ countedTurns p calls k := by
      intro i hi
      obtain ⟨hik, hsocket⟩ := Finset.mem_filter.mp hi
      exact Finset.mem_filter.mpr ⟨hik, (hclean i (Finset.mem_range.mp hik) hsocket).1⟩
    -- up to `j` every turn found a socket
    have hbelow : Finset.range (j + 1) ⊆ openedTurns calls k := by
      intro i hi
      rw [Finset.mem_range, Nat.lt_succ_iff_lt_or_eq] at hi
      refine Finset.mem_filter.mpr ⟨Finset.mem_range.mpr (by omega), ?_⟩
      rcases hi with hij | rfl
      · exact (hclean j hjk hsocket).2 i hij
      · exact hsocket
    have hcard := Finset.card_le_card (hbelow.trans hopen)
    rwa [Finset.card_range] at hcard
  · intro hsub j hj hsocket
    have hfull : countedTurns p calls k = Finset.range (countedTurns p calls k).card :=
      Finset.eq_of_subset_of_card_le (hcounted.trans hsub) (Finset.card_range _).le
    have hjopen : j ∈ openedTurns calls k := by simp [openedTurns, hj, hsocket]
    have hmem : ∀ i ≤ j, i ∈ countedTurns p calls k := fun i hi => by
      rw [hfull, Finset.mem_range]
      exact hi.trans_lt (Finset.mem_range.mp (hsub hjopen))
    refine ⟨(Finset.mem_filter.mp (hmem j le_rfl)).2, fun i hi => ?_⟩
    exact (Finset.mem_filter.mp (hcounted (hmem i hi.le))).2

/-- **When the clean-up closes all**: exactly when each turn that found a socket was counted,
and came before every turn that found none. -/
theorem closes_iff {closed : Option (List ℤ)} (h : Finished p cfg calls s closed) :
    ClosesAll s closed ↔ Clean p calls s.turns := by
  obtain ⟨hafter, rfl⟩ := h.after
  rw [hafter.closesAll_iff, clean_iff_subset, hafter.counted]

/-- The first connection is refused. -/
def refusedAtOnce : Calls where
  attempt := fun i => if i = 0 then ⟨some 3, false, false, false⟩ else ⟨none, false, false, false⟩
  fresh := by
    intro i j fd hi hj
    split at hi <;> split at hj <;> simp_all

/-- Where `refusedAtOnce` ends. -/
def refusedState : State where
  socksFd := [3]
  fds := [0]
  i := 1
  connectRes := 1
  connectsCount := 0
  turns := 1
  opened := [3]

lemma finished_refusedAtOnce :
    Finished .tcp ⟨1, Nat.one_pos⟩ refusedAtOnce refusedState (some []) :=
  .byItself ⟨2, by decide⟩

theorem closes_iff_refusedAtOnce :
    Finished .tcp ⟨1, Nat.one_pos⟩ refusedAtOnce refusedState (some []) ∧
      (ClosesAll refusedState (some []) ↔ Clean .tcp refusedAtOnce 1) :=
  ⟨finished_refusedAtOnce, closes_iff finished_refusedAtOnce⟩

/-- The socket of a refused connection stays open. -/
theorem refused_socket_stays_open :
    ¬ ∀ (p : Protocol) (cfg : Config) (calls : Calls) (s : State) (closed : Option (List ℤ)),
      Finished p cfg calls s closed → ClosesAll s closed := by
  intro hclaim
  obtain ⟨fds, hfds, hall⟩ := hclaim _ _ _ _ _ finished_refusedAtOnce
  obtain rfl : [] = fds := Option.some.inj hfds
  simpa [refusedState] using hall 3

end LoadClient
end EltSummer
