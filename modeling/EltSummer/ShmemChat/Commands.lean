import EltSummer.ShmemChat.Composing

/-!
# Texts that look like commands

The server tells a command by the beginning of the text, and the text of a chat message begins
with the client's name.  A message that begins with "disconnect" disconnects its sender and is
not sent on.  One that begins with "connect" passes for a command as well; but the test in
front of the broadcast loop looks at the flag alone, so the loop runs and sends what was copied
for it last, which is the message before this one.

`taken_iff` says when a chat message is taken for what it is, in any state in which its client
is connected.  The broadcast loop itself is in order: what it has written and what is still
ahead of it are the segments of the others, each with the message it began with
(`writes_of_exec`), and it comes to its end (`exists_exec_clear`).
-/

namespace EltSummer
namespace ShmemChat
namespace Exclusion

open Interleaving CString

variable {cfg : Config} {s s' : State}

/-! ## The broadcast loop -/

/-- The slots of the other clients, from slot `j` on. -/
def others (cfg : Config) (k j : ℕ) : List ℕ :=
  ((List.range cfg.maxClients).drop j).filter (· ≠ k)

/-- The slots whose segments server thread `k` has still to write. -/
def ServerPc.ahead (cfg : Config) (k : ℕ) : ServerPc → List ℕ
  | .forTest i | .trywait i | .write i => others cfg k (i / 2)
  | .post i => others cfg k (i / 2 + 1)
  | _ => []

/-- The thread is in the broadcast loop, at one of the segments to the clients, or behind it. -/
def ServerPc.Casts (cfg : Config) : ServerPc → Prop
  | .forTest i => i % 2 = 1
  | .trywait i | .write i | .post i => i % 2 = 1 ∧ i < cfg.maxClients * 2
  | .clear => True
  | _ => False

/-- What server thread `k` writes into a segment with the action `a`, which leads to `s'`. -/
def writeNow (k : ℕ) (s : State) (a : Action) (s' : State) : List (ℕ × StructMsg) :=
  match a with
  | .server j =>
      if j = k then
        match (s.server k).pc with
        | .write i => if i ≠ 2 * k + 1 then [(i, s'.shmem i)] else []
        | _ => []
      else []
  | _ => []

/-- The segments server thread `k` writes in the course of a run, and what it writes there. -/
def writes (cfg : Config) (k : ℕ) : State → List Action → List (ℕ × StructMsg)
  | _, [] => []
  | s, a :: as =>
      match step cfg s a with
      | none => []
      | some s' => writeNow k s a s' ++ writes cfg k s' as

/-- `m` for the clients of these slots. -/
def addressed (m : StructMsg) (slots : List ℕ) : List (ℕ × StructMsg) :=
  slots.map fun j => (2 * j + 1, m)

lemma others_of_lt {k j : ℕ} (hj : j < cfg.maxClients) :
    others cfg k j = (if j = k then [] else [j]) ++ others cfg k (j + 1) := by
  have hlen : j < (List.range cfg.maxClients).length := by rwa [List.length_range]
  rw [others, List.drop_eq_getElem_cons hlen, List.getElem_range, List.filter_cons, others]
  by_cases hk : j = k <;> simp [hk]

lemma others_of_le {k j : ℕ} (hj : cfg.maxClients ≤ j) : others cfg k j = [] := by
  rw [others, List.drop_eq_nil_of_le (by rwa [List.length_range]), List.filter_nil]

/-- The other threads leave a server thread's locals alone. -/
lemma mainStep_server {c : ℕ} {t : Client} (h : mainStep cfg s c t = some s') :
    s'.server = s.server := by
  cases hpc : t.mainPc with
  | waitConnect | waitDisconnect =>
      simp only [mainStep, hpc, Option.ite_none_right_eq_some, Option.some.injEq] at h
      obtain ⟨-, rfl⟩ := h
      rfl
  | ended => simp [mainStep, hpc] at h
  | _ =>
      simp only [mainStep, hpc, Option.some.injEq] at h
      subst h
      rfl

lemma sendStep_server {c : ℕ} {t : Client} (h : sendStep cfg s c t = some s') :
    s'.server = s.server := by
  cases hpc : t.sendPc with
  | trywait =>
      simp only [sendStep, hpc] at h
      split at h <;> obtain rfl := Option.some.inj h <;> rfl
  | exited => simp [sendStep, hpc] at h
  | _ =>
      simp only [sendStep, hpc, Option.some.injEq] at h
      subst h
      rfl

lemma receiveStep_server {c : ℕ} {t : Client} (h : receiveStep cfg s c t = some s') :
    s'.server = s.server := by
  cases hpc : t.receivePc with
  | trywait | check =>
      simp only [receiveStep, hpc] at h
      split at h <;> obtain rfl := Option.some.inj h <;> rfl
  | exited => simp [receiveStep, hpc] at h
  | _ =>
      simp only [receiveStep, hpc, Option.some.injEq] at h
      subst h
      rfl

/-- A server thread changes its own locals only. -/
lemma serverStep_server {k : ℕ} (h : serverStep cfg s k (s.server k) = some s') :
    ∃ t, s'.server = Function.update s.server k t := by
  cases hpc : (s.server k).pc with
  | waitIn =>
      simp only [serverStep, hpc, Option.ite_none_right_eq_some, Option.some.injEq] at h
      obtain ⟨-, rfl⟩ := h
      exact ⟨_, rfl⟩
  | trywait i | write i =>
      simp only [serverStep, hpc] at h
      split at h <;> obtain rfl := Option.some.inj h <;> exact ⟨_, rfl⟩
  | handle =>
      simp only [serverStep, hpc, Option.some.injEq, handleStep] at h
      subst h
      split <;> exact ⟨_, rfl⟩
  | exited => simp [serverStep, hpc] at h
  | _ =>
      simp only [serverStep, hpc, Option.some.injEq] at h
      subst h
      exact ⟨_, rfl⟩

/-- What a step of server thread `k` does to its locals and writes, in the broadcast loop. -/
lemma casts_serverStep {k : ℕ} (hcasts : (s.server k).pc.Casts cfg)
    (hclear : (s.server k).pc ≠ .clear) (h : serverStep cfg s k (s.server k) = some s') :
    (s'.server k).pc.Casts cfg ∧ (s'.server k).msgTo = (s.server k).msgTo ∧
      addressed (s.server k).msgTo ((s.server k).pc.ahead cfg k) =
        writeNow k s (.server k) s' ++
          addressed (s.server k).msgTo ((s'.server k).pc.ahead cfg k) := by
  cases hpc : (s.server k).pc with
  | forTest i =>
      rw [hpc] at hcasts
      simp only [serverStep, hpc, Option.some.injEq] at h
      subst h
      by_cases hi : i < cfg.maxClients * 2
      · simp only [if_pos hi, State.setServer, Function.update_self]
        refine ⟨⟨hcasts, hi⟩, trivial, ?_⟩
        simp [writeNow, hpc, ServerPc.ahead]
      · simp only [if_neg hi, State.setServer, Function.update_self]
        have hnone : others cfg k (i / 2) = [] := others_of_le (by omega)
        refine ⟨trivial, trivial, ?_⟩
        simp only [writeNow, hpc, ServerPc.ahead, hnone]
        rfl
  | trywait i =>
      rw [hpc] at hcasts
      simp only [serverStep, hpc] at h
      split at h
      all_goals
        obtain rfl := Option.some.inj h
        simp only [State.setServer, Function.update_self]
        refine ⟨hcasts, trivial, ?_⟩
        simp [writeNow, hpc, ServerPc.ahead]
  | write i =>
      rw [hpc] at hcasts
      obtain ⟨hodd, hi⟩ := hcasts
      have hhere : others cfg k (i / 2) =
          (if i / 2 = k then [] else [i / 2]) ++ others cfg k (i / 2 + 1) := others_of_lt (by omega)
      simp only [serverStep, hpc] at h
      split at h
      · rename_i hother
        obtain rfl := Option.some.inj h
        have hne : i / 2 ≠ k := by omega
        have hindex : 2 * (i / 2) + 1 = i := by omega
        rw [if_neg hne] at hhere
        simp only [State.setServer, State.setShmem, Function.update_self]
        refine ⟨⟨hodd, hi⟩, trivial, ?_⟩
        simp [writeNow, hpc, ServerPc.ahead, hhere, addressed, hindex, hother]
      · rename_i hown
        obtain rfl := Option.some.inj h
        have hk : i / 2 = k := by omega
        rw [if_pos hk] at hhere
        simp only [State.setServer, Function.update_self]
        refine ⟨⟨hodd, hi⟩, trivial, ?_⟩
        simp [writeNow, hpc, ServerPc.ahead, hhere, hown]
  | post i =>
      rw [hpc] at hcasts
      obtain ⟨hodd, hi⟩ := hcasts
      simp only [serverStep, hpc, Option.some.injEq] at h
      subst h
      simp only [State.setServer, Function.update_self]
      refine ⟨?_, trivial, ?_⟩
      · show (i + 2) % 2 = 1
        omega
      · have hnext : (i + 2) / 2 = i / 2 + 1 := by omega
        simp [writeNow, hpc, ServerPc.ahead, hnext]
  | clear => exact absurd hpc hclear
  | _ =>
      rw [hpc] at hcasts
      exact hcasts.elim

/-- The same for any step. -/
lemma casts_step {k : ℕ} {a : Action} (hcasts : (s.server k).pc.Casts cfg)
    (hclear : a = .server k → (s.server k).pc ≠ .clear) (h : step cfg s a = some s') :
    (s'.server k).pc.Casts cfg ∧ (s'.server k).msgTo = (s.server k).msgTo ∧
      addressed (s.server k).msgTo ((s.server k).pc.ahead cfg k) =
        writeNow k s a s' ++ addressed (s.server k).msgTo ((s'.server k).pc.ahead cfg k) := by
  have hkept : s'.server k = s.server k → writeNow k s a s' = [] →
      (s'.server k).pc.Casts cfg ∧ (s'.server k).msgTo = (s.server k).msgTo ∧
        addressed (s.server k).msgTo ((s.server k).pc.ahead cfg k) =
          writeNow k s a s' ++ addressed (s.server k).msgTo ((s'.server k).pc.ahead cfg k) := by
    intro hserver hnow
    rw [hserver, hnow]
    exact ⟨hcasts, rfl, rfl⟩
  cases a with
  | server j =>
      obtain ⟨-, h⟩ := Option.ite_none_right_eq_some.mp h
      by_cases hj : j = k
      · subst hj
        exact casts_serverStep hcasts (hclear rfl) h
      · obtain ⟨t, hserver⟩ := serverStep_server h
        refine hkept ?_ (if_neg hj)
        rw [hserver, Function.update_of_ne (Ne.symm hj)]
  | main c => exact hkept (by rw [mainStep_server h]) rfl
  | send c => exact hkept (by rw [sendStep_server h]) rfl
  | receive c => exact hkept (by rw [receiveStep_server h]) rfl
  | type c word =>
      obtain ⟨-, h⟩ := Option.ite_none_left_eq_some.mp h
      obtain rfl := Option.some.inj h
      exact hkept rfl rfl
  | interrupt c =>
      obtain rfl := Option.some.inj h
      exact hkept rfl rfl
  | stop =>
      obtain rfl := Option.some.inj h
      exact hkept rfl rfl

/-- The thread takes no step from behind the loop. -/
def Within (cfg : Config) (k : ℕ) (s : State) (as : List Action) : Prop :=
  ∀ u, Takes (step cfg) s as u (.server k) → (u.server k).pc ≠ .clear

lemma within_cons {k : ℕ} {a : Action} {as : List Action} (h : step cfg s a = some s') :
    Within cfg k s (a :: as) ↔
      (a = .server k → (s.server k).pc ≠ .clear) ∧ Within cfg k s' as := by
  constructor
  · intro hwithin
    refine ⟨fun ha => hwithin s ((takes_cons h).mpr (Or.inl ⟨rfl, ha.symm⟩)), fun u hu => ?_⟩
    exact hwithin u ((takes_cons h).mpr (Or.inr hu))
  · rintro ⟨hhead, hrest⟩ u hu
    rcases (takes_cons h).mp hu with ⟨rfl, rfl⟩ | hu
    · exact hhead rfl
    · exact hrest u hu

/-- What the loop has written and what is ahead of it make up what was ahead. -/
theorem writes_of_exec {k : ℕ} {as : List Action} (hcasts : (s.server k).pc.Casts cfg)
    (h : exec (step cfg) s as = some s') (hwithin : Within cfg k s as) :
    addressed (s.server k).msgTo ((s.server k).pc.ahead cfg k) =
      writes cfg k s as ++ addressed (s.server k).msgTo ((s'.server k).pc.ahead cfg k) := by
  induction as generalizing s with
  | nil =>
      obtain rfl : s = s' := by simpa using h
      rfl
  | cons a as ih =>
      obtain ⟨u, hu, hrest⟩ := Option.bind_eq_some_iff.mp h
      obtain ⟨hclear, hwithin⟩ := (within_cons hu).mp hwithin
      obtain ⟨hcasts', hmsg, hahead⟩ := casts_step hcasts hclear hu
      have hlater := ih hcasts' hrest hwithin
      rw [hmsg] at hlater
      rw [hahead, hlater, writes, hu, List.append_assoc]

/-- How many statements of the loop are left. -/
def ServerPc.left (cfg : Config) : ServerPc → ℕ
  | .forTest i => 4 * (cfg.maxClients - i / 2) + 1
  | .trywait i => 4 * (cfg.maxClients - i / 2)
  | .write i => 4 * (cfg.maxClients - i / 2) - 1
  | .post i => 4 * (cfg.maxClients - i / 2) - 2
  | _ => 0

/-- In the loop nothing makes the thread wait. -/
lemma exists_serverStep {k : ℕ} (hcasts : (s.server k).pc.Casts cfg)
    (hclear : (s.server k).pc ≠ .clear) : ∃ s', serverStep cfg s k (s.server k) = some s' ∧
      (s'.server k).pc.left cfg < (s.server k).pc.left cfg := by
  cases hpc : (s.server k).pc with
  | forTest i =>
      refine ⟨_, by simp only [serverStep, hpc]; rfl, ?_⟩
      simp only [State.setServer, Function.update_self]
      split
      · simp only [ServerPc.left]
        omega
      · simp [ServerPc.left]
  | trywait i =>
      rw [hpc] at hcasts
      obtain ⟨hodd, hi⟩ := hcasts
      by_cases hvalue : 0 < s.sems i
      · refine ⟨_, by simp only [serverStep, hpc, if_pos hvalue]; rfl, ?_⟩
        simp only [State.setServer, Function.update_self, ServerPc.left]
        omega
      · refine ⟨_, by simp only [serverStep, hpc, if_neg hvalue]; rfl, ?_⟩
        simp only [State.setServer, Function.update_self, ServerPc.left]
        omega
  | write i =>
      rw [hpc] at hcasts
      obtain ⟨hodd, hi⟩ := hcasts
      by_cases hown : i ≠ 2 * k + 1
      · refine ⟨_, by simp only [serverStep, hpc, if_pos hown]; rfl, ?_⟩
        simp only [State.setServer, Function.update_self, ServerPc.left]
        omega
      · refine ⟨_, by simp only [serverStep, hpc, if_neg hown]; rfl, ?_⟩
        simp only [State.setServer, Function.update_self, ServerPc.left]
        omega
  | post i =>
      rw [hpc] at hcasts
      obtain ⟨hodd, hi⟩ := hcasts
      refine ⟨_, by simp only [serverStep, hpc]; rfl, ?_⟩
      simp only [State.setServer, Function.update_self, ServerPc.left]
      omega
  | clear => exact absurd hpc hclear
  | _ =>
      rw [hpc] at hcasts
      exact hcasts.elim

/-- **The broadcast loop comes to its end**, when the thread is let run. -/
theorem exists_exec_clear {k : ℕ} (hk : k < cfg.maxClients) (hcasts : (s.server k).pc.Casts cfg) :
    ∃ as s', exec (step cfg) s as = some s' ∧ (s'.server k).pc = .clear ∧ Within cfg k s as := by
  induction hn : (s.server k).pc.left cfg using Nat.strong_induction_on generalizing s with
  | _ n ih =>
      by_cases hclear : (s.server k).pc = .clear
      · refine ⟨[], s, rfl, hclear, fun u hu => ?_⟩
        exact absurd hu.mem List.not_mem_nil
      · obtain ⟨u, hu, hleft⟩ := exists_serverStep hcasts hclear
        have hstep : step cfg s (.server k) = some u := by
          rw [step, if_pos hk, hu]
        have hcasts' := (casts_serverStep hcasts hclear hu).1
        obtain ⟨as, s', hrun, hend, hwithin⟩ := ih _ (hn ▸ hleft) hcasts' rfl
        refine ⟨.server k :: as, s', ?_, hend, (within_cons hstep).mpr ⟨fun _ => hclear, hwithin⟩⟩
        rw [exec_cons, hstep, Option.bind_some, hrun]

/-! ## Handling a chat message -/

/-- The message counts as a text: its client stays connected, and the loop sends it to all the
other slots, however it is interrupted. -/
structure TakenAsText (cfg : Config) (s : State) (k : ℕ) (m : StructMsg) : Prop where
  info : ∀ s', step cfg s (.server k) = some s' → s'.clientsInfo = s.clientsInfo ∧
    s'.clientsConnectedCount = s.clientsConnectedCount
  cast : ∀ as s', exec (step cfg) s (.server k :: as) = some s' → (s'.server k).pc = .clear →
    Within cfg k s (.server k :: as) →
      writes cfg k s (.server k :: as) = addressed m (others cfg k 0)
  ends : ∃ as s', exec (step cfg) s (.server k :: as) = some s' ∧ (s'.server k).pc = .clear ∧
    Within cfg k s (.server k :: as)

/-- A text without NULs begins with a word in its buffer as it does by itself. -/
lemma isPrefixOf_zeros {word chars : List UInt8} (h0 : 0 ∉ word) (n : ℕ) :
    word.isPrefixOf (chars ++ List.replicate n 0) = true ↔ word <+: chars := by
  rw [List.isPrefixOf_iff_prefix]
  refine ⟨fun hpre => ?_, fun hpre => hpre.trans (List.prefix_append _ _)⟩
  refine List.prefix_of_prefix_length_le hpre (List.prefix_append _ _) ?_
  by_contra hlong
  -- the word would reach into the zeros
  have hzero : word[chars.length]? = some 0 := by
    obtain ⟨rest, hrest⟩ := hpre
    have hlen := congrArg List.length hrest
    simp only [List.length_append, List.length_replicate] at hlen
    have hget := congrArg (·[chars.length]?) hrest
    simp only [List.getElem?_append_left (not_le.mp hlong),
      List.getElem?_append_right le_rfl, Nat.sub_self, List.getElem?_replicate] at hget
    rw [hget, if_pos (by omega)]
  exact h0 (List.mem_of_getElem? hzero)

lemma whole_connects (nick : Nick) (text : List UInt8) :
    (StructMsg.whole nick text).connects = true ↔ msgConnect <+: nick.bytes ++ text :=
  isPrefixOf_zeros (by decide) _

lemma whole_disconnects (nick : Nick) (text : List UInt8) :
    (StructMsg.whole nick text).disconnects = true ↔ msgDisconnect <+: nick.bytes ++ text :=
  isPrefixOf_zeros (by decide) _

/-- A text cannot begin with both commands. -/
lemma not_connects_of_disconnects {m : StructMsg} (h : m.disconnects = true) :
    m.connects = false := by
  obtain ⟨rest, hrest⟩ := List.isPrefixOf_iff_prefix.mp h
  rw [StructMsg.connects, ← hrest]
  rfl

/-- A disconnecting text ends the session. -/
lemma handleStep_disconnects {k : ℕ} (hconn : (s.clientsInfo k).flagConnect = 1)
    (hdis : (s.server k).msgFrom.disconnects = true) :
    (handleStep s k (s.server k)).clientsInfo k = ⟨0, 0⟩ := by
  have hcon := not_connects_of_disconnects hdis
  simp [handleStep, Desk.handle, Desk.broadcasts, hcon, hdis, hconn, State.setServer]

/-- Any other text starts the broadcast loop; a connecting one does so with the message the
thread sent last. -/
lemma handleStep_casts {k : ℕ} (hconn : (s.clientsInfo k).flagConnect = 1)
    (hflag : (s.server k).msgFrom.flag = 1) (hdis : (s.server k).msgFrom.disconnects = false) :
    handleStep s k (s.server k) = s.setServer k
      ⟨.forTest 1, { (s.server k).msgFrom with flag := 0 },
        if (s.server k).msgFrom.connects then (s.server k).msgTo else (s.server k).msgFrom⟩ := by
  by_cases hcon : (s.server k).msgFrom.connects = true
  · simp [handleStep, Desk.handle, Desk.broadcasts, hcon, hflag, hconn]
  · simp [handleStep, Desk.handle, Desk.broadcasts, hcon, hdis, hflag, hconn]

lemma addressed_eq_iff {m m' : StructMsg} {slots : List ℕ} :
    addressed m slots = addressed m' slots ↔ slots = [] ∨ m = m' := by
  cases slots with
  | nil => simp [addressed]
  | cons j slots =>
      simp only [addressed, List.map_inj_left, List.cons_ne_nil, false_or]
      constructor
      · intro hall
        exact (Prod.mk.inj (hall j List.mem_cons_self)).2
      · rintro rfl _ _
        rfl

/-- When the loop is entered, the message it begins with decides. -/
lemma taken_iff_of_casts {k : ℕ} {m m' x : StructMsg} (hk : k < cfg.maxClients)
    (hpc : (s.server k).pc = .handle)
    (hstep : step cfg s (.server k) = some (s.setServer k ⟨.forTest 1, m', x⟩)) :
    TakenAsText cfg s k m ↔ others cfg k 0 = [] ∨ x = m := by
  obtain ⟨u, hu⟩ : ∃ u, u = s.setServer k ⟨.forTest 1, m', x⟩ := ⟨_, rfl⟩
  have hserver : u.server k = ⟨.forTest 1, m', x⟩ := by simp [hu, State.setServer]
  rw [← hu] at hstep
  have hcasts : (u.server k).pc.Casts cfg := by simp [hserver, ServerPc.Casts]
  have hahead : (u.server k).pc.ahead cfg k = others cfg k 0 := by simp [hserver, ServerPc.ahead]
  have hexec : ∀ as, exec (step cfg) s (.server k :: as) = exec (step cfg) u as := fun as => by
    rw [exec_cons, hstep, Option.bind_some]
  have hwithin : ∀ as, Within cfg k s (.server k :: as) ↔ Within cfg k u as := fun as =>
    (within_cons hstep).trans (and_iff_right fun _ => by simp [hpc])
  have hwrites : ∀ as s', exec (step cfg) u as = some s' → (s'.server k).pc = .clear →
      Within cfg k u as → writes cfg k s (.server k :: as) = addressed x (others cfg k 0) := by
    intro as s' hrun hend hin
    have hall := writes_of_exec hcasts hrun hin
    rw [hahead, hserver, hend] at hall
    have hnow : writeNow k s (.server k) u = [] := by simp [writeNow, hpc]
    rw [writes, hstep]
    simp only [hnow, List.nil_append]
    rw [hall]
    exact (List.append_nil _).symm
  obtain ⟨as₀, s₀, hrun₀, hend₀, hin₀⟩ := exists_exec_clear hk hcasts
  rw [← addressed_eq_iff]
  constructor
  · intro htaken
    rw [← hwrites as₀ s₀ hrun₀ hend₀ hin₀]
    exact htaken.cast as₀ s₀ ((hexec as₀).trans hrun₀) hend₀ ((hwithin as₀).mpr hin₀)
  · intro hsame
    refine ⟨fun s' hs' => ?_, fun as s' hrun hend hin => ?_, ?_⟩
    · obtain rfl := Option.some.inj (hstep.symm.trans hs')
      rw [hu]
      exact ⟨rfl, rfl⟩
    · rw [← hsame]
      exact hwrites as s' ((hexec as).symm.trans hrun) hend ((hwithin as).mp hin)
    · exact ⟨as₀, s₀, (hexec as₀).trans hrun₀, hend₀, (hwithin as₀).mpr hin₀⟩

lemma others_eq_nil_iff {k : ℕ} (hk : k < cfg.maxClients) :
    others cfg k 0 = [] ↔ cfg.maxClients = 1 := by
  rw [others, List.drop_zero, List.filter_eq_nil_iff]
  constructor
  · intro hnone
    have hzero : ∀ j < cfg.maxClients, j = k := fun j hj => by
      simpa using hnone j (List.mem_range.mpr hj)
    by_contra hmore
    have h₀ := hzero 0 (by omega)
    have h₁ := hzero 1 (by omega)
    omega
  · intro hone j hj
    have hj := List.mem_range.mp hj
    have hjk : j = k := by omega
    simp [hjk]

/-- **When a chat message is taken for what it is**, by the server thread of a connected client:
exactly when name and text together do not begin with "disconnect", and if they begin with
"connect", there is no one else to send it to or it is the message that was sent last. -/
theorem taken_iff {k : ℕ} {nick : Nick} {word : Typed} (hk : k < cfg.maxClients)
    (hpc : (s.server k).pc = .handle) (hconn : (s.clientsInfo k).flagConnect = 1)
    (hmsg : (s.server k).msgFrom = .whole nick word.bytes) :
    TakenAsText cfg s k (.whole nick word.bytes) ↔
      ¬ msgDisconnect <+: nick.bytes ++ word.bytes ∧
        (msgConnect <+: nick.bytes ++ word.bytes →
          cfg.maxClients = 1 ∨ (s.server k).msgTo = .whole nick word.bytes) := by
  have hstep : step cfg s (.server k) = some (handleStep s k (s.server k)) := by
    rw [step, if_pos hk, serverStep, hpc]
  rw [← whole_disconnects, ← whole_connects, ← hmsg]
  by_cases hdis : (s.server k).msgFrom.disconnects = true
  · refine iff_of_false (fun htaken => ?_) fun hboth => hboth.1 hdis
    have hgone := congrFun (htaken.info _ hstep).1 k
    rw [handleStep_disconnects hconn hdis] at hgone
    simp [← hgone] at hconn
  · have hflag : (s.server k).msgFrom.flag = 1 := by rw [hmsg]; rfl
    rw [handleStep_casts hconn hflag (by simpa using hdis)] at hstep
    rw [taken_iff_of_casts hk hpc hstep, others_eq_nil_iff hk]
    by_cases hcon : (s.server k).msgFrom.connects = true
    · simp [hdis, hcon]
    · simp [hdis, hcon]

/-- Process 0 connects and sends a word; server thread 0 is about to handle it. -/
def wordReceived : List Action :=
  List.replicate 3 (.main 0) ++ List.replicate 7 (.server 0) ++ [.type 0 wordHi] ++
    List.replicate 5 (.send 0) ++ List.replicate 5 (.server 0)

/-- A word behind an ordinary name. -/
theorem taken_iff_word_hi : ∃ s, exec (step twoClients) init wordReceived = some s ∧
    TakenAsText twoClients s 0 (.whole (twoClients.nick 0) wordHi.bytes) := by
  have hrun : (exec (step twoClients) init wordReceived).map
      (fun s => ((s.server 0).pc, (s.clientsInfo 0).flagConnect, (s.server 0).msgFrom)) =
        some (.handle, 1, .whole (twoClients.nick 0) wordHi.bytes) := by
    decide +kernel
  obtain ⟨s, hs, hlocals⟩ := Option.map_eq_some_iff.mp hrun
  obtain ⟨hpc, hlocals⟩ := Prod.mk.inj hlocals
  obtain ⟨hconn, hmsg⟩ := Prod.mk.inj hlocals
  have hplain : ¬ msgDisconnect <+: (twoClients.nick 0).bytes ++ wordHi.bytes ∧
      ¬ msgConnect <+: (twoClients.nick 0).bytes ++ wordHi.bytes := by decide
  exact ⟨s, hs, (taken_iff (by decide) hpc hconn hmsg).mpr
    ⟨hplain.1, fun hcon => absurd hcon hplain.2⟩⟩

/-- Two slots, and a client whose name is a command. -/
def commandName : Config :=
  { twoClients with nick := fun _ => ⟨msgConnect, by decide, by decide⟩ }

/-- The other client gets the record the thread began with. -/
theorem connecting_text_is_not_sent :
    ¬ ∀ (cfg : Config) (s : State), Reach (step cfg) Anything init s →
      ∀ (k : ℕ) (nick : Nick) (word : Typed), k < cfg.maxClients → (s.server k).pc = .handle →
        (s.clientsInfo k).flagConnect = 1 → (s.server k).msgFrom = .whole nick word.bytes →
          TakenAsText cfg s k (.whole nick word.bytes) := by
  intro hclaim
  have hrun : (exec (step commandName) init wordReceived).map
      (fun s => ((s.server 0).pc, (s.clientsInfo 0).flagConnect, (s.server 0).msgFrom,
        (s.server 0).msgTo)) =
        some (.handle, 1, .whole (commandName.nick 0) wordHi.bytes, .zero) := by
    decide +kernel
  obtain ⟨s, hs, hlocals⟩ := Option.map_eq_some_iff.mp hrun
  obtain ⟨hpc, hlocals⟩ := Prod.mk.inj hlocals
  obtain ⟨hconn, hlocals⟩ := Prod.mk.inj hlocals
  obtain ⟨hmsg, hlast⟩ := Prod.mk.inj hlocals
  have hk : 0 < commandName.maxClients := by decide
  have htaken := hclaim commandName s (Reach.of_exec hs) 0 _ _ hk hpc hconn hmsg
  have hstep : step commandName s (.server 0) = some (handleStep s 0 (s.server 0)) := by
    rw [step, if_pos hk, serverStep, hpc]
  have hdis : (s.server 0).msgFrom.disconnects = false := by rw [hmsg]; decide
  have hcon : (s.server 0).msgFrom.connects = true := by rw [hmsg]; decide
  rw [handleStep_casts hconn (by rw [hmsg]; rfl) hdis, if_pos hcon] at hstep
  rcases (taken_iff_of_casts hk hpc hstep).mp htaken with halone | hsame
  · exact absurd halone (by decide)
  · rw [hlast] at hsame
    exact absurd hsame (by decide +kernel)

end Exclusion
end ShmemChat
end EltSummer
