import EltSummer.HighloadServers.EchoServer

/-!
# How the echo server ends

The word that is typed at the terminal makes `main_while_var` 0, and `main` looks at it once a
round.  From then on every step of any thread brings the end nearer (`State.left`), and at most the
clients of the round in hand are still answered (`State.due`).  That a run does come to its end
rests on the calls: each of them returns, if only with -1.  With a client that has connected and
stays silent, or one that `select` has found and `accept` waits for, the thread stays in the call
and `main` in its join.
-/

namespace EltSummer
namespace EchoServer

open Block CString Interleaving Function

variable {s s' : State} {p : Proto}

/-- How many statements a client's thread has left. -/
def ClientPc.left : ClientPc → ℕ
  | .absent => 0
  | .listen => 8
  | .accept => 7
  | .recv => 6
  | .prepare => 5
  | .send => 4
  | .clearInput => 3
  | .clearOutput => 2
  | .close => 1
  | .exited => 0

/-- Whether the answer is still to be sent. -/
def ClientPc.due (pc : ClientPc) : ℕ := if 4 ≤ pc.left then 1 else 0

/-- How many steps are left once `main_while_var` is 0. -/
def State.left (s : State) : ℕ :=
  match s.mainPc with
  | .createShutdown => 6
  | .head => 5
  | .select => 24
  | .create p udp => (if udp then 8 else 0) + (if p = .tcp then 8 else 6) + 7
  | .join p udp => (if udp then 8 else 0) + (s.client p).left + 6
  | .stop => 4
  | .joinShutdown => 3
  | .close .tcp => 2
  | .close .udp => 1
  | .exited => 0

/-- How many answers are still sent then. -/
def State.due (s : State) : ℕ :=
  match s.mainPc with
  | .select => 2
  | .create _ udp => 1 + udp.toNat
  | .join p udp => (s.client p).due + udp.toNat
  | _ => 0

/-- What a step of a client's thread does to the counts. -/
lemma clientStep_left {result : Result} (h : clientStep s p result = some s') :
    ∃ pc, s'.client = update s.client p pc ∧ pc.left < (s.client p).left ∧
      s'.mainPc = s.mainPc ∧ s'.mainWhileVar = s.mainWhileVar ∧ s'.shutdown = s.shutdown ∧
      s'.sent.length + pc.due ≤ s.sent.length + (s.client p).due := by
  cases result with
  | ok =>
      cases hpc : s.client p with
      | listen =>
          simp only [clientStep, hpc, Option.some.injEq] at h
          subst h
          exact ⟨.accept, rfl, by decide, rfl, rfl, rfl, le_rfl⟩
      | prepare =>
          simp only [clientStep, hpc] at h
          obtain ⟨b, -, rfl⟩ := Option.map_eq_some_iff.mp h
          exact ⟨.send, rfl, by decide, rfl, rfl, rfl, le_rfl⟩
      | send =>
          simp only [clientStep, hpc] at h
          obtain ⟨-, h⟩ := Option.ite_none_right_eq_some.mp h
          obtain rfl := Option.some.inj h
          exact ⟨.clearInput, rfl, by decide, rfl, rfl, rfl, by
            simp [ClientPc.due, ClientPc.left]⟩
      | clearInput =>
          simp only [clientStep, hpc, Option.some.injEq] at h
          subst h
          exact ⟨.clearOutput, rfl, by decide, rfl, rfl, rfl, le_rfl⟩
      | clearOutput =>
          simp only [clientStep, hpc, Option.some.injEq] at h
          subst h
          refine ⟨_, rfl, ?_, rfl, rfl, rfl, ?_⟩
          · split <;> decide
          · split <;> exact le_rfl
      | close =>
          simp only [clientStep, hpc, Option.some.injEq] at h
          subst h
          exact ⟨.exited, rfl, by decide, rfl, rfl, rfl, le_rfl⟩
      | _ => simp [clientStep, hpc] at h
  | failed =>
      cases hpc : s.client p with
      | listen =>
          simp only [clientStep, hpc, Option.some.injEq] at h
          subst h
          exact ⟨.accept, rfl, by decide, rfl, rfl, rfl, le_rfl⟩
      | accept =>
          simp only [clientStep, hpc, Option.some.injEq] at h
          subst h
          exact ⟨.recv, rfl, by decide, rfl, rfl, rfl, le_rfl⟩
      | recv =>
          simp only [clientStep, hpc, Option.some.injEq] at h
          subst h
          exact ⟨.prepare, rfl, by decide, rfl, rfl, rfl, le_rfl⟩
      | send =>
          simp only [clientStep, hpc, Option.some.injEq] at h
          subst h
          exact ⟨.clearInput, rfl, by decide, rfl, rfl, rfl, Nat.le_succ _⟩
      | _ => simp [clientStep, hpc] at h
  | accepted fd =>
      obtain ⟨⟨rfl, hpc, -⟩, h⟩ := Option.ite_none_right_eq_some.mp h
      obtain rfl := Option.some.inj h
      rw [hpc]
      exact ⟨.recv, rfl, by decide, rfl, rfl, rfl, le_rfl⟩
  | data bytes =>
      obtain ⟨⟨hpc, -⟩, h⟩ := Option.ite_none_right_eq_some.mp h
      obtain rfl := Option.some.inj h
      rw [hpc]
      exact ⟨.prepare, rfl, by decide, rfl, rfl, rfl, le_rfl⟩

lemma left_eq_zero (hidle : (s.client p).running = false) : (s.client p).left = 0 := by
  cases hpc : s.client p with
  | absent => rfl
  | exited => rfl
  | _ =>
      rw [hpc] at hidle
      cases hidle

/-- What a step of `main` does to the counts, once `main_while_var` is 0. -/
lemma mainStep_left {outcome : Outcome} (h : Formed s) (hgone : s.mainWhileVar = false)
    (hstep : mainStep s outcome = some s') :
    s'.left < s.left ∧ s'.mainWhileVar = false ∧
      s'.sent.length + s'.due ≤ s.sent.length + s.due := by
  cases outcome with
  | ok =>
      cases hpc : s.mainPc with
      | create p udp =>
          simp only [mainStep, hpc, Option.some.injEq] at hstep
          subst hstep
          refine ⟨?_, hgone, ?_⟩
          · cases p <;> simp [State.left, hpc, Proto.first, ClientPc.left]
          · cases p <;>
              simp [State.due, hpc, Proto.first, ClientPc.due, ClientPc.left]
      | join p udp =>
          simp only [mainStep, hpc] at hstep
          obtain ⟨hdone, hstep⟩ := Option.ite_none_left_eq_some.mp hstep
          obtain rfl := Option.some.inj hstep
          have hzero := left_eq_zero ((Bool.not_eq_true _).mp hdone)
          refine ⟨?_, hgone, ?_⟩
          · cases udp <;> simp [State.left, hpc, behindJoin, hzero]
          · cases udp <;> simp [State.due, hpc, behindJoin, ClientPc.due, hzero]
      | joinShutdown =>
          simp only [mainStep, hpc] at hstep
          obtain ⟨-, hstep⟩ := Option.ite_none_left_eq_some.mp hstep
          obtain rfl := Option.some.inj hstep
          exact ⟨by simp [State.left, hpc], hgone, by simp [State.due, hpc]⟩
      | close p =>
          cases p <;>
          · simp only [mainStep, hpc, Option.some.injEq] at hstep
            subst hstep
            exact ⟨by simp [State.left, hpc], hgone, by simp [State.due, hpc]⟩
      | exited => simp [mainStep, hpc] at hstep
      | _ =>
          simp only [mainStep, hpc, Option.some.injEq] at hstep
          subst hstep
          exact ⟨by simp [State.left, hpc, hgone], hgone, by simp [State.due, hpc, hgone]⟩
  | failed =>
      cases hpc : s.mainPc with
      | create p udp =>
          have hzero := left_eq_zero (h.idle (by simp [hpc]) p)
          simp only [mainStep, hpc, Option.some.injEq] at hstep
          subst hstep
          refine ⟨?_, hgone, ?_⟩
          · cases p <;> simp [State.left, hpc, hzero]
          · simp [State.due, hpc, ClientPc.due, hzero]
      | createShutdown =>
          simp only [mainStep, hpc, Option.some.injEq] at hstep
          subst hstep
          exact ⟨by simp [State.left, hpc], hgone, by simp [State.due, hpc]⟩
      | select =>
          simp only [mainStep, hpc, Option.some.injEq] at hstep
          subst hstep
          exact ⟨by simp [State.left, hpc], hgone, by simp [State.due, hpc]⟩
      | _ => simp [mainStep, hpc] at hstep
  | ready tcp udp =>
      obtain ⟨⟨hpc, -⟩, hstep⟩ := Option.ite_none_right_eq_some.mp hstep
      obtain rfl := Option.some.inj hstep
      refine ⟨?_, hgone, ?_⟩
      · cases tcp <;> cases udp <;> simp [State.left, hpc]
      · cases tcp <;> cases udp <;> simp [State.due, hpc]

/-- **One step less**, whoever takes it. -/
lemma step_left {a : Action} (h : Formed s) (hgone : s.mainWhileVar = false)
    (hstep : step s a = some s') :
    s'.left < s.left ∧ s'.mainWhileVar = false ∧
      s'.sent.length + s'.due ≤ s.sent.length + s.due := by
  obtain ⟨-, hstep⟩ := Option.ite_none_left_eq_some.mp hstep
  cases a with
  | main outcome => exact mainStep_left h hgone hstep
  | client p result =>
      obtain ⟨pc, hclient, hleft, hmain, hvar, -, hsent⟩ := clientStep_left hstep
      have hrun : (s.client p).running = true := by
        by_contra hidle
        rw [left_eq_zero ((Bool.not_eq_true _).mp hidle)] at hleft
        exact absurd hleft (Nat.not_lt_zero _)
      obtain ⟨udp, hpc⟩ := h.alone p hrun
      have hself : s'.client p = pc := by rw [hclient, update_self]
      refine ⟨?_, hvar.trans hgone, ?_⟩
      · simp only [State.left, hmain, hpc, hself]
        omega
      · simp only [State.due, hmain, hpc, hself]
        omega
  | shutdown word => simp [shutdownStep, (h.typed hgone).2] at hstep

lemma State.left_le (s : State) : s.left ≤ 24 := by
  cases hpc : s.mainPc with
  | create p udp => cases p <;> cases udp <;> simp [State.left, hpc]
  | join p udp =>
      have hclient : (s.client p).left ≤ 8 := by cases s.client p <;> decide
      cases udp <;> simp [State.left, hpc] <;> omega
  | close p => cases p <;> simp [State.left, hpc]
  | _ => simp [State.left, hpc]

lemma State.due_le (s : State) : s.due ≤ 2 := by
  cases hpc : s.mainPc with
  | create p udp => cases udp <;> simp [State.due, hpc]
  | join p udp =>
      have hclient : (s.client p).due ≤ 1 := by cases s.client p <;> decide
      cases udp <;> simp [State.due, hpc] <;> omega
  | _ => simp [State.due, hpc]

/-- A client's thread can go on, if only since its calls can fail. -/
lemma exists_clientStep (h : Formed s) (hrun : (s.client p).running = true) :
    ∃ result s', clientStep s p result = some s' := by
  cases hpc : s.client p with
  | absent =>
      rw [hpc] at hrun
      cases hrun
  | exited =>
      rw [hpc] at hrun
      cases hrun
  | accept => exact ⟨.failed, _, by simp only [clientStep, hpc]; rfl⟩
  | recv => exact ⟨.failed, _, by simp only [clientStep, hpc]; rfl⟩
  | send => exact ⟨.failed, _, by simp only [clientStep, hpc]; rfl⟩
  | prepare =>
      refine ⟨.ok, { s.clientAt p .send with buffOutput := answer }, ?_⟩
      simp only [clientStep, hpc, strncpy_serverMsg h.length.2, Option.map_some]
  | _ => exact ⟨.ok, _, by simp only [clientStep, hpc]; rfl⟩

/-- Until `main` has exited somebody can go on. -/
lemma exists_step (h : Formed s) (hgone : s.mainWhileVar = false) (hruns : s.mainPc ≠ .exited) :
    ∃ a s', step s a = some s' := by
  have hmain {s' : State} (hstep : mainStep s .ok = some s') : ∃ a s', step s a = some s' :=
    ⟨.main .ok, s', by simp [step, hruns, hstep]⟩
  cases hpc : s.mainPc with
  | exited => exact absurd hpc hruns
  | join p udp =>
      by_cases hrun : (s.client p).running = true
      · obtain ⟨result, s', hstep⟩ := exists_clientStep h hrun
        exact ⟨.client p result, s', by simp [step, hruns, hstep]⟩
      · exact hmain (by simp only [mainStep, hpc, if_neg hrun]; rfl)
  | joinShutdown =>
      have hexited : ¬ s.shutdown.running = true := by
        rw [(h.typed hgone).2]
        decide
      exact hmain (by simp only [mainStep, hpc, if_neg hexited]; rfl)
  | close p => cases p <;> exact hmain (by simp only [mainStep, hpc]; rfl)
  | _ => exact hmain (by simp only [mainStep, hpc]; rfl)

/-- **The end of the server.**  Once `main_while_var` is 0, in any order of the steps and as long as
each call returns: no run takes more than 24 of them or sends more than two answers, until `main`
has exited somebody can go on, and then every socket is closed. -/
theorem server_ends {s : State} (h : Reach step Anything start s) (hgone : s.mainWhileVar = false)
    {acts : List Action} {t : State} (hexec : exec step s acts = some t) :
    acts.length ≤ 24 ∧ t.sent.length ≤ s.sent.length + 2 ∧
      ((∃ a t', step t a = some t') ∨
        t.mainPc = .exited ∧ t.opened = [] ∧ ∀ p, t.serverOpen p = false) := by
  have hformed := formed_of_reach h
  have hrun : (Formed t ∧ t.mainWhileVar = false ∧
      t.sent.length + t.due ≤ s.sent.length + s.due) ∧ t.left + acts.length ≤ s.left := by
    refine rank_of_exec_all (I := fun u => Formed u ∧ u.mainWhileVar = false ∧
      u.sent.length + u.due ≤ s.sent.length + s.due) ?_ ⟨hformed, hgone, le_rfl⟩ hexec
    rintro u a v ⟨hu, hugone, hudue⟩ hstep
    obtain ⟨hleft, hvgone, hvdue⟩ := step_left hu hugone hstep
    exact ⟨⟨hu.step hstep, hvgone, hvdue.trans hudue⟩, hleft⟩
  obtain ⟨⟨ht, htgone, hsent⟩, hleft⟩ := hrun
  have hbound := s.left_le
  have hdue := s.due_le
  refine ⟨by omega, by omega, ?_⟩
  by_cases hexited : t.mainPc = .exited
  · refine Or.inr ⟨hexited, (ht.holds_nothing (ht.idle (by simp [hexited]))).2.2, fun p => ?_⟩
    rw [ht.servers p, hexited]
    rfl
  · exact Or.inl (exists_step ht htgone hexited)

/-- The word is typed while a UDP client has been found and nothing is received of it. -/
def typedWhileServed : List Action :=
  [.main .ok, .main .ok, .main (.ready false true), .main .ok, .shutdown none,
    .shutdown (some exitBuffMsg)]

/-- The client is answered, and `main` goes on to its end. -/
def lastClient : List Action :=
  .client .udp (.data [104, 105]) :: List.replicate 4 (.client .udp .ok) ++
    List.replicate 6 (.main .ok)

theorem server_ends_lastClient : ∃ s t, exec step start typedWhileServed = some s ∧
    exec step s lastClient = some t ∧ t.sent.length ≤ s.sent.length + 2 ∧
      t.mainPc = .exited ∧ t.opened = [] ∧ ∀ p, t.serverOpen p = false := by
  have hrun : (exec step start typedWhileServed).bind (fun s =>
      (exec step s lastClient).map fun t => (s.mainWhileVar, t.mainPc)) =
      some (false, .exited) := by
    decide +kernel
  obtain ⟨s, hs, hrun⟩ := Option.bind_eq_some_iff.mp hrun
  obtain ⟨t, ht, hsummary⟩ := Option.map_eq_some_iff.mp hrun
  obtain ⟨hgone, hexited⟩ := Prod.mk.inj hsummary
  obtain ⟨-, hsent, hend⟩ := server_ends (Reach.of_exec hs) hgone ht
  refine ⟨s, t, hs, ht, hsent, hend.resolve_left ?_⟩
  -- `main` has exited, so there is no step
  rintro ⟨a, t', hstep⟩
  simp [step, hexited] at hstep

end EchoServer
end EltSummer
