import EltSummer.Threads.Accounts
import Mathlib.Algebra.Order.BigOperators.Group.Finset
import Mathlib.Tactic.Linarith

/-!
# The simulation can come to its end

`main` waits for buyers who wait for producers, who would be stopped only behind the buyers.
In every state of a run the buyers that are joined have their need met (`finish_spec`), and as
long as there is a shop and a producer no run gets into a state from which `main` cannot come to
its end any more (`can_finish`): a producer can be brought to the first shop, and a buyer after
it, until its need is met.
-/

namespace EltSummer
namespace Threads

open Interleaving Function Finset

variable {cfg : Config} {stock : ℕ → ℤ} {s s' t : State}

/-! ## What `main` has done -/

/-- How many buyers have been created. -/
def Config.createdBuyers (cfg : Config) : MainPc → ℕ
  | .createBuyer j => j
  | _ => cfg.buyers

def Config.createdProds (cfg : Config) : MainPc → ℕ
  | .createBuyer _ => 0
  | .createProd j => j
  | _ => cfg.prods

/-- How many buyers have been waited for. -/
def Config.joined (cfg : Config) : MainPc → ℕ
  | .joinBuyer j => j
  | .stop => cfg.buyers
  | .finish => cfg.buyers
  | _ => 0

/-- What the threads have come to, by what `main` has done. -/
structure Formed (cfg : Config) (s : State) : Prop where
  buyers : s.mainPc ≠ .exited → ∀ b < cfg.createdBuyers s.mainPc, (s.buyer b).pc ≠ .absent
  prods : s.mainPc ≠ .exited → ∀ p < cfg.createdProds s.mainPc, s.prod p ≠ .absent
  joined : ∀ b < cfg.joined s.mainPc, (s.buyer b).pc = .exited
  satisfied : ∀ b, (s.buyer b).pc = .exited → (s.buyer b).buyNeed = 0
  supplied : s.stopProd = false → ∀ p, s.prod p ≠ .exited
  stopped : s.stopProd = true → s.mainPc = .finish ∨ s.mainPc = .exited

lemma formed_start (cfg : Config) (stock : ℕ → ℤ) : Formed cfg (start stock) := by
  constructor
  · intro _ b hb
    exact absurd hb (Nat.not_lt_zero b)
  · intro _ p hp
    exact absurd hp (Nat.not_lt_zero p)
  · intro b hb
    exact absurd hb (Nat.not_lt_zero b)
  · intro b hb
    cases hb
  · intro _ p hp
    cases hp
  · intro h
    cases h

/-- What a step of a buyer keeps. -/
lemma Formed.moved (h : Formed cfg s) {b : ℕ} {x : Buyer} (hmain : s'.mainPc = s.mainPc)
    (hstop : s'.stopProd = s.stopProd) (hprod : s'.prod = s.prod)
    (hbuyer : s'.buyer = update s.buyer b x) (hpc : (s.buyer b).pc ≠ .exited)
    (habsent : x.pc ≠ .absent) (hexited : x.pc = .exited → x.buyNeed = 0) : Formed cfg s' := by
  constructor
  · intro hgoes c hc
    rw [hmain] at hgoes hc
    rw [hbuyer, update_apply]
    split
    · exact habsent
    · exact h.buyers hgoes c hc
  · rw [hmain, hprod]
    exact h.prods
  · intro c hc
    rw [hmain] at hc
    have hne : c ≠ b := by
      rintro rfl
      exact hpc (h.joined c hc)
    rw [hbuyer, update_of_ne hne]
    exact h.joined c hc
  · intro c
    rw [hbuyer]
    by_cases hcb : c = b
    · rw [hcb, update_self]
      exact hexited
    · rw [update_of_ne hcb]
      exact h.satisfied c
  · rw [hstop, hprod]
    exact h.supplied
  · rw [hstop, hmain]
    exact h.stopped

lemma Formed.buyerStep {b : ℕ} {locked : Bool} (h : Formed cfg s)
    (hstep : buyerStep cfg s b locked = some s') : Formed cfg s' := by
  cases hpc : (s.buyer b).pc with
  | absent => simp [Threads.buyerStep, hpc] at hstep
  | atShop i =>
      simp only [Threads.buyerStep, hpc] at hstep
      split at hstep
      · obtain rfl := Option.some.inj hstep
        cases locked with
        | false => exact h.moved rfl rfl rfl rfl (by simp [hpc]) (by simp) (by simp)
        | true => exact h.moved rfl rfl rfl rfl (by simp [hpc]) (by simp) (by simp)
      · obtain rfl := Option.some.inj hstep
        exact h.moved rfl rfl rfl rfl (by simp [hpc]) (by simp) (by simp)
  | behindShops =>
      simp only [Threads.buyerStep, hpc, Option.some.injEq] at hstep
      subst hstep
      refine h.moved rfl rfl rfl rfl (by simp [hpc]) ?_ ?_
      · split <;> simp
      · split <;> simp_all
  | exited => simp [Threads.buyerStep, hpc] at hstep

lemma Formed.walked (h : Formed cfg s) {p : ℕ} {pc : ThreadPc} (hmain : s'.mainPc = s.mainPc)
    (hstop : s'.stopProd = s.stopProd) (hbuyer : s'.buyer = s.buyer)
    (hprod : s'.prod = update s.prod p pc) (habsent : pc ≠ .absent)
    (hexited : s.stopProd = false → pc ≠ .exited) : Formed cfg s' := by
  constructor
  · rw [hmain, hbuyer]
    exact h.buyers
  · intro hgoes q hq
    rw [hmain] at hgoes hq
    rw [hprod, update_apply]
    split
    · exact habsent
    · exact h.prods hgoes q hq
  · rw [hmain, hbuyer]
    exact h.joined
  · rw [hbuyer]
    exact h.satisfied
  · intro hgoes q
    rw [hstop] at hgoes
    rw [hprod, update_apply]
    split
    · exact hexited hgoes
    · exact h.supplied hgoes q
  · rw [hstop, hmain]
    exact h.stopped

lemma Formed.prodStep {p : ℕ} {locked : Bool} (h : Formed cfg s)
    (hstep : prodStep cfg s p locked = some s') : Formed cfg s' := by
  cases hpc : s.prod p with
  | absent => simp [Threads.prodStep, hpc] at hstep
  | atShop i =>
      simp only [Threads.prodStep, hpc] at hstep
      split at hstep
      · obtain rfl := Option.some.inj hstep
        cases locked with
        | false => exact h.walked rfl rfl rfl rfl (by simp) (by simp)
        | true => exact h.walked rfl rfl rfl rfl (by simp) (by simp)
      · obtain rfl := Option.some.inj hstep
        exact h.walked rfl rfl rfl rfl (by simp) (by simp)
  | behindShops =>
      simp only [Threads.prodStep, hpc, Option.some.injEq] at hstep
      subst hstep
      refine h.walked rfl rfl rfl rfl ?_ ?_
      · split <;> simp
      · intro hgoes
        simp [hgoes]
  | exited => simp [Threads.prodStep, hpc] at hstep

/-- `main` goes on to another statement and changes nothing else. -/
lemma Formed.withMain (h : Formed cfg s) {pc : MainPc}
    (hbuyers : pc ≠ .exited → ∀ b < cfg.createdBuyers pc, (s.buyer b).pc ≠ .absent)
    (hprods : pc ≠ .exited → ∀ p < cfg.createdProds pc, s.prod p ≠ .absent)
    (hjoined : ∀ b < cfg.joined pc, (s.buyer b).pc = .exited)
    (hstopped : s.stopProd = true → pc = .finish ∨ pc = .exited) :
    Formed cfg { s with mainPc := pc } :=
  ⟨hbuyers, hprods, hjoined, h.satisfied, h.supplied, hstopped⟩

lemma Formed.withMain_exited (h : Formed cfg s) : Formed cfg { s with mainPc := .exited } :=
  h.withMain (fun hne => absurd rfl hne) (fun hne => absurd rfl hne)
    (fun _ hb => absurd hb (Nat.not_lt_zero _)) fun _ => Or.inr rfl

lemma Formed.not_stopped (h : Formed cfg s) (hfinish : s.mainPc ≠ .finish)
    (hexited : s.mainPc ≠ .exited) : s.stopProd = false := by
  cases hstop : s.stopProd with
  | false => rfl
  | true =>
      rcases h.stopped hstop with hpc | hpc
      · exact absurd hpc hfinish
      · exact absurd hpc hexited

lemma Formed.createBuyer {j : ℕ} (h : Formed cfg s) (hpc : s.mainPc = .createBuyer j) :
    Formed cfg { s.buyerAt j (.atShop 0) with mainPc := .createBuyer (j + 1) } := by
  have hgoes := h.not_stopped (by simp [hpc]) (by simp [hpc])
  have hbuyers := h.buyers (by simp [hpc])
  rw [hpc] at hbuyers
  constructor
  · intro _ c hc
    show (update s.buyer j _ c).pc ≠ _
    by_cases hcj : c = j
    · simp [hcj]
    · rw [update_of_ne hcj]
      exact hbuyers c (lt_of_le_of_ne (Nat.le_of_lt_succ hc) hcj)
  · exact fun _ p hp => absurd hp (Nat.not_lt_zero p)
  · exact fun b hb => absurd hb (Nat.not_lt_zero b)
  · intro c
    show (update s.buyer j _ c).pc = _ → (update s.buyer j _ c).buyNeed = 0
    by_cases hcj : c = j
    · simp [hcj]
    · rw [update_of_ne hcj]
      exact h.satisfied c
  · exact h.supplied
  · intro hstop
    cases hgoes.symm.trans hstop

lemma Formed.createProd {j : ℕ} (h : Formed cfg s) (hpc : s.mainPc = .createProd j) :
    Formed cfg { s.prodAt j (.atShop 0) with mainPc := .createProd (j + 1) } := by
  have hgoes := h.not_stopped (by simp [hpc]) (by simp [hpc])
  have hprods := h.prods (by simp [hpc])
  have hbuyers := h.buyers (by simp [hpc])
  rw [hpc] at hprods hbuyers
  constructor
  · exact fun _ => hbuyers
  · intro _ p hp
    show update s.prod j _ p ≠ _
    by_cases hpj : p = j
    · simp [hpj]
    · rw [update_of_ne hpj]
      exact hprods p (lt_of_le_of_ne (Nat.le_of_lt_succ hp) hpj)
  · exact fun b hb => absurd hb (Nat.not_lt_zero b)
  · exact h.satisfied
  · intro hgoes p
    show update s.prod j _ p ≠ _
    by_cases hpj : p = j
    · simp [hpj]
    · rw [update_of_ne hpj]
      exact h.supplied hgoes p
  · intro hstop
    cases hgoes.symm.trans hstop

lemma Formed.mainStep {ok : Bool} (h : Formed cfg s) (hstep : mainStep cfg s ok = some s') :
    Formed cfg s' := by
  have hbuyers := h.buyers
  have hprods := h.prods
  have hjoined := h.joined
  cases hpc : s.mainPc with
  | createBuyer j =>
      have hgoes := h.not_stopped (by simp [hpc]) (by simp [hpc])
      rw [hpc] at hbuyers
      simp only [Threads.mainStep, hpc] at hstep
      split at hstep
      · obtain rfl := Option.some.inj hstep
        cases ok with
        | false => exact h.withMain_exited
        | true => exact h.createBuyer hpc
      · rename_i hall
        obtain rfl := Option.some.inj hstep
        apply h.withMain
        · exact fun _ b hb => hbuyers (by simp) b (hb.trans_le (not_lt.mp hall))
        · exact fun _ p hp => absurd hp (Nat.not_lt_zero p)
        · exact fun b hb => absurd hb (Nat.not_lt_zero b)
        · simp [hgoes]
  | createProd j =>
      have hgoes := h.not_stopped (by simp [hpc]) (by simp [hpc])
      rw [hpc] at hbuyers hprods
      simp only [Threads.mainStep, hpc] at hstep
      split at hstep
      · obtain rfl := Option.some.inj hstep
        cases ok with
        | false => exact h.withMain_exited
        | true => exact h.createProd hpc
      · rename_i hall
        obtain rfl := Option.some.inj hstep
        apply h.withMain
        · exact fun _ => hbuyers (by simp)
        · exact fun _ p hp => hprods (by simp) p (hp.trans_le (not_lt.mp hall))
        · exact fun b hb => absurd hb (Nat.not_lt_zero b)
        · simp [hgoes]
  | joinBuyer j =>
      have hgoes := h.not_stopped (by simp [hpc]) (by simp [hpc])
      rw [hpc] at hbuyers hprods hjoined
      simp only [Threads.mainStep, hpc] at hstep
      split at hstep
      · cases ok with
        | false =>
            obtain rfl := Option.some.inj hstep
            exact h.withMain_exited
        | true =>
            obtain ⟨hexited, hstep⟩ := Option.ite_none_right_eq_some.mp hstep
            obtain rfl := Option.some.inj hstep
            apply h.withMain
            · exact fun _ => hbuyers (by simp)
            · exact fun _ => hprods (by simp)
            · intro b hb
              rcases eq_or_lt_of_le (Nat.le_of_lt_succ hb) with rfl | hlt
              · exact hexited
              · exact hjoined b hlt
            · simp [hgoes]
      · rename_i hall
        obtain rfl := Option.some.inj hstep
        apply h.withMain
        · exact fun _ => hbuyers (by simp)
        · exact fun _ => hprods (by simp)
        · exact fun b hb => hjoined b (hb.trans_le (not_lt.mp hall))
        · simp [hgoes]
  | stop =>
      rw [hpc] at hbuyers hprods hjoined
      simp only [Threads.mainStep, hpc, Option.some.injEq] at hstep
      subst hstep
      exact ⟨fun _ => hbuyers (by simp), fun _ => hprods (by simp), hjoined, h.satisfied,
        by simp, fun _ => Or.inl rfl⟩
  | finish =>
      simp only [Threads.mainStep, hpc, Option.some.injEq] at hstep
      subst hstep
      exact h.withMain_exited
  | exited => simp [Threads.mainStep, hpc] at hstep

lemma Formed.step {a : Action} (h : Formed cfg s) (hstep : Threads.step cfg s a = some s') :
    Formed cfg s' := by
  obtain ⟨-, hstep⟩ := Option.ite_none_left_eq_some.mp hstep
  cases a with
  | buyer b locked =>
      obtain ⟨-, hstep⟩ := Option.ite_none_right_eq_some.mp hstep
      exact h.buyerStep hstep
  | prod p locked =>
      obtain ⟨-, hstep⟩ := Option.ite_none_right_eq_some.mp hstep
      exact h.prodStep hstep
  | main ok => exact h.mainStep hstep

lemma formed_of_reach (h : Reach (step cfg) Anything (start stock) s) : Formed cfg s :=
  h.invariant (formed_start cfg stock) fun _ _ _ hI _ hstep => hI.step hstep

lemma accounts_reach (hstock : ∀ i < cfg.shops, 0 ≤ stock i)
    (h : Reach (step cfg) Anything (start stock) s) : Accounts cfg stock s :=
  h.invariant (accounts_start cfg hstock) fun _ _ _ hI _ hstep => accounts_step hI hstep

/-! ## When `main` finishes -/

/-- What has to have been there for the buyers to be served: their needs come out of the stock
and the refills. -/
lemma Accounts.served (h : Accounts cfg stock s)
    (hneed : ∀ b < cfg.buyers, (s.buyer b).buyNeed = 0) :
    cfg.buyers * buyNeedAtStart ≤ ∑ i ∈ range cfg.shops, stock i + prodFilling * s.refills := by
  have hshops : 0 ≤ ∑ i ∈ range cfg.shops, s.shop i :=
    sum_nonneg fun i hi => h.nonneg i (mem_range.mp hi)
  have htaken : ∑ _b ∈ range cfg.buyers, buyNeedAtStart ≤
      ∑ b ∈ range cfg.buyers, (s.taken b).sum := by
    apply sum_le_sum
    intro b hb
    have hclamped := h.need b
    rw [hneed b (mem_range.mp hb)] at hclamped
    omega
  rw [sum_const, card_range, nsmul_eq_mul] at htaken
  rw [h.balance]
  linarith

/-- **At the end.**  When `main` prints the shops, each buyer has exited, with its need met out of
what it has taken, and the producers have refilled the shops often enough for all needs. -/
theorem finish_spec (cfg : Config) {stock : ℕ → ℤ} (hstock : ∀ i < cfg.shops, 0 ≤ stock i)
    {s : State} (h : Reach (step cfg) Anything (start stock) s) (hfinish : s.mainPc = .finish) :
    (∀ b < cfg.buyers, (s.buyer b).pc = .exited ∧ (s.buyer b).buyNeed = 0 ∧
      buyNeedAtStart ≤ (s.taken b).sum) ∧
    cfg.buyers * buyNeedAtStart ≤
      ∑ i ∈ range cfg.shops, stock i + prodFilling * s.refills := by
  have haccounts := accounts_reach hstock h
  have hformed := formed_of_reach h
  have hjoined := hformed.joined
  rw [hfinish] at hjoined
  refine ⟨fun b hb => ?_, haccounts.served fun b hb => hformed.satisfied b (hjoined b hb)⟩
  have hneed := hformed.satisfied b (hjoined b hb)
  have hclamped := haccounts.need b
  refine ⟨hjoined b hb, hneed, ?_⟩
  omega

/-- One buyer, who finds all it needs in the one shop. -/
def oneBuyer : List Action :=
  [.main true, .main true, .main true, .buyer 0 true, .buyer 0 true, .buyer 0 true, .main true,
    .main true, .main true]

theorem finish_spec_one_buyer : ∃ s,
    exec (step ⟨1, 1, 0⟩) (start fun _ => 10000) oneBuyer = some s ∧
      ∀ b < 1, (s.buyer b).pc = .exited ∧ (s.buyer b).buyNeed = 0 ∧
        buyNeedAtStart ≤ (s.taken b).sum := by
  obtain ⟨s, hs⟩ : ∃ s, exec (step ⟨1, 1, 0⟩) (start fun _ => 10000) oneBuyer = some s :=
    ⟨_, rfl⟩
  have hfinish : s.mainPc = .finish := by
    obtain rfl := Option.some.inj hs
    rfl
  exact ⟨s, hs, (finish_spec ⟨1, 1, 0⟩ (by decide) (Reach.of_exec hs) hfinish).1⟩

/-! ## How it can go on -/

lemma reach_one {a : Action} (h : step cfg s a = some s') : Reach (step cfg) Anything s s' :=
  (Reach.refl _ _ s).tail trivial h

lemma step_buyer {b : ℕ} (locked : Bool) (hmain : s.mainPc ≠ .exited) (hb : b < cfg.buyers) :
    step cfg s (.buyer b locked) = buyerStep cfg s b locked := by
  simp [step, hmain, hb]

lemma step_prod {p : ℕ} (locked : Bool) (hmain : s.mainPc ≠ .exited) (hp : p < cfg.prods) :
    step cfg s (.prod p locked) = prodStep cfg s p locked := by
  simp [step, hmain, hp]

@[simp] lemma buyerAt_buyerAt (s : State) (b : ℕ) (pc pc' : ThreadPc) :
    (s.buyerAt b pc).buyerAt b pc' = s.buyerAt b pc' := by
  simp [State.buyerAt]

@[simp] lemma prodAt_prodAt (s : State) (p : ℕ) (pc pc' : ThreadPc) :
    (s.prodAt p pc).prodAt p pc' = s.prodAt p pc' := by
  simp [State.prodAt]

/-- A buyer can pass the shops without taking. -/
lemma reach_buyer_behindShops {b i : ℕ} (hmain : s.mainPc ≠ .exited) (hb : b < cfg.buyers)
    (hpc : (s.buyer b).pc = .atShop i) :
    Reach (step cfg) Anything s (s.buyerAt b .behindShops) := by
  induction hk : cfg.shops - i generalizing s i with
  | zero =>
      have hend : ¬ (i < cfg.shops ∧ (s.buyer b).buyNeed ≠ 0) := by omega
      refine reach_one ((step_buyer false hmain hb).trans ?_)
      simp only [buyerStep, hpc, if_neg hend]
  | succ k ih =>
      by_cases hgo : i < cfg.shops ∧ (s.buyer b).buyNeed ≠ 0
      · have hfirst : Reach (step cfg) Anything s (s.buyerAt b (.atShop (i + 1))) := by
          refine reach_one ((step_buyer false hmain hb).trans ?_)
          simp [buyerStep, hpc, hgo]
        have hrest := ih (s := s.buyerAt b (.atShop (i + 1))) (i := i + 1) hmain
          (by simp [State.buyerAt]) (by omega)
        rw [buyerAt_buyerAt] at hrest
        exact hfirst.trans hrest
      · refine reach_one ((step_buyer false hmain hb).trans ?_)
        simp only [buyerStep, hpc, if_neg hgo]

/-- A buyer that has been created can come to the first shop, or to its end. -/
lemma reach_buyer_turn {b : ℕ} (hmain : s.mainPc ≠ .exited) (hb : b < cfg.buyers)
    (habsent : (s.buyer b).pc ≠ .absent) (hexited : (s.buyer b).pc ≠ .exited) :
    Reach (step cfg) Anything s
      (s.buyerAt b (if (s.buyer b).buyNeed = 0 then .exited else .atShop 0)) := by
  have hturn {u : State} (humain : u.mainPc ≠ .exited) (hpc : (u.buyer b).pc = .behindShops) :
      Reach (step cfg) Anything u
        (u.buyerAt b (if (u.buyer b).buyNeed = 0 then .exited else .atShop 0)) := by
    refine reach_one ((step_buyer false humain hb).trans ?_)
    simp only [buyerStep, hpc]
  cases hpc : (s.buyer b).pc with
  | absent => exact absurd hpc habsent
  | atShop i =>
      have hlast := hturn (u := s.buyerAt b .behindShops) hmain (by simp [State.buyerAt])
      rw [buyerAt_buyerAt, show ((s.buyerAt b .behindShops).buyer b).buyNeed =
        (s.buyer b).buyNeed by simp [State.buyerAt]] at hlast
      exact (reach_buyer_behindShops hmain hb hpc).trans hlast
  | behindShops => exact hturn hmain hpc
  | exited => exact absurd hpc hexited

lemma reach_prod_behindShops {p i : ℕ} (hmain : s.mainPc ≠ .exited) (hp : p < cfg.prods)
    (hpc : s.prod p = .atShop i) : Reach (step cfg) Anything s (s.prodAt p .behindShops) := by
  induction hk : cfg.shops - i generalizing s i with
  | zero =>
      have hend : ¬ (i < cfg.shops ∧ s.stopProd = false) := by omega
      refine reach_one ((step_prod false hmain hp).trans ?_)
      simp only [prodStep, hpc, if_neg hend]
  | succ k ih =>
      by_cases hgo : i < cfg.shops ∧ s.stopProd = false
      · have hfirst : Reach (step cfg) Anything s (s.prodAt p (.atShop (i + 1))) := by
          refine reach_one ((step_prod false hmain hp).trans ?_)
          simp [prodStep, hpc, hgo]
        have hrest := ih (s := s.prodAt p (.atShop (i + 1))) (i := i + 1) hmain
          (by simp [State.prodAt]) (by omega)
        rw [prodAt_prodAt] at hrest
        exact hfirst.trans hrest
      · refine reach_one ((step_prod false hmain hp).trans ?_)
        simp only [prodStep, hpc, if_neg hgo]

/-- As long as they are not stopped, a producer can come to the first shop. -/
lemma reach_prod_turn {p : ℕ} (hmain : s.mainPc ≠ .exited) (hp : p < cfg.prods)
    (hgoes : s.stopProd = false) (habsent : s.prod p ≠ .absent) (hexited : s.prod p ≠ .exited) :
    Reach (step cfg) Anything s (s.prodAt p (.atShop 0)) := by
  have hturn {u : State} (humain : u.mainPc ≠ .exited) (hugoes : u.stopProd = false)
      (hpc : u.prod p = .behindShops) :
      Reach (step cfg) Anything u (u.prodAt p (.atShop 0)) := by
    refine reach_one ((step_prod false humain hp).trans ?_)
    simp [prodStep, hpc, hugoes]
  cases hpc : s.prod p with
  | absent => exact absurd hpc habsent
  | atShop i =>
      have hlast := hturn (u := s.prodAt p .behindShops) hmain hgoes (by simp [State.prodAt])
      rw [prodAt_prodAt] at hlast
      exact (reach_prod_behindShops hmain hp hpc).trans hlast
  | behindShops => exact hturn hmain hgoes hpc
  | exited => exact absurd hpc hexited

/-- One refill of the first shop, and one taking from it. -/
def State.serve (s : State) (b : ℕ) : State :=
  (((s.prodAt 0 (.atShop 0)).fill 0 0).buyerAt b (.atShop 0)).buy b 0

lemma reach_serve {b : ℕ} (hshops : 0 < cfg.shops) (hprods : 0 < cfg.prods)
    (h : Formed cfg s) {j : ℕ} (hmain : s.mainPc = .joinBuyer j) (hb : b < cfg.buyers)
    (hexited : (s.buyer b).pc ≠ .exited) (hneed : (s.buyer b).buyNeed ≠ 0) :
    Reach (step cfg) Anything s (s.serve b) := by
  have hruns : s.mainPc ≠ .exited := by simp [hmain]
  have hgoes : s.stopProd = false := h.not_stopped (by simp [hmain]) hruns
  have hbuyers := h.buyers hruns
  have hcreated := h.prods hruns
  rw [hmain] at hbuyers hcreated
  have hturn := reach_prod_turn hruns hprods hgoes (hcreated 0 hprods) (h.supplied hgoes 0)
  have hfill : Reach (step cfg) Anything (s.prodAt 0 (.atShop 0))
      ((s.prodAt 0 (.atShop 0)).fill 0 0) := by
    refine reach_one ((step_prod (s := s.prodAt 0 (.atShop 0)) true hruns hprods).trans ?_)
    simp [prodStep, State.prodAt, hshops, hgoes]
  have hback := reach_buyer_turn (s := (s.prodAt 0 (.atShop 0)).fill 0 0) hruns hb (hbuyers b hb)
    hexited
  rw [show (((s.prodAt 0 (.atShop 0)).fill 0 0).buyer b).buyNeed = (s.buyer b).buyNeed from rfl,
    if_neg hneed] at hback
  have htake : Reach (step cfg) Anything (((s.prodAt 0 (.atShop 0)).fill 0 0).buyerAt b (.atShop 0))
      (s.serve b) := by
    have hopen : (((s.prodAt 0 (.atShop 0)).fill 0 0).buyer b).buyNeed ≠ 0 := hneed
    refine reach_one ((step_buyer (s := ((s.prodAt 0 (.atShop 0)).fill 0 0).buyerAt b (.atShop 0))
      true hruns hb).trans ?_)
    simp [buyerStep, State.buyerAt, hshops, hopen, State.serve]
  exact ((hturn.trans hfill).trans hback).trans htake

lemma serve_buyNeed (s : State) (b : ℕ) : ((s.serve b).buyer b).buyNeed =
    needAfter (s.buyer b).buyNeed (s.shop 0 + prodFilling) := by
  simp [State.serve, State.buy, State.buyerAt, State.fill, State.prodAt]

/-- While `main` waits for the buyers, each of them can come to its end. -/
lemma reach_buyer_exit (hstock : ∀ i < cfg.shops, 0 ≤ stock i) (hshops : 0 < cfg.shops)
    (hprods : 0 < cfg.prods) (h : Reach (step cfg) Anything (start stock) s) {j b : ℕ}
    (hmain : s.mainPc = .joinBuyer j) (hb : b < cfg.buyers) :
    ∃ t, Reach (step cfg) Anything s t ∧ t.mainPc = .joinBuyer j ∧ (t.buyer b).pc = .exited := by
  induction hk : (s.buyer b).buyNeed.toNat using Nat.strong_induction_on generalizing s with
  | _ k ih =>
      have hformed := formed_of_reach h
      have haccounts := accounts_reach hstock h
      have hruns : s.mainPc ≠ .exited := by simp [hmain]
      have hbuyers := hformed.buyers hruns
      rw [hmain] at hbuyers
      by_cases hexited : (s.buyer b).pc = .exited
      · exact ⟨s, Reach.refl _ _ _, hmain, hexited⟩
      by_cases hneed : (s.buyer b).buyNeed = 0
      · have hturn := reach_buyer_turn hruns hb (hbuyers b hb) hexited
        rw [if_pos hneed] at hturn
        exact ⟨_, hturn, hmain, by simp [State.buyerAt]⟩
      · have hserve := reach_serve hshops hprods hformed hmain hb hexited hneed
        have hless : ((s.serve b).buyer b).buyNeed.toNat < k := by
          have hclamped := haccounts.need b
          have hshop := haccounts.nonneg 0 hshops
          rw [serve_buyNeed, needAfter, prodFilling]
          split <;> omega
        obtain ⟨t, ht, htmain, htexited⟩ := ih _ hless (h.trans hserve) hmain rfl
        exact ⟨t, hserve.trans ht, htmain, htexited⟩

/-- `main` comes from a join to the end of the joins. -/
lemma reach_stop (hstock : ∀ i < cfg.shops, 0 ≤ stock i) (hshops : 0 < cfg.shops)
    (hprods : 0 < cfg.prods) (h : Reach (step cfg) Anything (start stock) s) {j : ℕ}
    (hmain : s.mainPc = .joinBuyer j) :
    ∃ t, Reach (step cfg) Anything s t ∧ t.mainPc = .stop := by
  induction hk : cfg.buyers - j generalizing s j with
  | zero =>
      refine ⟨{ s with mainPc := .stop }, reach_one (a := .main true) ?_, rfl⟩
      have hend : ¬ j < cfg.buyers := by omega
      simp [step, mainStep, hmain, hend]
  | succ k ih =>
      have hj : j < cfg.buyers := by omega
      obtain ⟨t, ht, htmain, hexited⟩ := reach_buyer_exit hstock hshops hprods h hmain hj
      have hjoin : Reach (step cfg) Anything t { t with mainPc := .joinBuyer (j + 1) } := by
        apply reach_one (a := .main true)
        simp [step, mainStep, htmain, hj, hexited]
      obtain ⟨u, hu, hstop⟩ := ih ((h.trans ht).trans hjoin) rfl (by omega)
      exact ⟨u, (ht.trans hjoin).trans hu, hstop⟩

/-- `main` comes to the joins, if no call fails any more. -/
lemma reach_createProd {j : ℕ} (hmain : s.mainPc = .createBuyer j) :
    ∃ t, Reach (step cfg) Anything s t ∧ t.mainPc = .createProd 0 := by
  induction hk : cfg.buyers - j generalizing s j with
  | zero =>
      refine ⟨{ s with mainPc := .createProd 0 }, reach_one (a := .main true) ?_, rfl⟩
      have hend : ¬ j < cfg.buyers := by omega
      simp [step, mainStep, hmain, hend]
  | succ k ih =>
      have hj : j < cfg.buyers := by omega
      obtain ⟨t, ht, htmain⟩ := ih
        (s := { s.buyerAt j (.atShop 0) with mainPc := .createBuyer (j + 1) }) rfl (by omega)
      refine ⟨t, (reach_one (a := .main true) ?_).trans ht, htmain⟩
      simp [step, mainStep, hmain, hj]

lemma reach_joinBuyer {j : ℕ} (hmain : s.mainPc = .createProd j) :
    ∃ t, Reach (step cfg) Anything s t ∧ t.mainPc = .joinBuyer 0 := by
  induction hk : cfg.prods - j generalizing s j with
  | zero =>
      refine ⟨{ s with mainPc := .joinBuyer 0 }, reach_one (a := .main true) ?_, rfl⟩
      have hend : ¬ j < cfg.prods := by omega
      simp [step, mainStep, hmain, hend]
  | succ k ih =>
      have hj : j < cfg.prods := by omega
      obtain ⟨t, ht, htmain⟩ := ih
        (s := { s.prodAt j (.atShop 0) with mainPc := .createProd (j + 1) }) rfl (by omega)
      refine ⟨t, (reach_one (a := .main true) ?_).trans ht, htmain⟩
      simp [step, mainStep, hmain, hj]

lemma reach_finish (hmain : s.mainPc = .stop) :
    Reach (step cfg) Anything s { s with mainPc := .finish, stopProd := true } := by
  apply reach_one (a := .main true)
  simp [step, mainStep, hmain]

/-- With a shop and a producer, from every state of a run that no failed call has ended `main` can
still come to its end. -/
lemma exists_finish (hstock : ∀ i < cfg.shops, 0 ≤ stock i) (hshops : 0 < cfg.shops)
    (hprods : 0 < cfg.prods) (h : Reach (step cfg) Anything (start stock) s)
    (hruns : s.mainPc ≠ .exited) : ∃ t, Reach (step cfg) Anything s t ∧ t.mainPc = .finish := by
  have hstop {t : State} (ht : Reach (step cfg) Anything s t) (hmain : t.mainPc = .stop) :
      ∃ t, Reach (step cfg) Anything s t ∧ t.mainPc = .finish :=
    ⟨_, ht.trans (reach_finish hmain), rfl⟩
  have hjoin {t : State} (ht : Reach (step cfg) Anything s t) {j : ℕ}
      (hmain : t.mainPc = .joinBuyer j) :
      ∃ t, Reach (step cfg) Anything s t ∧ t.mainPc = .finish := by
    obtain ⟨u, hu, humain⟩ := reach_stop hstock hshops hprods (h.trans ht) hmain
    exact hstop (ht.trans hu) humain
  have hprod {t : State} (ht : Reach (step cfg) Anything s t) {j : ℕ}
      (hmain : t.mainPc = .createProd j) :
      ∃ t, Reach (step cfg) Anything s t ∧ t.mainPc = .finish := by
    obtain ⟨u, hu, humain⟩ : ∃ u, Reach (step cfg) Anything t u ∧ u.mainPc = .joinBuyer 0 :=
      reach_joinBuyer hmain
    exact hjoin (ht.trans hu) humain
  cases hmain : s.mainPc with
  | createBuyer j =>
      obtain ⟨u, hu, humain⟩ : ∃ u, Reach (step cfg) Anything s u ∧ u.mainPc = .createProd 0 :=
        reach_createProd hmain
      exact hprod hu humain
  | createProd j => exact hprod (Reach.refl _ _ _) hmain
  | joinBuyer j => exact hjoin (Reach.refl _ _ _) hmain
  | stop => exact hstop (Reach.refl _ _ _) hmain
  | finish => exact ⟨s, Reach.refl _ _ _, hmain⟩
  | exited => exact absurd hmain hruns

/-! ## When it can always go on -/

lemma buyerStep_refills {b : ℕ} {locked : Bool} (h : buyerStep cfg s b locked = some s') :
    s'.refills = s.refills := by
  simp only [buyerStep] at h
  split at h
  · cases h
  · split at h
    · obtain rfl := Option.some.inj h
      split <;> rfl
    · obtain rfl := Option.some.inj h
      rfl
  · obtain rfl := Option.some.inj h
    rfl
  · cases h

/-- Without a shop or without a producer nothing is refilled. -/
lemma refills_eq_zero (hnone : ¬ (0 < cfg.shops ∧ 0 < cfg.prods))
    (h : Reach (step cfg) Anything (start stock) s) : s.refills = 0 := by
  refine h.invariant (I := fun s => s.refills = 0) rfl fun s a s' hs _ hstep => ?_
  have hrefill : 0 < cfg.prods → s'.refills = s.refills := by
    intro hprods
    cases moves_of_step hstep with
    | walk hsame => exact hsame.refills
    | take => rfl
    | refill hi => exact absurd ⟨Nat.zero_lt_of_lt hi, hprods⟩ hnone
  obtain ⟨-, hstep⟩ := Option.ite_none_left_eq_some.mp hstep
  cases a with
  | buyer b locked =>
      obtain ⟨-, hstep⟩ := Option.ite_none_right_eq_some.mp hstep
      exact (buyerStep_refills hstep).trans hs
  | prod p locked =>
      obtain ⟨hp, -⟩ := Option.ite_none_right_eq_some.mp hstep
      exact (hrefill (Nat.zero_lt_of_lt hp)).trans hs
  | main ok => exact (sameAccounts_mainStep hstep).refills.trans hs

/-- **No run is lost**: where the stock does not cover the needs, `main` can come to its end from
every state of a run that no failed call has ended, exactly if there are a shop and a producer. -/
theorem can_finish_iff (cfg : Config) {stock : ℕ → ℤ} (hstock : ∀ i < cfg.shops, 0 ≤ stock i)
    (hneed : ∑ i ∈ range cfg.shops, stock i < cfg.buyers * buyNeedAtStart) :
    (∀ s, Reach (step cfg) Anything (start stock) s → s.mainPc ≠ .exited →
        ∃ t, Reach (step cfg) Anything s t ∧ t.mainPc = .finish) ↔
      0 < cfg.shops ∧ 0 < cfg.prods := by
  constructor
  · intro h
    by_contra hnone
    obtain ⟨t, ht, hfinish⟩ := h (start stock) (Reach.refl _ _ _) nofun
    have hformed := formed_of_reach ht
    have hjoined := hformed.joined
    rw [hfinish] at hjoined
    have hserved := (accounts_reach hstock ht).served
      fun b hb => hformed.satisfied b (hjoined b hb)
    rw [refills_eq_zero hnone ht, Nat.cast_zero, mul_zero, add_zero] at hserved
    exact absurd hneed (not_lt.mpr hserved)
  · rintro ⟨hshops, hprods⟩ s h hruns
    exact exists_finish hstock hshops hprods h hruns

/-- With the numbers of the source and its greatest stock. -/
theorem can_finish_iff_source : ∃ t,
    Reach (step ⟨5, 3, 1⟩) Anything (start (mainStock fun _ => 20)) t ∧ t.mainPc = .finish :=
  (can_finish_iff ⟨5, 3, 1⟩ (fun i _ => mainStock_nonneg _ i) (by decide)).mpr
    ⟨by decide, by decide⟩ _ (Reach.refl _ _ _) nofun

end Threads
end EltSummer
