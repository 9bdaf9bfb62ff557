import EltSummer.Framework.RangeSum
import EltSummer.Threads.Shops
import Mathlib.Algebra.Order.Group.Int
import Mathlib.Algebra.Order.BigOperators.Group.List

/-!
# Nothing is lost between shops and buyers

The amount a buyer takes is stored nowhere: the shop is set to 0 and the need is lowered,
but never below 0.  With the takings as ghosts the books balance in every state
(`Accounts.balance`), and the clamped need is exactly the part of `BUY_NEED` that the
takings do not cover (`Accounts.need`).  So a need that has reached 0 stays there, and the
buyer takes nothing more.
-/

namespace EltSummer
namespace Threads

open Interleaving Function Finset RangeSum

/-- What has been taken and refilled accounts for the shops and for the needs. -/
structure Accounts (cfg : Config) (stock : ℕ → ℤ) (s : State) : Prop where
  balance : ∑ i ∈ range cfg.shops, stock i + prodFilling * s.refills =
    ∑ i ∈ range cfg.shops, s.shop i + ∑ b ∈ range cfg.buyers, (s.taken b).sum
  nonneg : ∀ i < cfg.shops, 0 ≤ s.shop i
  need : ∀ b, (s.buyer b).buyNeed = max 0 (buyNeedAtStart - (s.taken b).sum)
  beforeLast : ∀ b before last, s.taken b = before ++ [last] → before.sum < buyNeedAtStart

/-! ## One taking, one refill -/

@[simp] lemma buy_shop (s : State) (b i : ℕ) : (s.buy b i).shop = update s.shop i 0 := rfl

@[simp] lemma buy_refills (s : State) (b i : ℕ) : (s.buy b i).refills = s.refills := rfl

@[simp] lemma fill_shop (s : State) (p i : ℕ) :
    (s.fill p i).shop = update s.shop i (s.shop i + prodFilling) := rfl

@[simp] lemma fill_taken (s : State) (p i : ℕ) : (s.fill p i).taken = s.taken := rfl

@[simp] lemma fill_refills (s : State) (p i : ℕ) : (s.fill p i).refills = s.refills + 1 := rfl

lemma buy_taken (s : State) (b i c : ℕ) :
    (s.buy b i).taken c = if c = b then s.taken b ++ [s.shop i] else s.taken c := by
  simp only [State.buy, update_apply]

lemma buy_buyNeed (s : State) (b i c : ℕ) :
    ((s.buy b i).buyer c).buyNeed =
      if c = b then needAfter (s.buyer b).buyNeed (s.shop i) else (s.buyer c).buyNeed := by
  simp only [State.buy, update_apply]
  split <;> rfl

/-- The total of all takings grows by the content of the shop. -/
lemma sum_buy_taken {cfg : Config} {s : State} {b i : ℕ} (hb : b < cfg.buyers) :
    ∑ c ∈ range cfg.buyers, ((s.buy b i).taken c).sum =
      ∑ c ∈ range cfg.buyers, (s.taken c).sum + s.shop i := by
  have hterm : (fun c => ((s.buy b i).taken c).sum) =
      update (fun c => (s.taken c).sum) b ((s.taken b).sum + s.shop i) := by
    funext c
    rw [buy_taken, update_apply]
    split <;> simp
  rw [hterm, sum_update _ hb]
  ring

/-- Taking from a clamped need is clamping after the taking. -/
lemma needAfter_clamped {need total amount : ℤ} (hneed : need = max 0 (buyNeedAtStart - total))
    (hopen : need ≠ 0) : needAfter need amount = max 0 (buyNeedAtStart - (total + amount)) := by
  unfold needAfter
  split <;> omega

/-! ## The run -/

lemma accounts_start (cfg : Config) {stock : ℕ → ℤ} (hstock : ∀ i < cfg.shops, 0 ≤ stock i) :
    Accounts cfg stock (start stock) where
  balance := by simp [start]
  nonneg := hstock
  need := fun b => by simp [start, buyNeedAtStart]
  beforeLast := fun b before last h => by simp [start] at h

lemma accounts_take {cfg : Config} {stock : ℕ → ℤ} {s : State} {b i : ℕ}
    (hs : Accounts cfg stock s) (hb : b < cfg.buyers) (hi : i < cfg.shops)
    (hopen : (s.buyer b).buyNeed ≠ 0) : Accounts cfg stock (s.buy b i) where
  balance := by
    rw [sum_buy_taken hb, buy_shop, buy_refills, sum_update _ hi, hs.balance]
    ring
  nonneg := by
    intro k hk
    rw [buy_shop, update_apply]
    split
    · exact le_rfl
    · exact hs.nonneg k hk
  need := by
    intro c
    rw [buy_buyNeed, buy_taken]
    split
    · rw [needAfter_clamped (hs.need b) hopen, List.sum_append, List.sum_singleton]
    · exact hs.need c
  beforeLast := by
    intro c before last h
    rw [buy_taken] at h
    split at h
    · -- the need was open, so the takings before this one left part of it
      obtain ⟨rfl, -⟩ := List.append_inj' h rfl
      have := hs.need b
      omega
    · exact hs.beforeLast c before last h

lemma accounts_refill {cfg : Config} {stock : ℕ → ℤ} {s : State} {p i : ℕ}
    (hs : Accounts cfg stock s) (hi : i < cfg.shops) : Accounts cfg stock (s.fill p i) where
  balance := by
    rw [fill_shop, fill_refills, fill_taken, sum_update _ hi, Nat.cast_succ, mul_add,
      ← add_assoc, hs.balance]
    ring
  nonneg := by
    intro k hk
    rw [fill_shop, update_apply]
    have := hs.nonneg i hi
    split
    · unfold prodFilling
      omega
    · exact hs.nonneg k hk
  need := hs.need
  beforeLast := hs.beforeLast

lemma accounts_step {cfg : Config} {stock : ℕ → ℤ} {s s' : State} {a : Action}
    (hs : Accounts cfg stock s) (h : step cfg s a = some s') : Accounts cfg stock s' := by
  cases moves_of_step h with
  | walk hsame =>
      exact ⟨by rw [hsame.refills, hsame.shop, hsame.taken]; exact hs.balance,
        by rw [hsame.shop]; exact hs.nonneg,
        fun b => by rw [hsame.buyNeed, hsame.taken]; exact hs.need b,
        by rw [hsame.taken]; exact hs.beforeLast⟩
  | take hb hi hopen => exact accounts_take hs hb hi hopen
  | refill hi => exact accounts_refill hs hi

/-- A buyer without need keeps its takings. -/
lemma taken_of_satisfied {cfg : Config} {s t : State} {b : ℕ}
    (hneed : (s.buyer b).buyNeed = 0) (h : Reach (step cfg) Anything s t) :
    t.taken b = s.taken b ∧ (t.buyer b).buyNeed = 0 := by
  refine h.invariant (I := fun u => u.taken b = s.taken b ∧ (u.buyer b).buyNeed = 0)
    ⟨rfl, hneed⟩ fun u a v hu _ hstep => ?_
  cases moves_of_step hstep with
  | walk hsame => rw [hsame.taken, hsame.buyNeed]; exact hu
  | @take c i hc hi hopen =>
      have hne : b ≠ c := fun hbc => hopen (hbc ▸ hu.2)
      rw [buy_taken, buy_buyNeed, if_neg hne, if_neg hne]
      exact hu
  | refill hi => exact hu

/-- **Accounting.**  For any numbers of shops, buyers and producers, any stock and any
interleaving, the accounts hold in every state, and a buyer whose need has reached 0 takes
nothing in any state after it. -/
theorem accounts_of_reach (cfg : Config) {stock : ℕ → ℤ} (hstock : ∀ i < cfg.shops, 0 ≤ stock i)
    {s : State} (h : Reach (step cfg) Anything (start stock) s) :
    Accounts cfg stock s ∧
      ∀ b t, (s.buyer b).buyNeed = 0 → Reach (step cfg) Anything s t → t.taken b = s.taken b :=
  ⟨h.invariant (accounts_start cfg hstock) fun _ _ _ hI _ hstep => accounts_step hI hstep,
    fun _ _ hneed ht => (taken_of_satisfied hneed ht).1⟩

lemma mainStock_nonneg (rand : ℕ → ℕ) (i : ℕ) : 0 ≤ mainStock rand i := Int.natCast_nonneg _

/-- The run of the source's numbers in which the first buyer empties the first shop. -/
theorem accounts_of_reach_first_taking : ∃ s,
    exec (step ⟨5, 3, 1⟩) (start (mainStock fun i => 7 * i)) [.main true, .buyer 0 true] =
      some s ∧
    Accounts ⟨5, 3, 1⟩ (mainStock fun i => 7 * i) s ∧
      ∀ b t, (s.buyer b).buyNeed = 0 → Reach (step ⟨5, 3, 1⟩) Anything s t →
        t.taken b = s.taken b := by
  obtain ⟨s, hs⟩ : ∃ s, exec (step ⟨5, 3, 1⟩) (start (mainStock fun i => 7 * i))
      [.main true, .buyer 0 true] = some s := ⟨_, rfl⟩
  exact ⟨s, hs, accounts_of_reach _ (fun i _ => mainStock_nonneg _ i) (Reach.of_exec hs)⟩

end Threads
end EltSummer
