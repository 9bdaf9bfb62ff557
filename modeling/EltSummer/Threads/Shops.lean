import EltSummer.Framework.Interleaving
import Mathlib.Data.Int.Notation
import Mathlib.Logic.Function.Basic

/-!
# The shop simulation

`threads_12July/threads.c`: buyers walk along the shops and empty every shop they can lock
until their need is met, producers walk along the same shops and refill every shop they can
lock, and `main` waits for the buyers and then stops the producers.

The machine lets `main` and the threads interleave freely, with the body under a successful
`pthread_mutex_trylock` as one step.  Whether a trylock succeeds is part of the action; so
are the results of `pthread_create` and `pthread_join`.  The numbers of shops, buyers and
producers and the initial stock are parameters.  Printing and sleeping touch nothing
modelled here.

`refills` and `taken` are ghosts: how often a producer has refilled a shop, and the amounts
each buyer has taken, in order.
-/

namespace EltSummer
namespace Threads

open Interleaving Function

/-! ## The machine -/

/-- `SHOP_LOW` and `SHOP_UP`. -/
def shopLow : ℕ := 490

@[inherit_doc shopLow] def shopUp : ℕ := 510

/-- `PROD_FILLING`. -/
def prodFilling : ℤ := 500

/-- `BUY_NEED`. -/
def buyNeedAtStart : ℤ := 10000

/-- `COUNT_OF_SHOPS`, `COUNT_OF_BUY_THREADS` and `COUNT_OF_PROD_THREADS`. -/
structure Config where
  shops : ℕ
  buyers : ℕ
  prods : ℕ

/-- Where in its `while (1)` a thread is. -/
inductive ThreadPc
  /-- Not created yet. -/
  | absent
  /-- At the head of turn `i` of the `for` over the shops. -/
  | atShop (i : ℕ)
  /-- Behind the `for`, at the second test of the condition to finish. -/
  | behindShops
  /-- `pthread_exit`. -/
  | exited
  deriving DecidableEq, Repr

/-- A buyer's locals. -/
structure Buyer where
  pc : ThreadPc
  buyNeed : ℤ
  deriving DecidableEq, Repr

/-- The statement `main` executes next. -/
inductive MainPc
  | createBuyer (j : ℕ)
  | createProd (j : ℕ)
  | joinBuyer (j : ℕ)
  /-- `stop_prod = 1`. -/
  | stop
  /-- Behind `stop_prod = 1`: the shops are printed and the mutexes destroyed. -/
  | finish
  /-- `exit`, which ends every thread. -/
  | exited
  deriving DecidableEq, Repr

structure State where
  mainPc : MainPc
  shop : ℕ → ℤ
  stopProd : Bool
  buyer : ℕ → Buyer
  prod : ℕ → ThreadPc
  refills : ℕ
  taken : ℕ → List ℤ

/-- The shops are filled and no thread has been created. -/
def start (stock : ℕ → ℤ) : State where
  mainPc := .createBuyer 0
  shop := stock
  stopProd := false
  buyer := fun _ => ⟨.absent, buyNeedAtStart⟩
  prod := fun _ => .absent
  refills := 0
  taken := fun _ => []

/-- `SHOP_LOW + rand() % (SHOP_UP - SHOP_LOW + 1)`, the stock `main` starts with. -/
def mainStock (rand : ℕ → ℕ) (i : ℕ) : ℤ := ((shopLow + rand i % (shopUp - shopLow + 1) : ℕ) : ℤ)

/-- A step of the machine: a thread and the result of its trylock, or `main` and the success
of its call. -/
inductive Action
  | buyer (b : ℕ) (locked : Bool)
  | prod (p : ℕ) (locked : Bool)
  | main (ok : Bool)
  deriving DecidableEq, Repr

/-- Buyer `b` with its next statement. -/
def State.buyerAt (s : State) (b : ℕ) (pc : ThreadPc) : State :=
  { s with buyer := update s.buyer b { s.buyer b with pc := pc } }

/-- Producer `p` with its next statement. -/
def State.prodAt (s : State) (p : ℕ) (pc : ThreadPc) : State :=
  { s with prod := update s.prod p pc }

/-- What `buy_need` becomes when `amount` is taken. -/
def needAfter (buyNeed amount : ℤ) : ℤ :=
  if buyNeed - amount < 0 then 0 else buyNeed - amount

/-- The body of `func_buy` under the lock of shop `i`. -/
def State.buy (s : State) (b i : ℕ) : State :=
  { s with
    buyer := update s.buyer b ⟨.atShop (i + 1), needAfter (s.buyer b).buyNeed (s.shop i)⟩
    shop := update s.shop i 0
    taken := update s.taken b (s.taken b ++ [s.shop i]) }

/-- The body of `func_prod` under the lock of shop `i`. -/
def State.fill (s : State) (p i : ℕ) : State :=
  { s with
    prod := update s.prod p (.atShop (i + 1))
    shop := update s.shop i (s.shop i + prodFilling)
    refills := s.refills + 1 }

/-- One step of `func_buy`. -/
def buyerStep (cfg : Config) (s : State) (b : ℕ) (locked : Bool) : Option State :=
  match (s.buyer b).pc with
  | .absent => none
  | .atShop i =>
      if i < cfg.shops ∧ (s.buyer b).buyNeed ≠ 0 then
        some (if locked then s.buy b i else s.buyerAt b (.atShop (i + 1)))
      else some (s.buyerAt b .behindShops)
  | .behindShops =>
      some (s.buyerAt b (if (s.buyer b).buyNeed = 0 then .exited else .atShop 0))
  | .exited => none

/-- One step of `func_prod`. -/
def prodStep (cfg : Config) (s : State) (p : ℕ) (locked : Bool) : Option State :=
  match s.prod p with
  | .absent => none
  | .atShop i =>
      if i < cfg.shops ∧ s.stopProd = false then
        some (if locked then s.fill p i else s.prodAt p (.atShop (i + 1)))
      else some (s.prodAt p .behindShops)
  | .behindShops => some (s.prodAt p (if s.stopProd then .exited else .atShop 0))
  | .exited => none

/-- One statement of `main`.  A failed call exits the process. -/
def mainStep (cfg : Config) (s : State) (ok : Bool) : Option State :=
  match s.mainPc with
  | .createBuyer j =>
      if j < cfg.buyers then
        some (if ok then { s.buyerAt j (.atShop 0) with mainPc := .createBuyer (j + 1) }
          else { s with mainPc := .exited })
      else some { s with mainPc := .createProd 0 }
  | .createProd j =>
      if j < cfg.prods then
        some (if ok then { s.prodAt j (.atShop 0) with mainPc := .createProd (j + 1) }
          else { s with mainPc := .exited })
      else some { s with mainPc := .joinBuyer 0 }
  | .joinBuyer j =>
      if j < cfg.buyers then
        -- a join that succeeds waits for the buyer
        if ok then
          if (s.buyer j).pc = .exited then some { s with mainPc := .joinBuyer (j + 1) } else none
        else some { s with mainPc := .exited }
      else some { s with mainPc := .stop }
  | .stop => some { s with mainPc := .finish, stopProd := true }
  | .finish => some { s with mainPc := .exited }
  | .exited => none

/-- One step of the machine.  Once `main` has exited there is none. -/
def step (cfg : Config) (s : State) (a : Action) : Option State :=
  if s.mainPc = .exited then none
  else match a with
    | .buyer b locked => if b < cfg.buyers then buyerStep cfg s b locked else none
    | .prod p locked => if p < cfg.prods then prodStep cfg s p locked else none
    | .main ok => mainStep cfg s ok

/-! ## What a step can do -/

/-- The two states have the same shops, refills, takings and needs. -/
structure SameAccounts (s s' : State) : Prop where
  shop : s'.shop = s.shop
  refills : s'.refills = s.refills
  taken : s'.taken = s.taken
  buyNeed : ∀ b, (s'.buyer b).buyNeed = (s.buyer b).buyNeed

/-- What a step does to shops and needs: nothing, one taking or one refill. -/
inductive Moves (cfg : Config) (s : State) : State → Prop
  | walk {s'} (hsame : SameAccounts s s') : Moves cfg s s'
  | take {b i} (hb : b < cfg.buyers) (hi : i < cfg.shops) (hneed : (s.buyer b).buyNeed ≠ 0) :
      Moves cfg s (s.buy b i)
  | refill {p i} (hi : i < cfg.shops) : Moves cfg s (s.fill p i)

lemma sameAccounts_refl (s : State) : SameAccounts s s := ⟨rfl, rfl, rfl, fun _ => rfl⟩

lemma sameAccounts_buyerAt (s : State) (b : ℕ) (pc : ThreadPc) :
    SameAccounts s (s.buyerAt b pc) := by
  refine ⟨rfl, rfl, rfl, fun c => ?_⟩
  by_cases hc : c = b
  · subst hc
    simp [State.buyerAt]
  · simp [State.buyerAt, hc]

lemma sameAccounts_prodAt (s : State) (p : ℕ) (pc : ThreadPc) : SameAccounts s (s.prodAt p pc) :=
  ⟨rfl, rfl, rfl, fun _ => rfl⟩

lemma SameAccounts.withMain {s s' : State} (h : SameAccounts s s') (pc : MainPc) :
    SameAccounts s { s' with mainPc := pc } := ⟨h.shop, h.refills, h.taken, h.buyNeed⟩

lemma moves_of_buyerStep {cfg : Config} {s s' : State} {b : ℕ} {locked : Bool}
    (hb : b < cfg.buyers) (h : buyerStep cfg s b locked = some s') : Moves cfg s s' := by
  cases hpc : (s.buyer b).pc with
  | absent => simp [buyerStep, hpc] at h
  | atShop i =>
      simp only [buyerStep, hpc] at h
      split at h
      · rename_i hgo
        obtain rfl := Option.some.inj h
        cases locked with
        | false => exact .walk (sameAccounts_buyerAt s b _)
        | true => exact .take hb hgo.1 hgo.2
      · obtain rfl := Option.some.inj h
        exact .walk (sameAccounts_buyerAt s b _)
  | behindShops =>
      simp only [buyerStep, hpc, Option.some.injEq] at h
      subst h
      exact .walk (sameAccounts_buyerAt s b _)
  | exited => simp [buyerStep, hpc] at h

lemma moves_of_prodStep {cfg : Config} {s s' : State} {p : ℕ} {locked : Bool}
    (h : prodStep cfg s p locked = some s') : Moves cfg s s' := by
  cases hpc : s.prod p with
  | absent => simp [prodStep, hpc] at h
  | atShop i =>
      simp only [prodStep, hpc] at h
      split at h
      · rename_i hgo
        obtain rfl := Option.some.inj h
        cases locked with
        | false => exact .walk (sameAccounts_prodAt s p _)
        | true => exact .refill hgo.1
      · obtain rfl := Option.some.inj h
        exact .walk (sameAccounts_prodAt s p _)
  | behindShops =>
      simp only [prodStep, hpc, Option.some.injEq] at h
      subst h
      exact .walk (sameAccounts_prodAt s p _)
  | exited => simp [prodStep, hpc] at h

/-- `main` touches neither shops nor needs. -/
lemma sameAccounts_mainStep {cfg : Config} {s s' : State} {ok : Bool}
    (h : mainStep cfg s ok = some s') : SameAccounts s s' := by
  have hsame := sameAccounts_refl s
  cases hpc : s.mainPc with
  | createBuyer j =>
      simp only [mainStep, hpc] at h
      split at h
      · obtain rfl := Option.some.inj h
        cases ok with
        | false => exact hsame.withMain _
        | true => exact (sameAccounts_buyerAt s j _).withMain _
      · obtain rfl := Option.some.inj h
        exact hsame.withMain _
  | createProd j =>
      simp only [mainStep, hpc] at h
      split at h
      · obtain rfl := Option.some.inj h
        cases ok with
        | false => exact hsame.withMain _
        | true => exact (sameAccounts_prodAt s j _).withMain _
      · obtain rfl := Option.some.inj h
        exact hsame.withMain _
  | joinBuyer j =>
      simp only [mainStep, hpc] at h
      split at h
      · cases ok with
        | false =>
            obtain rfl := Option.some.inj h
            exact hsame.withMain _
        | true =>
            obtain ⟨-, h⟩ := Option.ite_none_right_eq_some.mp h
            obtain rfl := Option.some.inj h
            exact hsame.withMain _
      · obtain rfl := Option.some.inj h
        exact hsame.withMain _
  | stop =>
      simp only [mainStep, hpc, Option.some.injEq] at h
      subst h
      exact ⟨rfl, rfl, rfl, fun _ => rfl⟩
  | finish =>
      simp only [mainStep, hpc, Option.some.injEq] at h
      subst h
      exact hsame.withMain _
  | exited => simp [mainStep, hpc] at h

/-- Every step is one of the moves. -/
theorem moves_of_step {cfg : Config} {s s' : State} {a : Action}
    (h : step cfg s a = some s') : Moves cfg s s' := by
  obtain ⟨-, h⟩ := Option.ite_none_left_eq_some.mp h
  cases a with
  | buyer b locked =>
      obtain ⟨hb, h⟩ := Option.ite_none_right_eq_some.mp h
      exact moves_of_buyerStep hb h
  | prod p locked =>
      obtain ⟨-, h⟩ := Option.ite_none_right_eq_some.mp h
      exact moves_of_prodStep h
  | main ok => exact .walk (sameAccounts_mainStep h)

end Threads
end EltSummer
