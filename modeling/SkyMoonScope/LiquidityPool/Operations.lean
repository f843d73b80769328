import SkyMoonScope.LiquidityPool.Pool
import Mathlib.Logic.Function.Basic
import Mathlib.Tactic.Linarith
import Mathlib.Tactic.Push

/-!
# What the core operations do

For every operation of the pool that returns, the storage after it as an equation, with what the
operation had checked and computed. Formulas leave the storage as it is, and transfers change the
storage of the tokens only.

## Main definitions

* `payout`: what a withdrawal pays of one reserve

## Main results

* `deposit_state`, `withdraw_state`, `swap_state`, `swapExactIn_state`: the operations, one by one
* `netAmount_state`: a withdrawal pays `payout`
-/

namespace LiquidityPool

open Soroban

variable {Address Tokens : Type}

/-! ## Rules for the parts of a body -/

variable {env : Env Address Tokens} {s t : State Address Tokens} {pool : PoolState Address}
  {α : Type} {a : α} {r : Unit} {x y z : ℤ}

theorem returns_loadPool_bind {f : PoolState Address → Body Address Tokens α} :
    Returns (loadPool >>= f) s a t ↔ ∃ pool, s.pool = some pool ∧ Returns (f pool) s a t := by
  apply returns_bind_of_reads
  intro pool u
  rw [loadPool, returns_get_bind, returns_orFault]

theorem returns_requireNotPaused_bind {operation : UInt32} {f : Unit → Body Address Tokens α} :
    Returns (requireNotPaused operation >>= f) s a t ↔
      s.pauseState.getD 0 &&& operation = 0 ∧ Returns (f ()) s a t := by
  rw [requireNotPaused, bind_assoc, returns_get_bind, returns_require_bind]

theorem returns_requireAuth_bind {addr : Address} {f : Unit → Body Address Tokens α} :
    Returns (requireAuth env addr >>= f) s a t ↔ env.auth addr = true ∧ Returns (f ()) s a t := by
  rw [requireAuth, returns_require_bind]

theorem returns_plain_bind {f : ℤ → Body Address Tokens α} :
    Returns (plain x >>= f) s a t ↔ IntType.i128.Fits x ∧ Returns (f x) s a t := by
  rw [plain, returns_orFault_bind]
  simp

theorem returns_checked_bind {f : ℤ → Body Address Tokens α} :
    Returns (checked x >>= f) s a t ↔ IntType.i128.Fits x ∧ Returns (f x) s a t := by
  rw [checked, returns_orFault_bind]
  simp

theorem returns_divide_bind {f : ℤ → Body Address Tokens α} :
    Returns (divide x y >>= f) s a t ↔
      y ≠ 0 ∧ IntType.i128.Fits (x.tdiv y) ∧ Returns (f (x.tdiv y)) s a t := by
  rw [divide, returns_orFault_bind]
  simp [and_assoc]

theorem savePool_state (h : Returns (savePool pool) s r t) : t = { s with pool := some pool } := by
  rw [savePool, returns_get_bind, returns_set] at h
  exact h.symm

/-- A transfer changes only the storage of the tokens. -/
theorem transfer_state {token source destination : Address} {amount : ℤ}
    (h : Returns (transfer env token source destination amount) s r t) :
    t = { s with tokens := t.tokens } := by
  rw [transfer, returns_get_bind, returns_orFault_bind] at h
  obtain ⟨tokens, -, h⟩ := h
  obtain rfl := returns_set.mp h
  rfl

theorem getLpFeeBps_congr (h : t.lpFeeBps = s.lpFeeBps) : getLpFeeBps t = getLpFeeBps s := by
  rw [getLpFeeBps, h, getLpFeeBps]

theorem basisPoints_state (h : Returns (basisPoints x y : Body Address Tokens ℤ) s z t) :
    z = (x * y).tdiv 10000 ∧ s = t := by
  rw [basisPoints, returns_plain_bind, returns_divide] at h
  obtain ⟨-, -, -, hz, ht⟩ := h
  exact ⟨hz.symm, ht⟩

/-! ## Formulas -/

/-- A rate of at most 100% takes part of a nonnegative amount. -/
theorem tdiv_basisPoints_le (hx : 0 ≤ x) (hy : 0 ≤ y) (hy' : y ≤ 10000) :
    (x * y).tdiv 10000 ≤ x := by
  have hle := IntType.tdiv_mul_le (mul_nonneg hx hy) (by decide : (0 : ℤ) ≤ 10000)
  have hxy : x * y ≤ x * 10000 := mul_le_mul_of_nonneg_left hy' hx
  linarith

theorem sqrtLoop_state {n : ℕ} {root : ℤ}
    (h : Returns (sqrtLoop x n y z : Body Address Tokens ℤ) s root t) : s = t := by
  induction n generalizing y z with
  | zero =>
    -- out of rounds, the loop does not return
    exact absurd h not_returns_throw
  | succ n ih =>
    rw [sqrtLoop] at h
    split at h
    · simp only [returns_divide_bind, returns_plain_bind] at h
      obtain ⟨-, -, -, -, -, h⟩ := h
      exact ih h
    · exact (returns_pure.mp h).2

theorem sqrt_state {root : ℤ} (h : Returns (sqrt x : Body Address Tokens ℤ) s root t) :
    s = t := by
  unfold sqrt at h
  split at h
  · exact (returns_pure.mp h).2
  · simp only [returns_plain_bind, returns_divide_bind] at h
    obtain ⟨-, -, -, h⟩ := h
    exact sqrtLoop_state h

theorem grossShares_state {amountA amountB gross : ℤ}
    (h : Returns (grossShares pool amountA amountB : Body Address Tokens ℤ) s gross t) :
    s = t := by
  unfold grossShares at h
  split at h
  · -- an empty pool: the square root of the product
    rw [returns_checked_bind] at h
    exact sqrt_state h.2
  · simp only [returns_checked_bind, returns_divide_bind, returns_pure] at h
    obtain ⟨-, -, -, -, -, -, -, rfl⟩ := h
    rfl

/-- Minted shares are the gross shares, which are positive, less the fee. -/
theorem netShares_state {lpFeeBps amountA amountB net : ℤ}
    (h : Returns (netShares pool lpFeeBps amountA amountB : Body Address Tokens ℤ) s net t) :
    s = t ∧ ∃ gross, Returns (grossShares pool amountA amountB : Body Address Tokens ℤ) s gross s ∧
      0 < gross ∧ net = gross - (gross * lpFeeBps).tdiv 10000 := by
  rw [netShares, returns_bind] at h
  obtain ⟨gross, _, hgross, h⟩ := h
  obtain rfl := grossShares_state hgross
  rw [returns_require_bind, returns_bind] at h
  obtain ⟨hpos, fee, _, hfee, h⟩ := h
  obtain ⟨rfl, rfl⟩ := basisPoints_state hfee
  obtain ⟨-, rfl, rfl⟩ := returns_plain.mp h
  exact ⟨rfl, gross, hgross, not_le.mp hpos, rfl⟩

/-- They are not negative, as long as the fee is at most all of them. -/
theorem netShares_nonneg {lpFeeBps amountA amountB net : ℤ}
    (h : Returns (netShares pool lpFeeBps amountA amountB : Body Address Tokens ℤ) s net t)
    (hlp : 0 ≤ lpFeeBps) (hlp' : lpFeeBps ≤ 10000) : 0 ≤ net := by
  obtain ⟨-, gross, -, hpos, rfl⟩ := netShares_state h
  have hle := tdiv_basisPoints_le hpos.le hlp hlp'
  linarith

/-- A position is within the holding period until ten ledgers after a recorded deposit. -/
theorem withinHoldingPeriod_state {depositLedger sequence : ℤ} {early : Bool}
    (h : Returns (withinHoldingPeriod depositLedger sequence : Body Address Tokens Bool)
      s early t) :
    early = decide (0 < depositLedger ∧ sequence < depositLedger + minHoldingPeriod) ∧ s = t := by
  unfold withinHoldingPeriod at h
  split at h
  · next hpos =>
    simp only [returns_bind, returns_plainU32, returns_pure] at h
    obtain ⟨_, _, ⟨-, rfl, rfl⟩, rfl, ht⟩ := h
    exact ⟨by simp [hpos.lt], ht⟩
  · next hpos =>
    -- ledger zero stands for no deposit
    obtain ⟨rfl, ht⟩ := returns_pure.mp h
    refine ⟨?_, ht⟩
    rw [eq_comm, decide_eq_false_iff_not]
    exact fun hlt => hpos hlt.1

/-- What a withdrawal pays of one reserve: the proportional amount, less the fee and, for an early
withdrawal, less the penalty. -/
def payout (early : Bool) (shareAmount reserve totalShares lpFeeBps : ℤ) : ℤ :=
  let grossAmount := (shareAmount * reserve).tdiv totalShares
  grossAmount - (grossAmount * lpFeeBps).tdiv 10000 -
    if early then (grossAmount * earlyWithdrawalPenaltyBps).tdiv 10000 else 0

theorem earlyPenalty_state {early : Bool} {grossAmount penalty : ℤ}
    (h : Returns (earlyPenalty early grossAmount : Body Address Tokens ℤ) s penalty t) :
    penalty = (if early then (grossAmount * earlyWithdrawalPenaltyBps).tdiv 10000 else 0) ∧
      s = t := by
  unfold earlyPenalty at h
  split at h
  · next hearly =>
    rw [if_pos hearly]
    exact basisPoints_state h
  · next hearly =>
    rw [if_neg hearly]
    obtain ⟨rfl, rfl⟩ := returns_pure.mp h
    exact ⟨rfl, rfl⟩

theorem netAmount_state {shareAmount reserve totalShares lpFeeBps net : ℤ} {early : Bool}
    (h : Returns (netAmount shareAmount reserve totalShares lpFeeBps early :
      Body Address Tokens ℤ) s net t) :
    net = payout early shareAmount reserve totalShares lpFeeBps ∧ s = t := by
  rw [netAmount, returns_plain_bind, returns_divide_bind] at h
  obtain ⟨-, -, -, h⟩ := h
  rw [returns_bind] at h
  obtain ⟨fee, _, hfee, h⟩ := h
  rw [returns_bind] at h
  obtain ⟨penalty, _, hpenalty, h⟩ := h
  obtain ⟨rfl, rfl⟩ := basisPoints_state hfee
  obtain ⟨rfl, rfl⟩ := earlyPenalty_state hpenalty
  rw [returns_plain_bind, returns_plain] at h
  obtain ⟨-, -, rfl, rfl⟩ := h
  exact ⟨rfl, rfl⟩

theorem amountOutForIn_state {amountIn reserveIn reserveOut feeBps : ℤ}
    (h : Returns (amountOutForIn amountIn reserveIn reserveOut feeBps : Body Address Tokens ℤ)
      s z t) : s = t := by
  simp only [amountOutForIn, returns_require_bind, returns_plain_bind, returns_checked_bind,
    returns_divide] at h
  obtain ⟨-, -, -, -, -, -, -, -, -, rfl⟩ := h
  rfl

theorem amountInForOut_state {amountOut reserveIn reserveOut feeBps : ℤ}
    (h : Returns (amountInForOut amountOut reserveIn reserveOut feeBps : Body Address Tokens ℤ)
      s z t) : s = t := by
  simp only [amountInForOut, returns_require_bind, returns_plain_bind, returns_checked_bind,
    returns_divide_bind] at h
  obtain ⟨-, -, -, -, -, -, -, -, h⟩ := h
  -- the quotient is rounded up
  split at h
  · exact (returns_pure.mp h).2
  · exact (returns_plain.mp h).2.2

/-! ## Operations -/

/-- What the settlement of a swap does to the pool. -/
theorem settleSwap_state {user : Address} {buyA : Bool} {sides : SwapSides Address}
    {amountIn amountOut : ℤ} {r : Unit}
    (h : Returns (settleSwap env user pool buyA sides amountIn amountOut) s r t) :
    t = { s with
      pool := some (if buyA then
          { pool with
            reserveA := pool.reserveA - amountOut
            reserveB := pool.reserveB + amountIn }
        else
          { pool with
            reserveA := pool.reserveA + amountIn
            reserveB := pool.reserveB - amountOut })
      tokens := t.tokens } := by
  simp only [settleSwap, returns_bind] at h
  obtain ⟨_, u, hta, _, v, htb, h⟩ := h
  -- the transfers change the tokens only, and the reserves are written last
  have hv : v = { s with tokens := v.tokens } := by
    rw [transfer_state htb, transfer_state hta]
  cases buyA with
  | true =>
    simp only [if_true, returns_plain_bind] at h
    obtain ⟨-, -, hsave⟩ := h
    rw [savePool_state hsave, hv]
    rfl
  | false =>
    simp only [Bool.false_eq_true, if_false, returns_plain_bind] at h
    obtain ⟨-, -, hsave⟩ := h
    rw [savePool_state hsave, hv]
    rfl

/-- A swap for an exact output computes the input and settles. -/
theorem swap_state {user : Address} {buyA : Bool} {out inMax r : ℤ}
    (h : Returns (swap env user buyA out inMax) s r t) :
    ∃ pool amountIn u, s.pool = some pool ∧
      Returns (amountInForOut out (swapSides pool buyA).reserveIn (swapSides pool buyA).reserveOut
        pool.feeBps) s amountIn u ∧ amountIn ≤ inMax ∧
      Returns (settleSwap env user pool buyA (swapSides pool buyA) amountIn out) u () t := by
  simp only [swap, returns_requireNotPaused_bind, returns_requireAuth_bind, returns_require_bind,
    returns_loadPool_bind] at h
  obtain ⟨-, -, -, pool, hpool, h⟩ := h
  simp only [returns_bind, returns_require, returns_pure] at h
  obtain ⟨amountIn, u, hin, _, _, ⟨hle, rfl⟩, _, v, hsettle, -, rfl⟩ := h
  exact ⟨pool, amountIn, u, hpool, hin, not_lt.mp hle, hsettle⟩

/-- A swap of an exact input computes the output and settles. -/
theorem swapExactIn_state {user : Address} {buyA : Bool} {amountIn minAmountOut r : ℤ}
    (h : Returns (swapExactIn env user buyA amountIn minAmountOut) s r t) :
    ∃ pool amountOut u, s.pool = some pool ∧ 0 < amountIn ∧
      Returns (amountOutForIn amountIn (swapSides pool buyA).reserveIn
        (swapSides pool buyA).reserveOut pool.feeBps) s amountOut u ∧
      amountOut < (swapSides pool buyA).reserveOut ∧
      Returns (settleSwap env user pool buyA (swapSides pool buyA) amountIn amountOut) u () t := by
  simp only [swapExactIn, returns_requireNotPaused_bind, returns_requireAuth_bind,
    returns_require_bind, returns_loadPool_bind] at h
  obtain ⟨-, hpos, -, pool, hpool, h⟩ := h
  simp only [returns_bind, returns_require, returns_pure] at h
  obtain ⟨amountOut, u, hout, _, _, ⟨hlt, rfl⟩, _, _, ⟨-, rfl⟩, _, v, hsettle, -, rfl⟩ := h
  push Not at hpos hlt
  exact ⟨pool, amountOut, u, hpool, hpos.1, hout, hlt.2, hsettle⟩

variable [DecidableEq Address] {user : Address} {amountA amountB shares : ℤ}

theorem recordDeposit_state
    (h : Returns (recordDeposit env user pool shares amountA amountB) s r t) :
    t = { s with
      balance := Function.update s.balance user (some ((s.balance user).getD 0 + shares))
      depositLedger := Function.update s.depositLedger user (some env.sequence)
      pool := some { pool with
        totalShares := pool.totalShares + shares
        reserveA := pool.reserveA + amountA
        reserveB := pool.reserveB + amountB } } := by
  simp only [recordDeposit, returns_get_bind, returns_plain_bind, returns_set] at h
  obtain ⟨-, -, -, -, ht⟩ := h
  exact ht.symm

theorem recordWithdraw_state (h : Returns (recordWithdraw user pool shares amountA amountB) s r t) :
    t = { s with
      balance := Function.update s.balance user (some ((s.balance user).getD 0 - shares))
      pool := some { pool with
        totalShares := pool.totalShares - shares
        reserveA := pool.reserveA - amountA
        reserveB := pool.reserveB - amountB } } := by
  simp only [recordWithdraw, returns_get_bind, returns_plain_bind, returns_set] at h
  obtain ⟨-, -, -, -, ht⟩ := h
  exact ht.symm

/-- **What a deposit does to the storage**, with the shares it computed. -/
theorem deposit_state {net : ℤ} (h : Returns (deposit env user amountA amountB) s net t) :
    ∃ pool u, s.pool = some pool ∧ env.auth user = true ∧ 0 < amountA ∧ 0 < amountB ∧
      Returns (netShares pool (getLpFeeBps s) amountA amountB : Body Address Tokens ℤ) u net u ∧
      t = { s with
        balance := Function.update s.balance user (some ((s.balance user).getD 0 + net))
        depositLedger := Function.update s.depositLedger user (some env.sequence)
        pool := some { pool with
          totalShares := pool.totalShares + net
          reserveA := pool.reserveA + amountA
          reserveB := pool.reserveB + amountB }
        tokens := t.tokens } := by
  simp only [deposit, returns_requireNotPaused_bind, returns_requireAuth_bind,
    returns_require_bind, returns_loadPool_bind] at h
  obtain ⟨-, hauth, hpos, pool, hpool, h⟩ := h
  push Not at hpos
  simp only [returns_bind, returns_get, returns_pure] at h
  obtain ⟨_, u, hta, _, v, htb, _, _, ⟨rfl, rfl⟩, minted, _, hnet, _, w, hrecord, rfl, rfl⟩ := h
  -- the transfers change the tokens only
  have hv : v = { s with tokens := v.tokens } := by
    rw [transfer_state htb, transfer_state hta]
  have hlp : getLpFeeBps v = getLpFeeBps s := getLpFeeBps_congr (by rw [hv])
  rw [hlp] at hnet
  obtain ⟨rfl, -⟩ := netShares_state hnet
  refine ⟨pool, v, hpool, hauth, hpos.1, hpos.2, hnet, ?_⟩
  rw [recordDeposit_state hrecord, hv]

/-- **What a withdrawal does to the storage**, and what it pays. -/
theorem withdraw_state {user : Address} {shareAmount : ℤ} {r : ℤ × ℤ}
    (h : Returns (withdraw env user shareAmount) s r t) :
    ∃ pool early, s.pool = some pool ∧ env.auth user = true ∧ 0 < shareAmount ∧
      shareAmount ≤ (s.balance user).getD 0 ∧
      early = decide (0 < (s.depositLedger user).getD 0 ∧
        env.sequence < (s.depositLedger user).getD 0 + minHoldingPeriod) ∧
      r.1 = payout early shareAmount pool.reserveA pool.totalShares (getLpFeeBps s) ∧
      r.2 = payout early shareAmount pool.reserveB pool.totalShares (getLpFeeBps s) ∧
      t = { s with
        balance := Function.update s.balance user (some ((s.balance user).getD 0 - shareAmount))
        pool := some { pool with
          totalShares := pool.totalShares - shareAmount
          reserveA := pool.reserveA - r.1
          reserveB := pool.reserveB - r.2 }
        tokens := t.tokens } := by
  simp only [withdraw, returns_requireNotPaused_bind, returns_requireAuth_bind,
    returns_require_bind, returns_loadPool_bind, returns_get_bind] at h
  obtain ⟨-, hauth, hpos, pool, hpool, hcover, -, h⟩ := h
  simp only [returns_bind, returns_pure] at h
  obtain ⟨early, _, hearly, netA, _, hnetA, netB, _, hnetB, _, v, hrecord, _, w, hta, _, x, htb,
    rfl, rfl⟩ := h
  obtain ⟨heq, rfl⟩ := withinHoldingPeriod_state hearly
  obtain ⟨rfl, rfl⟩ := netAmount_state hnetA
  obtain ⟨rfl, rfl⟩ := netAmount_state hnetB
  refine ⟨pool, early, hpool, hauth, not_le.mp hpos, not_lt.mp hcover, heq, rfl, rfl, ?_⟩
  -- the transfers come last, and change the tokens only
  rw [transfer_state htb, transfer_state hta, recordWithdraw_state hrecord]

end LiquidityPool
