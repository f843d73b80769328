import SkyMoonScope.Lib.Backing
import SkyMoonScope.Lib.Machine
import SkyMoonScope.LiquidityPool.Operations

/-!
# No operation lowers the value of a share

Every division of the pool rounds against the caller: minted shares and redeemed amounts are
rounded down, the fees and the penalty are taken from what is left, the output of a swap is rounded
down and its input up. Each operation therefore meets the rule of the backing of shares it falls
under, and the constant-product value behind one share does not fall.

## Main definitions

* `Healthy s pool`: the storage holds the pool, with reserves, shares and fees in their ranges
* `Operation`, `Operation.Succeeds`: the four operations, as one type
* `Operation.KeepsShares`: the operation redeems fewer than all shares

## Main results

* `deposit_effect`, `withdraw_effect`, `swap_effect`, `swapExactIn_effect`: what a successful
  operation does to the pool, and the bounds on what it rounded
* `Operation.Succeeds.backing_le`: one operation does not lower the value behind one share
* `shareValue_le`, `shareValue_le_run`: the same on the numbers of the pool, for a step and a run
-/

namespace LiquidityPool

open Soroban Machine

variable {Address Tokens : Type}

/-! ## Arithmetic -/

section Arithmetic

variable {s t : State Address Tokens} {x y z : ℤ}

/-- **The output of a swap is rounded down**: it is worth at most the input at the price after
the swap. -/
theorem amountOutForIn_le {amountIn reserveIn reserveOut feeBps : ℤ}
    (h : Returns (amountOutForIn amountIn reserveIn reserveOut feeBps : Body Address Tokens ℤ)
      s z t) (hfee : 0 ≤ feeBps) (hfee' : feeBps ≤ 100) (hz : z < reserveOut) :
    z * reserveIn ≤ amountIn * (reserveOut - z) ∧ s = t := by
  simp only [amountOutForIn, returns_require_bind, returns_plain_bind, returns_checked_bind,
    returns_divide] at h
  obtain ⟨hpos, -, -, -, -, -, -, -, rfl, rfl⟩ := h
  push Not at hpos
  obtain ⟨hin, hrin, hrout⟩ := hpos
  -- the fee lowers the input, and the quotient is rounded down
  set inAfterFee := amountIn * (10000 - feeBps) with hdef
  have hin' : 0 ≤ inAfterFee := mul_nonneg hin.le (by linarith)
  have hle : inAfterFee ≤ amountIn * 10000 := mul_le_mul_of_nonneg_left (by linarith) hin.le
  have hdiv := IntType.tdiv_mul_le (mul_nonneg hin' hrout.le)
    (by linarith : (0 : ℤ) ≤ reserveIn * 10000 + inAfterFee)
  set out := (inAfterFee * reserveOut).tdiv (reserveIn * 10000 + inAfterFee)
  have hnet : inAfterFee * (reserveOut - out) ≤ amountIn * 10000 * (reserveOut - out) :=
    mul_le_mul_of_nonneg_right hle (by linarith)
  exact ⟨by linarith, rfl⟩

/-- **The input of a swap is rounded up.** -/
theorem le_amountInForOut {amountOut reserveIn reserveOut feeBps : ℤ}
    (h : Returns (amountInForOut amountOut reserveIn reserveOut feeBps : Body Address Tokens ℤ)
      s z t) (hfee : 0 ≤ feeBps) (hfee' : feeBps ≤ 100) :
    amountOut * reserveIn ≤ z * (reserveOut - amountOut) ∧ 0 ≤ z ∧ 0 < amountOut ∧
      amountOut < reserveOut ∧ s = t := by
  simp only [amountInForOut, returns_require_bind, returns_plain_bind, returns_checked_bind,
    returns_divide_bind] at h
  obtain ⟨hpos, -, -, -, -, -, -, -, h⟩ := h
  push Not at hpos
  obtain ⟨hout, hlt, hrin, hrout⟩ := hpos
  set numerator := reserveIn * amountOut * 10000 with hnum
  set denominator := (reserveOut - amountOut) * (10000 - feeBps) with hden
  have hn : 0 ≤ numerator := mul_nonneg (mul_nonneg hrin.le hout.le) (by decide)
  have hd : 0 < denominator := mul_pos (by linarith) (by linarith)
  have hq : 0 ≤ numerator.tdiv denominator := Int.tdiv_nonneg hn hd.le
  -- either way the input pays for the numerator
  have hz : numerator ≤ z * denominator ∧ 0 ≤ z ∧ s = t := by
    split at h
    · -- the quotient is exact
      next hmod =>
      obtain ⟨rfl, rfl⟩ := returns_pure.mp h
      have hexact := Int.tmod_add_tdiv_mul numerator denominator
      rw [hmod] at hexact
      exact ⟨by linarith, hq, rfl⟩
    · -- the quotient is rounded down, and one is added
      simp only [returns_plain] at h
      obtain ⟨-, rfl, rfl⟩ := h
      exact ⟨(IntType.lt_tdiv_add_one_mul hn hd).le, by linarith, rfl⟩
  obtain ⟨hz, hz0, rfl⟩ := hz
  -- the price with the fee is at least the price without it
  have hle : z * (reserveOut - amountOut) * (10000 - feeBps) ≤
      z * (reserveOut - amountOut) * 10000 :=
    mul_le_mul_of_nonneg_left (by linarith) (mul_nonneg hz0 (by linarith))
  refine ⟨?_, hz0, hout, hlt, rfl⟩
  rw [hnum, hden] at hz
  linarith

end Arithmetic

/-! ## The effect of an operation -/

section Effect

variable {env : Env Address Tokens} {s t : State Address Tokens} {pool : PoolState Address}

/-- **Minted shares are rounded down**, in proportion to each reserve. -/
theorem grossShares_le {amountA amountB gross : ℤ}
    (h : Returns (grossShares pool amountA amountB) s gross t) (hS : 0 < pool.totalShares)
    (hA : 0 < pool.reserveA) (hB : 0 < pool.reserveB) (ha : 0 < amountA) (hb : 0 < amountB) :
    gross * pool.reserveA ≤ amountA * pool.totalShares ∧
      gross * pool.reserveB ≤ amountB * pool.totalShares ∧ s = t := by
  rw [grossShares, if_neg hS.ne'] at h
  simp only [returns_checked_bind, returns_divide_bind, returns_pure] at h
  obtain ⟨-, -, -, -, -, -, rfl, rfl⟩ := h
  have hleA := IntType.tdiv_mul_le (mul_pos ha hS).le hA.le
  have hleB := IntType.tdiv_mul_le (mul_pos hb hS).le hB.le
  -- the smaller quotient is at most either one
  refine ⟨?_, ?_, rfl⟩
  · refine (mul_le_mul_of_nonneg_right ?_ hA.le).trans hleA
    split <;> linarith
  · refine (mul_le_mul_of_nonneg_right ?_ hB.le).trans hleB
    split <;> linarith

/-- **Redeemed amounts are rounded down**, and what is taken from them stays in the pool. -/
theorem payout_mul_le {shareAmount reserve totalShares lpFeeBps : ℤ} {early : Bool}
    (hk : 0 ≤ shareAmount) (hr : 0 ≤ reserve) (hS : 0 < totalShares) (hlp : 0 ≤ lpFeeBps) :
    payout early shareAmount reserve totalShares lpFeeBps * totalShares ≤
      shareAmount * reserve := by
  have hworth := mul_nonneg hk hr
  have hle := IntType.tdiv_mul_le hworth hS.le
  have hgross := Int.tdiv_nonneg hworth hS.le
  rw [payout]
  set gross := (shareAmount * reserve).tdiv totalShares
  -- neither the fee nor the penalty is negative
  have hfee : 0 ≤ (gross * lpFeeBps).tdiv 10000 :=
    Int.tdiv_nonneg (mul_nonneg hgross hlp) (by decide)
  have hpenalty : 0 ≤ if early then (gross * earlyWithdrawalPenaltyBps).tdiv 10000 else 0 := by
    split
    · exact Int.tdiv_nonneg (mul_nonneg hgross (by decide)) (by decide)
    · exact le_refl 0
  refine le_trans (mul_le_mul_of_nonneg_right ?_ hS.le) hle
  linarith

/-- Minted shares are at most the gross shares. -/
theorem netShares_le {lpFeeBps amountA amountB net : ℤ}
    (h : Returns (netShares pool lpFeeBps amountA amountB : Body Address Tokens ℤ) s net t)
    (hS : 0 < pool.totalShares) (hA : 0 < pool.reserveA) (hB : 0 < pool.reserveB)
    (ha : 0 < amountA) (hb : 0 < amountB) (hlp : 0 ≤ lpFeeBps) :
    net * pool.reserveA ≤ amountA * pool.totalShares ∧
      net * pool.reserveB ≤ amountB * pool.totalShares := by
  obtain ⟨-, gross, hgross, hpos, rfl⟩ := netShares_state h
  obtain ⟨hleA, hleB, -⟩ := grossShares_le hgross hS hA hB ha hb
  have hfee : 0 ≤ (gross * lpFeeBps).tdiv 10000 :=
    Int.tdiv_nonneg (mul_nonneg hpos.le hlp) (by decide)
  constructor
  · exact (mul_le_mul_of_nonneg_right (by linarith) hA.le).trans hleA
  · exact (mul_le_mul_of_nonneg_right (by linarith) hB.le).trans hleB

/-- The storage holds the pool, with reserves, shares and fees in their ranges. -/
structure Healthy (s : State Address Tokens) (pool : PoolState Address) : Prop where
  pool_eq : s.pool = some pool
  shares_pos : 0 < pool.totalShares
  reserveA_pos : 0 < pool.reserveA
  reserveB_pos : 0 < pool.reserveB
  fee_nonneg : 0 ≤ pool.feeBps
  fee_le : pool.feeBps ≤ 100
  lpFee_nonneg : 0 ≤ getLpFeeBps s
  lpFee_le : getLpFeeBps s ≤ 100

/-- A trade that the price after it pays for, with the reserves it moves. -/
structure Trades (pool pool' : PoolState Address) : Prop where
  totalShares_eq : pool'.totalShares = pool.totalShares
  feeBps_eq : pool'.feeBps = pool.feeBps
  reserveA_pos : 0 < pool'.reserveA
  reserveB_pos : 0 < pool'.reserveB
  product_le : pool.reserveA * pool.reserveB ≤ pool'.reserveA * pool'.reserveB

/-- What a settled swap does, when the amounts respect the price. -/
theorem settleSwap_trades {user : Address} {buyA : Bool} {amountIn amountOut : ℤ} {r : Unit}
    (hs : Healthy s pool)
    (h : Returns (settleSwap env user pool buyA (swapSides pool buyA) amountIn amountOut) s r t)
    (hin : 0 ≤ amountIn) (hout : amountOut < (swapSides pool buyA).reserveOut)
    (hprice : amountOut * (swapSides pool buyA).reserveIn ≤
      amountIn * ((swapSides pool buyA).reserveOut - amountOut)) :
    ∃ pool', t.pool = some pool' ∧ Trades pool pool' ∧ t.lpFeeBps = s.lpFeeBps := by
  have hk := Backing.mul_le_of_trade hprice
  rw [settleSwap_state h]
  refine ⟨_, rfl, ?_, rfl⟩
  cases buyA with
  | true =>
    simp only [swapSides, if_true] at hout hk ⊢
    refine ⟨rfl, rfl, sub_pos.mpr hout, add_pos_of_pos_of_nonneg hs.reserveB_pos hin, ?_⟩
    rw [mul_comm pool.reserveA, mul_comm (pool.reserveA - amountOut)]
    exact hk
  | false =>
    simp only [swapSides, Bool.false_eq_true, if_false] at hout hk ⊢
    exact ⟨rfl, rfl, add_pos_of_pos_of_nonneg hs.reserveA_pos hin, sub_pos.mpr hout, hk⟩

/-- What a swap for an exact output does. -/
theorem swap_effect {user : Address} {buyA : Bool} {out inMax r : ℤ} (hs : Healthy s pool)
    (h : Returns (swap env user buyA out inMax) s r t) :
    ∃ pool', t.pool = some pool' ∧ Trades pool pool' ∧ t.lpFeeBps = s.lpFeeBps := by
  obtain ⟨pool', amountIn, u, hpool, hin, -, hsettle⟩ := swap_state h
  obtain rfl := Option.some.inj (hs.pool_eq.symm.trans hpool)
  obtain ⟨hprice, hin0, -, hout, rfl⟩ := le_amountInForOut hin hs.fee_nonneg hs.fee_le
  exact settleSwap_trades hs hsettle hin0 hout hprice

/-- What a swap of an exact input does. -/
theorem swapExactIn_effect {user : Address} {buyA : Bool} {amountIn minAmountOut r : ℤ}
    (hs : Healthy s pool) (h : Returns (swapExactIn env user buyA amountIn minAmountOut) s r t) :
    ∃ pool', t.pool = some pool' ∧ Trades pool pool' ∧ t.lpFeeBps = s.lpFeeBps := by
  obtain ⟨pool', amountOut, u, hpool, hpos, hamount, hlt, hsettle⟩ := swapExactIn_state h
  obtain rfl := Option.some.inj (hs.pool_eq.symm.trans hpool)
  obtain ⟨hprice, rfl⟩ := amountOutForIn_le hamount hs.fee_nonneg hs.fee_le hlt
  exact settleSwap_trades hs hsettle hpos.le hlt hprice

variable [DecidableEq Address]

/-- What a deposit does: it adds the amounts and mints at most a proportional number of shares. -/
theorem deposit_effect {user : Address} {amountA amountB net : ℤ} (hs : Healthy s pool)
    (h : Returns (deposit env user amountA amountB) s net t) :
    t.pool = some { pool with
      totalShares := pool.totalShares + net
      reserveA := pool.reserveA + amountA
      reserveB := pool.reserveB + amountB } ∧
    t.lpFeeBps = s.lpFeeBps ∧ 0 < amountA ∧ 0 < amountB ∧ 0 ≤ net ∧
    net * pool.reserveA ≤ amountA * pool.totalShares ∧
    net * pool.reserveB ≤ amountB * pool.totalShares := by
  obtain ⟨pool', u, hpool, -, ha, hb, hnet, ht⟩ := deposit_state h
  obtain rfl := Option.some.inj (hs.pool_eq.symm.trans hpool)
  obtain ⟨hleA, hleB⟩ := netShares_le hnet hs.shares_pos hs.reserveA_pos hs.reserveB_pos ha hb
    hs.lpFee_nonneg
  have hnet0 := netShares_nonneg hnet hs.lpFee_nonneg (hs.lpFee_le.trans (by decide))
  exact ⟨by rw [ht], by rw [ht], ha, hb, hnet0, hleA, hleB⟩

/-- What a withdrawal does: it burns the shares and pays at most a proportional part of each
reserve. -/
theorem withdraw_effect {user : Address} {shareAmount : ℤ} {r : ℤ × ℤ} (hs : Healthy s pool)
    (h : Returns (withdraw env user shareAmount) s r t) :
    t.pool = some { pool with
      totalShares := pool.totalShares - shareAmount
      reserveA := pool.reserveA - r.1
      reserveB := pool.reserveB - r.2 } ∧
    t.lpFeeBps = s.lpFeeBps ∧ 0 < shareAmount ∧
    r.1 * pool.totalShares ≤ shareAmount * pool.reserveA ∧
    r.2 * pool.totalShares ≤ shareAmount * pool.reserveB := by
  obtain ⟨pool', early, hpool, -, hpos, -, -, hA, hB, ht⟩ := withdraw_state h
  obtain rfl := Option.some.inj (hs.pool_eq.symm.trans hpool)
  refine ⟨by rw [ht], by rw [ht], hpos, ?_, ?_⟩
  · rw [hA]
    exact payout_mul_le hpos.le hs.reserveA_pos.le hs.shares_pos hs.lpFee_nonneg
  · rw [hB]
    exact payout_mul_le hpos.le hs.reserveB_pos.le hs.shares_pos hs.lpFee_nonneg

end Effect

/-! ## The value behind one share -/

/-- The reserves behind the shares of a healthy pool. -/
def Healthy.backing {s : State Address Tokens} {pool : PoolState Address}
    (h : Healthy s pool) : Backing ℤ :=
  ⟨pool.reserveA, pool.reserveB, pool.totalShares, h.reserveA_pos, h.reserveB_pos, h.shares_pos⟩

/-- An operation of the pool. -/
inductive Operation (Address : Type)
  | deposit (user : Address) (amountA amountB : ℤ)
  | withdraw (user : Address) (shareAmount : ℤ)
  | swap (user : Address) (buyA : Bool) (out inMax : ℤ)
  | swapExactIn (user : Address) (buyA : Bool) (amountIn minAmountOut : ℤ)

/-- The operation returns, and leaves the storage `t`. -/
def Operation.Succeeds [DecidableEq Address] (env : Env Address Tokens)
    (s : State Address Tokens) (t : State Address Tokens) : Operation Address → Prop
  | .deposit user amountA amountB =>
    ∃ r, Returns (LiquidityPool.deposit env user amountA amountB) s r t
  | .withdraw user shareAmount => ∃ r, Returns (LiquidityPool.withdraw env user shareAmount) s r t
  | .swap user buyA out inMax => ∃ r, Returns (LiquidityPool.swap env user buyA out inMax) s r t
  | .swapExactIn user buyA amountIn minAmountOut =>
    ∃ r, Returns (LiquidityPool.swapExactIn env user buyA amountIn minAmountOut) s r t

/-- The operation redeems fewer than all shares of the pool. -/
def Operation.KeepsShares (pool : PoolState Address) : Operation Address → Prop
  | .withdraw _ shareAmount => shareAmount < pool.totalShares
  | _ => True

section Value

variable {env : Env Address Tokens} {s t : State Address Tokens} {pool : PoolState Address}
  {op : Operation Address}

theorem Healthy.of_trades (hs : Healthy s pool) {pool' : PoolState Address}
    (ht : t.pool = some pool') (htr : Trades pool pool') (hlp : t.lpFeeBps = s.lpFeeBps) :
    Healthy t pool' := by
  have hget := getLpFeeBps_congr hlp
  exact ⟨ht, htr.totalShares_eq ▸ hs.shares_pos, htr.reserveA_pos, htr.reserveB_pos,
    htr.feeBps_eq ▸ hs.fee_nonneg, htr.feeBps_eq ▸ hs.fee_le, hget ▸ hs.lpFee_nonneg,
    hget ▸ hs.lpFee_le⟩

variable [DecidableEq Address]

/-- **No operation lowers the value behind one share.** A successful operation on a healthy pool
that redeems fewer than all shares leaves a healthy pool, with at least as much behind a share. -/
theorem Operation.Succeeds.backing_le (h : op.Succeeds env s t) (hs : Healthy s pool)
    (hp : op.KeepsShares pool) :
    ∃ (pool' : PoolState Address) (ht : Healthy t pool'), hs.backing ≤ ht.backing := by
  cases op with
  | deposit user amountA amountB =>
    obtain ⟨net, h⟩ := h
    obtain ⟨ht, hlp, ha, hb, hnet, hleA, hleB⟩ := deposit_effect hs h
    have hget := getLpFeeBps_congr hlp
    have hA : 0 < pool.reserveA + amountA := add_pos hs.reserveA_pos ha
    have hB : 0 < pool.reserveB + amountB := add_pos hs.reserveB_pos hb
    have hS : 0 < pool.totalShares + net := add_pos_of_pos_of_nonneg hs.shares_pos hnet
    exact ⟨_, ⟨ht, hS, hA, hB, hs.fee_nonneg, hs.fee_le, hget ▸ hs.lpFee_nonneg,
      hget ▸ hs.lpFee_le⟩, Backing.le_deposit rfl rfl rfl hleA hleB⟩
  | withdraw user shareAmount =>
    obtain ⟨r, h⟩ := h
    obtain ⟨ht, hlp, hk, hleA, hleB⟩ := withdraw_effect hs h
    have hget := getLpFeeBps_congr hlp
    -- what is paid is less than the whole reserve, as some shares remain
    have hlt : ∀ {paid reserve : ℤ}, 0 < reserve →
        paid * pool.totalShares ≤ shareAmount * reserve → paid < reserve := by
      intro paid reserve hr hle
      have hfull : shareAmount * reserve < reserve * pool.totalShares := by
        rw [mul_comm reserve]
        exact mul_lt_mul_of_pos_right hp hr
      exact lt_of_mul_lt_mul_right (hle.trans_lt hfull) hs.shares_pos.le
    exact ⟨_, ⟨ht, sub_pos.mpr hp, sub_pos.mpr (hlt hs.reserveA_pos hleA),
      sub_pos.mpr (hlt hs.reserveB_pos hleB), hs.fee_nonneg, hs.fee_le, hget ▸ hs.lpFee_nonneg,
      hget ▸ hs.lpFee_le⟩, Backing.le_withdraw rfl rfl rfl hleA hleB⟩
  | swap user buyA out inMax =>
    obtain ⟨r, h⟩ := h
    obtain ⟨pool', ht, htr, hlp⟩ := swap_effect hs h
    exact ⟨pool', hs.of_trades ht htr hlp, Backing.le_swap htr.totalShares_eq htr.product_le⟩
  | swapExactIn user buyA amountIn minAmountOut =>
    obtain ⟨r, h⟩ := h
    obtain ⟨pool', ht, htr, hlp⟩ := swapExactIn_effect hs h
    exact ⟨pool', hs.of_trades ht htr hlp, Backing.le_swap htr.totalShares_eq htr.product_le⟩

/-- **Share value.** From a pool with positive shares and reserves and fees of at most 100 basis
points, a successful operation that redeems fewer than all shares leaves the constant product per
squared share at least as large, cross multiplied. -/
theorem shareValue_le (hpool : s.pool = some pool) (hS : 0 < pool.totalShares)
    (hA : 0 < pool.reserveA) (hB : 0 < pool.reserveB) (hfee : 0 ≤ pool.feeBps)
    (hfee' : pool.feeBps ≤ 100) (hlp : 0 ≤ getLpFeeBps s) (hlp' : getLpFeeBps s ≤ 100)
    (hop : op.Succeeds env s t) (hkeep : op.KeepsShares pool) :
    ∃ pool', t.pool = some pool' ∧
      pool.reserveA * pool.reserveB * pool'.totalShares * pool'.totalShares ≤
        pool'.reserveA * pool'.reserveB * pool.totalShares * pool.totalShares := by
  obtain ⟨pool', ht, hle⟩ := hop.backing_le ⟨hpool, hS, hA, hB, hfee, hfee', hlp, hlp'⟩ hkeep
  exact ⟨pool', ht.pool_eq, hle⟩

/-- A pool with the reserves 1000 and 2000 behind 1400 shares. -/
def samplePool : PoolState ℕ := ⟨1, 2, 1000, 2000, 1400, 30, 30, 9⟩

def sampleState : State ℕ Unit :=
  ⟨some samplePool, none, fun _ => none, fun _ => none, none, ()⟩

def sampleEnv : Env ℕ Unit := ⟨0, 50, fun _ => true, fun _ _ _ _ _ => some ()⟩

theorem shareValue_le_deposit :
    ∃ t pool', (Operation.deposit 7 100 250).Succeeds sampleEnv sampleState t ∧
      t.pool = some pool' ∧
      samplePool.reserveA * samplePool.reserveB * pool'.totalShares * pool'.totalShares ≤
        pool'.reserveA * pool'.reserveB * samplePool.totalShares * samplePool.totalShares := by
  obtain ⟨t, h⟩ : ∃ t, (deposit sampleEnv 7 100 250).run sampleState = .ok (140, t) := ⟨_, rfl⟩
  have hop : (Operation.deposit 7 100 250).Succeeds sampleEnv sampleState t := ⟨140, h⟩
  have hpool : sampleState.pool = some samplePool := rfl
  obtain ⟨pool', ht⟩ := shareValue_le hpool (by decide) (by decide) (by decide) (by decide)
    (by decide) (by decide) (by decide) hop trivial
  exact ⟨t, pool', hop, ht⟩

/-- An operation of a run, in its own environment, that redeems fewer than all shares. -/
def step (s : State Address Tokens) (l : Env Address Tokens × Operation Address)
    (t : State Address Tokens) : Prop :=
  l.2.Succeeds l.1 s t ∧ ∀ pool, s.pool = some pool → l.2.KeepsShares pool

/-- **Share value along a run.** However many operations follow one another, they do not lower the
value behind one share. -/
theorem shareValue_le_run {ls : List (Env Address Tokens × Operation Address)}
    (h : Run step s ls t) (hs : Healthy s pool) :
    ∃ (pool' : PoolState Address) (ht : Healthy t pool'), hs.backing ≤ ht.backing := by
  induction h generalizing pool with
  | nil s => exact ⟨pool, hs, le_rfl⟩
  | cons hl _ ih =>
    obtain ⟨pool', hu, hle⟩ := hl.1.backing_le hs (hl.2 pool hs.pool_eq)
    obtain ⟨pool'', ht, hle'⟩ := ih hu
    exact ⟨pool'', ht, hle.trans hle'⟩

end Value

end LiquidityPool
