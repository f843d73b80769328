import SkyMoonScope.LiquidityPool.Entrypoints
import SkyMoonScope.LiquidityPool.Operations

/-!
# What a call does to the shares

For every operation on shares, the storage after it as an equation, with what the operation had
checked. Every other call leaves the shares alone.

## Main definitions

* `accrued`: the storage with the rewards brought forward
* `OnlyMarket`: two storages that differ in what swaps and the fees write, and in nothing else
* `SameShares`: two storages that agree on everything the operations on shares write
* `SharesAfter`: what a call does to the shares, with one case for each operation on them

## Main results

* `burn_spec`, `transfer_spec`, `stake_spec`, …: the operations, one by one
* `onlyMarket_after`: a call that is apart from the shares and the guard changes the market only
* `sharesAfter`: every call that returns does one of the cases
-/

namespace LiquidityPool

open Soroban EmergencyGuard

variable {Address Tokens α : Type}

/-! ## Swaps -/

section Swaps

variable {env : Env Address Tokens} {s t : State Address Tokens}

/-- A swap changes the reserves of the pool and the tokens, and nothing else. -/
structure Swapped (s t : State Address Tokens) : Prop where
  state : t = { s with pool := t.pool, tokens := t.tokens }
  pool : ∃ pool reserveA reserveB, s.pool = some pool ∧
    t.pool = some { pool with reserveA, reserveB }

theorem settleSwap_swapped {user : Address} {pool : PoolState Address} {buyA : Bool}
    {sides : SwapSides Address} {amountIn amountOut : ℤ} {r : Unit} (hpool : s.pool = some pool)
    (h : Returns (settleSwap env user pool buyA sides amountIn amountOut) s r t) :
    Swapped s t := by
  rw [settleSwap_state h]
  cases buyA with
  | true => exact ⟨rfl, pool, _, _, hpool, rfl⟩
  | false => exact ⟨rfl, pool, _, _, hpool, rfl⟩

theorem swap_swapped {user : Address} {buyA : Bool} {out inMax r : ℤ}
    (h : Returns (swap env user buyA out inMax) s r t) : Swapped s t := by
  obtain ⟨pool, amountIn, u, hpool, hin, -, hsettle⟩ := swap_state h
  obtain rfl := amountInForOut_state hin
  exact settleSwap_swapped hpool hsettle

theorem swapExactIn_swapped {user : Address} {buyA : Bool} {amountIn minAmountOut r : ℤ}
    (h : Returns (swapExactIn env user buyA amountIn minAmountOut) s r t) : Swapped s t := by
  obtain ⟨pool, amountOut, u, hpool, -, hout, -, hsettle⟩ := swapExactIn_state h
  obtain rfl := amountOutForIn_state hout
  exact settleSwap_swapped hpool hsettle

end Swaps

/-! ## The operations on shares -/

section Shares

variable {host : Host Address Tokens} {s t : Storage Address Tokens} {r : Unit}

/-- The storage with the rewards brought forward to the ledger `sequence`. -/
def accrued (sequence : ℤ) (s : Storage Address Tokens) : Storage Address Tokens :=
  { s with
    accumulatedRewardPerShare :=
      if s.lastRewardLedger.isSome then some (projectedRewardPerShare sequence s)
      else s.accumulatedRewardPerShare
    lastRewardLedger := some sequence }

theorem returns_updateRewardState {sequence : ℤ} :
    Returns (updateRewardState sequence : Entry Address Tokens Unit) s r t ↔
      accrued sequence s = t := by
  rw [updateRewardState, returns_get_bind, accrued]
  cases s.lastRewardLedger <;> simp

theorem returns_updateRewardState_bind {sequence : ℤ} {β : Type} {b : β}
    {f : Unit → Entry Address Tokens β} :
    Returns (updateRewardState sequence >>= f) s b t ↔
      Returns (f ()) (accrued sequence s) b t := by
  simp only [returns_bind, returns_updateRewardState]
  constructor
  · rintro ⟨_, _, rfl, h⟩
    exact h
  · intro h
    exact ⟨_, _, rfl, h⟩

variable [DecidableEq Address]

/-- Balances after `amount` was taken from `source` and then given to `destination`. -/
def moved (balance : Address → Option ℤ) (source destination : Address) (amount : ℤ) :
    Address → Option ℤ :=
  let taken := Function.update balance source (some ((balance source).getD 0 - amount))
  Function.update taken destination (some ((taken destination).getD 0 + amount))

theorem burn_spec {source : Address} {amount : ℤ}
    (h : Returns (burn host source amount) s r t) :
    ∃ pool, s.pool = some pool ∧ host.auth source = true ∧ amount ≤ Token.balance s source ∧
      t = { s with
        balance := Function.update s.balance source (some (Token.balance s source - amount))
        pool := some { pool with totalShares := pool.totalShares - amount } } := by
  simp only [burn, returns_core_requireNotPaused_bind, returns_core_requireAuth_bind,
    returns_core_loadPool_bind, returns_get_bind, returns_require_bind, returns_core_plain_bind,
    returns_set_bind, returns_core_savePool] at h
  obtain ⟨-, hauth, pool, hpool, hcover, -, -, ht⟩ := h
  exact ⟨pool, hpool, hauth, not_lt.mp hcover, ht.symm⟩

theorem transfer_spec {source destination : Address} {amount : ℤ}
    (h : Returns (Token.transfer host source destination amount) s r t) :
    host.auth source = true ∧ amount ≤ Token.balance s source ∧
      t = { s with balance := moved s.balance source destination amount } := by
  simp only [Token.transfer, returns_core_requireNotPaused_bind, returns_core_requireAuth_bind,
    returns_get_bind, returns_require_bind, returns_core_plain_bind, returns_set_bind,
    returns_set] at h
  obtain ⟨-, hauth, hcover, -, -, ht⟩ := h
  exact ⟨hauth, not_lt.mp hcover, ht.symm⟩

theorem approve_spec {source spender : Address} {amount expirationLedger : ℤ}
    (h : Returns (Token.approve host source spender amount expirationLedger) s r t) :
    host.auth source = true ∧ t = { s with allowance := t.allowance } := by
  simp only [Token.approve, returns_core_requireAuth_bind, returns_get_bind, returns_set] at h
  obtain ⟨hauth, rfl⟩ := h
  exact ⟨hauth, rfl⟩

/-- A transfer for another address is within the allowance, and otherwise as a transfer. -/
theorem transferFrom_spec {spender source destination : Address} {amount : ℤ}
    (h : Returns (Token.transferFrom host spender source destination amount) s r t) :
    host.auth spender = true ∧ host.auth source = true ∧
      amount ≤ Token.allowance host.sequence s source spender ∧
      amount ≤ Token.balance s source ∧
      t = { s with
        allowance := t.allowance
        balance := moved s.balance source destination amount } := by
  simp only [Token.transferFrom, returns_core_requireNotPaused_bind,
    returns_core_requireAuth_bind, returns_get_bind, returns_require_bind,
    returns_core_plain_bind] at h
  obtain ⟨-, hspender, hallowed, -, h⟩ := h
  -- either way only the allowance is written before the transfer
  obtain ⟨u, hu, hr⟩ : ∃ u, u = { s with allowance := u.allowance } ∧
      Returns (Token.transfer host source destination amount) u r t := by
    split at h
    · rw [returns_orFault_bind] at h
      obtain ⟨_, -, hr⟩ := h
      exact ⟨_, rfl, returns_set_bind.mp hr⟩
    · exact ⟨_, rfl, returns_set_bind.mp h⟩
  obtain ⟨hauth, hcover, ht⟩ := transfer_spec hr
  rw [hu] at hcover ht
  refine ⟨hspender, hauth, not_lt.mp hallowed, hcover, ?_⟩
  rw [ht]

theorem stake_spec {user : Address} {amount : ℤ} (h : Returns (stake host user amount) s r t) :
    host.auth user = true ∧ amount ≤ Token.balance s user ∧
      t = { accrued host.sequence s with
        balance := Function.update s.balance user (some (Token.balance s user - amount))
        stakedBalance :=
          Function.update s.stakedBalance user (some (getStakedBalance s user + amount))
        totalStaked := some (getTotalStaked s + amount) } := by
  simp only [stake, returns_core_requireNotPaused_bind, returns_core_requireAuth_bind,
    returns_get_bind, returns_require_bind, returns_updateRewardState_bind,
    returns_core_plain_bind, returns_set] at h
  obtain ⟨-, hauth, hcover, -, -, -, ht⟩ := h
  exact ⟨hauth, not_lt.mp hcover, ht.symm⟩

theorem unstake_spec {user : Address} {amount : ℤ}
    (h : Returns (unstake host user amount) s r t) :
    host.auth user = true ∧ amount ≤ getStakedBalance s user ∧
      t = { accrued host.sequence s with
        balance := Function.update s.balance user (some (Token.balance s user + amount))
        stakedBalance :=
          Function.update s.stakedBalance user (some (getStakedBalance s user - amount))
        totalStaked := some (getTotalStaked s - amount) } := by
  simp only [unstake, returns_core_requireNotPaused_bind, returns_core_requireAuth_bind,
    returns_get_bind, returns_require_bind, returns_updateRewardState_bind,
    returns_core_plain_bind, returns_set] at h
  obtain ⟨-, hauth, hcover, -, -, -, ht⟩ := h
  exact ⟨hauth, not_lt.mp hcover, ht.symm⟩

/-- A claim pays what is pending, and then records what the stake is worth; or it pays nothing. -/
theorem claimRewards_spec {user : Address} {paid : ℤ}
    (h : Returns (claimRewards host user) s paid t) :
    host.auth user = true ∧
      (paid = 0 ∧ t = accrued host.sequence s ∨
        0 < paid ∧
        paid = calculatePendingRewards host.sequence (accrued host.sequence s) user
          (getStakedBalance s user) ∧
        t = { accrued host.sequence s with
          userRewards := Function.update s.userRewards user (some (earned (getStakedBalance s user)
            (projectedRewardPerShare host.sequence (accrued host.sequence s)))) }) := by
  simp only [claimRewards, returns_core_requireNotPaused_bind, returns_core_requireAuth_bind,
    returns_updateRewardState_bind, returns_get_bind] at h
  obtain ⟨-, hauth, h⟩ := h
  refine ⟨hauth, ?_⟩
  -- the rewards are brought forward either way, and recorded when something is pending
  split at h
  · obtain ⟨rfl, rfl⟩ := returns_pure.mp h
    exact .inl ⟨rfl, rfl⟩
  · next hpos =>
    rw [returns_set_bind] at h
    obtain ⟨rfl, rfl⟩ := returns_pure.mp h
    exact .inr ⟨not_le.mp hpos, rfl, rfl⟩

end Shares

/-! ## Every other call leaves the shares alone -/

/-- The fee on deposits and withdrawals is in its range. -/
def FeeInRange (s : State Address Tokens) : Prop :=
  0 ≤ getLpFeeBps s ∧ getLpFeeBps s ≤ maxLpFeeBps

/-- Only what swaps and the fees write has changed. -/
structure OnlyMarket (s t : Storage Address Tokens) : Prop where
  frame : t = { s with
    pool := t.pool
    lpFeeBps := t.lpFeeBps
    tokens := t.tokens
    oracle := t.oracle
    pendingFeeUpdate := t.pendingFeeUpdate }
  isSome : t.pool.isSome = s.pool.isSome
  totalSupply : totalSupply t = totalSupply s
  fee : FeeInRange s.toState → FeeInRange t.toState

/-- Two storages that agree on what the operations on shares write. -/
structure SameShares (s t : Storage Address Tokens) : Prop where
  balance : t.balance = s.balance
  depositLedger : t.depositLedger = s.depositLedger
  allowance : t.allowance = s.allowance
  stakedBalance : t.stakedBalance = s.stakedBalance
  totalStaked : t.totalStaked = s.totalStaked
  userRewards : t.userRewards = s.userRewards
  lastRewardLedger : t.lastRewardLedger = s.lastRewardLedger
  accumulatedRewardPerShare : t.accumulatedRewardPerShare = s.accumulatedRewardPerShare
  totalSupply : totalSupply t = totalSupply s
  fee : FeeInRange s.toState → FeeInRange t.toState

/-- Two storages with the same fee, guard and admin of the pool, both initialised or neither. -/
structure SameSettings (s t : Storage Address Tokens) : Prop where
  lpFeeBps : t.lpFeeBps = s.lpFeeBps
  guard : t.guard = s.guard
  admin : t.admin = s.admin
  isSome : t.pool.isSome = s.pool.isSome

/-- The call is one of the operations that write shares, allowances or rewards. -/
def Call.onShares : Call Address → Bool
  | .deposit .. | .withdraw .. | .burn .. | .transfer .. | .approve .. | .transferFrom ..
  | .stake .. | .unstake .. | .claimRewards .. => true
  | _ => false

/-- The call is one of the functions of the guard, or sets it up. -/
def Call.onGuard : Call Address → Bool
  | .initializePool .. | .guardPause .. | .setOperationPaused .. | .setPaused .. | .pauseSwaps
  | .resumeSwaps | .pauseDeposits | .resumeDeposits | .pauseWithdrawals | .resumeWithdrawals
  | .emergencyPause .. | .resume .. | .guardUnpause .. | .addGuardAdmin .. | .removeGuardAdmin ..
  | .checkNotPaused .. | .setPauseState .. | .unpause .. | .unpauseAll .. | .emergencyPauseAll ..
  | .resumeAll .. | .initGuard .. | .addAdmin .. | .removeAdmin .. | .rotateAdmin .. => true
  | _ => false

/-- What a call does to the shares. -/
inductive SharesAfter [DecidableEq Address] (host : Host Address Tokens)
    (s : Storage Address Tokens) :
    Call Address → Response Address → Storage Address Tokens → Prop
  | same {call v t} (hcall : call.onShares = false) (h : SameShares s t) :
      SharesAfter host s call v t
  | deposit {user amountA amountB net t pool} (hpool : s.pool = some pool)
      (hauth : host.auth user = true) (hnet : FeeInRange s.toState → 0 ≤ net)
      (ht : t = { s with
        balance := Function.update s.balance user (some (Token.balance s user + net))
        depositLedger := Function.update s.depositLedger user (some host.sequence)
        pool := some { pool with
          totalShares := pool.totalShares + net
          reserveA := pool.reserveA + amountA
          reserveB := pool.reserveB + amountB }
        tokens := t.tokens }) :
      SharesAfter host s (.deposit user amountA amountB) (.amount net) t
  | withdraw {user shareAmount a b t pool early} (hpool : s.pool = some pool)
      (hauth : host.auth user = true) (hpos : 0 < shareAmount)
      (hcover : shareAmount ≤ Token.balance s user)
      (hearly : early = decide (0 < (s.depositLedger user).getD 0 ∧
        host.sequence < (s.depositLedger user).getD 0 + minHoldingPeriod))
      (ha : a = payout early shareAmount pool.reserveA pool.totalShares (getLpFeeBps s.toState))
      (hb : b = payout early shareAmount pool.reserveB pool.totalShares (getLpFeeBps s.toState))
      (ht : t = { s with
        balance := Function.update s.balance user (some (Token.balance s user - shareAmount))
        pool := some { pool with
          totalShares := pool.totalShares - shareAmount
          reserveA := pool.reserveA - a
          reserveB := pool.reserveB - b }
        tokens := t.tokens }) :
      SharesAfter host s (.withdraw user shareAmount) (.amounts a b) t
  | burn {source amount t pool} (hpool : s.pool = some pool) (hauth : host.auth source = true)
      (hcover : amount ≤ Token.balance s source)
      (ht : t = { s with
        balance := Function.update s.balance source (some (Token.balance s source - amount))
        pool := some { pool with totalShares := pool.totalShares - amount } }) :
      SharesAfter host s (.burn source amount) .unit t
  | transfer {source destination amount t} (hauth : host.auth source = true)
      (hcover : amount ≤ Token.balance s source)
      (ht : t = { s with balance := moved s.balance source destination amount }) :
      SharesAfter host s (.transfer source destination amount) .unit t
  | approve {source spender amount expirationLedger t}
      (ht : t = { s with allowance := t.allowance }) :
      SharesAfter host s (.approve source spender amount expirationLedger) .unit t
  | transferFrom {spender source destination amount t} (hspender : host.auth spender = true)
      (hauth : host.auth source = true)
      (hallowed : amount ≤ Token.allowance host.sequence s source spender)
      (hcover : amount ≤ Token.balance s source)
      (ht : t = { s with
        allowance := t.allowance
        balance := moved s.balance source destination amount }) :
      SharesAfter host s (.transferFrom spender source destination amount) .unit t
  | stake {user amount t} (hauth : host.auth user = true) (hcover : amount ≤ Token.balance s user)
      (ht : t = { accrued host.sequence s with
        balance := Function.update s.balance user (some (Token.balance s user - amount))
        stakedBalance :=
          Function.update s.stakedBalance user (some (getStakedBalance s user + amount))
        totalStaked := some (getTotalStaked s + amount) }) :
      SharesAfter host s (.stake user amount) .unit t
  | unstake {user amount t} (hauth : host.auth user = true)
      (hcover : amount ≤ getStakedBalance s user)
      (ht : t = { accrued host.sequence s with
        balance := Function.update s.balance user (some (Token.balance s user + amount))
        stakedBalance :=
          Function.update s.stakedBalance user (some (getStakedBalance s user - amount))
        totalStaked := some (getTotalStaked s - amount) }) :
      SharesAfter host s (.unstake user amount) .unit t
  | claimNothing {user t} (ht : t = accrued host.sequence s) :
      SharesAfter host s (.claimRewards user) (.amount 0) t
  | claimRewards {user paid t} (hpos : 0 < paid)
      (hpaid : paid = calculatePendingRewards host.sequence (accrued host.sequence s) user
        (getStakedBalance s user))
      (ht : t = { accrued host.sequence s with
        userRewards := Function.update s.userRewards user (some (earned (getStakedBalance s user)
          (projectedRewardPerShare host.sequence (accrued host.sequence s)))) }) :
      SharesAfter host s (.claimRewards user) (.amount paid) t

namespace OnlyMarket

variable {s t : Storage Address Tokens} {pool : PoolState Address}

theorem refl (s : Storage Address Tokens) : OnlyMarket s s := ⟨rfl, rfl, rfl, id⟩

/-- A pool entry with as many shares. -/
theorem withPool {pool' : PoolState Address} (hpool : s.pool = some pool)
    (hshares : pool'.totalShares = pool.totalShares) :
    OnlyMarket s { s with pool := some pool' } := by
  refine ⟨rfl, ?_, ?_, id⟩
  · rw [hpool]
    rfl
  · rw [totalSupply_eq rfl, totalSupply_eq hpool, hshares]

theorem of_swapped (h : Swapped s.toState t.toState)
    (ht : { s with toState := t.toState } = t) : OnlyMarket s t := by
  obtain ⟨hstate, pool, reserveA, reserveB, hpool, hpool'⟩ := h
  rw [← ht, hstate]
  refine ⟨rfl, ?_, ?_, id⟩
  · show t.pool.isSome = s.pool.isSome
    rw [hpool, hpool']
    rfl
  · rw [totalSupply_eq (by exact hpool'), totalSupply_eq hpool]

theorem trans {u : Storage Address Tokens} (h : OnlyMarket s t) (h' : OnlyMarket t u) :
    OnlyMarket s u where
  frame := by rw [h'.frame, h.frame]
  isSome := h'.isSome.trans h.isSome
  totalSupply := h'.totalSupply.trans h.totalSupply
  fee := fun hs => h'.fee (h.fee hs)

/-- A core operation that leaves the storage as it is. -/
theorem of_core {x : Body Address Tokens α} {a : α}
    (hx : ∀ {u v}, Returns x u a v → u = v) (h : Returns (core x) s a t) : OnlyMarket s t := by
  obtain ⟨u, hu, rfl⟩ := returns_core.mp h
  obtain rfl := hx hu
  exact refl s

variable {host : Host Address Tokens} {r : Unit}

theorem of_setFee {feeBps : ℤ} (h : Returns (setFee host feeBps) s r t) : OnlyMarket s t := by
  simp only [setFee, returns_require_bind, returns_loadAdmin_bind, returns_core_requireAuth_bind,
    returns_core_loadPool_bind, returns_core_savePool] at h
  obtain ⟨-, _, -, -, pool, hpool, rfl⟩ := h
  exact withPool hpool rfl

/-- A new fee on deposits and withdrawals is in the range. -/
theorem of_setLpFeeBps {feeBps : ℤ} (h : Returns (setLpFeeBps host feeBps) s r t) :
    OnlyMarket s t := by
  simp only [setLpFeeBps, returns_require_bind, returns_loadAdmin_bind,
    returns_core_requireAuth_bind, returns_get_bind, returns_set] at h
  obtain ⟨hrange, _, -, -, rfl⟩ := h
  exact ⟨rfl, rfl, rfl, fun _ => hrange⟩

theorem of_configureFeeOracle {oracle : Address} {baseFeeBps timelockLedgers : ℤ}
    (h : Returns (configureFeeOracle host oracle baseFeeBps timelockLedgers) s r t) :
    OnlyMarket s t := by
  simp only [configureFeeOracle, returns_require_bind, returns_core_loadPool_bind,
    returns_core_requireAuth_bind, returns_core_savePool_bind, returns_get_bind,
    returns_set] at h
  obtain ⟨-, pool, hpool, -, rfl⟩ := h
  exact trans (withPool hpool rfl) ⟨rfl, rfl, rfl, id⟩

theorem of_saveOracle {cfg : OracleConfig Address} (h : Returns (saveOracle cfg) s r t) :
    OnlyMarket s t := by
  rw [saveOracle, returns_get_bind, returns_set] at h
  subst h
  exact ⟨rfl, rfl, rfl, id⟩

theorem of_scheduleFeeUpdate {timelockLedgers volatilityBps : ℤ} {a : Option PendingFeeUpdate}
    (h : Returns (scheduleFeeUpdate host timelockLedgers volatilityBps) s a t) :
    OnlyMarket s t := by
  simp only [scheduleFeeUpdate, returns_core_loadPool_bind] at h
  obtain ⟨_, -, h⟩ := h
  split at h
  · -- the fee is at its target already
    obtain ⟨-, rfl⟩ := returns_pure.mp h
    exact refl s
  · rw [returns_get_bind, returns_set_bind] at h
    obtain ⟨-, rfl⟩ := returns_pure.mp h
    exact ⟨rfl, rfl, rfl, id⟩

theorem of_syncFeeFromOracle {a : Option PendingFeeUpdate}
    (h : Returns (syncFeeFromOracle host) s a t) : OnlyMarket s t := by
  simp only [syncFeeFromOracle, returns_get_bind, returns_orFault_bind,
    returns_require_bind] at h
  obtain ⟨cfg, -, price, -, -, h⟩ := h
  split at h
  · -- the first price
    simp only [returns_bind, returns_pure] at h
    obtain ⟨_, _, hsave, -, rfl⟩ := h
    exact of_saveOracle hsave
  · -- a later one, from whose change the volatility is computed
    rw [returns_core_plain_bind] at h
    simp only [returns_bind, returns_core] at h
    obtain ⟨-, product, _, ⟨_, hproduct, rfl⟩, volatility, _, ⟨_, hvolatility, rfl⟩, _, _, hsave,
      hschedule⟩ := h
    obtain ⟨-, -, rfl⟩ := returns_checked.mp hproduct
    obtain ⟨-, -, -, rfl⟩ := returns_divide.mp hvolatility
    exact trans (of_saveOracle hsave) (of_scheduleFeeUpdate hschedule)

theorem of_executeFeeUpdate {a : ℤ} (h : Returns (executeFeeUpdate host) s a t) :
    OnlyMarket s t := by
  simp only [executeFeeUpdate, returns_get_bind, returns_orFault_bind, returns_require_bind,
    returns_core_loadPool_bind, returns_core_savePool_bind, returns_set_bind, returns_pure] at h
  obtain ⟨pending, -, -, -, pool, hpool, -, rfl⟩ := h
  exact trans (withPool hpool rfl) ⟨rfl, rfl, rfl, id⟩

end OnlyMarket

namespace SameShares

variable {s t : Storage Address Tokens}

theorem refl (s : Storage Address Tokens) : SameShares s s :=
  ⟨rfl, rfl, rfl, rfl, rfl, rfl, rfl, rfl, rfl, id⟩

/-- What the guard writes is apart from the shares. -/
theorem withGuard (s : Storage Address Tokens) (g : EmergencyGuard.State Address) :
    SameShares s (s.withGuard g) :=
  ⟨rfl, rfl, rfl, rfl, rfl, rfl, rfl, rfl, rfl, id⟩

/-- So is what swaps and the fees write. -/
theorem of_onlyMarket (h : OnlyMarket s t) : SameShares s t := by
  obtain ⟨hframe, -, hsupply, hfee⟩ := h
  refine ⟨?_, ?_, ?_, ?_, ?_, ?_, ?_, ?_, hsupply, hfee⟩ <;> rw [hframe]

theorem trans {u : Storage Address Tokens} (h : SameShares s t) (h' : SameShares t u) :
    SameShares s u where
  balance := h'.balance.trans h.balance
  depositLedger := h'.depositLedger.trans h.depositLedger
  allowance := h'.allowance.trans h.allowance
  stakedBalance := h'.stakedBalance.trans h.stakedBalance
  totalStaked := h'.totalStaked.trans h.totalStaked
  userRewards := h'.userRewards.trans h.userRewards
  lastRewardLedger := h'.lastRewardLedger.trans h.lastRewardLedger
  accumulatedRewardPerShare := h'.accumulatedRewardPerShare.trans h.accumulatedRewardPerShare
  totalSupply := h'.totalSupply.trans h.totalSupply
  fee := fun hs => h'.fee (h.fee hs)

theorem of_onGuard {x : EmergencyGuard.Body Address α} {a : α}
    (h : Returns (onGuard x : Entry Address Tokens α) s a t) : SameShares s t := by
  obtain ⟨g, -, rfl⟩ := returns_onGuard.mp h
  exact withGuard s g

theorem of_onTrait {err : GuardError → GuardError} {x : EmergencyGuard.Body Address α} {a : α}
    (h : Returns (onTrait err x : TraitEntry Address Tokens α) s a t) : SameShares s t := by
  obtain ⟨g, -, rfl⟩ := returns_onTrait.mp h
  exact withGuard s g

variable {host : Host Address Tokens} {r : Unit}

theorem of_initializePool {admin tokenA tokenB : Address}
    (h : Returns (initializePool admin tokenA tokenB) s r t) : SameShares s t := by
  simp only [initializePool, returns_get_bind, returns_require_bind, returns_set_bind] at h
  obtain ⟨hnone, h⟩ := h
  refine trans ?_ (of_onGuard h)
  -- the new pool has no shares, as none were counted without a pool
  refine ⟨rfl, rfl, rfl, rfl, rfl, rfl, rfl, rfl, ?_, id⟩
  simp only [LiquidityPool.totalSupply, Option.isNone_iff_eq_none.mp hnone]

variable [DecidableEq Address]

theorem of_setPauseByAdmin {operation : UInt32} {paused : Bool}
    (h : Returns (setPauseByAdmin host operation paused) s r t) : SameShares s t := by
  rw [setPauseByAdmin, returns_loadAdmin_bind] at h
  obtain ⟨_, -, h⟩ := h
  exact of_onGuard h

/-- The admin of the pool is apart from the shares. -/
theorem of_reassignPrimaryAdminIf {departing : Address} {replacement : Option Address}
    (h : Returns (reassignPrimaryAdminIf departing replacement) s r t) : SameShares s t := by
  unfold reassignPrimaryAdminIf at h
  split at h
  · obtain ⟨-, rfl⟩ := returns_pure.mp h
    exact refl s
  · rw [returns_get_bind] at h
    split at h
    · obtain ⟨-, rfl⟩ := returns_pure.mp h
      exact refl s
    · obtain rfl := returns_set.mp h
      refine ⟨rfl, rfl, rfl, rfl, rfl, rfl, rfl, rfl, ?_, id⟩
      cases hpool : s.pool <;> simp [LiquidityPool.totalSupply, hpool]

end SameShares

section

variable [DecidableEq Address] {host : Host Address Tokens} {s t : Storage Address Tokens}
  {call : Call Address} {v : Response Address}

/-- A call that is apart from the shares and from the guard changes the market only. -/
theorem onlyMarket_after (hshares : call.onShares = false) (hguard : call.onGuard = false)
    (h : Returns (entryPoint host call) s v t) : OnlyMarket s t := by
  cases call with
  | deposit | withdraw | burn | transfer | approve | transferFrom | stake | unstake
  | claimRewards => cases hshares
  | initializePool | guardPause | setOperationPaused | setPaused | pauseSwaps | resumeSwaps
  | pauseDeposits | resumeDeposits | pauseWithdrawals | resumeWithdrawals | emergencyPause | resume
  | guardUnpause | addGuardAdmin | removeGuardAdmin | checkNotPaused | setPauseState | unpause
  | unpauseAll | emergencyPauseAll | resumeAll | initGuard | addAdmin | removeAdmin
  | rotateAdmin => cases hguard
  | getAdmin =>
    simp only [entryPoint, getAdmin, returns_exported, returns_get_bind, returns_orFault] at h
    obtain ⟨_, ⟨-, rfl⟩, -⟩ := h
    exact .refl s
  | setFee feeBps => exact .of_setFee (returns_done.mp h).1
  | setLpFeeBps feeBps => exact .of_setLpFeeBps (returns_done.mp h).1
  | configureFeeOracle oracle baseFeeBps timelockLedgers =>
    exact .of_configureFeeOracle (returns_done.mp h).1
  | syncFeeFromOracle =>
    obtain ⟨_, h, -⟩ := returns_exported.mp h
    exact .of_syncFeeFromOracle h
  | executeFeeUpdate =>
    obtain ⟨_, h, -⟩ := returns_exported.mp h
    exact .of_executeFeeUpdate h
  | swap user buyA out inMax =>
    simp only [entryPoint, returns_exported, returns_core] at h
    obtain ⟨_, ⟨u, h, ht⟩, -⟩ := h
    subst ht
    exact .of_swapped (swap_swapped h) rfl
  | swapExactIn user buyA amountIn minAmountOut =>
    simp only [entryPoint, returns_exported, returns_core] at h
    obtain ⟨_, ⟨u, h, ht⟩, -⟩ := h
    subst ht
    exact .of_swapped (swapExactIn_swapped h) rfl
  | getAmountOut buyA amountIn =>
    obtain ⟨_, h, -⟩ := returns_exported.mp h
    refine .of_core (fun hx => ?_) h
    simp only [getAmountOut, returns_require_bind, returns_loadPool_bind] at hx
    obtain ⟨-, _, -, hx⟩ := hx
    exact amountOutForIn_state hx
  | getAmountIn buyA amountOut =>
    obtain ⟨_, h, -⟩ := returns_exported.mp h
    refine .of_core (fun hx => ?_) h
    simp only [getAmountIn, returns_require_bind, returns_loadPool_bind] at hx
    obtain ⟨-, _, -, hx⟩ := hx
    exact amountInForOut_state hx
  | getReserves =>
    obtain ⟨_, h, -⟩ := returns_exported.mp h
    refine .of_core (fun hx => ?_) h
    simp only [getReserves, returns_loadPool_bind, returns_pure] at hx
    obtain ⟨_, -, -, rfl⟩ := hx
    rfl
  | view view =>
    simp only [entryPoint, returns_bind, returns_get, returns_pure] at h
    obtain ⟨_, _, ⟨rfl, rfl⟩, -, rfl⟩ := h
    exact .refl s

/-- **Every call that returns does one of the cases** to the shares. -/
theorem sharesAfter (h : Returns (entryPoint host call) s v t) : SharesAfter host s call v t := by
  cases call with
  | deposit user amountA amountB =>
    simp only [entryPoint, returns_exported, returns_core] at h
    obtain ⟨net, ⟨u, h, rfl⟩, rfl⟩ := h
    obtain ⟨pool, u, hpool, hauth, -, -, hnet, ht⟩ := deposit_state h
    -- a fee in its range is less than all of the shares
    have hnonneg : FeeInRange s.toState → 0 ≤ net :=
      fun hfee => netShares_nonneg hnet hfee.1 (hfee.2.trans (by decide))
    refine .deposit hpool hauth hnonneg ?_
    rw [ht]
    rfl
  | withdraw user shareAmount =>
    simp only [entryPoint, returns_exported, returns_core] at h
    obtain ⟨r, ⟨u, h, rfl⟩, rfl⟩ := h
    obtain ⟨pool, early, hpool, hauth, hpos, hcover, hearly, ha, hb, ht⟩ := withdraw_state h
    refine .withdraw hpool hauth hpos hcover hearly ha hb ?_
    rw [ht]
    rfl
  | burn source amount =>
    simp only [entryPoint, returns_done] at h
    obtain ⟨h, rfl⟩ := h
    obtain ⟨pool, hpool, hauth, hcover, ht⟩ := burn_spec h
    exact .burn hpool hauth hcover ht
  | transfer source destination amount =>
    simp only [entryPoint, returns_done] at h
    obtain ⟨h, rfl⟩ := h
    obtain ⟨hauth, hcover, ht⟩ := transfer_spec h
    exact .transfer hauth hcover ht
  | approve source spender amount expirationLedger =>
    simp only [entryPoint, returns_done] at h
    obtain ⟨h, rfl⟩ := h
    exact .approve (approve_spec h).2
  | transferFrom spender source destination amount =>
    simp only [entryPoint, returns_done] at h
    obtain ⟨h, rfl⟩ := h
    obtain ⟨hspender, hauth, hallowed, hcover, ht⟩ := transferFrom_spec h
    exact .transferFrom hspender hauth hallowed hcover ht
  | stake user amount =>
    simp only [entryPoint, returns_done] at h
    obtain ⟨h, rfl⟩ := h
    obtain ⟨hauth, hcover, ht⟩ := stake_spec h
    exact .stake hauth hcover ht
  | unstake user amount =>
    simp only [entryPoint, returns_done] at h
    obtain ⟨h, rfl⟩ := h
    obtain ⟨hauth, hcover, ht⟩ := unstake_spec h
    exact .unstake hauth hcover ht
  | claimRewards user =>
    simp only [entryPoint, returns_exported] at h
    obtain ⟨paid, h, rfl⟩ := h
    rcases claimRewards_spec h with ⟨-, ⟨rfl, ht⟩ | ⟨hpos, hpaid, ht⟩⟩
    · exact .claimNothing ht
    · exact .claimRewards hpos hpaid ht
  -- the guard writes its own part of the storage, and the admin of the pool
  | initializePool admin tokenA tokenB =>
    exact .same rfl (.of_initializePool (returns_done.mp h).1)
  | guardPause | setOperationPaused | emergencyPause | resume | guardUnpause | addGuardAdmin
  | removeGuardAdmin => exact .same rfl (.of_onGuard (returns_done.mp h).1)
  | setPaused | pauseSwaps | resumeSwaps | pauseDeposits | resumeDeposits | pauseWithdrawals
  | resumeWithdrawals => exact .same rfl (.of_setPauseByAdmin (returns_done.mp h).1)
  | checkNotPaused | setPauseState | unpause | unpauseAll | emergencyPauseAll | resumeAll
  | initGuard | addAdmin => exact .same rfl (.of_onTrait (returns_traitDone.mp h).1)
  | removeAdmin approvers admin =>
    simp only [entryPoint, removeAdmin, returns_traitDone, returns_bind, returns_get] at h
    obtain ⟨⟨_, _, hremove, _, _, ⟨rfl, rfl⟩, hreassign⟩, -⟩ := h
    exact .same rfl (.trans (.of_onTrait hremove) (.of_reassignPrimaryAdminIf hreassign))
  | rotateAdmin approvers oldAdmin newAdmin =>
    simp only [entryPoint, rotateAdmin, returns_traitDone, returns_bind] at h
    obtain ⟨⟨_, _, hrotate, hreassign⟩, -⟩ := h
    exact .same rfl (.trans (.of_onTrait hrotate) (.of_reassignPrimaryAdminIf hreassign))
  | getAdmin | setFee | setLpFeeBps | configureFeeOracle | syncFeeFromOracle | executeFeeUpdate
  | swap | swapExactIn | getAmountOut | getAmountIn | getReserves | view =>
    exact .same rfl (.of_onlyMarket (onlyMarket_after rfl rfl h))

/-- What is no operation on shares leaves them alone. -/
theorem sameShares_after (hcall : call.onShares = false)
    (h : Returns (entryPoint host call) s v t) : SameShares s t := by
  cases sharesAfter h with
  | same hcall h => exact h
  | deposit | withdraw | burn | transfer | approve | transferFrom | stake | unstake | claimNothing
  | claimRewards => cases hcall

/-- An operation on shares leaves the settings of the pool alone. -/
theorem sameSettings_after (hcall : call.onShares = true)
    (h : Returns (entryPoint host call) s v t) : SameSettings s t := by
  cases sharesAfter h with
  | same hsame h => rw [hsame] at hcall; cases hcall
  | deposit hpool hauth hnet ht => rw [ht]; exact ⟨rfl, rfl, rfl, by rw [hpool]; rfl⟩
  | withdraw hpool hauth hpos hcover hearly ha hb ht =>
    rw [ht]
    exact ⟨rfl, rfl, rfl, by rw [hpool]; rfl⟩
  | burn hpool hauth hcover ht => rw [ht]; exact ⟨rfl, rfl, rfl, by rw [hpool]; rfl⟩
  | transfer hauth hcover ht => rw [ht]; exact ⟨rfl, rfl, rfl, rfl⟩
  | approve ht => rw [ht]; exact ⟨rfl, rfl, rfl, rfl⟩
  | transferFrom hspender hauth hallowed hcover ht => rw [ht]; exact ⟨rfl, rfl, rfl, rfl⟩
  | stake hauth hcover ht => rw [ht]; exact ⟨rfl, rfl, rfl, rfl⟩
  | unstake hauth hcover ht => rw [ht]; exact ⟨rfl, rfl, rfl, rfl⟩
  | claimNothing ht => rw [ht]; exact ⟨rfl, rfl, rfl, rfl⟩
  | claimRewards hpos hpaid ht => rw [ht]; exact ⟨rfl, rfl, rfl, rfl⟩

end

end LiquidityPool
