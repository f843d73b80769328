import SkyMoonScope.Lib.Integers
import SkyMoonScope.Soroban.Contract

/-!
# The liquidity pool

The core operations of `contracts/liquidity_pool/src/lib.rs`. Amounts are integers. With overflow
checks a plain operator traps when its value leaves the range of the type; a `checked_` method
returns `Error::ArithmeticOverflow` there. Division truncates. The token contracts are a parameter:
a transfer changes their storage, which the pool does not read, or traps. Events are left out.

## Main definitions

* `PoolState`, `State`: the pool entry, and the storage the operations read and write
* `Env`: the ledger, the authorizations and the token contracts of a call
* `amountOutForIn`, `amountInForOut`: the two swap formulas
* `deposit`, `withdraw`, `swap`, `swapExactIn`: the operations
-/

namespace LiquidityPool

open Soroban

inductive Error
  | alreadyInitialized
  | notInitialized
  | unauthorized
  | insufficientBalance
  | insufficientLiquidity
  | insufficientShares
  | insufficientAllowance
  | slippageExceeded
  | invalidFee
  | oracleNotConfigured
  | invalidOraclePrice
  | timelockNotElapsed
  | noPendingFeeUpdate
  | paused
  | invalidAmount
  | arithmeticOverflow
deriving DecidableEq

structure PoolState (Address : Type) where
  tokenA : Address
  tokenB : Address
  reserveA : ℤ
  reserveB : ℤ
  totalShares : ℤ
  feeBps : ℤ
  baseFeeBps : ℤ
  admin : Address
deriving DecidableEq

/-- The storage the operations read and write: entries of the pool, the pause mask of the
emergency guard, and the storage `Tokens` of the token contracts. -/
structure State (Address Tokens : Type) where
  pool : Option (PoolState Address)
  lpFeeBps : Option ℤ
  balance : Address → Option ℤ
  depositLedger : Address → Option ℤ
  pauseState : Option UInt32
  tokens : Tokens

/-- What a call takes from its environment. -/
structure Env (Address Tokens : Type) where
  currentContractAddress : Address
  sequence : ℤ
  auth : Address → Bool
  transfer : Address → Address → Address → ℤ → Tokens → Option Tokens

def defaultLpFeeBps : ℤ := 5

def minHoldingPeriod : ℤ := 10

def earlyWithdrawalPenaltyBps : ℤ := 100

namespace PauseType

def swap : UInt32 := (1 : UInt32) <<< 0

def deposit : UInt32 := (1 : UInt32) <<< 1

def withdraw : UInt32 := (1 : UInt32) <<< 2

def transfer : UInt32 := (1 : UInt32) <<< 3

def burn : UInt32 := (1 : UInt32) <<< 5

def stake : UInt32 := (1 : UInt32) <<< 7

def claimRewards : UInt32 := (1 : UInt32) <<< 9

end PauseType

variable {Address Tokens : Type}

abbrev Body (Address Tokens α : Type) := Contract (State Address Tokens) Error α

/-! ## Arithmetic -/

/-- A plain operator on `i128` values, which traps on overflow. -/
def plain (x : ℤ) : Body Address Tokens ℤ :=
  orFault (IntType.i128.checked x) (.trap "arithmetic operation with overflow")

/-- A plain operator on `u32` values, which traps on overflow. -/
def plainU32 (x : ℤ) : Body Address Tokens ℤ :=
  orFault (IntType.u32.checked x) (.trap "arithmetic operation with overflow")

/-- Division of `i128` values, which traps on a zero divisor. -/
def divide (x y : ℤ) : Body Address Tokens ℤ :=
  orFault (IntType.i128.checkedDiv x y) (.trap "attempt to divide by zero")

/-- A `checked_` method on `i128` values, followed by `.ok_or(Error::ArithmeticOverflow)?`. -/
def checked (x : ℤ) : Body Address Tokens ℤ :=
  orFault (IntType.i128.checked x) (.error .arithmeticOverflow)

section

variable {s t : State Address Tokens} {x y z : ℤ}

@[simp] theorem returns_plain :
    Returns (plain x : Body Address Tokens ℤ) s z t ↔ IntType.i128.Fits x ∧ x = z ∧ s = t := by
  simp [plain, and_assoc]

@[simp] theorem returns_plainU32 :
    Returns (plainU32 x : Body Address Tokens ℤ) s z t ↔ IntType.u32.Fits x ∧ x = z ∧ s = t := by
  simp [plainU32, and_assoc]

@[simp] theorem returns_checked :
    Returns (checked x : Body Address Tokens ℤ) s z t ↔ IntType.i128.Fits x ∧ x = z ∧ s = t := by
  simp [checked, and_assoc]

@[simp] theorem returns_divide :
    Returns (divide x y : Body Address Tokens ℤ) s z t ↔
      y ≠ 0 ∧ IntType.i128.Fits (x.tdiv y) ∧ x.tdiv y = z ∧ s = t := by
  simp [divide, and_assoc]

end

/-- The share of an amount that a rate in basis points takes. -/
def basisPoints (amount bps : ℤ) : Body Address Tokens ℤ := do
  let product ← plain (amount * bps)
  divide product 10000

/-- The loop of `sqrt`, for at most `n` rounds. The estimate `y` falls in every round, so that `x`
rounds are enough. -/
def sqrtLoop (x : ℤ) : ℕ → ℤ → ℤ → Body Address Tokens ℤ
  | 0, _, _ => throw (.trap "no result")
  | n + 1, z, y =>
    if z < y then do
      let quotient ← divide x z
      let sum ← plain (quotient + z)
      let next ← divide sum 2
      sqrtLoop x n next z
    else pure y

/-- The integer square root, by Newton's method. -/
def sqrt (x : ℤ) : Body Address Tokens ℤ :=
  if x = 0 then pure 0
  else do
    let sum ← plain (x + 1)
    let z ← divide sum 2
    sqrtLoop x (x.toNat + 1) z x

/-- Output produced by `amountIn`, constant product net of the pool fee. -/
def amountOutForIn (amountIn reserveIn reserveOut feeBps : ℤ) : Body Address Tokens ℤ := do
  require (¬(amountIn ≤ 0 ∨ reserveIn ≤ 0 ∨ reserveOut ≤ 0)) (.error .insufficientLiquidity)
  let rate ← plain (10000 - feeBps)
  let inAfterFee ← checked (amountIn * rate)
  let numerator ← checked (inAfterFee * reserveOut)
  let scaled ← checked (reserveIn * 10000)
  let denominator ← checked (scaled + inAfterFee)
  divide numerator denominator

/-- Input required to receive exactly `amountOut`, rounded up. -/
def amountInForOut (amountOut reserveIn reserveOut feeBps : ℤ) : Body Address Tokens ℤ := do
  require (¬(amountOut ≤ 0 ∨ amountOut ≥ reserveOut ∨ reserveIn ≤ 0 ∨ reserveOut ≤ 0))
    (.error .insufficientLiquidity)
  let product ← checked (reserveIn * amountOut)
  let numerator ← checked (product * 10000)
  let left ← plain (reserveOut - amountOut)
  let rate ← plain (10000 - feeBps)
  let denominator ← checked (left * rate)
  let quotient ← divide numerator denominator
  if numerator.tmod denominator = 0 then pure quotient else plain (quotient + 1)

/-! ## Storage -/

def loadPool : Body Address Tokens (PoolState Address) := do
  let s ← get
  orFault s.pool (.error .notInitialized)

def savePool (pool : PoolState Address) : Body Address Tokens Unit := do
  let s ← get
  set { s with pool := some pool }

def getLpFeeBps (s : State Address Tokens) : ℤ := s.lpFeeBps.getD defaultLpFeeBps

def requireNotPaused (operation : UInt32) : Body Address Tokens Unit := do
  let s ← get
  require (s.pauseState.getD 0 &&& operation = 0) (.error .paused)

section Operations

variable (env : Env Address Tokens)

def requireAuth (address : Address) : Body Address Tokens Unit :=
  require (env.auth address) (.trap "Error(Auth, InvalidAction)")

/-- A call of the token's `transfer`. -/
def transfer (token source destination : Address) (amount : ℤ) : Body Address Tokens Unit := do
  let s ← get
  let tokens ← orFault (env.transfer token source destination amount s.tokens)
    (.trap "transfer failed")
  set { s with tokens }

/-! ## Operations -/

/-- The shares a deposit is worth before the fee. -/
def grossShares (pool : PoolState Address) (amountA amountB : ℤ) : Body Address Tokens ℤ :=
  if pool.totalShares = 0 then do
    let product ← checked (amountA * amountB)
    sqrt product
  else do
    let productA ← checked (amountA * pool.totalShares)
    let shareA ← divide productA pool.reserveA
    let productB ← checked (amountB * pool.totalShares)
    let shareB ← divide productB pool.reserveB
    pure (if shareA < shareB then shareA else shareB)

/-- The shares a deposit mints: the gross shares, which must be positive, less the fee. -/
def netShares (pool : PoolState Address) (lpFeeBps amountA amountB : ℤ) :
    Body Address Tokens ℤ := do
  let gross ← grossShares pool amountA amountB
  require (¬gross ≤ 0) (.error .insufficientLiquidity)
  let feeShares ← basisPoints gross lpFeeBps
  plain (gross - feeShares)

/-- The end of a deposit: the storage after `minted` shares were minted to `user`. -/
def recordDeposit [DecidableEq Address] (user : Address) (pool : PoolState Address)
    (minted amountA amountB : ℤ) : Body Address Tokens Unit := do
  let s ← get
  let balance ← plain ((s.balance user).getD 0 + minted)
  let totalShares ← plain (pool.totalShares + minted)
  let reserveA ← plain (pool.reserveA + amountA)
  let reserveB ← plain (pool.reserveB + amountB)
  set { s with
    balance := Function.update s.balance user (some balance)
    depositLedger := Function.update s.depositLedger user (some env.sequence)
    pool := some { pool with totalShares, reserveA, reserveB } }

/-- Deposits both tokens and mints shares to `user`. -/
def deposit [DecidableEq Address] (user : Address) (amountA amountB : ℤ) :
    Body Address Tokens ℤ := do
  requireNotPaused PauseType.deposit
  requireAuth env user
  require (¬(amountA ≤ 0 ∨ amountB ≤ 0)) (.error .invalidAmount)
  let pool ← loadPool
  transfer env pool.tokenA user env.currentContractAddress amountA
  transfer env pool.tokenB user env.currentContractAddress amountB
  let s ← get
  let minted ← netShares pool (getLpFeeBps s) amountA amountB
  recordDeposit env user pool minted amountA amountB
  pure minted

structure SwapSides (Address : Type) where
  reserveIn : ℤ
  reserveOut : ℤ
  tokenIn : Address
  tokenOut : Address

/-- `buyA` means token B goes in and token A comes out. -/
def swapSides (pool : PoolState Address) (buyA : Bool) : SwapSides Address :=
  if buyA then
    { reserveIn := pool.reserveB, reserveOut := pool.reserveA,
      tokenIn := pool.tokenB, tokenOut := pool.tokenA }
  else
    { reserveIn := pool.reserveA, reserveOut := pool.reserveB,
      tokenIn := pool.tokenA, tokenOut := pool.tokenB }

end Operations

def getAmountOut (buyA : Bool) (amountIn : ℤ) : Body Address Tokens ℤ := do
  require (¬amountIn ≤ 0) (.error .invalidAmount)
  let pool ← loadPool
  let sides := swapSides pool buyA
  amountOutForIn amountIn sides.reserveIn sides.reserveOut pool.feeBps

def getAmountIn (buyA : Bool) (amountOut : ℤ) : Body Address Tokens ℤ := do
  require (¬amountOut ≤ 0) (.error .invalidAmount)
  let pool ← loadPool
  let sides := swapSides pool buyA
  amountInForOut amountOut sides.reserveIn sides.reserveOut pool.feeBps

def getReserves : Body Address Tokens (ℤ × ℤ) := do
  let pool ← loadPool
  pure (pool.reserveA, pool.reserveB)

section Operations

variable (env : Env Address Tokens)

def settleSwap (user : Address) (pool : PoolState Address) (buyA : Bool)
    (sides : SwapSides Address) (amountIn amountOut : ℤ) : Body Address Tokens Unit := do
  transfer env sides.tokenIn user env.currentContractAddress amountIn
  transfer env sides.tokenOut env.currentContractAddress user amountOut
  if buyA then
    let reserveA ← plain (pool.reserveA - amountOut)
    let reserveB ← plain (pool.reserveB + amountIn)
    savePool { pool with reserveA, reserveB }
  else
    let reserveA ← plain (pool.reserveA + amountIn)
    let reserveB ← plain (pool.reserveB - amountOut)
    savePool { pool with reserveA, reserveB }

/-- Swaps for exactly `out` of the bought token, paying at most `inMax`. -/
def swap (user : Address) (buyA : Bool) (out inMax : ℤ) : Body Address Tokens ℤ := do
  requireNotPaused PauseType.swap
  requireAuth env user
  require (¬(out ≤ 0 ∨ inMax < 0)) (.error .invalidAmount)
  let pool ← loadPool
  let sides := swapSides pool buyA
  let amountIn ← amountInForOut out sides.reserveIn sides.reserveOut pool.feeBps
  require (¬amountIn > inMax) (.error .slippageExceeded)
  settleSwap env user pool buyA sides amountIn out
  pure amountIn

/-- Swaps exactly `amountIn` for at least `minAmountOut` of the bought token. -/
def swapExactIn (user : Address) (buyA : Bool) (amountIn minAmountOut : ℤ) :
    Body Address Tokens ℤ := do
  requireNotPaused PauseType.swap
  require (¬(amountIn ≤ 0 ∨ minAmountOut < 0)) (.error .invalidAmount)
  requireAuth env user
  let pool ← loadPool
  let sides := swapSides pool buyA
  let amountOut ← amountOutForIn amountIn sides.reserveIn sides.reserveOut pool.feeBps
  require (¬(amountOut ≤ 0 ∨ amountOut ≥ sides.reserveOut)) (.error .insufficientLiquidity)
  require (¬amountOut < minAmountOut) (.error .slippageExceeded)
  settleSwap env user pool buyA sides amountIn amountOut
  pure amountOut

/-- Whether the position of a depositor is still within the holding period. -/
def withinHoldingPeriod (depositLedger sequence : ℤ) : Body Address Tokens Bool :=
  if depositLedger > 0 then do
    let limit ← plainU32 (depositLedger + minHoldingPeriod)
    pure (sequence < limit)
  else pure false

/-- The penalty on a withdrawn amount. -/
def earlyPenalty (early : Bool) (grossAmount : ℤ) : Body Address Tokens ℤ :=
  if early then basisPoints grossAmount earlyWithdrawalPenaltyBps else pure 0

/-- What a withdrawal pays of one reserve: the proportional amount, less the fee and, for an early
withdrawal, the penalty. -/
def netAmount (shareAmount reserve totalShares lpFeeBps : ℤ) (early : Bool) :
    Body Address Tokens ℤ := do
  let product ← plain (shareAmount * reserve)
  let grossAmount ← divide product totalShares
  let fee ← basisPoints grossAmount lpFeeBps
  let penalty ← earlyPenalty early grossAmount
  let remainder ← plain (grossAmount - fee)
  plain (remainder - penalty)

/-- The storage after the shares of a withdrawal were burned. -/
def recordWithdraw [DecidableEq Address] (user : Address) (pool : PoolState Address)
    (shareAmount netAmountA netAmountB : ℤ) : Body Address Tokens Unit := do
  let s ← get
  let balance ← plain ((s.balance user).getD 0 - shareAmount)
  let totalShares ← plain (pool.totalShares - shareAmount)
  let reserveA ← plain (pool.reserveA - netAmountA)
  let reserveB ← plain (pool.reserveB - netAmountB)
  set { s with
    balance := Function.update s.balance user (some balance)
    pool := some { pool with totalShares, reserveA, reserveB } }

/-- Burns shares of `user` and returns the proportional reserves, less the fee and the penalty for
an early withdrawal. -/
def withdraw [DecidableEq Address] (user : Address) (shareAmount : ℤ) :
    Body Address Tokens (ℤ × ℤ) := do
  requireNotPaused PauseType.withdraw
  requireAuth env user
  require (¬shareAmount ≤ 0) (.error .invalidAmount)
  let pool ← loadPool
  let s ← get
  require (¬shareAmount > (s.balance user).getD 0) (.error .insufficientShares)
  require (¬pool.totalShares ≤ 0) (.error .insufficientLiquidity)
  let early ← withinHoldingPeriod ((s.depositLedger user).getD 0) env.sequence
  let netAmountA ← netAmount shareAmount pool.reserveA pool.totalShares (getLpFeeBps s) early
  let netAmountB ← netAmount shareAmount pool.reserveB pool.totalShares (getLpFeeBps s) early
  recordWithdraw user pool shareAmount netAmountA netAmountB
  transfer env pool.tokenA env.currentContractAddress user netAmountA
  transfer env pool.tokenB env.currentContractAddress user netAmountB
  pure (netAmountA, netAmountB)

end Operations

end LiquidityPool
