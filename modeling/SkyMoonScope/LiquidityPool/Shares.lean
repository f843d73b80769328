import SkyMoonScope.LiquidityPool.Pool
import Mathlib.Logic.Function.Basic

/-!
# Shares: transfers, allowances, staking and rewards

The operations of `contracts/liquidity_pool/src/lib.rs` that move shares between liquid and staked
balances, and the rewards of the stakers. They share the storage of the contract with the core
operations. Amounts are signed, and only the checks that the source makes are made. The lifetimes
of entries are left out.

## Main definitions

* `Storage`: all entries of the contract
* `core`: a core operation, on the part of the storage it knows
* `burn`, `Token.transfer`, `Token.approve`, `Token.transferFrom`: the operations on liquid shares
* `projectedRewardPerShare`, `updateRewardState`: the accumulator of the rewards
* `stake`, `unstake`, `claimRewards`: the operations of the stakers
-/

namespace LiquidityPool

open Soroban

structure AllowanceValue where
  amount : ℤ
  expirationLedger : ℤ
deriving DecidableEq

structure OracleConfig (Address : Type) where
  oracle : Address
  lastPrice : ℤ
  lastVolatilityBps : ℤ
  timelockLedgers : ℤ

structure PendingFeeUpdate where
  newFeeBps : ℤ
  executableAfterLedger : ℤ
  basedOnVolatilityBps : ℤ
deriving DecidableEq

/-- The entries of the contract: those of the core operations, and the other ones by the keys of
`DataKey` and `GuardDataKey`. -/
structure Storage (Address Tokens : Type) extends State Address Tokens where
  admin : Option Address
  allowance : Address → Address → Option AllowanceValue
  oracle : Option (OracleConfig Address)
  pendingFeeUpdate : Option PendingFeeUpdate
  stakedBalance : Address → Option ℤ
  totalStaked : Option ℤ
  userRewards : Address → Option ℤ
  lastRewardLedger : Option ℤ
  accumulatedRewardPerShare : Option ℤ
  admins : Option (List Address)
  guardians : Option (List Address)
  signatureThreshold : Option ℕ

/-- What a call takes from its environment, with the prices that oracles answer. -/
structure Host (Address Tokens : Type) extends Env Address Tokens where
  latestPrice : Address → Option ℤ

def rewardsPerLedger : ℤ := 10000000

def rewardPrecision : ℤ := 1000000000000

variable {Address Tokens α : Type}

abbrev Entry (Address Tokens α : Type) := Contract (Storage Address Tokens) Error α

/-- A core operation, on the part of the storage it knows. -/
def core (x : Body Address Tokens α) : Entry Address Tokens α :=
  zoom Storage.toState (fun s u => { s with toState := u }) id x

def getTotalStaked (s : Storage Address Tokens) : ℤ := s.totalStaked.getD 0

def getStakedBalance (s : Storage Address Tokens) (user : Address) : ℤ :=
  (s.stakedBalance user).getD 0

def totalSupply (s : Storage Address Tokens) : ℤ :=
  match s.pool with
  | some pool => pool.totalShares
  | none => 0

section Operations

variable [DecidableEq Address] (host : Host Address Tokens)

/-- Burns shares of `source` and pays nothing for them. -/
def burn (source : Address) (amount : ℤ) : Entry Address Tokens Unit := do
  core (requireNotPaused PauseType.burn)
  core (requireAuth host.toEnv source)
  let pool ← core loadPool
  let s ← get
  let current := (s.balance source).getD 0
  require (¬amount > current) (.error .insufficientShares)
  let balance ← core (plain (current - amount))
  set { s with balance := Function.update s.balance source (some balance) }
  let totalShares ← core (plain (pool.totalShares - amount))
  core (savePool { pool with totalShares })

/-! ## The token interface -/

namespace Token

def balance (s : Storage Address Tokens) (id : Address) : ℤ := (s.balance id).getD 0

/-- The balance of the destination is read after that of the source was written. -/
def transfer (source destination : Address) (amount : ℤ) : Entry Address Tokens Unit := do
  core (requireNotPaused PauseType.transfer)
  core (requireAuth host.toEnv source)
  let s ← get
  let sourceBalance := (s.balance source).getD 0
  require (¬sourceBalance < amount) (.error .insufficientBalance)
  let sourceBalance ← core (plain (sourceBalance - amount))
  set { s with balance := Function.update s.balance source (some sourceBalance) }
  let s ← get
  let destinationBalance := (s.balance destination).getD 0
  let destinationBalance ← core (plain (destinationBalance + amount))
  set { s with balance := Function.update s.balance destination (some destinationBalance) }

/-- The storage with an allowance written, or removed. -/
def withAllowance (s : Storage Address Tokens) (source spender : Address)
    (value : Option AllowanceValue) : Storage Address Tokens :=
  { s with
    allowance := Function.update s.allowance source
      (Function.update (s.allowance source) spender value) }

def approve (source spender : Address) (amount expirationLedger : ℤ) :
    Entry Address Tokens Unit := do
  core (requireAuth host.toEnv source)
  let s ← get
  set (withAllowance s source spender (some { amount, expirationLedger }))

def allowance (sequence : ℤ) (s : Storage Address Tokens) (source spender : Address) : ℤ :=
  match s.allowance source spender with
  | some a => if sequence ≤ a.expirationLedger then a.amount else 0
  | none => 0

/-- The source of the shares must have authorized the call as well, as `transfer` asks for it. -/
def transferFrom (spender source destination : Address) (amount : ℤ) :
    Entry Address Tokens Unit := do
  core (requireNotPaused PauseType.transfer)
  core (requireAuth host.toEnv spender)
  let s ← get
  let currentAllowance := allowance host.sequence s source spender
  require (¬currentAllowance < amount) (.error .insufficientAllowance)
  let newAllowance ← core (plain (currentAllowance - amount))
  if newAllowance > 0 then
    let currentVal ← orFault (s.allowance source spender)
      (.trap "called Option::unwrap() on a None value")
    set (withAllowance s source spender
      (some { amount := newAllowance, expirationLedger := currentVal.expirationLedger }))
  else set (withAllowance s source spender none)
  transfer host source destination amount

end Token

/-! ## Rewards -/

/-- The accumulator brought forward to the current ledger. The checked products stand for an
increment of zero where they overflow. -/
def projectedRewardPerShare (sequence : ℤ) (s : Storage Address Tokens) : ℤ :=
  let accumulated := s.accumulatedRewardPerShare.getD 0
  match s.lastRewardLedger with
  | none => accumulated
  | some lastRewardLedger =>
    let totalStaked := getTotalStaked s
    if sequence ≤ lastRewardLedger ∨ totalStaked ≤ 0 then accumulated
    else
      let ledgersElapsed := sequence - lastRewardLedger
      let newRewards := IntType.i128.checked (ledgersElapsed * rewardsPerLedger)
      let scaled := newRewards.bind fun newRewards =>
        IntType.i128.checked (newRewards * rewardPrecision)
      let increment := (scaled.map fun scaled => scaled.tdiv totalStaked).getD 0
      IntType.i128.saturate (accumulated + increment)

/-- The first staking action only sets the ledger from which rewards accrue. -/
def updateRewardState (sequence : ℤ) : Entry Address Tokens Unit := do
  let s ← get
  match s.lastRewardLedger with
  | none => set { s with lastRewardLedger := some sequence }
  | some _ =>
    set { s with
      accumulatedRewardPerShare := some (projectedRewardPerShare sequence s)
      lastRewardLedger := some sequence }

/-- What a staked amount is worth at the accumulator, and zero where the product overflows. -/
def earned (stakedAmount accumulatedPerShare : ℤ) : ℤ :=
  ((IntType.i128.checked (stakedAmount * accumulatedPerShare)).map fun v =>
    v.tdiv rewardPrecision).getD 0

def calculatePendingRewards (sequence : ℤ) (s : Storage Address Tokens) (user : Address)
    (stakedAmount : ℤ) : ℤ :=
  let claimed := (s.userRewards user).getD 0
  IntType.i128.saturate (earned stakedAmount (projectedRewardPerShare sequence s) - claimed)

/-! ## Staking -/

def stake (user : Address) (amount : ℤ) : Entry Address Tokens Unit := do
  core (requireNotPaused PauseType.stake)
  core (requireAuth host.toEnv user)
  let s ← get
  let userBalance := (s.balance user).getD 0
  require (¬userBalance < amount) (.error .insufficientBalance)
  updateRewardState host.sequence
  let s ← get
  let balance ← core (plain (userBalance - amount))
  let staked ← core (plain (getStakedBalance s user + amount))
  let totalStaked ← core (plain (getTotalStaked s + amount))
  set { s with
    balance := Function.update s.balance user (some balance)
    stakedBalance := Function.update s.stakedBalance user (some staked)
    totalStaked := some totalStaked }

def unstake (user : Address) (amount : ℤ) : Entry Address Tokens Unit := do
  core (requireNotPaused PauseType.stake)
  core (requireAuth host.toEnv user)
  let s ← get
  let currentStaked := getStakedBalance s user
  require (¬currentStaked < amount) (.error .insufficientShares)
  updateRewardState host.sequence
  let s ← get
  let balance ← core (plain ((s.balance user).getD 0 + amount))
  let staked ← core (plain (currentStaked - amount))
  let totalStaked ← core (plain (getTotalStaked s - amount))
  set { s with
    balance := Function.update s.balance user (some balance)
    stakedBalance := Function.update s.stakedBalance user (some staked)
    totalStaked := some totalStaked }

/-- Returns what is paid, and records what the stake is worth as claimed. -/
def claimRewards (user : Address) : Entry Address Tokens ℤ := do
  core (requireNotPaused PauseType.claimRewards)
  core (requireAuth host.toEnv user)
  updateRewardState host.sequence
  let s ← get
  let stakedAmount := getStakedBalance s user
  let pending := calculatePendingRewards host.sequence s user stakedAmount
  if pending ≤ 0 then pure 0
  else
    let newClaimed := earned stakedAmount (projectedRewardPerShare host.sequence s)
    set { s with userRewards := Function.update s.userRewards user (some newClaimed) }
    pure pending

end Operations

/-! ## Rules for the parts of a body -/

section Rules

variable {s t : Storage Address Tokens} {a : α} {x z : ℤ} {r : Unit} {operation : UInt32}
  {env : Env Address Tokens} {addr : Address} {pool : PoolState Address}

theorem totalSupply_eq (hpool : s.pool = some pool) : totalSupply s = pool.totalShares := by
  rw [totalSupply, hpool]

theorem returns_core {x : Body Address Tokens α} :
    Returns (core x) s a t ↔ ∃ u, Returns x s.toState a u ∧ { s with toState := u } = t := by
  simp [core]

/-- A core operation that only reads. -/
theorem returns_core_of_reads {x : Body Address Tokens α} {p : State Address Tokens → Prop}
    (h : ∀ u v, Returns x u a v ↔ p u ∧ u = v) : Returns (core x) s a t ↔ p s.toState ∧ s = t := by
  rw [returns_core]
  constructor
  · rintro ⟨u, hu, rfl⟩
    obtain ⟨hp, rfl⟩ := (h _ _).mp hu
    exact ⟨hp, rfl⟩
  · rintro ⟨hp, rfl⟩
    exact ⟨_, (h _ _).mpr ⟨hp, rfl⟩, rfl⟩

@[simp] theorem returns_core_plain :
    Returns (core (plain x) : Entry Address Tokens ℤ) s z t ↔
      (IntType.i128.Fits x ∧ x = z) ∧ s = t :=
  returns_core_of_reads (p := fun _ => IntType.i128.Fits x ∧ x = z)
    fun u v => by rw [returns_plain, and_assoc]

@[simp] theorem returns_core_requireNotPaused :
    Returns (core (requireNotPaused operation)) s r t ↔
      s.pauseState.getD 0 &&& operation = 0 ∧ s = t :=
  returns_core_of_reads (p := fun u => u.pauseState.getD 0 &&& operation = 0)
    fun u v => by simp [requireNotPaused, and_comm]

@[simp] theorem returns_core_requireAuth :
    Returns (core (requireAuth env addr)) s r t ↔ env.auth addr = true ∧ s = t :=
  returns_core_of_reads (p := fun _ => env.auth addr = true) fun u v => by simp [requireAuth]

@[simp] theorem returns_core_loadPool :
    Returns (core loadPool) s pool t ↔ s.pool = some pool ∧ s = t :=
  returns_core_of_reads (p := fun u => u.pool = some pool) fun u v => by simp [loadPool, and_comm]

@[simp] theorem returns_core_savePool :
    Returns (core (savePool pool)) s r t ↔ { s with pool := some pool } = t := by
  simp [returns_core, savePool]

variable {β : Type} {b : β}

theorem returns_core_plain_bind {f : ℤ → Entry Address Tokens β} :
    Returns (core (plain x) >>= f) s b t ↔ IntType.i128.Fits x ∧ Returns (f x) s b t := by
  rw [returns_bind_of_reads fun _ _ => returns_core_plain]
  constructor
  · rintro ⟨_, ⟨hfits, rfl⟩, h⟩
    exact ⟨hfits, h⟩
  · rintro ⟨hfits, h⟩
    exact ⟨x, ⟨hfits, rfl⟩, h⟩

theorem returns_core_requireNotPaused_bind {f : Unit → Entry Address Tokens β} :
    Returns (core (requireNotPaused operation) >>= f) s b t ↔
      s.pauseState.getD 0 &&& operation = 0 ∧ Returns (f ()) s b t := by
  rw [returns_bind_of_reads fun _ _ => returns_core_requireNotPaused]
  exact ⟨fun ⟨_, h⟩ => h, fun h => ⟨(), h⟩⟩

theorem returns_core_requireAuth_bind {f : Unit → Entry Address Tokens β} :
    Returns (core (requireAuth env addr) >>= f) s b t ↔
      env.auth addr = true ∧ Returns (f ()) s b t := by
  rw [returns_bind_of_reads fun _ _ => returns_core_requireAuth]
  exact ⟨fun ⟨_, h⟩ => h, fun h => ⟨(), h⟩⟩

theorem returns_core_loadPool_bind {f : PoolState Address → Entry Address Tokens β} :
    Returns (core loadPool >>= f) s b t ↔ ∃ pool, s.pool = some pool ∧ Returns (f pool) s b t :=
  returns_bind_of_reads fun _ _ => returns_core_loadPool

theorem returns_core_savePool_bind {f : Unit → Entry Address Tokens β} :
    Returns (core (savePool pool) >>= f) s b t ↔
      Returns (f ()) { s with pool := some pool } b t := by
  simp only [returns_bind, returns_core_savePool]
  constructor
  · rintro ⟨_, _, rfl, h⟩
    exact h
  · intro h
    exact ⟨_, _, rfl, h⟩

end Rules

end LiquidityPool
