import SkyMoonScope.Lib.Integers
import SkyMoonScope.Lib.Register
import SkyMoonScope.Soroban.Calls

/-!
# The multi-yield vault

The contract of `contracts/multi_yield_vault/src/lib.rs`. Shares are minted for deposits and burned
for withdrawals, one for one. What a withdrawal is not paid at once waits in a queue of requests,
and a schedule reserves shares for withdrawals at later ledgers. The deposit token and the pools are
other contracts, which may answer anything, refuse, and change between two calls of the vault. None
of them can call the vault while the vault calls it. A plain operator traps when its value leaves
the range of its type. Events and the lifetimes of storage entries are left out.

## Main definitions

* `State`: the storage, with a record of what was minted, burned, paid and written off
* `Host`, `Env`: the other contracts, and what a call is given
* `Fallbacks`: what is done where the source defends itself against a state that should not be
* `enqueueRequest`, `reduceQueued`, `payOut`: the queue and the payments
* `invest`, `redeem`, `divest`: what the vault does with one pool
-/

namespace MultiYieldVault

open Soroban

inductive Error
  | alreadyInitialized
  | notInitialized
  | invalidAmount
  | tooManyPools
  | poolAlreadyRegistered
  | poolNotFound
  | slippageExceeded
  | insufficientShares
  | unauthorized
  | invalidWeights
  | queueFull
  | withdrawalNotFound
  | withdrawalClosed
  | invalidSchedule
  | scheduleNotFound
  | scheduleClosed
  | tooManySchedules
deriving DecidableEq

structure VaultState (Address : Type) where
  depositToken : Address
  admin : Address
  totalShares : ℤ
  slippageBps : ℤ
  volumeProxyBps : ℤ
  queuedAmount : ℤ

structure PoolAllocation (Address : Type) where
  pool : Address
  lpShares : ℤ
  depositIsA : Bool
  weight : ℕ

inductive ScheduleFrequency
  | oneTime
  | recurring
deriving DecidableEq

structure WithdrawalSchedule (Address : Type) where
  id : ℕ
  owner : Address
  recipient : Address
  amountPerExecution : ℤ
  frequency : ScheduleFrequency
  intervalLedgers : ℕ
  nextExecutionLedger : ℕ
  endLedger : ℕ
  totalExecutions : ℕ
  executions : ℕ
  closed : Bool

structure ScheduleExecutionResult where
  considered : ℕ
  executed : ℕ
  paidOut : ℤ
  remaining : ℕ

structure WithdrawalRequest (Address : Type) where
  owner : Address
  requestedShares : ℤ
  remainingShares : ℤ
  filledAmount : ℤ
  closed : Bool

structure QueueFillResult where
  processed : ℕ
  completed : ℕ
  paidOut : ℤ
  remainingInQueue : ℕ

def maxPools : ℕ := 8

def maxQueueEntries : ℕ := 128

def maxSchedules : ℕ := 64

def maxScheduleExecutions : ℕ := 1000

/-- An amount that was booked for an address. -/
structure Booking (Address : Type) where
  account : Address
  amount : ℤ

/-- The storage, with a field for every kind of `DataKey`. A field that is read with a default has
this value where its entry is absent. Of what the contract does there is a record: the shares minted
for an address, the shares burned in favour of one, the payments to one, and what one has written
off. -/
structure State (Address : Type) where
  vault : Option (VaultState Address)
  pools : List (PoolAllocation Address)
  balance : Address → ℤ
  queue : List ℕ
  nextQueueId : ℕ
  withdrawal : ℕ → Option (WithdrawalRequest Address)
  schedules : List ℕ
  nextScheduleId : ℕ
  schedule : ℕ → Option (WithdrawalSchedule Address)
  escrowed : Address → ℤ
  mints : List (Booking Address)
  burns : List (Booking Address)
  payments : List (Booking Address)
  writeOffs : List (Booking Address)

/-- The storage before the first call. -/
def State.initial {Address : Type} : State Address where
  vault := none
  pools := []
  balance := fun _ => 0
  queue := []
  nextQueueId := 0
  withdrawal := fun _ => none
  schedules := []
  nextScheduleId := 0
  schedule := fun _ => none
  escrowed := fun _ => 0
  mints := []
  burns := []
  payments := []
  writeOffs := []

/-- The storage during a call, and all that the other contracts hold. -/
structure Session (Address World : Type) where
  storage : State Address
  world : World

/-- The contract's own address, and the functions of the token contracts and of the pools. The first
address is the contract that is called. A call that traps has no result. -/
structure Host (Address World : Type) where
  currentContractAddress : Address
  balance : Address → Address → World → Option (ℤ × World)
  transfer : Address → Address → Address → ℤ → World → Option (Unit × World)
  approve : Address → Address → Address → ℤ → ℕ → World → Option (Unit × World)
  poolDeposit : Address → Address → ℤ → ℤ → World → Option (ℤ × World)
  poolWithdraw : Address → Address → ℤ → World → Option ((ℤ × ℤ) × World)
  getReserveA : Address → World → Option (ℤ × World)
  getReserveB : Address → World → Option (ℤ × World)
  getFee : Address → World → Option (ℤ × World)

/-- What a call is given: the ledger, who authorized it, and the other contracts as it finds
them. -/
structure Env (Address World : Type) where
  sequence : ℕ
  auth : Address → Bool
  world : World

variable {Address World : Type}

abbrev Body (Address World α : Type) := Contract (Session Address World) Error α

/-- What is done where the source defends itself against a state that should not be: where a due
schedule is not covered by the balance of its owner, and where the queued total or a reservation
would become negative. -/
structure Fallbacks (Address World : Type) where
  skip : Body Address World Unit
  clampQueued : Body Address World ℤ
  clampEscrowed : Body Address World ℤ

/-- The source passes over such a schedule, and puts zero in the place of such a value. -/
def Fallbacks.source : Fallbacks Address World where
  skip := pure ()
  clampQueued := pure 0
  clampEscrowed := pure 0

/-! ## Helpers -/

/-- A plain operator on `i128` values, which traps on overflow. -/
def plain (x : ℤ) : Body Address World ℤ :=
  orFault (IntType.i128.checked x) (.trap "arithmetic operation with overflow")

/-- A plain operator on `u32` values, which traps on overflow. -/
def plainU32 (x : ℕ) : Body Address World ℕ := do
  require (x < 2 ^ 32) (.trap "arithmetic operation with overflow")
  pure x

/-- Division of `i128` values, which traps on a zero divisor. -/
def divide (x y : ℤ) : Body Address World ℤ :=
  orFault (IntType.i128.checkedDiv x y) (.trap "attempt to divide by zero")

/-- `x.max(0)`, where `fallback` gives the zero. -/
def maxZero (fallback : Body Address World ℤ) (x : ℤ) : Body Address World ℤ :=
  if x < 0 then fallback else pure x

/-- A call of another contract; where it traps, the vault traps. -/
def external {α : Type} (f : World → Option (α × World)) : Body Address World α := do
  let c ← get
  let (a, world) ← orFault (f c.world) (.trap "Error(Contract)")
  set { c with world }
  pure a

/-- The storage of the vault. -/
def storage : Body Address World (State Address) := do
  let c ← get
  pure c.storage

/-- Writes entries of the storage. -/
def save (f : State Address → State Address) : Body Address World Unit := do
  let c ← get
  set { c with storage := f c.storage }

def requireAuth (auth : Address → Bool) (addr : Address) : Body Address World Unit :=
  require (auth addr) (.trap "Error(Auth, InvalidAction)")

def loadVault : Body Address World (VaultState Address) := do
  let s ← storage
  orFault s.vault (.error .notInitialized)

def saveVault (vault : VaultState Address) : Body Address World Unit :=
  save fun s => { s with vault := some vault }

def savePools (pools : List (PoolAllocation Address)) : Body Address World Unit :=
  save fun s => { s with pools }

def saveQueue (queue : List ℕ) : Body Address World Unit :=
  save fun s => { s with queue }

def loadRequest (id : ℕ) : Body Address World (WithdrawalRequest Address) := do
  let s ← storage
  orFault (s.withdrawal id) (.error .withdrawalNotFound)

def saveRequest (id : ℕ) (req : WithdrawalRequest Address) : Body Address World Unit :=
  save fun s => { s with withdrawal := Function.update s.withdrawal id (some req) }

def saveSchedules (schedules : List ℕ) : Body Address World Unit :=
  save fun s => { s with schedules }

def loadSchedule (id : ℕ) : Body Address World (WithdrawalSchedule Address) := do
  let s ← storage
  orFault (s.schedule id) (.error .scheduleNotFound)

def saveSchedule (id : ℕ) (schedule : WithdrawalSchedule Address) : Body Address World Unit :=
  save fun s => { s with schedule := Function.update s.schedule id (some schedule) }

/-- The deposit token that is idle in the vault. -/
def availableLiquidity (host : Host Address World) (depositToken : Address) :
    Body Address World ℤ :=
  external (host.balance depositToken host.currentContractAddress)

/-- The vault with more queued, where there is one. -/
def addQueued (requested : ℤ) : Body Address World Unit := do
  let s ← storage
  match s.vault with
  | none => pure ()
  | some vault => do
    let queuedAmount ← plain (vault.queuedAmount + requested)
    saveVault { vault with queuedAmount }

/-- A new open request at the end of the queue. -/
def enqueueRequest (owner : Address) (requested : ℤ) : Body Address World ℕ := do
  let s ← storage
  require (¬s.queue.length ≥ maxQueueEntries) (.error .queueFull)
  let id := s.nextQueueId
  let nextQueueId ← plainU32 (id + 1)
  save fun s => { s with nextQueueId }
  saveRequest id
    { owner, requestedShares := requested, remainingShares := requested, filledAmount := 0,
      closed := false }
  saveQueue (s.queue ++ [id])
  addQueued requested
  pure id

/-- The vault with less queued, where there is one. -/
def reduceQueued (fallbacks : Fallbacks Address World) (amount : ℤ) :
    Body Address World Unit := do
  if amount ≤ 0 then pure ()
  else
    let s ← storage
    match s.vault with
    | none => pure ()
    | some vault => do
      let rest ← plain (vault.queuedAmount - amount)
      let queuedAmount ← maxZero fallbacks.clampQueued rest
      saveVault { vault with queuedAmount }

/-- Number of executions implied by the timing parameters, and the shares they take. -/
def totalExecutions (frequency : ScheduleFrequency)
    (firstExecutionLedger intervalLedgers endLedger : ℕ) : Body Address World ℕ := do
  match frequency with
  | .oneTime => pure 1
  | .recurring => do
    require (¬intervalLedgers = 0) (.error .invalidSchedule)
    require (¬endLedger < firstExecutionLedger) (.error .invalidSchedule)
    plainU32 ((endLedger - firstExecutionLedger) / intervalLedgers + 1)

def planExecutions (amountPerExecution : ℤ) (frequency : ScheduleFrequency)
    (firstExecutionLedger intervalLedgers endLedger : ℕ) : Body Address World (ℕ × ℤ) := do
  require (¬amountPerExecution ≤ 0) (.error .invalidAmount)
  let total ← totalExecutions frequency firstExecutionLedger intervalLedgers endLedger
  require (¬(total = 0 ∨ total > maxScheduleExecutions)) (.error .invalidSchedule)
  let escrow ← orFault (IntType.i128.checked (amountPerExecution * total)) (.error .invalidAmount)
  pure (total, escrow)

/-- Pays up to `amount` from the idle deposit token, and records the payment. -/
def payOut (host : Host Address World) (depositToken owner : Address) (amount : ℤ) :
    Body Address World ℤ := do
  if amount ≤ 0 then pure 0
  else
    let available ← availableLiquidity host depositToken
    let payout := min amount available
    if payout > 0 then
      external (host.transfer depositToken host.currentContractAddress owner payout)
      save fun s => { s with payments := ⟨owner, payout⟩ :: s.payments }
      pure payout
    else
      pure payout

def estimateAprBps (feeBps volumeProxyBps : ℤ) : Body Address World ℤ := do
  let product ← plain (feeBps * volumeProxyBps)
  pure (product.tdiv 10000)

/-- Every pool with a weight charges a fee. -/
def validateWeightedPools (host : Host Address World) :
    List (PoolAllocation Address) → Body Address World Unit
  | [] => pure ()
  | alloc :: pools => do
    if alloc.weight = 0 then validateWeightedPools host pools
    else
      let fee ← external (host.getFee alloc.pool)
      require (¬fee ≤ 0) (.error .invalidWeights)
      validateWeightedPools host pools

/-- Visits the pools in order, with an amount that is handed on from one to the next. -/
def eachPool
    (visit : ℕ → PoolAllocation Address → ℤ → Body Address World (ℤ × PoolAllocation Address)) :
    ℕ → List (PoolAllocation Address) → ℤ →
      Body Address World (ℤ × List (PoolAllocation Address))
  | _, [], x => pure (x, [])
  | i, alloc :: pools, x => do
    let (y, alloc') ← visit i alloc x
    let (z, pools') ← eachPool visit (i + 1) pools y
    pure (z, alloc' :: pools')

def sumWeights : List ℕ → ℕ → Body Address World ℕ
  | [], sum => pure sum
  | w :: weights, sum => do
    let sum' ← plainU32 (sum + w)
    sumWeights weights sum'

/-- The index of the last pool that has a weight. -/
def lastNonZeroIdx (pools : List (PoolAllocation Address)) : Option ℕ :=
  ((pools.zipIdx.filter fun p => p.1.weight > 0).getLast?).map Prod.snd

/-- The checks of the weights before tokens are given to the pools: they add up to all of it. -/
def checkWeights (host : Host Address World) (pools : List (PoolAllocation Address)) :
    Body Address World ℕ := do
  let sum ← sumWeights (pools.map PoolAllocation.weight) 0
  require (sum = 10000) (.error .invalidWeights)
  let lastIdx ← orFault (lastNonZeroIdx pools) (.error .invalidWeights)
  validateWeightedPools host pools
  pure lastIdx

/-- What a pool is given of an amount: its part by weight, or all that remains for the last. -/
def poolAmount (amount : ℤ) (lastIdx i weight : ℕ) (remaining : ℤ) : Body Address World ℤ := do
  if i = lastIdx then pure remaining
  else
    let product ← plain (amount * weight)
    pure (product.tdiv 10000)

/-- Gives a pool its part of an amount, of which `remaining` is left. -/
def invest (host : Host Address World) (env : Env Address World) (depositToken : Address)
    (amount : ℤ) (lastIdx i : ℕ) (alloc : PoolAllocation Address) (remaining : ℤ) :
    Body Address World (ℤ × PoolAllocation Address) := do
  if alloc.weight = 0 then pure (remaining, alloc)
  else
    let part ← poolAmount amount lastIdx i alloc.weight remaining
    if part ≤ 0 then pure (remaining, alloc)
    else
      let rest ← plain (remaining - part)
      let expiration ← plainU32 (env.sequence + 1)
      external (host.approve depositToken host.currentContractAddress alloc.pool part expiration)
      let newLp ← external (host.poolDeposit alloc.pool host.currentContractAddress
        (if alloc.depositIsA then part else 0) (if alloc.depositIsA then 0 else part))
      let lpShares ← plain (alloc.lpShares + newLp)
      pure (rest, { alloc with lpShares })

/-- Redeems from a pool the part of its shares that `shares` are of all shares. The scheduled
executions look at the total first (`checksTotal`), where a withdrawal traps when it is zero. -/
def redeem (host : Host Address World) (checksTotal : Bool) (shares totalShares : ℤ) (_ : ℕ)
    (alloc : PoolAllocation Address) (totalReceived : ℤ) :
    Body Address World (ℤ × PoolAllocation Address) := do
  if alloc.lpShares = 0 ∨ checksTotal ∧ totalShares = 0 then pure (totalReceived, alloc)
  else
    let product ← plain (alloc.lpShares * shares)
    let lpToBurn ← divide product totalShares
    if lpToBurn = 0 then pure (totalReceived, alloc)
    else
      let (outA, outB) ←
        external (host.poolWithdraw alloc.pool host.currentContractAddress lpToBurn)
      let received ← plain (totalReceived + if alloc.depositIsA then outA else outB)
      let lpShares ← plain (alloc.lpShares - lpToBurn)
      pure (received, { alloc with lpShares })

/-- The reserve of the deposit token in a pool. -/
def depositReserve (host : Host Address World) (alloc : PoolAllocation Address) :
    Body Address World ℤ :=
  if alloc.depositIsA then external (host.getReserveA alloc.pool)
  else external (host.getReserveB alloc.pool)

/-- Redeems all shares of a pool, and adds what it gave to what is moved. -/
def divest (host : Host Address World) (slippageBps : ℤ) (_ : ℕ) (alloc : PoolAllocation Address)
    (totalToMove : ℤ) : Body Address World (ℤ × PoolAllocation Address) := do
  if alloc.lpShares = 0 then pure (totalToMove, alloc)
  else
    let reserve ← depositReserve host alloc
    let expected := min reserve alloc.lpShares
    let (outA, outB) ←
      external (host.poolWithdraw alloc.pool host.currentContractAddress alloc.lpShares)
    let received := if alloc.depositIsA then outA else outB
    let kept ← plain (10000 - slippageBps)
    let product ← plain (expected * kept)
    require (¬received < product.tdiv 10000) (.error .slippageExceeded)
    let moved ← plain (totalToMove + received)
    pure (moved, { alloc with lpShares := 0 })

end MultiYieldVault
