import SkyMoonScope.MultiYieldVault.Vault

/-!
# The entry points of the multi-yield vault

A withdrawal burns its shares at once; what is not paid of it is queued. A scheduled execution is a
withdrawal of reserved shares, for a recipient. The loops run over a list that is written back after
the last round, and the records are written in every round.

## Main definitions

* `deposit`, `withdraw`: shares are minted and burned
* `processWithdrawQueue`, `cancelWithdrawal`: requests are paid from the head, or written off
* `scheduleWithdrawals`, `executeScheduledWithdrawals`, `cancelWithdrawalSchedule`: the schedules
* `rebalance`: everything is redeemed and given to the pools again
* `Call`, `entryPoint`: the entry points
-/

namespace MultiYieldVault

open Soroban

variable {Address World : Type}

/-! ## Administration -/

section EntryPoints

variable [DecidableEq Address] (host : Host Address World) (env : Env Address World)

def initializeVault (admin depositToken : Address) (slippageBps volumeProxyBps : ℤ) :
    Body Address World Unit := do
  let s ← storage
  require s.vault.isNone (.error .alreadyInitialized)
  require (¬(slippageBps < 0 ∨ volumeProxyBps ≤ 0)) (.error .invalidAmount)
  saveVault
    { depositToken, admin, totalShares := 0, slippageBps, volumeProxyBps, queuedAmount := 0 }

def registerPool (pool : Address) (depositIsA : Bool) : Body Address World Unit := do
  let vault ← loadVault
  requireAuth env.auth vault.admin
  let s ← storage
  require (¬s.pools.length ≥ maxPools) (.error .tooManyPools)
  require (¬∃ alloc ∈ s.pools, alloc.pool = pool) (.error .poolAlreadyRegistered)
  savePools (s.pools ++ [{ pool, lpShares := 0, depositIsA, weight := 0 }])

/-- The sum of the new weights, none of which is more than a half. -/
def sumNewWeights : List ℕ → ℕ → Body Address World ℕ
  | [], sum => pure sum
  | w :: weights, sum => do
    require (¬w > 5000) (.error .invalidWeights)
    let sum' ← plainU32 (sum + w)
    sumNewWeights weights sum'

def setWeights (weights : List ℕ) : Body Address World Unit := do
  let vault ← loadVault
  requireAuth env.auth vault.admin
  let s ← storage
  require (¬weights.length ≠ s.pools.length) (.error .invalidWeights)
  let sum ← sumNewWeights weights 0
  require (¬sum ≠ 10000) (.error .invalidWeights)
  let pools := (s.pools.zip weights).map fun (alloc, weight) => { alloc with weight }
  validateWeightedPools host pools
  savePools pools

def setSlippage (slippageBps : ℤ) : Body Address World Unit := do
  let vault ← loadVault
  requireAuth env.auth vault.admin
  saveVault { vault with slippageBps }

/-! ## Deposits and withdrawals -/

/-- Writes the balance of an address that has minted shares. -/
def mintShares (account : Address) (shares : ℤ) : Body Address World Unit := do
  let s ← storage
  let balance ← plain (s.balance account + shares)
  save fun s => { s with
    balance := Function.update s.balance account balance
    mints := ⟨account, shares⟩ :: s.mints }

/-- Writes the balance of an owner whose shares are burned in favour of `payee`. -/
def burnShares (owner payee : Address) (cur shares : ℤ) : Body Address World Unit := do
  let balance ← plain (cur - shares)
  save fun s => { s with
    balance := Function.update s.balance owner balance
    burns := ⟨payee, shares⟩ :: s.burns }

def deposit (source : Address) (amount : ℤ) : Body Address World ℤ := do
  require (¬amount ≤ 0) (.error .invalidAmount)
  requireAuth env.auth source
  let vault ← loadVault
  let s ← storage
  require (¬s.pools.length = 0) (.error .poolNotFound)
  external (host.transfer vault.depositToken source host.currentContractAddress amount)
  let lastIdx ← checkWeights host s.pools
  let (_, pools) ← eachPool (invest host env vault.depositToken amount lastIdx) 0 s.pools amount
  savePools pools
  mintShares source amount
  let totalShares ← plain (vault.totalShares + amount)
  saveVault { vault with totalShares }
  pure amount

/-- What is not paid of a withdrawal is queued. -/
def enqueueRemainder (owner : Address) (remainder : ℤ) : Body Address World Unit := do
  if remainder > 0 then
    let _ ← enqueueRequest owner remainder
    pure ()
  else
    pure ()

def withdraw (destination : Address) (shares : ℤ) : Body Address World ℤ := do
  require (¬shares ≤ 0) (.error .invalidAmount)
  requireAuth env.auth destination
  let vault ← loadVault
  let s ← storage
  let cur := s.balance destination
  let spendable ← plain (cur - s.escrowed destination)
  require (¬shares > spendable) (.error .insufficientShares)
  let _ ← availableLiquidity host vault.depositToken
  let (totalReceived, pools) ← eachPool (redeem host false shares vault.totalShares) 0 s.pools 0
  savePools pools
  let payout ← payOut host vault.depositToken destination (min totalReceived shares)
  let remainder ← plain (shares - payout)
  burnShares destination destination cur shares
  let totalShares ← plain (vault.totalShares - shares)
  saveVault { vault with totalShares }
  enqueueRemainder destination remainder
  pure payout

/-! ## The withdrawal queue -/

variable (fallbacks : Fallbacks Address World)

/-- What a look at the head of the queue has found and done. -/
inductive Visit
  | gone
  | dry
  | partly (payout : ℤ)
  | settled (payout : ℤ)

/-- Pays a request of the queue as far as the idle deposit token allows. -/
def fillRequest (depositToken : Address) (id : ℕ) : Body Address World Visit := do
  let req ← loadRequest id
  if req.closed ∨ req.remainingShares ≤ 0 then pure .gone
  else
    let available ← availableLiquidity host depositToken
    if available ≤ 0 then pure .dry
    else
      let payout ← payOut host depositToken req.owner (min req.remainingShares available)
      if payout ≤ 0 then pure .dry
      else
        let remainingShares ← plain (req.remainingShares - payout)
        let filledAmount ← plain (req.filledAmount + payout)
        reduceQueued fallbacks payout
        if remainingShares = 0 then
          saveRequest id { req with remainingShares, filledAmount, closed := true }
          pure (.settled payout)
        else
          saveRequest id { req with remainingShares, filledAmount }
          pure (.partly payout)

/-- The pass over the queue. Only its head is paid; one that is not settled ends the pass. -/
def processLoop (depositToken : Address) (budget : ℕ) :
    List ℕ → ℕ → QueueFillResult → Body Address World (List ℕ × QueueFillResult)
  | [], _, result => pure ([], result)
  | id :: queue, visited, result => do
    if visited < budget then
      let visit ← fillRequest host fallbacks depositToken id
      match visit with
      | .gone => processLoop depositToken budget queue visited result
      | .dry => pure (id :: queue, result)
      | .partly payout => do
        let paidOut ← plain (result.paidOut + payout)
        pure (id :: queue, { result with processed := result.processed + 1, paidOut })
      | .settled payout => do
        let paidOut ← plain (result.paidOut + payout)
        processLoop depositToken budget queue (visited + 1)
          { result with
            processed := result.processed + 1, completed := result.completed + 1, paidOut }
    else
      pure (id :: queue, result)

def processWithdrawQueue (maxEntries : ℕ) : Body Address World QueueFillResult := do
  let vault ← loadVault
  let budget := if maxEntries = 0 then maxQueueEntries else min maxEntries maxQueueEntries
  let s ← storage
  let result : QueueFillResult :=
    { processed := 0, completed := 0, paidOut := 0, remainingInQueue := s.queue.length }
  if s.queue.length = 0 then pure result
  else
    let (queue, result') ←
      processLoop host fallbacks vault.depositToken budget s.queue 0 result
    saveQueue queue
    pure { result' with remainingInQueue := queue.length }

def cancelWithdrawal (owner : Address) (id : ℕ) : Body Address World Unit := do
  requireAuth env.auth owner
  let req ← loadRequest id
  require (¬req.owner ≠ owner) (.error .unauthorized)
  require (¬(req.closed ∨ req.remainingShares ≤ 0)) (.error .withdrawalClosed)
  let writtenOff := req.remainingShares
  reduceQueued fallbacks writtenOff
  saveRequest id { req with remainingShares := 0, closed := true }
  let s ← storage
  saveQueue (s.queue.erase id)
  save fun s => { s with writeOffs := ⟨owner, writtenOff⟩ :: s.writeOffs }

/-! ## Withdrawal schedules -/

/-- Changes what `owner` has reserved by `delta`. -/
def adjustEscrowed (owner : Address) (delta : ℤ) : Body Address World Unit := do
  let s ← storage
  let sum ← plain (s.escrowed owner + delta)
  let next ← maxZero fallbacks.clampEscrowed sum
  save fun s => { s with escrowed := Function.update s.escrowed owner next }

/-- The last ledger of a schedule; one that fires once has no other than the first. -/
def effectiveEndLedger (frequency : ScheduleFrequency) (firstExecutionLedger endLedger : ℕ) : ℕ :=
  match frequency with
  | .oneTime => firstExecutionLedger
  | .recurring => endLedger

def scheduleWithdrawals (owner recipient : Address) (amountPerExecution : ℤ)
    (frequency : ScheduleFrequency) (firstExecutionLedger intervalLedgers endLedger : ℕ) :
    Body Address World ℕ := do
  requireAuth env.auth owner
  let _ ← loadVault
  require (¬firstExecutionLedger ≤ env.sequence) (.error .invalidSchedule)
  let (total, escrow) ←
    planExecutions amountPerExecution frequency firstExecutionLedger intervalLedgers endLedger
  let s ← storage
  let spendable ← plain (s.balance owner - s.escrowed owner)
  require (¬escrow > spendable) (.error .insufficientShares)
  require (¬s.schedules.length ≥ maxSchedules) (.error .tooManySchedules)
  let id := s.nextScheduleId
  let nextScheduleId ← plainU32 (id + 1)
  save fun s => { s with nextScheduleId }
  saveSchedule id
    { id, owner, recipient, amountPerExecution, frequency, intervalLedgers,
      nextExecutionLedger := firstExecutionLedger,
      endLedger := effectiveEndLedger frequency firstExecutionLedger endLedger,
      totalExecutions := total, executions := 0, closed := false }
  saveSchedules (s.schedules ++ [id])
  adjustEscrowed fallbacks owner escrow
  pure id

/-- What a look at a schedule has found and done. -/
inductive Inspection
  | ended
  | waiting
  | fired (payout : ℤ) (finished : Bool)

/-- A schedule after one more execution. -/
def WithdrawalSchedule.advance (schedule : WithdrawalSchedule Address) :
    WithdrawalSchedule Address :=
  let executions := schedule.executions + 1
  if executions ≥ schedule.totalExecutions then { schedule with executions, closed := true }
  else
    { schedule with
      executions
      nextExecutionLedger :=
        min (schedule.nextExecutionLedger + schedule.intervalLedgers) (2 ^ 32 - 1) }

/-- One execution of a due schedule: its shares are redeemed and burned, and the recipient is paid
or queued. -/
def fire (depositToken : Address) (id : ℕ) (schedule : WithdrawalSchedule Address)
    (vault : VaultState Address) (ownerBalance : ℤ) : Body Address World Inspection := do
  let amount := schedule.amountPerExecution
  let s ← storage
  let (totalReceived, pools) ← eachPool (redeem host true amount vault.totalShares) 0 s.pools 0
  savePools pools
  adjustEscrowed fallbacks schedule.owner (-amount)
  burnShares schedule.owner schedule.recipient ownerBalance amount
  let totalShares ← plain (vault.totalShares - amount)
  saveVault { vault with totalShares }
  let payout ← payOut host depositToken schedule.recipient (min totalReceived amount)
  let remainder ← plain (amount - payout)
  enqueueRemainder schedule.recipient remainder
  saveSchedule id schedule.advance
  pure (.fired payout schedule.advance.closed)

def inspect (depositToken : Address) (id : ℕ) : Body Address World Inspection := do
  let schedule ← loadSchedule id
  if schedule.closed ∨ schedule.executions ≥ schedule.totalExecutions then
    saveSchedule id { schedule with closed := true }
    pure .ended
  else if env.sequence < schedule.nextExecutionLedger ∨ env.sequence > schedule.endLedger then
    pure .waiting
  else
    let vault ← loadVault
    let s ← storage
    let ownerBalance := s.balance schedule.owner
    if ownerBalance < schedule.amountPerExecution then
      fallbacks.skip
      pure .waiting
    else
      fire host fallbacks depositToken id schedule vault ownerBalance

/-- The pass over the schedules: those before the next one that stay, and those from it on. -/
def executeLoop (depositToken : Address) (budget : ℕ) :
    List ℕ → List ℕ → ScheduleExecutionResult →
      Body Address World (List ℕ × ScheduleExecutionResult)
  | kept, [], result => pure (kept, result)
  | kept, id :: schedules, result => do
    if result.considered < budget then
      let seen := { result with considered := result.considered + 1 }
      let inspection ← inspect host env fallbacks depositToken id
      match inspection with
      | .ended => executeLoop depositToken budget kept schedules seen
      | .waiting => executeLoop depositToken budget (kept ++ [id]) schedules seen
      | .fired payout finished => do
        let paidOut ← plain (seen.paidOut + payout)
        executeLoop depositToken budget (if finished then kept else kept ++ [id]) schedules
          { seen with executed := seen.executed + 1, paidOut }
    else
      pure (kept ++ id :: schedules, result)

def executeScheduledWithdrawals (maxCount : ℕ) : Body Address World ScheduleExecutionResult := do
  let vault ← loadVault
  let budget := if maxCount = 0 then maxSchedules else min maxCount maxSchedules
  let s ← storage
  let result : ScheduleExecutionResult :=
    { considered := 0, executed := 0, paidOut := 0, remaining := s.schedules.length }
  if s.schedules.length = 0 then pure result
  else
    let (schedules, result') ←
      executeLoop host env fallbacks vault.depositToken budget [] s.schedules result
    saveSchedules schedules
    pure { result' with remaining := schedules.length }

def cancelWithdrawalSchedule (owner : Address) (id : ℕ) : Body Address World Unit := do
  requireAuth env.auth owner
  let schedule ← loadSchedule id
  require (¬schedule.owner ≠ owner) (.error .unauthorized)
  require (¬(schedule.closed ∨ schedule.executions ≥ schedule.totalExecutions))
    (.error .scheduleClosed)
  let remainingExecutions := schedule.totalExecutions - schedule.executions
  let released ← orFault
    (IntType.i128.checked (schedule.amountPerExecution * remainingExecutions))
    (.error .invalidAmount)
  saveSchedule id { schedule with closed := true }
  let s ← storage
  saveSchedules (s.schedules.erase id)
  adjustEscrowed fallbacks owner (-released)

/-! ## Rebalancing and views -/

def rebalance : Body Address World Unit := do
  let vault ← loadVault
  let s ← storage
  if s.pools.length ≤ 1 then pure ()
  else
    let lastIdx ← checkWeights host s.pools
    let (totalToMove, emptied) ← eachPool (divest host vault.slippageBps) 0 s.pools 0
    if totalToMove > 0 then
      let (_, pools) ←
        eachPool (invest host env vault.depositToken totalToMove lastIdx) 0 emptied totalToMove
      savePools pools
    else
      savePools emptied

def getAprs (volumeProxyBps : ℤ) : List (PoolAllocation Address) → Body Address World (List ℤ)
  | [] => pure []
  | alloc :: pools => do
    let fee ← external (host.getFee alloc.pool)
    let apr ← estimateAprBps fee volumeProxyBps
    let aprs ← getAprs volumeProxyBps pools
    pure (apr :: aprs)

/-- The schedules that are due at a ledger. -/
def dueSchedules (s : State Address) (ledger : ℕ) : List ℕ :=
  s.schedules.filter fun id =>
    match s.schedule id with
    | none => false
    | some schedule =>
      !schedule.closed && decide (schedule.executions < schedule.totalExecutions)
        && decide (ledger ≥ schedule.nextExecutionLedger) && decide (ledger ≤ schedule.endLedger)

end EntryPoints

/-! ## Calls -/

/-- A call of an entry point. -/
inductive Call (Address : Type)
  | initializeVault (admin depositToken : Address) (slippageBps volumeProxyBps : ℤ)
  | registerPool (pool : Address) (depositIsA : Bool)
  | setWeights (weights : List ℕ)
  | setSlippage (slippageBps : ℤ)
  | deposit (source : Address) (amount : ℤ)
  | withdraw (destination : Address) (shares : ℤ)
  | processWithdrawQueue (maxEntries : ℕ)
  | cancelWithdrawal (owner : Address) (id : ℕ)
  | scheduleWithdrawals (owner recipient : Address) (amountPerExecution : ℤ)
      (frequency : ScheduleFrequency) (firstExecutionLedger intervalLedgers endLedger : ℕ)
  | executeScheduledWithdrawals (maxCount : ℕ)
  | cancelWithdrawalSchedule (owner : Address) (id : ℕ)
  | rebalance
  | getVault
  | getPools
  | vaultBalance (user : Address)
  | getQueue
  | queueLen
  | getWithdrawalRequest (id : ℕ)
  | availableLiquidity
  | getAprs
  | getWithdrawalSchedule (id : ℕ)
  | getWithdrawalSchedules
  | scheduleCount
  | escrowedShares (user : Address)
  | dueSchedules (ledger : ℕ)

/-- What a call returns. -/
inductive Response (Address : Type)
  | unit
  | amount (x : ℤ)
  | number (n : ℕ)
  | ids (ids : List ℕ)
  | vault (vault : VaultState Address)
  | pools (pools : List (PoolAllocation Address))
  | aprs (aprs : List ℤ)
  | request (req : Option (WithdrawalRequest Address))
  | schedule (schedule : Option (WithdrawalSchedule Address))
  | filled (result : QueueFillResult)
  | executed (result : ScheduleExecutionResult)

/-- The body of the called entry point. -/
def Call.body [DecidableEq Address] (host : Host Address World)
    (fallbacks : Fallbacks Address World) (env : Env Address World) :
    Call Address → Body Address World (Response Address)
  | .initializeVault admin depositToken slippageBps volumeProxyBps => do
    MultiYieldVault.initializeVault admin depositToken slippageBps volumeProxyBps
    pure .unit
  | .registerPool pool depositIsA => do
    MultiYieldVault.registerPool env pool depositIsA
    pure .unit
  | .setWeights weights => do
    MultiYieldVault.setWeights host env weights
    pure .unit
  | .setSlippage slippageBps => do
    MultiYieldVault.setSlippage env slippageBps
    pure .unit
  | .deposit source amount => .amount <$> MultiYieldVault.deposit host env source amount
  | .withdraw destination shares =>
    .amount <$> MultiYieldVault.withdraw host env destination shares
  | .processWithdrawQueue maxEntries =>
    .filled <$> MultiYieldVault.processWithdrawQueue host fallbacks maxEntries
  | .cancelWithdrawal owner id => do
    MultiYieldVault.cancelWithdrawal env fallbacks owner id
    pure .unit
  | .scheduleWithdrawals owner recipient amountPerExecution frequency first interval last =>
    .number <$> MultiYieldVault.scheduleWithdrawals env fallbacks owner recipient
      amountPerExecution frequency first interval last
  | .executeScheduledWithdrawals maxCount =>
    .executed <$> MultiYieldVault.executeScheduledWithdrawals host env fallbacks maxCount
  | .cancelWithdrawalSchedule owner id => do
    MultiYieldVault.cancelWithdrawalSchedule env fallbacks owner id
    pure .unit
  | .rebalance => do
    MultiYieldVault.rebalance host env
    pure .unit
  | .getVault => .vault <$> loadVault
  | .getPools => do
    let s ← storage
    pure (.pools s.pools)
  | .vaultBalance user => do
    let s ← storage
    pure (.amount (s.balance user))
  | .getQueue => do
    let s ← storage
    pure (.ids s.queue)
  | .queueLen => do
    let s ← storage
    pure (.number s.queue.length)
  | .getWithdrawalRequest id => do
    let s ← storage
    pure (.request (s.withdrawal id))
  | .availableLiquidity => do
    let vault ← loadVault
    .amount <$> MultiYieldVault.availableLiquidity host vault.depositToken
  | .getAprs => do
    let vault ← loadVault
    let s ← storage
    .aprs <$> MultiYieldVault.getAprs host vault.volumeProxyBps s.pools
  | .getWithdrawalSchedule id => do
    let s ← storage
    pure (.schedule (s.schedule id))
  | .getWithdrawalSchedules => do
    let s ← storage
    pure (.ids s.schedules)
  | .scheduleCount => do
    let s ← storage
    pure (.number s.schedules.length)
  | .escrowedShares user => do
    let s ← storage
    pure (.amount (s.escrowed user))
  | .dueSchedules ledger => do
    let s ← storage
    pure (.ids (MultiYieldVault.dueSchedules s ledger))

/-- The called entry point, which finds the other contracts as the environment has them. -/
def entryPoint [DecidableEq Address] (host : Host Address World)
    (fallbacks : Fallbacks Address World) (env : Env Address World) (call : Call Address) :
    Contract (State Address) Error (Response Address) :=
  zoom (fun s => { storage := s, world := env.world }) (fun _ c => c.storage) id
    (call.body host fallbacks env)

end MultiYieldVault
