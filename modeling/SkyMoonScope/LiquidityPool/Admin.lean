import SkyMoonScope.EmergencyGuard
import SkyMoonScope.LiquidityPool.Shares

/-!
# Administration of the pool

The administrative entry points of `contracts/liquidity_pool/src/lib.rs`: the initialisation, the
fees, and the emergency guard, which the contract exports twice, under names of its own and through
`EmergencyGuardTrait`. The admin of the pool is stored beside the admins of the guard. Errors of
the guard become errors of the pool in the first group, and stay errors of the guard in the second.

## Main definitions

* `onGuard`, `onTrait`: a function of the guard, on its entries of the storage
* `initializePool`: the initialisation
* `guardPause`, `resume`, `removeGuardAdmin`, …: the guard under the names of the pool
* `setPauseState`, `removeAdmin`, `rotateAdmin`, …: the implementation of the trait
* `reassignPrimaryAdminIf`: how the admin of the pool follows the admins of the guard
* `setFee`, `configureFeeOracle`, `syncFeeFromOracle`, `executeFeeUpdate`: the fees
-/

namespace LiquidityPool

open Soroban EmergencyGuard

variable {Address Tokens α ε : Type}

def maxFeeBps : ℤ := 100

def defaultBaseFeeBps : ℤ := 30

def maxLpFeeBps : ℤ := 100

def lowVolatilityThresholdBps : ℤ := 100

def mediumVolatilityThresholdBps : ℤ := 250

def highVolatilityThresholdBps : ℤ := 500

def lowVolatilityFeeBps : ℤ := 40

def mediumVolatilityFeeBps : ℤ := 70

def highVolatilityFeeBps : ℤ := 100

/-- Every operation `set_paused` toggles. -/
def corePauseOps : UInt32 :=
  PauseType.swap ||| PauseType.deposit ||| PauseType.withdraw ||| PauseType.burn |||
    PauseType.stake ||| PauseType.claimRewards

/-! ## The guard in the storage of the pool -/

def Storage.guard (s : Storage Address Tokens) : EmergencyGuard.State Address :=
  ⟨s.pauseState, s.admins, s.guardians, s.signatureThreshold⟩

def Storage.withGuard (s : Storage Address Tokens) (g : EmergencyGuard.State Address) :
    Storage Address Tokens :=
  { s with
    pauseState := g.pauseState
    admins := g.admins
    guardians := g.guardians
    signatureThreshold := g.signatureThreshold }

def mapGuardErr : GuardError → Error
  | .paused => .paused
  | .notInitialized => .notInitialized
  | .unauthorized | .insufficientSignatures | .adminNotFound | .invalidThreshold => .unauthorized
  | .alreadyInitialized => .alreadyInitialized
  | .tooManyGuardians | .guardianNotFound => .unauthorized

def asUnauthorized : GuardError → GuardError
  | .adminNotFound | .invalidThreshold => .unauthorized
  | other => other

abbrev TraitEntry (Address Tokens α : Type) := Contract (Storage Address Tokens) GuardError α

/-- A function of the guard, with the errors of the pool. -/
def onGuard (x : EmergencyGuard.Body Address α) : Entry Address Tokens α :=
  zoom Storage.guard Storage.withGuard mapGuardErr x

/-- A function of the guard, with errors of the guard. -/
def onTrait (err : GuardError → GuardError) (x : EmergencyGuard.Body Address α) :
    TraitEntry Address Tokens α :=
  zoom Storage.guard Storage.withGuard err x

def loadAdmin : Entry Address Tokens Address := do
  let s ← get
  orFault s.admin (.error .notInitialized)

def getAdmin : Entry Address Tokens Address := do
  let s ← get
  orFault s.admin (.trap "not initialized")

section Functions

variable [DecidableEq Address] (host : Host Address Tokens)

def initializePool (admin tokenA tokenB : Address) : Entry Address Tokens Unit := do
  let s ← get
  require s.pool.isNone (.error .alreadyInitialized)
  set { s with
    admin := some admin
    pool := some
      { tokenA, tokenB, reserveA := 0, reserveB := 0, totalShares := 0,
        feeBps := defaultBaseFeeBps, baseFeeBps := defaultBaseFeeBps, admin } }
  onGuard (initializeGuard [admin] 1 admin)

/-! ## The guard under the names of the pool -/

def guardPause (admin : Address) (operation : UInt32) (paused : Bool) : Entry Address Tokens Unit :=
  onGuard (setPause host.auth admin operation paused)

def setOperationPaused (admin : Address) (operation : UInt32) (paused : Bool) :
    Entry Address Tokens Unit :=
  onGuard (setPause host.auth admin operation paused)

/-- What the functions below share: the admin of the pool pauses or resumes operations. -/
def setPauseByAdmin (operation : UInt32) (paused : Bool) : Entry Address Tokens Unit := do
  let admin ← loadAdmin
  onGuard (setPause host.auth admin operation paused)

def setPaused (paused : Bool) : Entry Address Tokens Unit :=
  setPauseByAdmin host corePauseOps paused

def pauseSwaps : Entry Address Tokens Unit := setPauseByAdmin host PauseType.swap true

def resumeSwaps : Entry Address Tokens Unit := setPauseByAdmin host PauseType.swap false

def pauseDeposits : Entry Address Tokens Unit := setPauseByAdmin host PauseType.deposit true

def resumeDeposits : Entry Address Tokens Unit := setPauseByAdmin host PauseType.deposit false

def pauseWithdrawals : Entry Address Tokens Unit := setPauseByAdmin host PauseType.withdraw true

def resumeWithdrawals : Entry Address Tokens Unit := setPauseByAdmin host PauseType.withdraw false

def emergencyPause (approvers : List Address) : Entry Address Tokens Unit :=
  onGuard (EmergencyGuard.emergencyPause host.auth approvers)

def resume (approvers : List Address) : Entry Address Tokens Unit :=
  onGuard (EmergencyGuard.resume host.auth approvers)

def guardUnpause (approvers : List Address) : Entry Address Tokens Unit :=
  onGuard (EmergencyGuard.resume host.auth approvers)

def addGuardAdmin (approvers : List Address) (newAdmin : Address) : Entry Address Tokens Unit :=
  onGuard (EmergencyGuard.addAdmin host.auth approvers newAdmin)

def removeGuardAdmin (approvers : List Address) (admin : Address) : Entry Address Tokens Unit :=
  onGuard (EmergencyGuard.removeAdmin host.auth approvers admin)

/-! ## Fees -/

def setFee (feeBps : ℤ) : Entry Address Tokens Unit := do
  require (0 ≤ feeBps ∧ feeBps ≤ maxFeeBps) (.error .invalidFee)
  let admin ← loadAdmin
  core (requireAuth host.toEnv admin)
  let pool ← core loadPool
  core (savePool { pool with feeBps })

def setLpFeeBps (feeBps : ℤ) : Entry Address Tokens Unit := do
  require (0 ≤ feeBps ∧ feeBps ≤ maxLpFeeBps) (.error .invalidFee)
  let admin ← loadAdmin
  core (requireAuth host.toEnv admin)
  let s ← get
  set { s with lpFeeBps := some feeBps }

def configureFeeOracle (oracle : Address) (baseFeeBps timelockLedgers : ℤ) :
    Entry Address Tokens Unit := do
  require (0 ≤ baseFeeBps ∧ baseFeeBps ≤ maxFeeBps) (.error .invalidFee)
  let pool ← core loadPool
  core (requireAuth host.toEnv pool.admin)
  core (savePool { pool with baseFeeBps })
  let s ← get
  set { s with
    oracle := some { oracle, lastPrice := 0, lastVolatilityBps := 0, timelockLedgers } }

def targetFeeFromVolatility (baseFeeBps volatilityBps : ℤ) : ℤ :=
  let dynamic :=
    if volatilityBps ≥ highVolatilityThresholdBps then highVolatilityFeeBps
    else if volatilityBps ≥ mediumVolatilityThresholdBps then mediumVolatilityFeeBps
    else if volatilityBps ≥ lowVolatilityThresholdBps then lowVolatilityFeeBps
    else baseFeeBps
  if dynamic > maxFeeBps then maxFeeBps else dynamic

def saveOracle (cfg : OracleConfig Address) : Entry Address Tokens Unit := do
  let s ← get
  set { s with oracle := some cfg }

/-- The end of `sync_fee_from_oracle`: schedules the target fee where it is a new one. -/
def scheduleFeeUpdate (timelockLedgers volatilityBps : ℤ) :
    Entry Address Tokens (Option PendingFeeUpdate) := do
  let pool ← core loadPool
  let targetFee := targetFeeFromVolatility pool.baseFeeBps volatilityBps
  if targetFee = pool.feeBps then pure none
  else
    let pending : PendingFeeUpdate :=
      { newFeeBps := targetFee
        executableAfterLedger := IntType.u32.saturate (host.sequence + timelockLedgers)
        basedOnVolatilityBps := volatilityBps }
    let s ← get
    set { s with pendingFeeUpdate := some pending }
    pure (some pending)

def syncFeeFromOracle : Entry Address Tokens (Option PendingFeeUpdate) := do
  let s ← get
  let cfg ← orFault s.oracle (.error .oracleNotConfigured)
  let currentPrice ← orFault (host.latestPrice cfg.oracle) (.trap "latest_price failed")
  require (¬currentPrice ≤ 0) (.error .invalidOraclePrice)
  let previousPrice := cfg.lastPrice
  if previousPrice ≤ 0 then
    saveOracle { cfg with lastPrice := currentPrice, lastVolatilityBps := 0 }
    pure none
  else
    let priceDelta ← core (plain (if currentPrice ≥ previousPrice then currentPrice - previousPrice
      else previousPrice - currentPrice))
    let product ← core (checked (priceDelta * 10000))
    let volatilityBps ← core (divide product previousPrice)
    saveOracle { cfg with lastPrice := currentPrice, lastVolatilityBps := volatilityBps }
    scheduleFeeUpdate host cfg.timelockLedgers volatilityBps

def executeFeeUpdate : Entry Address Tokens ℤ := do
  let s ← get
  let pending ← orFault s.pendingFeeUpdate (.error .noPendingFeeUpdate)
  require (¬host.sequence < pending.executableAfterLedger) (.error .timelockNotElapsed)
  require (0 ≤ pending.newFeeBps ∧ pending.newFeeBps ≤ maxFeeBps) (.error .invalidFee)
  let pool ← core loadPool
  core (savePool { pool with feeBps := pending.newFeeBps })
  let s ← get
  set { s with pendingFeeUpdate := none }
  pure pending.newFeeBps

/-! ## The implementation of the trait -/

def checkNotPaused (operation : UInt32) : TraitEntry Address Tokens Unit :=
  onTrait id (DefaultEmergencyGuard.checkNotPaused operation)

def setPauseState (operation : UInt32) (paused : Bool) : TraitEntry Address Tokens Unit :=
  onTrait id (DefaultEmergencyGuard.setPauseState operation paused)

def unpause (admin : Address) (operation : UInt32) : TraitEntry Address Tokens Unit :=
  onTrait id (DefaultEmergencyGuard.unpause host.auth admin operation)

def unpauseAll (admin : Address) : TraitEntry Address Tokens Unit :=
  onTrait id (DefaultEmergencyGuard.unpauseAll host.auth admin)

def emergencyPauseAll (approvers : List Address) : TraitEntry Address Tokens Unit :=
  onTrait id (DefaultEmergencyGuard.emergencyPauseAll host.auth approvers)

def resumeAll (approvers : List Address) : TraitEntry Address Tokens Unit :=
  onTrait id (DefaultEmergencyGuard.resumeAll host.auth approvers)

def initGuard (admins : List Address) (threshold : ℕ) : TraitEntry Address Tokens Unit :=
  onTrait id (DefaultEmergencyGuard.initGuard admins threshold)

def addAdmin (approvers : List Address) (newAdmin : Address) : TraitEntry Address Tokens Unit :=
  onTrait id (DefaultEmergencyGuard.addAdmin host.auth approvers newAdmin)

/-- Points the admin of the pool at `replacement` where it is the departing one. -/
def reassignPrimaryAdminIf (departing : Address) (replacement : Option Address) :
    TraitEntry Address Tokens Unit :=
  match replacement with
  | none => pure ()
  | some replacement => do
    let s ← get
    if s.admin ≠ some departing then pure ()
    else
      set { s with
        admin := some replacement
        pool := s.pool.map fun pool : PoolState Address => { pool with admin := replacement } }

def removeAdmin (approvers : List Address) (admin : Address) : TraitEntry Address Tokens Unit := do
  onTrait asUnauthorized (DefaultEmergencyGuard.removeAdmin host.auth approvers admin)
  let s ← get
  reassignPrimaryAdminIf admin (getAdmins s.guard).head?

def rotateAdmin (approvers : List Address) (oldAdmin newAdmin : Address) :
    TraitEntry Address Tokens Unit := do
  onTrait asUnauthorized
    (DefaultEmergencyGuard.rotateAdmin host.auth approvers oldAdmin newAdmin)
  reassignPrimaryAdminIf oldAdmin (some newAdmin)

end Functions

/-! ## Rules -/

section Rules

variable {s t : Storage Address Tokens} {a : α}

@[simp] theorem returns_onGuard {x : EmergencyGuard.Body Address α} :
    Returns (onGuard x : Entry Address Tokens α) s a t ↔
      ∃ g, Returns x s.guard a g ∧ s.withGuard g = t :=
  returns_zoom

@[simp] theorem returns_onTrait {err : GuardError → GuardError}
    {x : EmergencyGuard.Body Address α} :
    Returns (onTrait err x : TraitEntry Address Tokens α) s a t ↔
      ∃ g, Returns x s.guard a g ∧ s.withGuard g = t :=
  returns_zoom

@[simp] theorem returns_loadAdmin {admin : Address} :
    Returns (loadAdmin : Entry Address Tokens Address) s admin t ↔
      s.admin = some admin ∧ s = t := by
  simp [loadAdmin, and_comm]

theorem returns_loadAdmin_bind {β : Type} {b : β} {f : Address → Entry Address Tokens β} :
    Returns (loadAdmin >>= f) s b t ↔ ∃ admin, s.admin = some admin ∧ Returns (f admin) s b t :=
  returns_bind_of_reads fun _ _ => returns_loadAdmin

end Rules

end LiquidityPool
