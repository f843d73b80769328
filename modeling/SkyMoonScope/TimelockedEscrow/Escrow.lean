import SkyMoonScope.Lib.Bitmap
import SkyMoonScope.Soroban.Arithmetic
import SkyMoonScope.Soroban.Calls
import SkyMoonScope.Soroban.Token

/-!
# The escrow with a time lock

The contract of `contracts/timelocked_escrow/src/`. A depositor leaves an amount with the contract.
It goes to the beneficiary once the lock has expired and three of five guardians have approved, or
back to the depositor, less a fee, when the depositor cancels. Three guardians may propose another
set of guardians, which takes their place after a delay. Events, the lifetime of the storage and the
entry points that only read are left out.

## Main definitions

* `EscrowConfig`, `PendingGuardianRotation`, `State`: the entries of the contract
* `Host`, `Env`: the token contracts, and what a call takes from its surroundings
* `deposit`, `approve`, `release`, `cancel`, …: the entry points
* `Call`, `entryPoint`: a call of the contract, and its body
-/

namespace TimelockEscrow

open Soroban Bits

inductive Error
  | alreadyInitialized
  | notInitialized
  | alreadyDeposited
  | noDeposit
  | timelockNotExpired
  | insufficientApprovals
  | notGuardian
  | alreadyApproved
  | alreadyFinalized
  | invalidGuardianCount
  | duplicateGuardian
  | cancellationFeeTooHigh
  | noPendingRotation
  | rotationTimelockNotElapsed
deriving DecidableEq

structure EscrowConfig (Address : Type) where
  depositor : Address
  beneficiary : Address
  token : Address
  amount : ℤ
  unlockLedger : ℕ
  isReleased : Bool
  isCancelled : Bool
  cancellationFeeBps : ℕ
  protocolVault : Address

structure PendingGuardianRotation (Address : Type) where
  newGuardians : List Address
  eta : ℕ

/-- A transfer of a token that the contract has made. -/
structure Transfer (Address : Type) where
  token : Address
  source : Address
  destination : Address
  amount : ℤ

/-- The entries of the contract, with a record of the transfers that it has made, the last one
first, and the storage of the token contracts. Guardians that are not stored read as none, and
approvals and the epoch as zero. No function writes the delay of a rotation. -/
structure State (Address Tokens : Type) where
  config : Option (EscrowConfig Address)
  guardians : List Address
  approvals : ℕ
  approvalEpoch : ℕ
  pendingRotation : Option (PendingGuardianRotation Address)
  rotationDelayLedgers : Option ℕ
  transfers : List (Transfer Address)
  tokens : Tokens

/-- The storage before the first call. -/
def State.initial {Address Tokens : Type} (tokens : Tokens) : State Address Tokens where
  config := none
  guardians := []
  approvals := 0
  approvalEpoch := 0
  pendingRotation := none
  rotationDelayLedgers := none
  transfers := []
  tokens := tokens

/-- The token contracts, and the address of this one. -/
structure Host (Address Tokens : Type) extends TokenInterface Address Tokens where
  currentContractAddress : Address

/-- What a call takes from its surroundings: who has authorized it, which the contract itself never
has, the sequence number of the ledger, and what became of the tokens since the call before. -/
structure Env {Address Tokens : Type} (host : Host Address Tokens) where
  auth : Address → Bool
  auth_contract : auth host.currentContractAddress = false
  sequence : ℕ
  sequence_lt : sequence < 2 ^ 32
  outside : Tokens → Tokens

def requiredGuardians : ℕ := 5

def requiredApprovals : ℕ := 3

def defaultRotationDelayLedgers : ℕ := 100

/-- `saturating_add` on `u32` values. -/
def saturatingAdd (x y : ℕ) : ℕ := min (x + y) (2 ^ 32 - 1)

variable {Address Tokens : Type}

abbrev Body (Address Tokens α : Type) := Contract (State Address Tokens) Error α

/-! ## Storage -/

def readConfig : Body Address Tokens (EscrowConfig Address) := do
  let s ← get
  orFault s.config (.error .notInitialized)

def writeConfig (config : EscrowConfig Address) : Body Address Tokens Unit := do
  let s ← get
  set { s with config := some config }

def requireActive (config : EscrowConfig Address) : Body Address Tokens Unit :=
  require (¬(config.isReleased ∨ config.isCancelled)) (.error .alreadyFinalized)

def requireFunded (config : EscrowConfig Address) : Body Address Tokens Unit :=
  require (¬config.amount = 0) (.error .noDeposit)

def readRotationDelay (s : State Address Tokens) : ℕ :=
  s.rotationDelayLedgers.getD defaultRotationDelayLedgers

/-! ## Guardians -/

/-- Sets the bit of a guardian, which is not set yet. -/
def setApproval (bitmap index : ℕ) : Body Address Tokens ℕ := do
  require (¬bitmap &&& mask index ≠ 0) (.error .alreadyApproved)
  pure (bitmap ||| mask index)

/-- The set bits of a `u32`. -/
def approvalCount (bitmap : ℕ) : ℕ := countBits 32 bitmap

def hasQuorum (bitmap : ℕ) : Prop := approvalCount bitmap ≥ requiredApprovals

instance (bitmap : ℕ) : Decidable (hasQuorum bitmap) := inferInstanceAs (Decidable (_ ≥ _))

section Guardians

variable [DecidableEq Address]

/-- The place of the first guardian with the address. -/
def guardianIndex (guardians : List Address) (addr : Address) : Body Address Tokens ℕ :=
  orFault (guardians.idxOf? addr) (.error .notGuardian)

/-- Five guardians, compared in pairs. -/
def validateGuardians (guardians : List Address) : Body Address Tokens Unit := do
  require (¬guardians.length ≠ requiredGuardians) (.error .invalidGuardianCount)
  require guardians.Nodup (.error .duplicateGuardian)

end Guardians

/-! ## Entry points -/

section Functions

variable {host : Host Address Tokens} (env : Env host)

def requireAuth (addr : Address) : Body Address Tokens Unit :=
  require (env.auth addr) (.trap "Error(Auth, InvalidAction)")

variable (host) in
/-- A transfer of a token, which is recorded, and fails where the token contract does. -/
def transfer (token source destination : Address) (amount : ℤ) : Body Address Tokens Unit := do
  let s ← get
  let tokens ← orFault (host.transfer token source destination amount s.tokens)
    (.trap "Error(Contract, #10)")
  set { s with tokens, transfers := ⟨token, source, destination, amount⟩ :: s.transfers }

def deposit (amount : ℤ) : Body Address Tokens Unit := do
  let config ← readConfig
  requireActive config
  require (¬config.amount > 0) (.error .alreadyDeposited)
  requireAuth env config.depositor
  transfer host config.token config.depositor host.currentContractAddress amount
  writeConfig { config with amount }

def release : Body Address Tokens Unit := do
  let config ← readConfig
  requireActive config
  requireFunded config
  require (¬env.sequence < config.unlockLedger) (.error .timelockNotExpired)
  let s ← get
  require (hasQuorum s.approvals) (.error .insufficientApprovals)
  transfer host config.token host.currentContractAddress config.beneficiary config.amount
  writeConfig { config with amount := 0, isReleased := true }

variable (host) in
/-- The end of both cancellations: the fee goes to the vault, the rest to the depositor. -/
def refundDepositor (config : EscrowConfig Address) : Body Address Tokens Unit := do
  let product ← plainI128 (config.amount * config.cancellationFeeBps)
  let fee ← divideI128 product 10000
  let refund ← plainI128 (config.amount - fee)
  if fee > 0 then
    transfer host config.token host.currentContractAddress config.protocolVault fee
  transfer host config.token host.currentContractAddress config.depositor refund
  writeConfig { config with amount := 0, isCancelled := true }

def cancel : Body Address Tokens Unit := do
  let config ← readConfig
  requireActive config
  requireFunded config
  requireAuth env config.depositor
  let s ← get
  require (¬(env.sequence ≥ config.unlockLedger ∧ approvalCount s.approvals > 0))
    (.error .alreadyFinalized)
  refundDepositor host config

def mutualCancel : Body Address Tokens Unit := do
  let config ← readConfig
  requireActive config
  requireFunded config
  requireAuth env config.depositor
  requireAuth env config.beneficiary
  refundDepositor host config

/-- Can be called by anyone once the delay has passed. -/
def executeGuardianRotation : Body Address Tokens Unit := do
  let config ← readConfig
  requireActive config
  let s ← get
  let proposal ← orFault s.pendingRotation (.error .noPendingRotation)
  require (¬env.sequence < proposal.eta) (.error .rotationTimelockNotElapsed)
  require (s.approvalEpoch + 1 < 2 ^ 32) (.trap "arithmetic operation with overflow")
  set { s with
    guardians := proposal.newGuardians
    pendingRotation := none
    approvals := 0
    approvalEpoch := s.approvalEpoch + 1 }

variable [DecidableEq Address]

def initializeContract (depositor beneficiary token : Address) (guardians : List Address)
    (lockLedgers cancellationFeeBps : ℕ) (protocolVault : Address) :
    Body Address Tokens Unit := do
  let s ← get
  require s.config.isNone (.error .alreadyInitialized)
  validateGuardians guardians
  require (¬cancellationFeeBps > 10000) (.error .cancellationFeeTooHigh)
  let config := {
    depositor, beneficiary, token, cancellationFeeBps, protocolVault
    amount := 0
    unlockLedger := saturatingAdd env.sequence lockLedgers
    isReleased := false
    isCancelled := false }
  set { s with config := some config, guardians, approvals := 0, approvalEpoch := 0 }

/-- A vote of a guardian, and how many there are with it. -/
def approve (guardian : Address) : Body Address Tokens ℕ := do
  let config ← readConfig
  requireActive config
  requireFunded config
  requireAuth env guardian
  let s ← get
  let idx ← guardianIndex s.guardians guardian
  let bitmap ← setApproval s.approvals idx
  set { s with approvals := bitmap }
  pure (approvalCount bitmap)

/-- The loop over the guardians that approve a rotation: each has authorized the call and is one of
the current guardians, with a bit that was not set before. -/
def collectApprovers (guardians : List Address) : List Address → ℕ → Body Address Tokens Unit
  | [], _ => pure ()
  | g :: approvingGuardians, bitmap => do
    requireAuth env g
    let idx ← guardianIndex guardians g
    require (¬bitmap &&& mask idx ≠ 0) (.error .duplicateGuardian)
    collectApprovers guardians approvingGuardians (bitmap ||| mask idx)

def proposeGuardianRotation (newGuardians approvingGuardians : List Address) :
    Body Address Tokens ℕ := do
  let config ← readConfig
  requireActive config
  validateGuardians newGuardians
  require (¬approvingGuardians.length ≠ requiredApprovals) (.error .insufficientApprovals)
  let s ← get
  collectApprovers env s.guardians approvingGuardians 0
  let eta := saturatingAdd env.sequence (readRotationDelay s)
  set { s with pendingRotation := some { newGuardians, eta } }
  pure eta

def cancelGuardianRotation (caller : Address) : Body Address Tokens Unit := do
  let config ← readConfig
  requireActive config
  requireAuth env caller
  let s ← get
  let _ ← guardianIndex s.guardians caller
  require s.pendingRotation.isSome (.error .noPendingRotation)
  set { s with pendingRotation := none }

/-- The former name of a proposal. -/
def rotateGuardians (newGuardians approvingGuardians : List Address) : Body Address Tokens ℕ :=
  proposeGuardianRotation env newGuardians approvingGuardians

end Functions

/-! ## Calls -/

inductive Call (Address : Type)
  | initializeContract (depositor beneficiary token : Address) (guardians : List Address)
      (lockLedgers cancellationFeeBps : ℕ) (protocolVault : Address)
  | deposit (amount : ℤ)
  | approve (guardian : Address)
  | release
  | cancel
  | mutualCancel
  | proposeGuardianRotation (newGuardians approvingGuardians : List Address)
  | executeGuardianRotation
  | cancelGuardianRotation (caller : Address)
  | rotateGuardians (newGuardians approvingGuardians : List Address)

/-- What a call returns. -/
inductive Response
  | unit
  | count (n : ℕ)

section Dispatch

variable [DecidableEq Address] {host : Host Address Tokens}

/-- The body of the called entry point. -/
def body (env : Env host) : Call Address → Body Address Tokens Response
  | .initializeContract depositor beneficiary token guardians lockLedgers cancellationFeeBps
      protocolVault =>
    (fun _ => .unit) <$> initializeContract env depositor beneficiary token guardians lockLedgers
      cancellationFeeBps protocolVault
  | .deposit amount => (fun _ => .unit) <$> deposit env amount
  | .approve guardian => .count <$> approve env guardian
  | .release => (fun _ => .unit) <$> release env
  | .cancel => (fun _ => .unit) <$> cancel env
  | .mutualCancel => (fun _ => .unit) <$> mutualCancel env
  | .proposeGuardianRotation newGuardians approvingGuardians =>
    .count <$> proposeGuardianRotation env newGuardians approvingGuardians
  | .executeGuardianRotation => (fun _ => .unit) <$> executeGuardianRotation env
  | .cancelGuardianRotation caller => (fun _ => .unit) <$> cancelGuardianRotation env caller
  | .rotateGuardians newGuardians approvingGuardians =>
    .count <$> rotateGuardians env newGuardians approvingGuardians

/-- A call, which finds the tokens as they are by then. -/
def entryPoint (env : Env host) (call : Call Address) : Body Address Tokens Response := do
  let s ← get
  set { s with tokens := env.outside s.tokens }
  body env call

end Dispatch

end TimelockEscrow
