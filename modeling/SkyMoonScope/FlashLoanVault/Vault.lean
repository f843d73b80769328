import SkyMoonScope.EmergencyGuard
import SkyMoonScope.Lib.Integers
import SkyMoonScope.Lib.Behaviour
import SkyMoonScope.Soroban.Token

/-!
# The flash-loan vault

The contract of `soroscope/contracts/flash_loan_vault/src/lib.rs`, with the parts of its emergency
guard. It calls two other contracts: the token, which is a parameter, and in a loan the receiver,
which may do anything, so that an entry point is given what the receiver does. A plain operator
traps when its value leaves the range of its type. Events are left out.

## Main definitions

* `State`, `World`: the storage of the vault, and with that of the token contracts
* `Host`: the token contracts, and which addresses are contracts
* `flashLoan`, `borrow`: the two kinds of loans
* `Call`, `entryPoint`: the entry points
* `semantics`: the vault among programs that transfer tokens and call it
-/

namespace FlashLoanVault

open Soroban

inductive Error
  | alreadyInitialized
  | notInitialized
  | unauthorized
  | reentrancy
  | loanNotRepaid
  | insufficientVaultBalance
  | invalidAmount
  | invalidFee
  | paused
  | insufficientDeposit
  | borrowPaused
  | invalidReceiver
deriving DecidableEq

structure BorrowRecord where
  fee : ℤ
  totalRepayment : ℤ
deriving DecidableEq

/-- The storage, with a field for every kind of `DataKey` and the entries of the guard. -/
structure State (Address : Type) where
  admin : Option Address
  token : Option Address
  feeBps : Option ℤ
  flashLoanActive : Option Bool
  borrowPaused : Option Bool
  totalDeposited : Option ℤ
  borrowRecord : Address → Option BorrowRecord
  guard : EmergencyGuard.State Address

/-- The storage of the vault and of the token contracts. -/
structure World (Address Tokens : Type) where
  vault : State Address
  tokens : Tokens

/-- The world before the vault was called. -/
def World.initial {Address Tokens : Type} (tokens : Tokens) : World Address Tokens where
  vault :=
    { admin := none, token := none, feeBps := none, flashLoanActive := none, borrowPaused := none,
      totalDeposited := none, borrowRecord := fun _ => none,
      guard := ⟨none, none, none, none⟩ }
  tokens := tokens

/-- The contracts around the vault: the token contracts, and which addresses are contracts. -/
structure Host (Address Tokens : Type) extends TokenInterface Address Tokens where
  currentContractAddress : Address
  isContract : Address → Bool

/-- Who authorized a call of the vault. A contract is taken to authorize the calls that it makes
itself, and the vault makes none of its own entry points. -/
structure Signers {Address Tokens : Type} (host : Host Address Tokens) where
  auth : Address → Bool
  auth_vault : auth host.currentContractAddress = false

/-- What the contract at the first address does when the vault calls `execute_operation` with the
token, the amount, the fee and the initiator. It may panic. -/
structure Operation (Address : Type) where
  receiver : Address
  token : Address
  amount : ℤ
  fee : ℤ
  initiator : Address

/-- The maximum fee in basis points (1%). -/
def maxFeeBps : ℤ := 100

/-- The default fee: 0 bps (free flash loans). -/
def defaultFeeBps : ℤ := 0

/-- The pause flag of the flash loans (bit 6). -/
def flashLoanPauseFlag : UInt32 := (1 : UInt32) <<< 6

variable {Address Tokens : Type}

abbrev Body (Address Tokens α : Type) := Contract (World Address Tokens) Error α

/-! ## Helpers -/

/-- A plain operator on `i128` values, which traps on overflow. -/
def plain (x : ℤ) : Body Address Tokens ℤ :=
  orFault (IntType.i128.checked x) (.trap "arithmetic operation with overflow")

def checkNotPaused : Body Address Tokens Unit := do
  let w ← get
  require (!EmergencyGuard.isPaused w.vault.guard flashLoanPauseFlag) (.error .paused)

def loadAdmin : Body Address Tokens Address := do
  let w ← get
  orFault w.vault.admin (.error .notInitialized)

def loadToken : Body Address Tokens Address := do
  let w ← get
  orFault w.vault.token (.error .notInitialized)

def getFeeBps (s : State Address) : ℤ := s.feeBps.getD defaultFeeBps

def isFlashLoanActive (s : State Address) : Bool := s.flashLoanActive.getD false

def getTotalDeposited (s : State Address) : ℤ := s.totalDeposited.getD 0

def isBorrowPaused (s : State Address) : Bool := s.borrowPaused.getD false

/-- Writes entries of the vault. -/
def save (f : State Address → State Address) : Body Address Tokens Unit := do
  let w ← get
  set { w with vault := f w.vault }

def setFlashLoanActive (active : Bool) : Body Address Tokens Unit :=
  save fun s => { s with flashLoanActive := some active }

def setTotalDeposited (amount : ℤ) : Body Address Tokens Unit :=
  save fun s => { s with totalDeposited := some amount }

def setBorrowPaused (paused : Bool) : Body Address Tokens Unit :=
  save fun s => { s with borrowPaused := some paused }

def checkNoFlashLoanActive : Body Address Tokens Unit := do
  let w ← get
  require (!isFlashLoanActive w.vault) (.error .reentrancy)

/-- The fee for an amount at the configured rate. -/
def calculateFee (amount : ℤ) : Body Address Tokens ℤ := do
  let w ← get
  let product ← plain (amount * getFeeBps w.vault)
  pure (product.tdiv 10000)

def requireAuth (auth : Address → Bool) (addr : Address) : Body Address Tokens Unit :=
  require (auth addr) (.trap "Error(Auth, InvalidAction)")

/-- A transfer of the token contract `token`; where it fails, the vault traps. -/
def transfer (host : Host Address Tokens) (token source destination : Address) (amount : ℤ) :
    Body Address Tokens Unit := do
  let w ← get
  let tokens ← orFault (host.transfer token source destination amount w.tokens)
    (.trap "Error(Contract)")
  set { w with tokens }

/-- The balance of the vault in the token contract `token`. -/
def vaultBalance (host : Host Address Tokens) (token : Address) (w : World Address Tokens) : ℤ :=
  host.balance token w.tokens host.currentContractAddress

/-- `try_execute_operation`: whether the receiver has returned. What one did that panics is
reverted. -/
def tryExecuteOperation
    (receivers : Operation Address → World Address Tokens → Option (World Address Tokens))
    (operation : Operation Address) : Body Address Tokens Bool := do
  let w ← get
  match receivers operation w with
  | some w' => do
    set w'
    pure true
  | none => pure false

/-! ## The guard of this directory -/

section Guard

variable [DecidableEq Address] (auth : Address → Bool)

/-- The loop over the approvers. One that was seen before is skipped, and so is one that is no
admin; every other one must have authorized the call and is counted. -/
def countValid (admins : List Address) : List Address → List Address → ℕ →
    EmergencyGuard.Body Address ℕ
  | _, [], valid => pure valid
  | seen, addr :: approvers, valid =>
    if addr ∈ seen then countValid admins seen approvers valid
    else if addr ∈ admins then do
      EmergencyGuard.requireAuth auth addr
      countValid admins (seen ++ [addr]) approvers (valid + 1)
    else countValid admins (seen ++ [addr]) approvers valid

def checkMultiSig (approvers : List Address) : EmergencyGuard.Body Address Unit := do
  let s ← get
  let threshold ← orFault s.signatureThreshold (.error .notInitialized)
  require (¬approvers.length < threshold) (.error .insufficientSignatures)
  let valid ← countValid auth (EmergencyGuard.getAdmins s) [] approvers 0
  require (¬valid < threshold) (.error .insufficientSignatures)

/-- The entries of the guard, whose errors become `Unauthorized`. -/
def guarded (x : EmergencyGuard.Body Address Unit) : Body Address Tokens Unit :=
  zoom (fun w => w.vault.guard) (fun w guard => { w with vault := { w.vault with guard } })
    (fun _ => .unauthorized) x

end Guard

/-! ## Entry points -/

section EntryPoints

variable [DecidableEq Address] (host : Host Address Tokens) (signers : Signers host)

def initializeVault (admin token : Address) : Body Address Tokens Unit := do
  let w ← get
  require w.vault.admin.isNone (.error .alreadyInitialized)
  save fun s => { s with
    admin := some admin
    token := some token
    feeBps := some defaultFeeBps
    flashLoanActive := some false
    borrowPaused := some false
    totalDeposited := some 0 }

/-- Only the admin deposits. -/
def deposit (source : Address) (amount : ℤ) : Body Address Tokens Unit := do
  checkNoFlashLoanActive
  require (¬amount ≤ 0) (.error .invalidAmount)
  let admin ← loadAdmin
  require (source = admin) (.error .unauthorized)
  requireAuth signers.auth source
  let token ← loadToken
  transfer host token source host.currentContractAddress amount
  let w ← get
  let deposited ← plain (getTotalDeposited w.vault + amount)
  setTotalDeposited deposited

/-- Only the admin withdraws, and at most what is recorded as deposited. -/
def withdraw (destination : Address) (amount : ℤ) : Body Address Tokens Unit := do
  checkNoFlashLoanActive
  require (¬amount ≤ 0) (.error .invalidAmount)
  let admin ← loadAdmin
  require (destination = admin) (.error .unauthorized)
  requireAuth signers.auth destination
  let w ← get
  let deposited := getTotalDeposited w.vault
  require (¬amount > deposited) (.error .insufficientDeposit)
  let token ← loadToken
  transfer host token host.currentContractAddress destination amount
  let rest ← plain (deposited - amount)
  setTotalDeposited rest

def setFee (feeBps : ℤ) : Body Address Tokens Unit := do
  checkNoFlashLoanActive
  require (0 ≤ feeBps ∧ feeBps ≤ maxFeeBps) (.error .invalidFee)
  let admin ← loadAdmin
  requireAuth signers.auth admin
  save fun s => { s with feeBps := some feeBps }

def setPaused (admin : Address) (paused : Bool) : Body Address Tokens Unit := do
  checkNoFlashLoanActive
  guarded (EmergencyGuard.setPause signers.auth admin flashLoanPauseFlag paused)

def pauseBorrow : Body Address Tokens Unit := do
  let admin ← loadAdmin
  requireAuth signers.auth admin
  setBorrowPaused true

def resumeBorrow : Body Address Tokens Unit := do
  let admin ← loadAdmin
  requireAuth signers.auth admin
  setBorrowPaused false

def emergencyPause (approvers : List Address) : Body Address Tokens Unit := do
  checkNoFlashLoanActive
  guarded do
    checkMultiSig signers.auth approvers
    EmergencyGuard.savePauseState EmergencyGuard.PauseType.all

/-- The fee of a loan becomes part of the deposits. -/
def collectFee (fee : ℤ) : Body Address Tokens Unit := do
  if fee > 0 then
    let w ← get
    let deposited ← plain (getTotalDeposited w.vault + fee)
    setTotalDeposited deposited
  else
    pure ()

/-- The end of a loan, once the receiver has returned or panicked: the repayment is verified, and
the entries that mark the loan are cleared in every case. -/
def settle (token : Address) (preBalance fee : ℤ) (clear : Body Address Tokens Unit)
    (returned : Bool) : Body Address Tokens ℤ := do
  if returned then
    let requiredBalance ← plain (preBalance + fee)
    let w ← get
    let postBalance := vaultBalance host token w
    if postBalance < requiredBalance then
      clear
      throw (.error .loanNotRepaid)
    else
      clear
      collectFee fee
      pure fee
  else
    clear
    throw (.error .invalidReceiver)

variable (receivers : Operation Address → World Address Tokens → Option (World Address Tokens))

def flashLoan (initiator receiver : Address) (amount : ℤ) : Body Address Tokens ℤ := do
  let w ← get
  require (!isBorrowPaused w.vault) (.error .borrowPaused)
  checkNotPaused
  require (¬amount ≤ 0) (.error .invalidAmount)
  checkNoFlashLoanActive
  requireAuth signers.auth initiator
  require (host.isContract receiver) (.error .invalidReceiver)
  let token ← loadToken
  let preBalance := vaultBalance host token w
  require (¬amount > preBalance) (.error .insufficientVaultBalance)
  let fee ← calculateFee amount
  setFlashLoanActive true
  transfer host token host.currentContractAddress receiver amount
  let returned ← tryExecuteOperation receivers { receiver, token, amount, fee, initiator }
  settle host token preBalance fee (setFlashLoanActive false) returned

def setBorrowRecord (borrower : Address) (record : BorrowRecord) : Body Address Tokens Unit :=
  save fun s => { s with borrowRecord := Function.update s.borrowRecord borrower (some record) }

/-- A loan without an initiator. It looks neither at the pause of borrowing nor at the kind of the
borrower, and keeps a record while the borrower runs. -/
def borrow (borrower : Address) (amount : ℤ) : Body Address Tokens ℤ := do
  checkNotPaused
  require (¬amount ≤ 0) (.error .invalidAmount)
  checkNoFlashLoanActive
  let token ← loadToken
  let w ← get
  let preBalance := vaultBalance host token w
  require (¬amount > preBalance) (.error .insufficientVaultBalance)
  let fee ← calculateFee amount
  let totalRepayment ← plain (amount + fee)
  setFlashLoanActive true
  setBorrowRecord borrower { fee, totalRepayment }
  transfer host token host.currentContractAddress borrower amount
  let returned ← tryExecuteOperation receivers
    { receiver := borrower, token, amount, fee, initiator := borrower }
  let clear := do
    setFlashLoanActive false
    setBorrowRecord borrower { fee := 0, totalRepayment := 0 }
  settle host token preBalance fee clear returned

end EntryPoints

/-! ## Calls -/

/-- A call of an entry point. -/
inductive Call (Address : Type)
  | initializeVault (admin token : Address)
  | deposit (source : Address) (amount : ℤ)
  | withdraw (destination : Address) (amount : ℤ)
  | setFee (feeBps : ℤ)
  | setPaused (admin : Address) (paused : Bool)
  | pauseBorrow
  | resumeBorrow
  | getBorrowPaused
  | emergencyPause (approvers : List Address)
  | flashLoan (initiator receiver : Address) (amount : ℤ)
  | borrow (borrower : Address) (amount : ℤ)
  | getFee
  | getAvailable
  | getToken
  | getAdmin
  | getTotalDeposited

/-- What a call returns. -/
inductive Response (Address : Type)
  | unit
  | amount (x : ℤ)
  | flag (b : Bool)
  | address (addr : Address)
deriving DecidableEq

/-- The body of the called entry point. -/
def entryPoint [DecidableEq Address] (host : Host Address Tokens) (signers : Signers host)
    (receivers : Operation Address → World Address Tokens → Option (World Address Tokens)) :
    Call Address → Body Address Tokens (Response Address)
  | .initializeVault admin token => do
    initializeVault admin token
    pure .unit
  | .deposit source amount => do
    deposit host signers source amount
    pure .unit
  | .withdraw destination amount => do
    withdraw host signers destination amount
    pure .unit
  | .setFee feeBps => do
    setFee host signers feeBps
    pure .unit
  | .setPaused admin paused => do
    setPaused host signers admin paused
    pure .unit
  | .pauseBorrow => do
    pauseBorrow host signers
    pure .unit
  | .resumeBorrow => do
    resumeBorrow host signers
    pure .unit
  | .getBorrowPaused => do
    let w ← get
    pure (.flag (isBorrowPaused w.vault))
  | .emergencyPause approvers => do
    emergencyPause host signers approvers
    pure .unit
  | .flashLoan initiator receiver amount =>
    .amount <$> flashLoan host signers receivers initiator receiver amount
  | .borrow borrower amount => .amount <$> borrow host receivers borrower amount
  | .getFee => do
    let w ← get
    pure (.amount (getFeeBps w.vault))
  | .getAvailable => do
    let token ← loadToken
    let w ← get
    pure (.amount (vaultBalance host token w))
  | .getToken => .address <$> loadToken
  | .getAdmin => .address <$> loadAdmin
  | .getTotalDeposited => do
    let w ← get
    pure (.amount (FlashLoanVault.getTotalDeposited w.vault))

/-! ## The vault among other contracts -/

/-- A transfer that a program makes. -/
structure Transfer (Address : Type) where
  token : Address
  source : Address
  destination : Address
  amount : ℤ

/-- A call of the vault with the addresses that authorized it. -/
structure Invocation (host : Host Address Tokens) where
  signers : Signers host
  call : Call Address

/-- What a call of the vault ends with. -/
abbrev Outcome (Address : Type) := Except (Fault Error) (Response Address)

/-- A transfer by a program needs the authorization of its source. The vault has given none: it
approves no spender, and authorizes only the transfers that it makes itself. -/
def Transfer.make [DecidableEq Address] (host : Host Address Tokens) (m : Transfer Address)
    (w : World Address Tokens) : Option (World Address Tokens) :=
  if m.source = host.currentContractAddress then none
  else
    (host.transfer m.token m.source m.destination m.amount w.tokens).map fun tokens =>
      { w with tokens }

/-- The vault among programs that transfer tokens and call it. -/
def semantics [DecidableEq Address] (host : Host Address Tokens) :
    Reentry.Semantics (World Address Tokens) (Transfer Address) (Invocation host)
      (Outcome Address) (Operation Address) where
  move := Transfer.make host
  call := fun c receivers w => invoke (entryPoint host c.signers receivers c.call) w

/-- What a receiver does, or any other contract. -/
abbrev Program (host : Host Address Tokens) :=
  Reentry.Program (World Address Tokens) (Transfer Address) (Invocation host) (Outcome Address)
    (Operation Address)

end FlashLoanVault
