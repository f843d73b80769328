import SkyMoonScope.Lib.Bytes
import SkyMoonScope.Lib.Integers
import SkyMoonScope.Soroban.Calls

/-!
# Private transfers

The contract of `contracts/private_transfer/src/lib.rs`. It keeps one current root and the history
of all roots, and a transfer leads from a root in the history to the root that the two new
commitments give. The verifier is another contract: its answer is an arbitrary function of what it
is asked, and it may trap. SHA-256 is provided by the host. Events are left out, and so are the
lifetimes of storage entries.

## Main definitions

* `State`, `Host`, `Env`: the storage, what is fixed for all calls, and what a call is given
* `nextRootForTransfer`: the root after a transfer
* `applyPrivateTransfer`: the checks of a transfer, and what it writes
* `Call`, `entryPoint`: the entry points
-/

namespace PrivateTransferContract

open Soroban

inductive Error
  | alreadyInitialized
  | notInitialized
  | unauthorized
  | invalidRoot
  | proofVerificationFailed
  | nullifierAlreadyUsed
  | invalidUpdate
  | invalidCommitment
  | depositKeyAlreadyUsed
  | depositKeyExists
  | emptyProof
  | proofAlreadyUsed
  | verifierNotConfigured
deriving DecidableEq

/-- Stealth meta-address published by a receiver (spend + view public keys). -/
structure StealthMetaAddress where
  spendPubkey : BytesN 32
  viewPubkey : BytesN 32
deriving DecidableEq

/-- Inputs used to derive and verify a stealth address commitment. -/
structure StealthAddressProof where
  ephemeralPubkey : BytesN 32
  viewTag : BytesN 32
  stealthPubkey : BytesN 32

structure EncryptedBalanceUpdate where
  commitment : BytesN 32
  ciphertext : List UInt8
deriving DecidableEq

structure PrivateTransfer where
  oldRoot : BytesN 32
  nullifier : BytesN 32
  senderUpdate : EncryptedBalanceUpdate
  recipientUpdate : EncryptedBalanceUpdate
deriving DecidableEq

structure TransferReceipt where
  previousRoot : BytesN 32
  newRoot : BytesN 32
  nullifier : BytesN 32
  leafIndexStart : ℤ
deriving DecidableEq

/-- The storage, with a field for every kind of `DataKey`. -/
structure State (Address : Type) where
  admin : Option Address
  verifier : Option Address
  verificationKeyHash : Option (BytesN 32)
  currentRoot : Option (BytesN 32)
  rootHistory : BytesN 32 → Option Bool
  rootByIndex : ℤ → Option (BytesN 32)
  nextLeafIndex : Option ℤ
  nullifier : BytesN 32 → Option Bool
  ciphertext : BytesN 32 → Option (List UInt8)
  depositKeyUsed : BytesN 32 → Option Bool
  depositKeyOwner : BytesN 32 → Option Address
  stealthMeta : Address → Option StealthMetaAddress
  usedProof : BytesN 32 → Option Bool

/-- The storage of a contract that has not been called. -/
def State.empty (Address : Type) : State Address where
  admin := none
  verifier := none
  verificationKeyHash := none
  currentRoot := none
  rootHistory := fun _ => none
  rootByIndex := fun _ => none
  nextLeafIndex := none
  nullifier := fun _ => none
  ciphertext := fun _ => none
  depositKeyUsed := fun _ => none
  depositKeyOwner := fun _ => none
  stealthMeta := fun _ => none
  usedProof := fun _ => none

/-- What the contract takes from the host, whatever the call. -/
structure Host (Address : Type) where
  sha256 : List UInt8 → BytesN 32
  zeroAddress : Address

/-- What a call is given: who authorized it, and how the contract at an address answers `verify`
on a verification key hash, a public input hash and a proof. Without an answer it traps. -/
structure Env (Address : Type) where
  auth : Address → Bool
  verify : Address → BytesN 32 → BytesN 32 → List UInt8 → Option Bool

variable {Address : Type}

abbrev Body (Address α : Type) := Contract (State Address) Error α

def requireAuth (env : Env Address) (addr : Address) : Body Address Unit :=
  require (env.auth addr) (.trap "Error(Auth, InvalidAction)")

def zeroBytes : BytesN 32 := .replicate 32 0

/-! ## Roots -/

def readCurrentRoot : Body Address (BytesN 32) := do
  let s ← get
  orFault s.currentRoot (.error .notInitialized)

def writeRoot (root : BytesN 32) (index : ℤ) : Body Address Unit := do
  let s ← get
  set { s with
    currentRoot := some root
    rootHistory := Function.update s.rootHistory root (some true)
    rootByIndex := Function.update s.rootByIndex index (some root) }

def rootExists (s : State Address) (root : BytesN 32) : Bool := (s.rootHistory root).getD false

section Hashes

variable (sha256 : List UInt8 → BytesN 32)

def hashConcat (left right : BytesN 32) : BytesN 32 := sha256 (left.toList ++ right.toList)

def nextRootForTransfer (currentRoot : BytesN 32) (transfer : PrivateTransfer) : BytesN 32 :=
  let first := hashConcat sha256 currentRoot transfer.senderUpdate.commitment
  hashConcat sha256 first transfer.recipientUpdate.commitment

def statementHash (transfer : PrivateTransfer) (nextRoot : BytesN 32) : BytesN 32 :=
  sha256 (transfer.oldRoot.toList ++ transfer.nullifier.toList ++
    transfer.senderUpdate.commitment.toList ++
    (sha256 transfer.senderUpdate.ciphertext).toList ++
    transfer.recipientUpdate.commitment.toList ++
    (sha256 transfer.recipientUpdate.ciphertext).toList ++ nextRoot.toList)

/-- Digest identifying a proof, recorded so it can never be spent twice. -/
def proofDigest (proof : List UInt8) : BytesN 32 := sha256 proof

def stealthCommitmentHash (proof : StealthAddressProof) : BytesN 32 :=
  sha256 (proof.ephemeralPubkey.toList ++ proof.viewTag.toList ++ proof.stealthPubkey.toList)

end Hashes

/-! ## Checks -/

def requireAdmin (env : Env Address) : Body Address Unit := do
  let s ← get
  let admin ← orFault s.admin (.error .notInitialized)
  requireAuth env admin

def requireNonzeroCommitment (commitment : BytesN 32) : Body Address Unit :=
  require (commitment ≠ zeroBytes) (.error .invalidCommitment)

/-- The contract's own checks, before the verifier is asked. -/
def validateProofMaterial [DecidableEq Address] (host : Host Address) (verifier : Address)
    (proof : List UInt8) : Body Address Unit := do
  require (proof ≠ []) (.error .emptyProof)
  require (verifier ≠ host.zeroAddress) (.error .verifierNotConfigured)

def isRegisteredDepositKey (s : State Address) (commitment : BytesN 32) : Bool :=
  (s.depositKeyOwner commitment).isSome

def isDepositKeySpent (s : State Address) (commitment : BytesN 32) : Bool :=
  (s.depositKeyUsed commitment).getD false

def consumeDepositKeyIfRegistered (commitment : BytesN 32) : Body Address Unit := do
  let s ← get
  if !isRegisteredDepositKey s commitment then pure ()
  else
    require (!isDepositKeySpent s commitment) (.error .depositKeyAlreadyUsed)
    set { s with depositKeyUsed := Function.update s.depositKeyUsed commitment (some true) }

/-! ## Entry points -/

def initializeContract (admin verifier : Address) (verificationKeyHash initialRoot : BytesN 32) :
    Body Address Unit := do
  let s ← get
  require s.admin.isNone (.error .alreadyInitialized)
  set { s with
    admin := some admin
    verifier := some verifier
    verificationKeyHash := some verificationKeyHash
    nextLeafIndex := some 0 }
  let root := if initialRoot = zeroBytes then zeroBytes else initialRoot
  writeRoot root 0

def setVerifier [DecidableEq Address] (host : Host Address) (env : Env Address)
    (verifier : Address) (verificationKeyHash : BytesN 32) : Body Address Unit := do
  requireAdmin env
  require (verifier ≠ host.zeroAddress) (.error .verifierNotConfigured)
  let s ← get
  set { s with verifier := some verifier, verificationKeyHash := some verificationKeyHash }

def nextLeafIndex (s : State Address) : ℤ := s.nextLeafIndex.getD 0

def isNullifierUsed (s : State Address) (nullifier : BytesN 32) : Bool :=
  (s.nullifier nullifier).getD false

def previewNextRoot (host : Host Address) (transfer : PrivateTransfer) :
    Body Address (BytesN 32) := do
  let current ← readCurrentRoot
  let s ← get
  require (transfer.oldRoot = current ∨ rootExists s transfer.oldRoot) (.error .invalidRoot)
  pure (nextRootForTransfer host.sha256 transfer.oldRoot transfer)

def verifyStealthCommitment (host : Host Address) (proof : StealthAddressProof)
    (expected : BytesN 32) : Body Address Bool := do
  requireNonzeroCommitment proof.ephemeralPubkey
  requireNonzeroCommitment proof.stealthPubkey
  requireNonzeroCommitment expected
  pure (stealthCommitmentHash host.sha256 proof = expected)

def registerStealthMeta [DecidableEq Address] (env : Env Address) (owner : Address)
    (spendPubkey viewPubkey : BytesN 32) : Body Address Unit := do
  requireAuth env owner
  requireNonzeroCommitment spendPubkey
  requireNonzeroCommitment viewPubkey
  let s ← get
  set { s with
    stealthMeta := Function.update s.stealthMeta owner (some { spendPubkey, viewPubkey }) }

def registerDepositKey (env : Env Address) (owner : Address) (commitment : BytesN 32) :
    Body Address Unit := do
  requireAuth env owner
  requireNonzeroCommitment commitment
  let s ← get
  require (!isRegisteredDepositKey s commitment) (.error .depositKeyExists)
  set { s with
    depositKeyOwner := Function.update s.depositKeyOwner commitment (some owner)
    depositKeyUsed := Function.update s.depositKeyUsed commitment (some false) }

/-- What an accepted transfer records, but for the root. -/
def recordTransfer (transfer : PrivateTransfer) (leafIndexStart : ℤ) : Body Address Unit := do
  let s ← get
  set { s with
    nullifier := Function.update s.nullifier transfer.nullifier (some true)
    -- the two commitments differ, so that the second write does not hide the first
    ciphertext :=
      Function.update
        (Function.update s.ciphertext transfer.senderUpdate.commitment
          (some transfer.senderUpdate.ciphertext))
        transfer.recipientUpdate.commitment (some transfer.recipientUpdate.ciphertext)
    nextLeafIndex := some (IntType.u32.saturate (leafIndexStart + 2)) }

def applyPrivateTransfer [DecidableEq Address] (host : Host Address) (env : Env Address)
    (relayer : Address) (transfer : PrivateTransfer) (proof : List UInt8) :
    Body Address TransferReceipt := do
  requireAuth env relayer
  requireNonzeroCommitment transfer.senderUpdate.commitment
  requireNonzeroCommitment transfer.recipientUpdate.commitment
  require (transfer.senderUpdate.commitment ≠ transfer.recipientUpdate.commitment)
    (.error .invalidUpdate)
  let s ← get
  require (!isNullifierUsed s transfer.nullifier) (.error .nullifierAlreadyUsed)
  -- any root of the history will do, not only the current one
  require (rootExists s transfer.oldRoot) (.error .invalidRoot)
  let verifier ← orFault s.verifier (.error .notInitialized)
  let verificationKeyHash ← orFault s.verificationKeyHash (.error .notInitialized)
  validateProofMaterial host verifier proof
  let currentRoot ← readCurrentRoot
  let nextRoot := nextRootForTransfer host.sha256 transfer.oldRoot transfer
  let publicInputHash := statementHash host.sha256 transfer nextRoot
  let digest := proofDigest host.sha256 proof
  require (!(s.usedProof digest).getD false) (.error .proofAlreadyUsed)
  let valid ← orFault (env.verify verifier verificationKeyHash publicInputHash proof)
    (.trap "Error(WasmVm, InvalidAction)")
  require valid (.error .proofVerificationFailed)
  set { s with usedProof := Function.update s.usedProof digest (some true) }
  consumeDepositKeyIfRegistered transfer.recipientUpdate.commitment
  let u ← get
  let leafIndexStart := nextLeafIndex u
  recordTransfer transfer leafIndexStart
  writeRoot nextRoot (IntType.u32.saturate (leafIndexStart + 2))
  pure { previousRoot := currentRoot, newRoot := nextRoot, nullifier := transfer.nullifier,
         leafIndexStart }

/-! ## Calls -/

/-- An entry point that reads the storage and cannot fail. -/
inductive View (Address : Type)
  | containsRoot (root : BytesN 32)
  | nextLeafIndex
  | isNullifierUsed (nullifier : BytesN 32)
  | encryptedNote (commitment : BytesN 32)
  | computeStealthCommitment (proof : StealthAddressProof)
  | stealthMeta (owner : Address)
  | isDepositKeyUsed (commitment : BytesN 32)
  | depositKeyOwner (commitment : BytesN 32)

/-- A call of an entry point. -/
inductive Call (Address : Type)
  | initializeContract (admin verifier : Address) (verificationKeyHash initialRoot : BytesN 32)
  | setVerifier (verifier : Address) (verificationKeyHash : BytesN 32)
  | verifierConfig
  | currentRoot
  | previewNextRoot (transfer : PrivateTransfer)
  | verifyStealthCommitment (proof : StealthAddressProof) (expected : BytesN 32)
  | registerStealthMeta (owner : Address) (spendPubkey viewPubkey : BytesN 32)
  | registerDepositKey (owner : Address) (commitment : BytesN 32)
  | applyPrivateTransfer (relayer : Address) (transfer : PrivateTransfer) (proof : List UInt8)
  | view (view : View Address)

/-- What a call returns. -/
inductive Response (Address : Type)
  | unit
  | hash (h : BytesN 32)
  | flag (b : Bool)
  | index (i : ℤ)
  | note (ciphertext : Option (List UInt8))
  | config (verifier : Address) (verificationKeyHash : BytesN 32)
  | stealthMeta (keys : Option StealthMetaAddress)
  | owner (addr : Option Address)
  | receipt (r : TransferReceipt)

def View.read (host : Host Address) (s : State Address) : View Address → Response Address
  | containsRoot root => .flag (rootExists s root)
  | nextLeafIndex => .index (PrivateTransferContract.nextLeafIndex s)
  | isNullifierUsed nullifier => .flag (PrivateTransferContract.isNullifierUsed s nullifier)
  | encryptedNote commitment => .note (s.ciphertext commitment)
  | computeStealthCommitment proof => .hash (stealthCommitmentHash host.sha256 proof)
  | stealthMeta owner => .stealthMeta (s.stealthMeta owner)
  | isDepositKeyUsed commitment => .flag (isDepositKeySpent s commitment)
  | depositKeyOwner commitment => .owner (s.depositKeyOwner commitment)

/-- The body of the called entry point. -/
def entryPoint [DecidableEq Address] (host : Host Address) (env : Env Address) :
    Call Address → Body Address (Response Address)
  | .initializeContract admin verifier verificationKeyHash initialRoot => do
    initializeContract admin verifier verificationKeyHash initialRoot
    pure .unit
  | .setVerifier verifier verificationKeyHash => do
    setVerifier host env verifier verificationKeyHash
    pure .unit
  | .verifierConfig => do
    let s ← get
    let verifier ← orFault s.verifier (.error .notInitialized)
    let vk ← orFault s.verificationKeyHash (.error .notInitialized)
    pure (.config verifier vk)
  | .currentRoot => .hash <$> readCurrentRoot
  | .previewNextRoot transfer => .hash <$> previewNextRoot host transfer
  | .verifyStealthCommitment proof expected =>
    .flag <$> verifyStealthCommitment host proof expected
  | .registerStealthMeta owner spendPubkey viewPubkey => do
    registerStealthMeta env owner spendPubkey viewPubkey
    pure .unit
  | .registerDepositKey owner commitment => do
    registerDepositKey env owner commitment
    pure .unit
  | .applyPrivateTransfer relayer transfer proof =>
    .receipt <$> applyPrivateTransfer host env relayer transfer proof
  | .view view => do
    let s ← get
    pure (view.read host s)

end PrivateTransferContract
