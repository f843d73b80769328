import SkyMoonScope.Lib.Bytes
import SkyMoonScope.Lib.Integers
import SkyMoonScope.Soroban.Contract

/-!
# The cross-chain verifier

The contract of `contracts/cross_chain_verifier/src/lib.rs`. Its storage has one field for every
kind of `DataKey`, absent entries being `none`. What the contract takes from the host is a
parameter: SHA-256, the check of Ed25519 signatures, which traps on a bad signature, and the
serialization of addresses. Events are left out.

## Main definitions

* `State`, `Host`: the storage of the contract, and what it takes from the host
* `verifyMerkleProof`: the inclusion proof against the root stored for a block height
* `verifySignedMessage`, `verifyMessage`, `verifyMessageAndConsume`, `verifyBatch`,
  `verifySignedBatch`: the entry points that consume nonces
* `Call`, `entryPoint`: the entry points that write, as one type
-/

namespace CrossChainVerifier

open Soroban

inductive SignatureAlgorithm
  | ed25519
  | secp256k1
deriving DecidableEq

structure CrossChainMessage where
  sourceChain : UInt32
  destinationChain : UInt32
  nonce : UInt64
  payload : List UInt8
  timestamp : UInt64

structure SignedMessage where
  message : CrossChainMessage
  signature : BytesN 64
  signerPublicKey : BytesN 32
  algorithm : SignatureAlgorithm

structure Payload (Address : Type) where
  chainId : UInt32
  destinationContract : Address
  nonce : UInt64
  data : List UInt8

structure BatchMessage (Address : Type) where
  blockHeight : UInt32
  payload : Payload Address
  proof : List (BytesN 32)
  proofFlags : List Bool

structure SignedBatchMessage where
  blockHeight : UInt32
  signedMessage : SignedMessage
  proof : List (BytesN 32)
  proofFlags : List Bool

structure BatchVerificationResult where
  total : ℕ
  succeeded : ℕ
  failed : ℕ
  failedIndices : List ℕ
deriving DecidableEq

/-- The result of a signed batch has the same fields. -/
abbrev SignedBatchVerificationResult := BatchVerificationResult

/-- The storage, with a field for every kind of `DataKey`. -/
structure State (Address : Type) where
  admin : Option Address
  stateRoot : UInt32 → Option (BytesN 32)
  signerAlgorithm : List UInt8 → Option SignatureAlgorithm
  signerCount : Option ℤ
  processedMessages : BytesN 32 → Option Bool
  processedNonce : UInt64 → Option Bool
  verifyPaused : Option Bool

/-- The storage of a contract that has not been called. -/
def State.empty (Address : Type) : State Address :=
  { admin := none, stateRoot := fun _ => none, signerAlgorithm := fun _ => none,
    signerCount := none, processedMessages := fun _ => none, processedNonce := fun _ => none,
    verifyPaused := none }

/-- What the contract takes from the host. -/
structure Host (Address : Type) where
  sha256 : List UInt8 → BytesN 32
  ed25519Verify : BytesN 32 → List UInt8 → BytesN 64 → Bool
  toXdr : Address → List UInt8

/-! ## Hashes -/

section Hash

variable (sha256 : List UInt8 → BytesN 32)

/-- Domain-separation prefix for leaf hashes. -/
def leafPrefix : UInt8 := 0x00

/-- Domain-separation prefix for internal nodes. -/
def nodePrefix : UInt8 := 0x01

/-- Upper bound on proof length. -/
def maxProofLength : ℕ := 64

def hashLeaf (leaf : BytesN 32) : BytesN 32 := sha256 (leafPrefix :: leaf.toList)

def hashNode (left right : BytesN 32) : BytesN 32 :=
  sha256 (nodePrefix :: (left.toList ++ right.toList))

/-- `b"CROSS_CHAIN_MESSAGE_V1"`. -/
def messageTag : List UInt8 :=
  [67, 82, 79, 83, 83, 95, 67, 72, 65, 73, 78, 95, 77, 69, 83, 83, 65, 71, 69, 95, 86, 49]

def hashMessage (message : CrossChainMessage) : BytesN 32 :=
  sha256 (messageTag ++ beBytes 4 message.sourceChain.toNat ++
    beBytes 4 message.destinationChain.toNat ++ beBytes 8 message.nonce.toNat ++
    beBytes 8 message.timestamp.toNat ++ (sha256 message.payload).toList)

end Hash

variable {Address : Type}

/-- The hash of a payload, which is the data of a leaf and not its hash. -/
def computePayloadHash (host : Host Address) (payload : Payload Address) : BytesN 32 :=
  host.sha256 (beBytes 4 payload.chainId.toNat ++ host.toXdr payload.destinationContract ++
    beBytes 8 payload.nonce.toNat ++ payload.data)

/-! ## Views -/

def isPaused (s : State Address) : Bool := s.verifyPaused.getD false

def getRoot (s : State Address) (blockHeight : UInt32) : Option (BytesN 32) :=
  s.stateRoot blockHeight

def isNonceProcessed (s : State Address) (nonce : UInt64) : Bool :=
  (s.processedNonce nonce).getD false

/-- The loop of `verify_merkle_proof`: the smaller of the current hash and the sibling comes
first. -/
def merkleLoop (sha256 : List UInt8 → BytesN 32) (current : BytesN 32) :
    List (BytesN 32) → BytesN 32
  | [] => current
  | sibling :: proof =>
    merkleLoop sha256
      (if sibling ≤ current then hashNode sha256 sibling current
        else hashNode sha256 current sibling) proof

/-- The inclusion proof of a leaf against the root stored for the block height. -/
def verifyMerkleProof (host : Host Address) (s : State Address) (leaf : BytesN 32)
    (blockHeight : UInt32) (proof : List (BytesN 32)) (proofFlags : List Bool) : Bool :=
  match s.stateRoot blockHeight with
  | none => false
  | some expectedRoot =>
    if proof.length ≠ proofFlags.length then false
    else if maxProofLength < proof.length then false
    else merkleLoop host.sha256 (hashLeaf host.sha256 leaf) proof = expectedRoot

/-! ## Administration -/

/-- Entry points of this contract trap or return; they have no errors. -/
abbrev Body (Address α : Type) := Contract (State Address) Empty α

/-- The entry point `initialize`. -/
def initializeContract (admin : Address) : Body Address Unit := do
  let s ← get
  require (s.admin.isNone) (.trap "already initialized")
  set { s with admin := some admin, signerCount := some 0 }

/-- The stored admin, who has authorized the call. -/
def requireAdmin (auth : Address → Bool) : Body Address Unit := do
  let s ← get
  let admin ← orFault s.admin (.trap "called `Option::unwrap()` on a `None` value")
  require (auth admin) (.trap "Error(Auth, InvalidAction)")

def setPaused (auth : Address → Bool) (paused : Bool) : Body Address Unit := do
  requireAdmin auth
  let s ← get
  set { s with verifyPaused := some paused }

def updateRoot (auth : Address → Bool) (blockHeight : UInt32) (newRoot : BytesN 32) :
    Body Address Unit := do
  requireAdmin auth
  let s ← get
  set { s with stateRoot := Function.update s.stateRoot blockHeight (some newRoot) }

def addAuthorizedSigner (auth : Address → Bool) (publicKey : List UInt8)
    (algorithm : SignatureAlgorithm) : Body Address Unit := do
  requireAdmin auth
  let s ← get
  require (s.signerAlgorithm publicKey).isNone (.trap "Signer already authorized")
  let signerCount ← orFault (IntType.u32.checked (s.signerCount.getD 0 + 1))
    (.trap "attempt to add with overflow")
  set { s with
    signerAlgorithm := Function.update s.signerAlgorithm publicKey (some algorithm)
    signerCount := some signerCount }

def removeAuthorizedSigner (auth : Address → Bool) (publicKey : List UInt8) :
    Body Address Unit := do
  requireAdmin auth
  let s ← get
  require (s.signerAlgorithm publicKey).isSome (.trap "Signer not found")
  let count := s.signerCount.getD 0
  set { s with
    signerAlgorithm := Function.update s.signerAlgorithm publicKey none
    signerCount := if 0 < count then some (count - 1) else s.signerCount }

/-! ## Verification -/

section Verification

variable (host : Host Address)

/-- The signer must be authorized. An Ed25519 signature is checked by the host, which traps when
it is bad; a Secp256k1 signature is never accepted. -/
def verifySignature (signedMessage : SignedMessage) : Body Address Bool := do
  let s ← get
  match s.signerAlgorithm signedMessage.signerPublicKey.toList with
  | none => pure false
  | some .secp256k1 => pure false
  | some .ed25519 =>
    require (host.ed25519Verify signedMessage.signerPublicKey
      (hashMessage host.sha256 signedMessage.message).toList signedMessage.signature)
      (.trap "Error(Crypto, InvalidInput)")
    pure true

/-- The part that `verify_signed_message` and an entry of `verify_signed_batch` share. -/
def consumeSigned (signedMessage : SignedMessage) (blockHeight : UInt32)
    (proof : List (BytesN 32)) (proofFlags : List Bool) : Body Address Bool := do
  let s ← get
  if isNonceProcessed s signedMessage.message.nonce then pure false
  else
    let signed ← verifySignature host signedMessage
    if !signed then pure false
    else
      let messageHash := hashMessage host.sha256 signedMessage.message
      if (s.processedMessages messageHash).isSome then pure false
      else if !verifyMerkleProof host s messageHash blockHeight proof proofFlags then pure false
      else
        set { s with
          processedMessages := Function.update s.processedMessages messageHash (some true)
          processedNonce :=
            Function.update s.processedNonce signedMessage.message.nonce (some true) }
        pure true

def verifySignedMessage (signedMessage : SignedMessage) (blockHeight : UInt32)
    (proof : List (BytesN 32)) (proofFlags : List Bool) : Body Address Bool := do
  let s ← get
  require (!isPaused s) (.trap "verification paused")
  consumeSigned host signedMessage blockHeight proof proofFlags

/-- The part that `verify_message`, `verify_message_and_consume` and an entry of `verify_batch`
share: once the nonce is known to be unused, the proof decides. -/
def consumeLeaf (nonce : UInt64) (leaf : BytesN 32) (blockHeight : UInt32)
    (proof : List (BytesN 32)) (proofFlags : List Bool) : Body Address Bool := do
  let s ← get
  if !verifyMerkleProof host s leaf blockHeight proof proofFlags then pure false
  else
    set { s with processedNonce := Function.update s.processedNonce nonce (some true) }
    pure true

/-- Verify a payload against the state root; a nonce that was used before traps. -/
def verifyMessage (blockHeight : UInt32) (payload : Payload Address)
    (proof : List (BytesN 32)) (proofFlags : List Bool) : Body Address Bool := do
  let s ← get
  if isPaused s then pure false
  else
    require (s.processedNonce payload.nonce).isNone (.trap "Nonce already used")
    consumeLeaf host payload.nonce (computePayloadHash host payload) blockHeight proof proofFlags

/-- Verify a bare leaf against the state root and consume the nonce on success. -/
def verifyMessageAndConsume (blockHeight : UInt32) (nonce : UInt64) (leaf : BytesN 32)
    (proof : List (BytesN 32)) (proofFlags : List Bool) : Body Address Bool := do
  let s ← get
  require (!isPaused s) (.trap "verification paused")
  require (!isNonceProcessed s nonce) (.trap "nonce already processed")
  consumeLeaf host nonce leaf blockHeight proof proofFlags

section Batch

variable {M : Type} (entry : M → Body Address Bool)

/-- The loop over a batch: an entry that returns `false` adds its index to the failed ones. -/
def batchLoop : ℕ → ℕ → List ℕ → List M → Body Address (ℕ × List ℕ)
  | _, succeeded, failedIndices, [] => pure (succeeded, failedIndices)
  | i, succeeded, failedIndices, msg :: messages => do
    let accepted ← entry msg
    if accepted then batchLoop (i + 1) (succeeded + 1) failedIndices messages
    else batchLoop (i + 1) succeeded (failedIndices ++ [i]) messages

/-- A batch: when paused every entry fails, otherwise the entries decide one by one. -/
def batch (messages : List M) : Body Address BatchVerificationResult := do
  let s ← get
  let total := messages.length
  if isPaused s then
    pure { total, succeeded := 0, failed := total, failedIndices := List.range total }
  else
    let (succeeded, failedIndices) ← batchLoop entry 0 0 [] messages
    pure { total, succeeded, failed := total - succeeded, failedIndices }

end Batch

/-- An entry of `verify_batch`: a nonce that was used before fails the entry only. -/
def batchEntry (msg : BatchMessage Address) : Body Address Bool := do
  let s ← get
  if (s.processedNonce msg.payload.nonce).isSome then pure false
  else
    consumeLeaf host msg.payload.nonce (computePayloadHash host msg.payload) msg.blockHeight
      msg.proof msg.proofFlags

def verifyBatch (messages : List (BatchMessage Address)) :
    Body Address BatchVerificationResult :=
  batch (batchEntry host) messages

def signedBatchEntry (msg : SignedBatchMessage) : Body Address Bool :=
  consumeSigned host msg.signedMessage msg.blockHeight msg.proof msg.proofFlags

def verifySignedBatch (messages : List SignedBatchMessage) :
    Body Address SignedBatchVerificationResult :=
  batch (signedBatchEntry host) messages

end Verification

/-! ## Calls -/

/-- A call of an entry point that writes. -/
inductive Call (Address : Type)
  | initializeContract (admin : Address)
  | setPaused (paused : Bool)
  | updateRoot (blockHeight : UInt32) (newRoot : BytesN 32)
  | addAuthorizedSigner (publicKey : List UInt8) (algorithm : SignatureAlgorithm)
  | removeAuthorizedSigner (publicKey : List UInt8)
  | verifySignedMessage (signedMessage : SignedMessage) (blockHeight : UInt32)
      (proof : List (BytesN 32)) (proofFlags : List Bool)
  | verifyMessage (blockHeight : UInt32) (payload : Payload Address)
      (proof : List (BytesN 32)) (proofFlags : List Bool)
  | verifyMessageAndConsume (blockHeight : UInt32) (nonce : UInt64) (leaf : BytesN 32)
      (proof : List (BytesN 32)) (proofFlags : List Bool)
  | verifyBatch (messages : List (BatchMessage Address))
  | verifySignedBatch (messages : List SignedBatchMessage)

/-- What a call returns. -/
inductive Response
  | unit
  | verdict (verified : Bool)
  | batch (result : BatchVerificationResult)
deriving DecidableEq

/-- The body of the called entry point, with the addresses that authorized the call. -/
def entryPoint (host : Host Address) (auth : Address → Bool) :
    Call Address → Body Address Response
  | .initializeContract admin => do initializeContract admin; pure .unit
  | .setPaused paused => do setPaused auth paused; pure .unit
  | .updateRoot blockHeight newRoot => do updateRoot auth blockHeight newRoot; pure .unit
  | .addAuthorizedSigner publicKey algorithm => do
    addAuthorizedSigner auth publicKey algorithm; pure .unit
  | .removeAuthorizedSigner publicKey => do removeAuthorizedSigner auth publicKey; pure .unit
  | .verifySignedMessage signedMessage blockHeight proof proofFlags =>
    Response.verdict <$> verifySignedMessage host signedMessage blockHeight proof proofFlags
  | .verifyMessage blockHeight payload proof proofFlags =>
    Response.verdict <$> verifyMessage host blockHeight payload proof proofFlags
  | .verifyMessageAndConsume blockHeight nonce leaf proof proofFlags =>
    Response.verdict <$> verifyMessageAndConsume host blockHeight nonce leaf proof proofFlags
  | .verifyBatch messages => Response.batch <$> verifyBatch host messages
  | .verifySignedBatch messages => Response.batch <$> verifySignedBatch host messages

end CrossChainVerifier
