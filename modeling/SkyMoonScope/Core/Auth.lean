import SkyMoonScope.Lib.Machine
import SkyMoonScope.Lib.Sha256
import SkyMoonScope.Lib.Text
import SkyMoonScope.Lib.Xdr

/-!
# Who is let through

An account asks for a challenge, which is a transaction that the server has signed. Its holder signs
it too, and gets a token for it, with which requests are let through for a day. What comes to the
server was made by anyone who can read everything that was sent, but cannot make the signatures of
others. The server keeps nothing but whether the verification is paused.

## Main definitions

* `challengeHandler`, `verifyHandler`, `authMiddleware`: the server of `core/src/auth.rs`
* `World`, `Event`, `next`: the server, with what was signed and given out so far
* `Possible`: what may come, where the keys of some accounts are kept secret

## Main results

* `issue_eq_ok_iff`: for what a token is given out
* `issue_challenge_iff`: which signatures on a challenge get a token, and until when
* `authMiddleware_of_run`: who is let through has signed a challenge of the server
-/

namespace Core.Auth

open Machine

abbrev Key := BytesN 32

def challengeExpirySecs : ℕ := 300

def jwtExpirySecs : ℕ := 86400

def webAuthDomain : String := "sky-moon-scope"

/-- `exp` may have passed by this much: the default of `jsonwebtoken::Validation`. -/
def leeway : ℕ := 60

def bytesOf (s : String) : List UInt8 := s.toUTF8.data.toList

inductive AppError
  | internal (message : String)
  | badRequest (message : String)
  | unauthorized (message : String)
deriving DecidableEq

/-! ## Transactions -/

/-- What the server does not look into is kept as its bytes, the tag included. -/
inductive MuxedAccount
  | ed25519 (key : Key)
  | other (xdr : List UInt8)
deriving DecidableEq

inductive Preconditions
  | time (minTime maxTime : ℕ)
  | other (xdr : List UInt8)
deriving DecidableEq

inductive OperationBody
  | manageData (dataName : List UInt8) (dataValue : Option (List UInt8))
  | other (xdr : List UInt8)
deriving DecidableEq

structure Operation where
  sourceAccount : Option MuxedAccount
  body : OperationBody
deriving DecidableEq

structure Transaction where
  sourceAccount : MuxedAccount
  fee : ℕ
  seqNum : BitVec 64
  cond : Preconditions
  memo : List UInt8
  operations : List Operation
  ext : List UInt8
deriving DecidableEq

structure DecoratedSignature where
  hint : List UInt8
  signature : List UInt8
deriving DecidableEq

inductive TransactionEnvelope
  | tx (tx : Transaction) (signatures : List DecoratedSignature)
  | other (xdr : List UInt8)
deriving DecidableEq

def MuxedAccount.toXdr : MuxedAccount → List UInt8
  | .ed25519 key => beBytes 4 0 ++ key.toList
  | .other xdr => xdr

def Preconditions.toXdr : Preconditions → List UInt8
  | .time minTime maxTime => beBytes 4 1 ++ beBytes 8 minTime ++ beBytes 8 maxTime
  | .other xdr => xdr

/-- An optional value: whether there is one, and the value. -/
def optionToXdr {α : Type} (toXdr : α → List UInt8) : Option α → List UInt8
  | none => beBytes 4 0
  | some a => beBytes 4 1 ++ toXdr a

def OperationBody.toXdr : OperationBody → List UInt8
  | .manageData dataName dataValue =>
    beBytes 4 10 ++ Xdr.encodeText dataName ++ optionToXdr Xdr.encodeText dataValue
  | .other xdr => xdr

def Operation.toXdr (op : Operation) : List UInt8 :=
  optionToXdr MuxedAccount.toXdr op.sourceAccount ++ op.body.toXdr

def Transaction.toXdr (tx : Transaction) : List UInt8 :=
  tx.sourceAccount.toXdr ++ beBytes 4 tx.fee ++ beBytes 8 tx.seqNum.toNat ++ tx.cond.toXdr ++
    tx.memo ++ beBytes 4 tx.operations.length ++ tx.operations.flatMap Operation.toXdr ++ tx.ext

def DecoratedSignature.toXdr (ds : DecoratedSignature) : List UInt8 :=
  ds.hint ++ Xdr.encodeText ds.signature

def TransactionEnvelope.toXdr : TransactionEnvelope → List UInt8
  | .tx transaction signatures =>
    beBytes 4 2 ++ transaction.toXdr ++ beBytes 4 signatures.length ++
      signatures.flatMap DecoratedSignature.toXdr
  | .other xdr => xdr

def networkId (passphrase : String) : BytesN 32 := Sha256.hash (bytesOf passphrase)

/-- The hash that is signed: of the network, the type of the envelope and the transaction. -/
def txHash (tx : Transaction) (netId : BytesN 32) : BytesN 32 :=
  Sha256.hash (netId.toList ++ beBytes 4 2 ++ tx.toXdr)

/-! ## The server -/

structure Claims where
  sub : String
  iss : String
  exp : ℕ
  iat : ℕ
  scopes : List String
deriving DecidableEq

/-- An address, of an account or of something else. -/
inductive Strkey
  | publicKeyEd25519 (key : Key)
  | other

/-- The libraries that the server calls: base64, the reading of XDR, addresses, Ed25519 and JWT. -/
structure Crates (SecretKey : Type) where
  encodeBase64 : List UInt8 → String
  decodeBase64 : String → Option (List UInt8)
  envelopeFromXdr : List UInt8 → Option TransactionEnvelope
  strkeyFromString : String → Option Strkey
  /-- the address of an account -/
  strkeyToString : Key → String
  verifyingKey : SecretKey → Key
  sign : SecretKey → BytesN 32 → List UInt8
  /-- whether the bytes are a point, `VerifyingKey::from_bytes` -/
  isVerifyingKey : Key → Bool
  verify : Key → BytesN 32 → List UInt8 → Bool
  /-- `encode` with the key of the server -/
  jwtEncode : Claims → Except String String
  /-- `decode` with the key of the server, at a time -/
  jwtDecode : String → ℕ → Except String Claims
  le_of_jwtDecode : ∀ token now claims, jwtDecode token now = .ok claims → now ≤ claims.exp + leeway

structure AuthState (SecretKey : Type) where
  signingKey : SecretKey
  networkPassphrase : String
  emergencyVerificationPaused : Bool

variable {SecretKey : Type} (C : Crates SecretKey)

def AuthState.serverPublicKey (st : AuthState SecretKey) : Key := C.verifyingKey st.signingKey

/-- What is signed for a transaction. -/
def AuthState.hashOf (st : AuthState SecretKey) (tx : Transaction) : BytesN 32 :=
  txHash tx (networkId st.networkPassphrase)

/-- The last four bytes of a key. -/
def hintOf (key : Key) : List UInt8 := key.toList.drop 28

/-- The transaction of a challenge. -/
def challengeTx (serverKey clientKey : Key) (nonceValue : String) (now : ℕ) : Transaction where
  sourceAccount := .ed25519 serverKey
  fee := 100
  seqNum := 0
  cond := .time now (now + challengeExpirySecs)
  memo := beBytes 4 0
  operations := [{
    sourceAccount := some (.ed25519 clientKey)
    body := .manageData (bytesOf (webAuthDomain ++ " auth")) (some (bytesOf nonceValue)) }]
  ext := beBytes 4 0

/-- A challenge that the server has made. -/
structure Challenge where
  client : Key
  tx : Transaction
  madeAt : ℕ
deriving DecidableEq

/-- The signature of the server on a transaction. -/
def serverSignature (st : AuthState SecretKey) (tx : Transaction) : DecoratedSignature where
  hint := hintOf (st.serverPublicKey C)
  signature := C.sign st.signingKey (st.hashOf tx)

def buildChallengeEnvelope (st : AuthState SecretKey) (c : Challenge) : String :=
  C.encodeBase64 (TransactionEnvelope.tx c.tx [serverSignature C st c.tx]).toXdr

structure ChallengeResponse where
  transaction : String
  networkPassphrase : String

def pausedMessage : String :=
  "Message verification is temporarily paused for emergency maintenance"

/-- The challenge for an address, with a nonce of 48 random bytes. -/
def makeChallenge (st : AuthState SecretKey) (account : String) (nonce : BytesN 48) (now : ℕ) :
    Except AppError Challenge :=
  if st.emergencyVerificationPaused then .error (.internal pausedMessage)
  else
    match C.strkeyFromString account with
    | none => .error (.badRequest "Invalid Stellar address")
    | some .other => .error (.badRequest "Expected G... account address")
    | some (.publicKeyEd25519 client) =>
      .ok {
        client
        tx := challengeTx (st.serverPublicKey C) client (C.encodeBase64 nonce.toList) now
        madeAt := now }

def challengeHandler (st : AuthState SecretKey) (account : String) (nonce : BytesN 48) (now : ℕ) :
    Except AppError ChallengeResponse :=
  (makeChallenge C st account nonce now).map fun c =>
    { transaction := buildChallengeEnvelope C st c, networkPassphrase := st.networkPassphrase }

def readEnvelope (signedXdr : String) : Except AppError (Transaction × List DecoratedSignature) :=
  match C.decodeBase64 signedXdr with
  | none => .error (.badRequest "Invalid base64")
  | some raw =>
    match C.envelopeFromXdr raw with
    | none => .error (.badRequest "Invalid transaction XDR")
    | some (.other _) => .error (.badRequest "Expected TransactionV1 envelope")
    | some (.tx tx signatures) => .ok (tx, signatures)

def checkTransaction (serverKey : Key) (now : ℕ) (tx : Transaction) : Except AppError Unit :=
  if tx.seqNum ≠ 0 then .error (.badRequest "Non-zero sequence number")
  else
    match tx.sourceAccount with
    | .other _ => .error (.badRequest "Unsupported source account type")
    | .ed25519 sourceKey =>
      if sourceKey ≠ serverKey then .error (.badRequest "Challenge not issued by this server")
      else
        match tx.cond with
        | .other _ => .error (.badRequest "Missing time bounds")
        | .time _ maxTime =>
          if now > maxTime then .error (.badRequest "Challenge expired") else .ok ()

/-- The account that the first operation is about. -/
def clientKey (tx : Transaction) : Except AppError Key :=
  match tx.operations with
  | [] => .error (.badRequest "No operations in challenge")
  | op :: _ =>
    match op.sourceAccount with
    | some (.ed25519 client) =>
      match op.body with
      | .other _ => .error (.badRequest "Expected ManageData operation")
      | .manageData dataName _ =>
        match String.fromUTF8? ⟨dataName.toArray⟩ with
        | none => .error (.badRequest "Invalid data name encoding")
        | some name =>
          if name ≠ webAuthDomain ++ " auth" then .error (.badRequest "Invalid manage_data key")
          else .ok client
    | _ => .error (.badRequest "Missing client account on operation")

/-- One of the signatures: whether it is one of the key, when the hint is that of the key. -/
def isSignatureOf (hash : BytesN 32) (key : Key) (ds : DecoratedSignature) : Bool :=
  ds.hint = hintOf key && C.isVerifyingKey key && C.verify key hash ds.signature

/-- Signatures of another length are skipped. -/
def signatureStep (hash : BytesN 32) (serverKey client : Key) (found : Bool × Bool)
    (ds : DecoratedSignature) : Bool × Bool :=
  if ds.signature.length ≠ 64 then found
  else
    (found.1 || isSignatureOf C hash serverKey ds, found.2 || isSignatureOf C hash client ds)

def checkSignatures (hash : BytesN 32) (serverKey client : Key)
    (signatures : List DecoratedSignature) : Except AppError Unit :=
  let found := signatures.foldl (signatureStep C hash serverKey client) (false, false)
  if !found.1 then .error (.unauthorized "Missing valid server signature")
  else if !found.2 then .error (.unauthorized "Missing valid client signature")
  else .ok ()

def claimsOf (client : Key) (now : ℕ) : Claims where
  sub := C.strkeyToString client
  iss := webAuthDomain
  iat := now
  exp := now + jwtExpirySecs
  scopes := ["simulate"]

/-- The claims for which a token is given out. -/
def issue (st : AuthState SecretKey) (signedXdr : String) (now : ℕ) : Except AppError Claims := do
  let (tx, signatures) ← readEnvelope C signedXdr
  checkTransaction (st.serverPublicKey C) now tx
  let client ← clientKey tx
  checkSignatures C (st.hashOf tx) (st.serverPublicKey C) client signatures
  return claimsOf C client now

def verifyChallengeEnvelope (st : AuthState SecretKey) (signedXdr : String) (now : ℕ) :
    Except AppError String := do
  let claims ← issue C st signedXdr now
  match C.jwtEncode claims with
  | .error e => throw (.internal ("JWT encode error: " ++ e))
  | .ok token => return token

def verifyHandler (st : AuthState SecretKey) (signedXdr : String) (now : ℕ) :
    Except AppError String :=
  if st.emergencyVerificationPaused then .error (.internal pausedMessage)
  else verifyChallengeEnvelope C st signedXdr now

def validateToken (st : AuthState SecretKey) (token : String) (now : ℕ) : Except AppError Unit :=
  if st.emergencyVerificationPaused then
    .error (.internal "Authentication is temporarily paused for emergency maintenance")
  else
    match C.jwtDecode token now with
    | .error e => .error (.unauthorized ("Invalid token: " ++ e))
    | .ok claims =>
      if "simulate" ∉ claims.scopes then
        .error (.unauthorized "Missing required scope 'simulate'")
      else .ok ()

/-- The token of a header. -/
def bearer? (header : String) : Option String :=
  (Text.stripPrefix "Bearer ".toList header.toList).map String.ofList

/-- The check before a request, given the header if it is there and a text. -/
def authMiddleware (st : AuthState SecretKey) (header : Option String) (now : ℕ) :
    Except AppError Unit :=
  match header with
  | none => .error (.unauthorized "Missing Authorization header")
  | some header =>
    match bearer? header with
    | none => .error (.unauthorized "Expected Bearer token")
    | some token => validateToken C st token now

/-! ## For what a token is given out -/

section

variable {C} {st : AuthState SecretKey} {hash : BytesN 32} {serverKey client : Key} {now : ℕ}

/-- A signature that counts as one of a key. -/
def Signs (C : Crates SecretKey) (hash : BytesN 32) (key : Key) (ds : DecoratedSignature) : Prop :=
  ds.signature.length = 64 ∧ isSignatureOf C hash key ds

theorem foldl_signatureStep (signatures : List DecoratedSignature) (found : Bool × Bool) :
    ((signatures.foldl (signatureStep C hash serverKey client) found).1 = true ↔
        found.1 = true ∨ ∃ ds ∈ signatures, Signs C hash serverKey ds) ∧
      ((signatures.foldl (signatureStep C hash serverKey client) found).2 = true ↔
        found.2 = true ∨ ∃ ds ∈ signatures, Signs C hash client ds) := by
  induction signatures generalizing found with
  | nil => simp
  | cons ds signatures ih =>
    obtain ⟨hserver, hclient⟩ := ih (signatureStep C hash serverKey client found ds)
    rw [List.foldl_cons, hserver, hclient]
    rw [signatureStep]
    split
    case isTrue hlength => simp [Signs, hlength]
    case isFalse hlength => simp [Signs, not_not.mp hlength, or_assoc]

/-- **The signatures**: there must be one of the server and one of the client. -/
theorem checkSignatures_eq_ok_iff {signatures : List DecoratedSignature} {u : Unit} :
    checkSignatures C hash serverKey client signatures = .ok u ↔
      (∃ ds ∈ signatures, Signs C hash serverKey ds) ∧
        ∃ ds ∈ signatures, Signs C hash client ds := by
  obtain ⟨hserver, hclient⟩ :=
    @foldl_signatureStep _ C hash serverKey client signatures (false, false)
  simp only [Bool.false_eq_true, false_or] at hserver hclient
  rw [← hserver, ← hclient, checkSignatures]
  split
  case isTrue h => simp_all
  case isFalse h =>
    split <;> simp_all

/-- **The transaction**: it has the number and the source of a challenge, and its time has not
passed. -/
theorem checkTransaction_eq_ok_iff {tx : Transaction} {u : Unit} :
    checkTransaction serverKey now tx = .ok u ↔
      tx.seqNum = 0 ∧ tx.sourceAccount = .ed25519 serverKey ∧
        ∃ minTime maxTime, tx.cond = .time minTime maxTime ∧ now ≤ maxTime := by
  rw [checkTransaction]
  split
  case isTrue h => exact ⟨nofun, fun h' => absurd h'.1 h⟩
  case isFalse h =>
    rw [not_not] at h
    rcases tx.sourceAccount with sourceKey | xdr
    · rcases tx.cond with ⟨minTime, maxTime⟩ | xdr
      · by_cases hkey : sourceKey = serverKey
        · by_cases hnow : now > maxTime
          · simp [h, hkey, hnow, Nat.not_le.mpr hnow]
          · simp [h, hkey, hnow, Nat.not_lt.mp hnow]
        · simp [h, hkey]
      · by_cases hkey : sourceKey = serverKey <;> simp [h, hkey]
    · simp

/-- The name that the data of a challenge has. -/
def IsChallengeOperation (op : Operation) (client : Key) : Prop :=
  op.sourceAccount = some (.ed25519 client) ∧ ∃ dataName dataValue,
    op.body = .manageData dataName dataValue ∧
      String.fromUTF8? ⟨dataName.toArray⟩ = some (webAuthDomain ++ " auth")

/-- **The account**: the first operation names it. -/
theorem clientKey_eq_ok_iff {tx : Transaction} :
    clientKey tx = .ok client ↔
      ∃ op rest, tx.operations = op :: rest ∧ IsChallengeOperation op client := by
  rw [clientKey]
  rcases tx.operations with - | ⟨⟨source, body⟩, rest⟩
  · simp
  rw [show (∃ op rest', (⟨source, body⟩ :: rest : List Operation) = op :: rest' ∧
      IsChallengeOperation op client) ↔ IsChallengeOperation ⟨source, body⟩ client by simp]
  rcases source with - | key | xdr
  · simp [IsChallengeOperation]
  · rcases body with ⟨dataName, dataValue⟩ | xdr
    · rcases hname : String.fromUTF8? ⟨dataName.toArray⟩ with - | name
      · simp [IsChallengeOperation, hname]
      · by_cases heq : name = webAuthDomain ++ " auth"
        · simp [IsChallengeOperation, hname, heq]
        · simp [IsChallengeOperation, hname, heq]
    · simp [IsChallengeOperation]
  · simp [IsChallengeOperation]

/-- **For what a token is given out**: a transaction that looks like a challenge of the server for
the client, in its time, with signatures of both. -/
theorem issue_eq_ok_iff {signedXdr : String} {claims : Claims} :
    issue C st signedXdr now = .ok claims ↔ ∃ tx signatures client,
      readEnvelope C signedXdr = .ok (tx, signatures) ∧
      (tx.seqNum = 0 ∧ tx.sourceAccount = .ed25519 (st.serverPublicKey C) ∧
        ∃ minTime maxTime, tx.cond = .time minTime maxTime ∧ now ≤ maxTime) ∧
      (∃ op rest, tx.operations = op :: rest ∧ IsChallengeOperation op client) ∧
      ((∃ ds ∈ signatures, Signs C (st.hashOf tx) (st.serverPublicKey C) ds) ∧
        ∃ ds ∈ signatures, Signs C (st.hashOf tx) client ds) ∧
      claims = claimsOf C client now := by
  simp only [← checkTransaction_eq_ok_iff (u := ()), ← clientKey_eq_ok_iff,
    ← checkSignatures_eq_ok_iff (u := ())]
  rw [issue]
  rcases readEnvelope C signedXdr with e | ⟨tx, signatures⟩
  · simp [bind, Except.bind]
  rcases hcheck : checkTransaction (st.serverPublicKey C) now tx with e | u
  · simp [bind, Except.bind, hcheck]
  rcases hclient : clientKey tx with e | client
  · simp [bind, Except.bind, hcheck, hclient]
  rcases hsignatures : checkSignatures C (st.hashOf tx) (st.serverPublicKey C) client signatures
    with e | u'
  · simp [bind, Except.bind, hcheck, hclient, hsignatures]
  · simp [bind, Except.bind, hcheck, hclient, hsignatures, pure, Except.pure, eq_comm]

theorem fromUTF8?_bytesOf (s : String) : String.fromUTF8? ⟨(bytesOf s).toArray⟩ = some s := by
  rw [bytesOf, Array.toArray_toList, String.fromUTF8?]
  simp only [Option.dite_none_right_eq_some, Option.some.injEq]
  exact ⟨s.isValidUTF8, rfl⟩

/-- **Which signatures on a challenge get a token, and until when**: those with one of the server
and one of the client among them, in any order and with any others, and that for as often as they
come until the challenge expires. For the account of the server itself one signature is both. -/
theorem issue_challenge_iff {signedXdr nonceValue : String} {madeAt : ℕ}
    {signatures : List DecoratedSignature} {claims : Claims}
    (hread : readEnvelope C signedXdr =
      .ok (challengeTx (st.serverPublicKey C) client nonceValue madeAt, signatures)) :
    issue C st signedXdr now = .ok claims ↔ now ≤ madeAt + challengeExpirySecs ∧
      (∃ ds ∈ signatures, Signs C (st.hashOf
        (challengeTx (st.serverPublicKey C) client nonceValue madeAt)) (st.serverPublicKey C) ds) ∧
      (∃ ds ∈ signatures, Signs C (st.hashOf
        (challengeTx (st.serverPublicKey C) client nonceValue madeAt)) client ds) ∧
      claims = claimsOf C client now := by
  rw [issue_eq_ok_iff]
  constructor
  · rintro ⟨tx, signatures', client', hread', ⟨-, -, minTime, maxTime, hcond, hle⟩,
      ⟨op, rest, hops, hop, -⟩, ⟨hserver, hclient⟩, rfl⟩
    -- what was read is the challenge, and its operation names the client
    rw [hread, Except.ok.injEq, Prod.mk.injEq] at hread'
    obtain ⟨rfl, rfl⟩ := hread'
    obtain ⟨rfl, -⟩ := List.cons_eq_cons.mp hops
    rw [Option.some.injEq, MuxedAccount.ed25519.injEq] at hop
    subst hop
    rw [challengeTx, Preconditions.time.injEq] at hcond
    exact ⟨hcond.2 ▸ hle, hserver, hclient, rfl⟩
  · rintro ⟨hle, hserver, hclient, rfl⟩
    exact ⟨_, signatures, client, hread, ⟨rfl, rfl, _, _, rfl, hle⟩,
      ⟨_, _, rfl, rfl, _, _, rfl, fromUTF8?_bytesOf _⟩, ⟨hserver, hclient⟩, rfl⟩

/-! ## Runs -/

/-- What may happen. A signature of a client on a hash can be made at any time. -/
inductive Event
  | challenge (account : String) (nonce : BytesN 48) (now : ℕ)
  | sign (key : Key) (hash : BytesN 32)
  | verify (signedXdr : String) (now : ℕ)
  | request (header : Option String) (now : ℕ)
  | pause (paused : Bool)

/-- The server, with the challenges that it has made, the signatures that were made by others, and
the claims for which tokens were given out. -/
structure World (SecretKey : Type) where
  server : AuthState SecretKey
  challenges : List Challenge
  signatures : List (Key × BytesN 32)
  issued : List Claims

def World.init (server : AuthState SecretKey) : World SecretKey := ⟨server, [], [], []⟩

variable (C) in
def next (w : World SecretKey) : Event → World SecretKey
  | .challenge account nonce now =>
    match makeChallenge C w.server account nonce now with
    | .error _ => w
    | .ok c => { w with challenges := c :: w.challenges }
  | .sign key hash => { w with signatures := (key, hash) :: w.signatures }
  | .verify signedXdr now =>
    match verifyHandler C w.server signedXdr now, issue C w.server signedXdr now with
    | .ok _, .ok claims => { w with issued := claims :: w.issued }
    | _, _ => w
  | .request _ _ => w
  | .pause paused => { w with server.emergencyVerificationPaused := paused }

/-- The signatures that were made: those of the server on its challenges, and those of others. -/
def World.IsMade (C : Crates SecretKey) (w : World SecretKey) (key : Key) (hash : BytesN 32) :
    Prop :=
  (key, hash) ∈ w.signatures ∨
    key = w.server.serverPublicKey C ∧ ∃ c ∈ w.challenges, hash = w.server.hashOf c.tx

/-- What may come, where the accounts that are `honest` keep their keys secret, and so does the
server: a signature of an honest account was made by it, a token was given out by the server, and no
transaction has the hash of a challenge that is another one. -/
def Possible (C : Crates SecretKey) (honest : Key → Prop) (w : World SecretKey) : Event → Prop
  | .sign key _ => key ≠ w.server.serverPublicKey C
  | .verify signedXdr _ => ∀ tx signatures, readEnvelope C signedXdr = .ok (tx, signatures) →
      (∀ ds ∈ signatures, ∀ key hash, honest key ∨ key = w.server.serverPublicKey C →
        C.verify key hash ds.signature → w.IsMade C key hash) ∧
      ∀ c ∈ w.challenges, w.server.hashOf tx = w.server.hashOf c.tx → tx = c.tx
  | .request header now => ∀ text token claims, header = some text → bearer? text = some token →
      C.jwtDecode token now = .ok claims → claims ∈ w.issued
  | _ => True

/-- A step of a world in which nothing is forged. -/
def Step (C : Crates SecretKey) (honest : Key → Prop) (w : World SecretKey) (event : Event)
    (w' : World SecretKey) : Prop :=
  Possible C honest w event ∧ w' = next C w event

variable {honest : Key → Prop} {w w' : World SecretKey} {event : Event} {events : List Event}

/-- A token was given out for these claims, for a challenge that its client has signed. -/
structure Backed (C : Crates SecretKey) (honest : Key → Prop) (server : AuthState SecretKey)
    (events : List Event) (claims : Claims) : Prop where
  exists_verify : ∃ signedXdr, Event.verify signedXdr claims.iat ∈ events
  exists_challenge : ∃ account client nonce madeAt,
    Event.challenge account nonce madeAt ∈ events ∧
    C.strkeyFromString account = some (.publicKeyEd25519 client) ∧
    claims = claimsOf C client claims.iat ∧ claims.iat ≤ madeAt + challengeExpirySecs ∧
    (honest client → client = server.serverPublicKey C ∨
      Event.sign client (server.hashOf (challengeTx (server.serverPublicKey C) client
        (C.encodeBase64 nonce.toList) madeAt)) ∈ events)

/-- A challenge comes from an account that has asked for it. -/
def Asked (C : Crates SecretKey) (server : AuthState SecretKey) (events : List Event)
    (c : Challenge) : Prop :=
  ∃ account nonce, Event.challenge account nonce c.madeAt ∈ events ∧
    C.strkeyFromString account = some (.publicKeyEd25519 c.client) ∧
    c.tx = challengeTx (server.serverPublicKey C) c.client (C.encodeBase64 nonce.toList) c.madeAt

/-- What is true of a world after some events. -/
structure Inv (C : Crates SecretKey) (honest : Key → Prop) (server : AuthState SecretKey)
    (events : List Event) (w : World SecretKey) : Prop where
  signingKey_eq : w.server.signingKey = server.signingKey
  networkPassphrase_eq : w.server.networkPassphrase = server.networkPassphrase
  asked : ∀ c ∈ w.challenges, Asked C server events c
  sign_mem : ∀ key hash, (key, hash) ∈ w.signatures →
    Event.sign key hash ∈ events ∧ key ≠ server.serverPublicKey C
  backed : ∀ claims ∈ w.issued, Backed C honest server events claims

variable {server : AuthState SecretKey}

theorem Backed.concat {claims : Claims} (h : Backed C honest server events claims) :
    Backed C honest server (events ++ [event]) claims := by
  obtain ⟨⟨signedXdr, hverify⟩, account, client, nonce, madeAt, hmem, hstrkey, heq, hle,
    hsigned⟩ := h
  refine ⟨⟨signedXdr, List.mem_append_left _ hverify⟩, account, client, nonce, madeAt,
    List.mem_append_left _ hmem, hstrkey, heq, hle, fun hhonest => ?_⟩
  exact (hsigned hhonest).imp_right (List.mem_append_left _)

theorem Asked.concat {c : Challenge} (h : Asked C server events c) :
    Asked C server (events ++ [event]) c := by
  obtain ⟨account, nonce, hmem, hasked⟩ := h
  exact ⟨account, nonce, List.mem_append_left _ hmem, hasked⟩

theorem makeChallenge_eq_ok {account : String} {nonce : BytesN 48} {c : Challenge}
    (h : makeChallenge C st account nonce now = .ok c) :
    C.strkeyFromString account = some (.publicKeyEd25519 c.client) ∧ c.madeAt = now ∧
      c.tx = challengeTx (st.serverPublicKey C) c.client (C.encodeBase64 nonce.toList) now := by
  rw [makeChallenge] at h
  split at h
  case isTrue => cases h
  case isFalse =>
    split at h
    case h_1 => cases h
    case h_2 => cases h
    case h_3 client hstrkey =>
      cases h
      exact ⟨hstrkey, rfl, rfl⟩

theorem Inv.serverPublicKey_eq (h : Inv C honest server events w) :
    w.server.serverPublicKey C = server.serverPublicKey C := by
  rw [AuthState.serverPublicKey, h.signingKey_eq, AuthState.serverPublicKey]

theorem Inv.hashOf_eq (h : Inv C honest server events w) (tx : Transaction) :
    w.server.hashOf tx = server.hashOf tx := by
  rw [AuthState.hashOf, h.networkPassphrase_eq, AuthState.hashOf]

/-- What gets a token is a challenge that was asked for, and was signed by its client. -/
theorem Inv.backed_of_issue (h : Inv C honest server events w) {signedXdr : String}
    {claims : Claims} (hpossible : Possible C honest w (.verify signedXdr now))
    (hissue : issue C w.server signedXdr now = .ok claims) :
    Backed C honest server (events ++ [.verify signedXdr now]) claims := by
  obtain ⟨tx, signatures, client, hread, ⟨-, -, minTime, maxTime, hcond, hle⟩,
    ⟨op, rest, hops, hop, -⟩, ⟨⟨ds, hds, -, hserver⟩, ds', hds', -, hclient⟩, rfl⟩ :=
    issue_eq_ok_iff.mp hissue
  obtain ⟨hforged, hcollision⟩ := hpossible tx signatures hread
  rw [isSignatureOf, Bool.and_eq_true] at hserver hclient
  -- the server has signed the hash of a challenge, which is the transaction
  have hmade := hforged ds hds _ _ (.inr rfl) hserver.2
  rcases hmade with hsign | ⟨-, c, hc, hhash⟩
  · exact absurd h.serverPublicKey_eq (h.sign_mem _ _ hsign).2
  obtain rfl := hcollision c hc hhash
  obtain ⟨account, nonce, hmem, hstrkey, htx⟩ := h.asked c hc
  rw [htx] at hops hcond
  rw [challengeTx, Preconditions.time.injEq] at hcond
  obtain ⟨rfl, -⟩ := List.cons_eq_cons.mp hops
  rw [Option.some.injEq, MuxedAccount.ed25519.injEq] at hop
  subst hop
  refine ⟨⟨signedXdr, by simp [claimsOf]⟩, account, c.client, nonce, c.madeAt,
    List.mem_append_left _ hmem, hstrkey, rfl, hcond.2 ▸ hle, fun hhonest => ?_⟩
  rcases hforged ds' hds' _ _ (.inl hhonest) hclient.2 with hsign | ⟨heq, -⟩
  · right
    rw [h.hashOf_eq, htx] at hsign
    exact List.mem_append_left _ (h.sign_mem _ _ hsign).1
  · exact .inl (heq.trans h.serverPublicKey_eq)

/-- One event. -/
theorem Inv.next (h : Inv C honest server events w) (hpossible : Possible C honest w event) :
    Inv C honest server (events ++ [event]) (next C w event) := by
  obtain ⟨hkey, hpassphrase, hasked, hsign, hbacked⟩ := h
  -- what was true of the earlier events is true of all
  have hasked' : ∀ c ∈ w.challenges, Asked C server (events ++ [event]) c :=
    fun c hc => (hasked c hc).concat
  have hsign' := fun key hash hmem =>
    And.imp_left (List.mem_append_left [event]) (hsign key hash hmem)
  have hbacked' : ∀ claims ∈ w.issued, Backed C honest server (events ++ [event]) claims :=
    fun claims hmem => (hbacked claims hmem).concat
  cases event with
  | challenge account nonce now =>
    rw [Auth.next]
    split
    case h_1 => exact ⟨hkey, hpassphrase, hasked', hsign', hbacked'⟩
    case h_2 c hc =>
      obtain ⟨hstrkey, hmadeAt, htx⟩ := makeChallenge_eq_ok hc
      refine ⟨hkey, hpassphrase, List.forall_mem_cons.mpr ⟨⟨account, nonce, ?_, hstrkey, ?_⟩,
        hasked'⟩, hsign', hbacked'⟩
      · simp [hmadeAt]
      · rw [htx, hmadeAt, AuthState.serverPublicKey, hkey, AuthState.serverPublicKey]
  | sign key hash =>
    refine ⟨hkey, hpassphrase, hasked', fun key' hash' hmem => ?_, hbacked'⟩
    rcases List.mem_cons.mp hmem with heq | hmem
    · cases heq
      refine ⟨by simp, ?_⟩
      rwa [AuthState.serverPublicKey, ← hkey]
    · exact hsign' key' hash' hmem
  | verify signedXdr now =>
    rw [Auth.next]
    split
    case h_1 token claims htoken hissue =>
      have hclaims := Inv.backed_of_issue ⟨hkey, hpassphrase, hasked, hsign, hbacked⟩ hpossible
        hissue
      exact ⟨hkey, hpassphrase, hasked', hsign', List.forall_mem_cons.mpr ⟨hclaims, hbacked'⟩⟩
    case h_2 => exact ⟨hkey, hpassphrase, hasked', hsign', hbacked'⟩
  | request header now => exact ⟨hkey, hpassphrase, hasked', hsign', hbacked'⟩
  | pause paused => exact ⟨hkey, hpassphrase, hasked', hsign', hbacked'⟩

theorem inv_of_run (hrun : Run (Step C honest) (World.init server) events w) :
    Inv C honest server events w := by
  refine hrun.history (H := Inv C honest server) ?_ ⟨rfl, rfl, nofun, nofun, nofun⟩
  rintro events w event _ h ⟨hpossible, rfl⟩
  exact h.next hpossible

/-- **Who is let through has signed a challenge of the server**, which was asked for at most five
minutes before the token was given out, and that was at most a day before, up to the leeway. Nobody
is let through while the verification is paused. -/
theorem authMiddleware_of_run (hrun : Run (Step C honest) (World.init server) events w)
    {header : Option String} (hpossible : Possible C honest w (.request header now))
    (hok : authMiddleware C w.server header now = .ok ()) :
    w.server.emergencyVerificationPaused = false ∧ ∃ account client nonce madeAt iat signedXdr,
      Event.challenge account nonce madeAt ∈ events ∧
      C.strkeyFromString account = some (.publicKeyEd25519 client) ∧
      Event.verify signedXdr iat ∈ events ∧
      iat ≤ madeAt + challengeExpirySecs ∧ now ≤ iat + jwtExpirySecs + leeway ∧
      (honest client → client = server.serverPublicKey C ∨
        Event.sign client (server.hashOf (challengeTx (server.serverPublicKey C) client
          (C.encodeBase64 nonce.toList) madeAt)) ∈ events) := by
  rcases header with - | text
  · cases hok
  · rw [authMiddleware] at hok
    split at hok
    case h_1 => cases hok
    case h_2 token htoken =>
      rw [validateToken] at hok
      split at hok
      case isTrue => cases hok
      case isFalse hpaused =>
        refine ⟨Bool.eq_false_iff.mpr hpaused, ?_⟩
        split at hok
        case h_1 => cases hok
        case h_2 claims hclaims =>
          -- the token was given out, and has not expired
          have hissued := hpossible _ token claims rfl htoken hclaims
          obtain ⟨⟨signedXdr, hverify⟩, account, client, nonce, madeAt, hmem, hstrkey, heq, hle,
            hsigned⟩ := (inv_of_run hrun).backed claims hissued
          have hexp := C.le_of_jwtDecode token now claims hclaims
          rw [heq] at hexp
          exact ⟨account, client, nonce, madeAt, claims.iat, signedXdr, hmem, hstrkey, hverify, hle,
            hexp, hsigned⟩

end

/-! ## One account -/

def base64Digit (n : ℕ) : Char :=
  "ABCDEFGHIJKLMNOPQRSTUVWXYZabcdefghijklmnopqrstuvwxyz0123456789+/".toList.getD (n % 64) '='

/-- Base64 with padding. -/
def base64 : List UInt8 → List Char
  | a :: b :: c :: rest =>
    let n := (a.toNat * 256 + b.toNat) * 256 + c.toNat
    base64Digit (n / 64 ^ 3) :: base64Digit (n / 64 ^ 2) :: base64Digit (n / 64) ::
      base64Digit n :: base64 rest
  | [a, b] =>
    let n := (a.toNat * 256 + b.toNat) * 4
    [base64Digit (n / 64 ^ 2), base64Digit (n / 64), base64Digit n, '=']
  | [a] =>
    let n := a.toNat * 16
    [base64Digit (n / 64), base64Digit n, '=', '=']
  | [] => []

example : String.ofList (base64 (bytesOf "challenge")) = "Y2hhbGxlbmdl" := by decide +kernel

def serverKey : Key := .replicate 32 1

def accountKey : Key := .replicate 32 2

/-- The address of `accountKey`. -/
def account : String := "GABAEAQCAIBAEAQCAIBAEAQCAIBAEAQCAIBAEAQCAIBAEAQCAIBAEJXA"

/-- The challenge that the account gets at time 1000. -/
def accountTx : Transaction :=
  challengeTx serverKey accountKey
    (String.ofList (base64 (BytesN.replicate 48 0).toList)) 1000

def accountHash : BytesN 32 := txHash accountTx (networkId "Test SDF Network ; September 2015")

/-- The signature of a key on the challenge, as the scheme of `oneAccount` has it. -/
def signatureOf (key : Key) : DecoratedSignature where
  hint := hintOf key
  signature := key.toList ++ accountHash.toList

/-- The challenge with both signatures, that of the account first. -/
def accountEnvelope : TransactionEnvelope :=
  .tx accountTx [signatureOf accountKey, signatureOf serverKey]

def submitted : String := String.ofList (base64 accountEnvelope.toXdr)

def accountClaims : Claims where
  sub := account
  iss := "sky-moon-scope"
  exp := 87700
  iat := 1300
  scopes := ["simulate"]

/-- The libraries on what `account` sends. A signature is the key and what was signed. -/
def oneAccount : Crates Key where
  encodeBase64 bs := String.ofList (base64 bs)
  decodeBase64 s := if s = submitted then some accountEnvelope.toXdr else none
  envelopeFromXdr bs := if bs = accountEnvelope.toXdr then some accountEnvelope else none
  strkeyFromString s := if s = account then some (.publicKeyEd25519 accountKey) else none
  strkeyToString _ := account
  verifyingKey key := key
  sign key hash := key.toList ++ hash.toList
  isVerifyingKey _ := true
  verify key hash signature := signature = key.toList ++ hash.toList
  jwtEncode _ := .ok "header.claims.signature"
  jwtDecode token now :=
    if token = "header.claims.signature" ∧ now ≤ accountClaims.exp + leeway then .ok accountClaims
    else .error "InvalidToken"
  le_of_jwtDecode token now claims h := by
    split at h
    case isTrue hle => exact (Except.ok.inj h) ▸ hle.2
    case isFalse => cases h

def server : AuthState Key :=
  { signingKey := serverKey, networkPassphrase := "Test SDF Network ; September 2015",
    emergencyVerificationPaused := false }

theorem readEnvelope_submitted : readEnvelope oneAccount submitted =
    .ok (challengeTx (server.serverPublicKey oneAccount) accountKey
      (String.ofList (base64 (BytesN.replicate 48 0).toList)) 1000,
        [signatureOf accountKey, signatureOf serverKey]) := by
  have hraw : oneAccount.decodeBase64 submitted = some accountEnvelope.toXdr := by
    simp only [oneAccount, if_pos]
  have henvelope : oneAccount.envelopeFromXdr accountEnvelope.toXdr = some accountEnvelope := by
    simp only [oneAccount, if_pos]
  rw [readEnvelope, hraw]
  dsimp only
  rw [henvelope]
  rfl

theorem signs_signatureOf (key : Key) :
    Signs oneAccount accountHash key (signatureOf key) := by
  refine ⟨by simp [signatureOf], ?_⟩
  simp [isSignatureOf, oneAccount, signatureOf]

/-- The last second in which the challenge gets a token. -/
theorem issue_challenge_iff_submitted :
    issue oneAccount server submitted 1300 = .ok accountClaims ↔
      1300 ≤ 1000 + challengeExpirySecs ∧
      (∃ ds ∈ [signatureOf accountKey, signatureOf serverKey],
        Signs oneAccount accountHash serverKey ds) ∧
      (∃ ds ∈ [signatureOf accountKey, signatureOf serverKey],
        Signs oneAccount accountHash accountKey ds) ∧
      accountClaims = claimsOf oneAccount accountKey 1300 :=
  issue_challenge_iff readEnvelope_submitted

/-- Asked for, signed and submitted in the last second. -/
def accountEvents : List Event :=
  [.challenge account (.replicate 48 0) 1000, .sign accountKey accountHash, .verify submitted 1300]

/-- The world after that. -/
def accountWorld : World Key where
  server := server
  challenges := [⟨accountKey, accountTx, 1000⟩]
  signatures := [(accountKey, accountHash)]
  issued := [accountClaims]

theorem issue_submitted : issue oneAccount server submitted 1300 = .ok accountClaims := by
  refine (issue_challenge_iff readEnvelope_submitted).mpr ⟨by decide, ?_, ?_, rfl⟩
  · exact ⟨_, by simp, signs_signatureOf serverKey⟩
  · exact ⟨_, by simp, signs_signatureOf accountKey⟩

theorem run_accountEvents :
    Run (Step oneAccount fun _ => True) (World.init server) accountEvents accountWorld := by
  have hverify : verifyHandler oneAccount server submitted 1300 =
      .ok "header.claims.signature" := by
    rw [verifyHandler, if_neg (by decide), verifyChallengeEnvelope, issue_submitted]
    rfl
  have hasked : makeChallenge oneAccount server account (.replicate 48 0) 1000 =
      .ok ⟨accountKey, accountTx, 1000⟩ := by
    have hstrkey : oneAccount.strkeyFromString account = some (.publicKeyEd25519 accountKey) := by
      simp only [oneAccount, if_pos]
    rw [makeChallenge, if_neg (by decide), hstrkey]
    rfl
  refine .cons ⟨trivial, rfl⟩ (.cons ⟨?_, rfl⟩ (.cons ⟨?_, ?_⟩ (.nil _)))
  · exact (by decide : accountKey ≠ serverKey)
  · intro tx signatures hread
    rw [readEnvelope_submitted, Except.ok.injEq, Prod.mk.injEq] at hread
    obtain ⟨rfl, rfl⟩ := hread
    refine ⟨fun ds hds key hash _ hsigns => ?_, fun c hc _ => ?_⟩
    · have hsignature : ds.signature = key.toList ++ hash.toList := of_decide_eq_true hsigns
      -- a signature is by its key, and on the hash of the challenge
      rcases List.mem_pair.mp hds with rfl | rfl
      · obtain ⟨rfl, rfl⟩ := BytesN.append_inj hsignature.symm
        exact .inl List.mem_cons_self
      · obtain ⟨rfl, rfl⟩ := BytesN.append_inj hsignature.symm
        exact .inr ⟨rfl, _, List.mem_cons_self, rfl⟩
    · exact (congrArg Challenge.tx (List.mem_singleton.mp hc)).symm
  · simp only [Auth.next, World.init, hasked, hverify, issue_submitted]
    rfl

/-- The last second in which the account is let through. -/
theorem authMiddleware_of_run_account :
    accountWorld.server.emergencyVerificationPaused = false ∧
    ∃ address client nonce madeAt iat signedXdr,
    Event.challenge address nonce madeAt ∈ accountEvents ∧
    oneAccount.strkeyFromString address = some (.publicKeyEd25519 client) ∧
    Event.verify signedXdr iat ∈ accountEvents ∧
    iat ≤ madeAt + challengeExpirySecs ∧ 87760 ≤ iat + jwtExpirySecs + leeway ∧
    (True → client = server.serverPublicKey oneAccount ∨
      Event.sign client (server.hashOf (challengeTx (server.serverPublicKey oneAccount) client
        (oneAccount.encodeBase64 nonce.toList) madeAt)) ∈ accountEvents) := by
  have hbearer : bearer? "Bearer header.claims.signature" = some "header.claims.signature" := by
    decide +kernel
  have hpossible : Possible oneAccount (fun _ => True) accountWorld
      (.request (some "Bearer header.claims.signature") 87760) := by
    rintro text token claims htext htoken hclaims
    obtain rfl := Option.some.inj htext
    obtain rfl := Option.some.inj (hbearer.symm.trans htoken)
    obtain rfl : accountClaims = claims := Except.ok.inj hclaims
    exact List.mem_singleton_self _
  have hok : authMiddleware oneAccount accountWorld.server
      (some "Bearer header.claims.signature") 87760 = .ok () := by
    have hdecode : oneAccount.jwtDecode "header.claims.signature" 87760 = .ok accountClaims := rfl
    rw [authMiddleware, hbearer]
    dsimp only
    rw [validateToken, if_neg (by decide), hdecode]
    rfl
  exact authMiddleware_of_run run_accountEvents hpossible hok

end Core.Auth
