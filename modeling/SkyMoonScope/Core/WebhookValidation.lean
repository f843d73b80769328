import SkyMoonScope.Lib.Lease
import SkyMoonScope.Lib.Text
import SkyMoonScope.Lib.Machine
import SkyMoonScope.Lib.Sha256

/-!
# Inbound webhooks

A request is accepted when its timestamp is within the skew of the server's clock, its signature is
the HMAC of the timestamp and the body, and neither its delivery id nor the text of its signature is
in the replay cache. What is accepted stays in the cache for as long as the skew, from its arrival.

## Main definitions

* `NonceCache.checkAndStore`, `verifySignature`, `validate`, `fromRequest`: the extractor
* `Step`: the server handles one delivery, and its label says how
* `AcceptedOnce`: no two accepted deliveries of a run carry the same timestamp and body
* `Covered a b`: the cache entries of `a` are found by `b`

## Main results

* `verifySignature_sign`, `verifySignature_toUpper`: what is signed verifies, in either case
* `acceptedOnce_of_covered`: a signed request is accepted once along every run in which every
  re-delivery of it is covered by the earlier ones
* `covered_of_timestamp_lt`: a delivery that arrives after its timestamp covers whatever repeats
  the text of its signature
* `resent_isOk_iff`: of two deliveries of one request under different ids, the second is
  accepted exactly when it is not covered
-/

namespace Core.WebhookValidation

open Machine

/-- The characters of a header are visible ASCII, and its bytes are theirs; a body is bytes. -/
abbrev Bytes := List UInt8

def bytesOf (s : String) : Bytes := s.toUTF8.data.toList

def signatureHeader : String := "x-Sky Moon Scope-signature"

def deliveryHeader : String := "x-Sky Moon Scope-delivery"

def timestampHeader : String := "x-Sky Moon Scope-timestamp"

/-- The skew in seconds that a timestamp may have, either way. -/
def maxTimestampSkewSecs : ℕ := 300

inductive WebhookValidationError
  | missingHeader (name : String)
  | invalidTimestamp
  | timestampExpired
  | invalidSignature
  | bodyReadError
  | missingSecret
  | missingNonceCache
  | nonceAlreadyUsed
deriving DecidableEq

/-- `u64::saturating_add`. -/
def saturatingAdd (a b : ℕ) : ℕ := min (a + b) (2 ^ 64 - 1)

def parseU64 (s : String) : Option ℕ := Text.parseUnsigned (2 ^ 64) s.toList

/-- The replay cache: delivery ids and signatures, each with the time at which it expires. -/
abbrev NonceCache := Expiring.Store String

/-- When the entries of a delivery that arrives now expire. -/
def expiresAt (nowSecs : ℕ) : ℕ := saturatingAdd nowSecs maxTimestampSkewSecs

def NonceCache.checkAndStore (nonces : NonceCache) (nonce signature : String) (nowSecs : ℕ) :
    Bool × NonceCache :=
  let nonces := Expiring.retain nonces nowSecs
  let nonceKey := "nonce:" ++ nonce
  let signatureKey := "signature:" ++ signature
  if Expiring.contains nonces nonceKey || Expiring.contains nonces signatureKey then
    (false, nonces)
  else
    (true, Expiring.insert (Expiring.insert nonces nonceKey (expiresAt nowSecs)) signatureKey
      (expiresAt nowSecs))

/-- The authenticated message: the timestamp as it was sent, a dot, the body. -/
def signedMessage (timestamp : String) (body : Bytes) : Bytes :=
  bytesOf timestamp ++ bytesOf "." ++ body

def verifySignature (secret timestamp : String) (body : Bytes) (signature : String) : Bool :=
  match Text.stripPrefix "sha256=".toList signature.toList with
  | none => false
  | some hexSig =>
    match Hex.decode hexSig with
    | none => false
    | some sigBytes =>
      (Sha256.hmac (bytesOf secret) (signedMessage timestamp body)).toList = sigBytes

/-- `sign` of the outbound webhooks: the digits of the HMAC. -/
def sign (secret timestamp : String) (body : Bytes) : String :=
  String.ofList (Hex.encode (Sha256.hmac (bytesOf secret) (signedMessage timestamp body)).toList)

theorem verifySignature_eq_true_iff {secret timestamp hexSig : String} {body : Bytes} :
    verifySignature secret timestamp body ("sha256=" ++ hexSig) = true ↔
      Hex.decode hexSig.toList =
        some (Sha256.hmac (bytesOf secret) (signedMessage timestamp body)).toList := by
  rw [verifySignature, String.toList_append, Text.stripPrefix_append]
  cases h : Hex.decode hexSig.toList with
  | none => simp only [h, Bool.false_eq_true, reduceCtorEq]
  | some sigBytes =>
    simp only [h]
    exact decide_eq_true_iff.trans (eq_comm.trans Option.some_inj.symm)

/-- **What is signed verifies.** -/
theorem verifySignature_sign (secret timestamp : String) (body : Bytes) :
    verifySignature secret timestamp body ("sha256=" ++ sign secret timestamp body) = true := by
  rw [verifySignature_eq_true_iff, sign, String.toList_ofList, Hex.decode_encode]

/-- **A signature verifies in upper case too**: it has more than one text. -/
theorem verifySignature_toUpper {secret timestamp hexSig : String} {body : Bytes}
    (h : verifySignature secret timestamp body ("sha256=" ++ hexSig) = true) :
    verifySignature secret timestamp body ("sha256=" ++ hexSig.toUpper) = true := by
  rw [verifySignature_eq_true_iff] at h ⊢
  rw [String.toUpper, String.toList_map]
  exact Hex.decode_map_toUpper h

/-- How the server is configured: the secret in the request extensions and in the environment, and
whether the cache is among the extensions. -/
structure Server where
  extension : Option String
  env : Option String
  hasNonceCache : Bool

/-- The three headers, where present and text, and the body, where it can be read. -/
structure Request where
  timestamp : Option String
  signature : Option String
  delivery : Option String
  body : Option Bytes

/-- The secret; one from the environment has at least 32 bytes. -/
def Server.secret (srv : Server) : Except WebhookValidationError String :=
  match srv.extension, srv.env with
  | some s, _ => .ok s
  | none, some s => if (bytesOf s).length < 32 then .error .missingSecret else .ok s
  | none, none => .error .missingSecret

/-- A request that passes every check but the replay cache's. -/
structure Validated where
  timestamp : String
  signature : String
  delivery : String
  body : Bytes

/-- `ok_or` of the source. -/
def okOr {α : Type*} (o : Option α) (e : WebhookValidationError) :
    Except WebhookValidationError α :=
  match o with
  | some a => .ok a
  | none => .error e

/-- A check of the source, with the error it returns when it fails. -/
def ensure (p : Prop) [Decidable p] (e : WebhookValidationError) :
    Except WebhookValidationError Unit :=
  if p then .ok () else .error e

/-- The timestamp is within the skew, in either direction. -/
def Fresh (nowSecs requestTs : ℕ) : Prop :=
  nowSecs - requestTs ≤ maxTimestampSkewSecs ∧ requestTs - nowSecs ≤ maxTimestampSkewSecs

instance (nowSecs requestTs : ℕ) : Decidable (Fresh nowSecs requestTs) :=
  inferInstanceAs (Decidable (_ ∧ _))

/-- The checks before the replay cache, in the order of the source. -/
def validate (srv : Server) (nowSecs : ℕ) (req : Request) :
    Except WebhookValidationError Validated := do
  let secret ← srv.secret
  let timestamp ← okOr req.timestamp (.missingHeader timestampHeader)
  let signature ← okOr req.signature (.missingHeader signatureHeader)
  let delivery ← okOr (req.delivery.filter fun v => v ≠ "") (.missingHeader deliveryHeader)
  let requestTs ← okOr (parseU64 timestamp) .invalidTimestamp
  ensure (Fresh nowSecs requestTs) .timestampExpired
  ensure srv.hasNonceCache .missingNonceCache
  let body ← okOr req.body .bodyReadError
  ensure (verifySignature secret timestamp body signature) .invalidSignature
  return { timestamp, signature, delivery, body }

/-- `ValidatedWebhook::from_request`, with the cache it leaves. -/
def fromRequest (srv : Server) (nonces : NonceCache) (nowSecs : ℕ) (req : Request) :
    Except WebhookValidationError Bytes × NonceCache :=
  match validate srv nowSecs req with
  | .error e => (.error e, nonces)
  | .ok v =>
    match nonces.checkAndStore v.delivery v.signature nowSecs with
    | (true, nonces) => (.ok v.body, nonces)
    | (false, nonces) => (.error .nonceAlreadyUsed, nonces)

/-! ## Runs of deliveries -/

/-- A request and the second in which it arrives. -/
structure Delivery where
  nowSecs : ℕ
  request : Request

/-- The server handles one delivery; the label carries its answer. -/
def Step (srv : Server) (s : NonceCache) (l : Delivery × Except WebhookValidationError Bytes)
    (t : NonceCache) : Prop :=
  fromRequest srv s l.1.nowSecs l.1.request = (l.2, t)

/-- The same timestamp and body, whatever the other headers. -/
def SameRequest (a b : Delivery) : Prop :=
  a.request.timestamp = b.request.timestamp ∧ a.request.body = b.request.body

/-- If both pass the other checks, `b` repeats the signature text or the delivery id of `a`, and
arrives before the entries of `a` expire. -/
def Covered (srv : Server) (a b : Delivery) : Prop :=
  ∀ v w, validate srv a.nowSecs a.request = .ok v → validate srv b.nowSecs b.request = .ok w →
    (v.signature = w.signature ∨ v.delivery = w.delivery) ∧ b.nowSecs < expiresAt a.nowSecs

/-- No two accepted deliveries carry the same timestamp and body. -/
def AcceptedOnce (ls : List (Delivery × Except WebhookValidationError Bytes)) : Prop :=
  ls.Pairwise fun a b => SameRequest a.1 b.1 → ¬ (a.2.isOk ∧ b.2.isOk)

variable {srv : Server} {s t : NonceCache} {d a b : Delivery}
  {l : Delivery × Except WebhookValidationError Bytes}
  {ls : List (Delivery × Except WebhookValidationError Bytes)}

theorem nonceKey_ne_signatureKey (x y : String) : "nonce:" ++ x ≠ "signature:" ++ y := by
  intro h
  have := congrArg String.toList h
  simp at this

/-- An entry that has not expired stays. -/
theorem mem_checkAndStore {k nonce signature : String} {e nowSecs : ℕ} (h : (k, e) ∈ s)
    (hlt : nowSecs < e) : (k, e) ∈ (s.checkAndStore nonce signature nowSecs).2 := by
  have hmem : (k, e) ∈ Expiring.retain s nowSecs := Expiring.mem_retain.mpr ⟨h, hlt⟩
  simp only [NonceCache.checkAndStore]
  split
  case isTrue => exact hmem
  case isFalse hnew =>
    -- a key that is inserted is not one of those kept
    have hne : ∀ k', Expiring.contains (Expiring.retain s nowSecs) k' = false → k ≠ k' := by
      rintro k' hk' rfl
      exact absurd (Expiring.contains_iff.mpr ⟨e, hmem⟩) (by simp [hk'])
    simp only [Bool.or_eq_true, not_or, Bool.not_eq_true] at hnew
    exact Expiring.mem_insert_of_ne (Expiring.mem_insert_of_ne hmem (hne _ hnew.1))
      (hne _ hnew.2)

/-- What is stored is in the cache until it expires. -/
theorem mem_of_checkAndStore {nonce signature : String} {nowSecs : ℕ}
    (h : (s.checkAndStore nonce signature nowSecs).1 = true) :
    ("nonce:" ++ nonce, expiresAt nowSecs) ∈ (s.checkAndStore nonce signature nowSecs).2 ∧
      ("signature:" ++ signature, expiresAt nowSecs) ∈
        (s.checkAndStore nonce signature nowSecs).2 := by
  simp only [NonceCache.checkAndStore] at h ⊢
  split at h
  case isTrue => simp at h
  case isFalse hnew =>
    simp only [hnew]
    exact ⟨Expiring.mem_insert_of_ne Expiring.mem_insert_self (nonceKey_ne_signatureKey _ _),
      Expiring.mem_insert_self⟩

/-- A delivery is stored exactly when neither of its keys has an entry that has not expired. -/
theorem checkAndStore_iff {nonce signature : String} {nowSecs : ℕ} :
    (s.checkAndStore nonce signature nowSecs).1 = true ↔ ∀ k e, (k, e) ∈ s → nowSecs < e →
      k ≠ "nonce:" ++ nonce ∧ k ≠ "signature:" ++ signature := by
  have hkey : ∀ k, Expiring.contains (Expiring.retain s nowSecs) k = true ↔
      ∃ e, (k, e) ∈ s ∧ nowSecs < e := by
    intro k
    simp only [Expiring.contains_iff, Expiring.mem_retain]
  simp only [NonceCache.checkAndStore]
  split
  case isTrue hfound =>
    simp only [Bool.or_eq_true, hkey] at hfound
    simp only [Bool.false_eq_true, false_iff]
    intro hall
    rcases hfound with ⟨e, he, hlt⟩ | ⟨e, he, hlt⟩
    · exact (hall _ e he hlt).1 rfl
    · exact (hall _ e he hlt).2 rfl
  case isFalse hnew =>
    simp only [Bool.or_eq_true, hkey, not_or, not_exists, not_and] at hnew
    simp only [true_iff]
    intro k e he hlt
    constructor
    · rintro rfl
      exact hnew.1 e he hlt
    · rintro rfl
      exact hnew.2 e he hlt

/-- What is accepted passes the checks and is stored. -/
theorem of_isOk (h : Step srv s l t) (hok : l.2.isOk) :
    ∃ v, validate srv l.1.nowSecs l.1.request = .ok v ∧
      (s.checkAndStore v.delivery v.signature l.1.nowSecs).1 = true ∧
      t = (s.checkAndStore v.delivery v.signature l.1.nowSecs).2 := by
  obtain ⟨d, r⟩ := l
  unfold Step fromRequest at h
  split at h
  case h_1 e _ =>
    -- a request that fails a check is answered with its error
    obtain ⟨rfl, -⟩ := Prod.mk.inj h
    exact absurd hok (by simp [Except.isOk, Except.toBool])
  case h_2 v hv =>
    split at h
    case h_1 nonces hstore =>
      obtain ⟨-, rfl⟩ := Prod.mk.inj h
      exact ⟨v, hv, by rw [hstore], by rw [hstore]⟩
    case h_2 nonces hstore =>
      obtain ⟨rfl, -⟩ := Prod.mk.inj h
      exact absurd hok (by simp [Except.isOk, Except.toBool])

/-- A step keeps the entries that have not expired when it is taken. -/
theorem Step.mem {k : String} {e : ℕ} (h : Step srv s l t) (hk : (k, e) ∈ s)
    (hlt : l.1.nowSecs < e) : (k, e) ∈ t := by
  obtain ⟨d, r⟩ := l
  unfold Step fromRequest at h
  split at h
  case h_1 =>
    obtain ⟨-, rfl⟩ := Prod.mk.inj h
    exact hk
  case h_2 v _ =>
    have hmem : (k, e) ∈ (s.checkAndStore v.delivery v.signature d.nowSecs).2 :=
      mem_checkAndStore hk hlt
    split at h
    all_goals
      rename_i nonces hstore
      obtain ⟨-, rfl⟩ := Prod.mk.inj h
      rw [hstore] at hmem
      exact hmem

/-- A delivery is not accepted when one of its keys is in the cache at the start of the run and
has not expired when it arrives. -/
theorem not_isOk_of_mem (hrun : Run (Step srv) s ls t)
    (hsorted : ls.Pairwise fun x y => x.1.nowSecs ≤ y.1.nowSecs) (hl : l ∈ ls)
    (hkey : ∀ w, validate srv l.1.nowSecs l.1.request = .ok w → ∃ k e, (k, e) ∈ s ∧
      l.1.nowSecs < e ∧ (k = "nonce:" ++ w.delivery ∨ k = "signature:" ++ w.signature)) :
    ¬ l.2.isOk := by
  induction hrun with
  | nil => simp at hl
  | cons hstep _ ih =>
    obtain ⟨hle, hsorted⟩ := List.pairwise_cons.mp hsorted
    rcases List.mem_cons.mp hl with rfl | hl
    · intro hok
      obtain ⟨w, hw, hstore, -⟩ := of_isOk hstep hok
      obtain ⟨k, e, hk, hlt, hkey⟩ := hkey w hw
      obtain ⟨hnonce, hsignature⟩ := checkAndStore_iff.mp hstore k e hk hlt
      rcases hkey with hkey | hkey
      · exact hnonce hkey
      · exact hsignature hkey
    · -- until it arrives, the entry stays
      refine ih hsorted hl ?_
      intro w hw
      obtain ⟨k, e, hk, hlt, hkey⟩ := hkey w hw
      exact ⟨k, e, hstep.mem hk (lt_of_le_of_lt (hle _ hl) hlt), hlt, hkey⟩

theorem okOr_eq_ok {α : Type*} {o : Option α} {e : WebhookValidationError} {x : α} :
    okOr o e = .ok x ↔ o = some x := by
  cases o <;> simp [okOr]

theorem ensure_eq_ok {p : Prop} [Decidable p] {e : WebhookValidationError} {x : Unit} :
    ensure p e = .ok x ↔ p := by
  by_cases hp : p <;> simp [ensure, hp]

theorem bind_eq_ok {α β : Type} {x : Except WebhookValidationError α}
    {f : α → Except WebhookValidationError β} {y : β} :
    x >>= f = .ok y ↔ ∃ z, x = .ok z ∧ f z = .ok y := by
  cases x <;> simp [bind, Except.bind]

/-- **What passes the checks** is made of the headers and the body, has a fresh timestamp, and is
signed with the server's secret. -/
theorem validate_eq_ok_iff {nowSecs : ℕ} {req : Request} {v : Validated} :
    validate srv nowSecs req = .ok v ↔ ∃ secret, srv.secret = .ok secret ∧
      req.timestamp = some v.timestamp ∧ req.signature = some v.signature ∧
      req.delivery = some v.delivery ∧ v.delivery ≠ "" ∧
      (∃ ts, parseU64 v.timestamp = some ts ∧ Fresh nowSecs ts) ∧
      srv.hasNonceCache = true ∧ req.body = some v.body ∧
      verifySignature secret v.timestamp v.body v.signature = true := by
  obtain ⟨timestamp, signature, delivery, body⟩ := v
  simp only [validate, bind_eq_ok, okOr_eq_ok, ensure_eq_ok, Option.filter_eq_some_iff]
  constructor
  · rintro ⟨secret, hs, _, ht, _, hsig, _, hd, ts, hts, _, hf, _, hc, _, hb, _, hv, h⟩
    obtain ⟨rfl, rfl, rfl, rfl⟩ := by simpa [pure, Except.pure] using h
    exact ⟨secret, hs, ht, hsig, hd.1, by simpa using hd.2, ⟨ts, hts, hf⟩, hc, hb, hv⟩
  · rintro ⟨secret, hs, ht, hsig, hd, hne, ⟨ts, hts, hf⟩, hc, hb, hv⟩
    exact ⟨secret, hs, _, ht, _, hsig, _, ⟨hd, by simpa using hne⟩, ts, hts, (), hf, (), hc, _, hb,
      (), hv, rfl⟩

/-- A delivery that arrives after its timestamp covers whatever repeats its signature text: what is
accepted later is rejected as stale before the entries expire. -/
theorem covered_of_timestamp_lt (hsame : SameRequest a b)
    (hsig : a.request.signature = b.request.signature)
    (hts : ∀ s ∈ a.request.timestamp, ∀ ts ∈ parseU64 s, ts < a.nowSecs)
    (hmax : a.nowSecs + maxTimestampSkewSecs < 2 ^ 64) : Covered srv a b := by
  intro v w hv hw
  obtain ⟨-, -, hvt, hvs, -, -, -, -, -, -⟩ := validate_eq_ok_iff.mp hv
  obtain ⟨-, -, hwt, hws, -, -, ⟨ts, hparse, hfresh⟩, -, -, -⟩ := validate_eq_ok_iff.mp hw
  constructor
  · rw [hvs, hws] at hsig
    exact .inl (Option.some.inj hsig)
  · have hlt : ts < a.nowSecs := hts w.timestamp (by rw [hsame.1, hwt]; rfl) ts hparse
    have hle : b.nowSecs - ts ≤ maxTimestampSkewSecs := hfresh.1
    rw [expiresAt, saturatingAdd]
    omega

/-- A server with a secret and a cache. -/
def sampleServer : Server where
  extension := some "a-secret-that-is-at-least-thirty-two-bytes"
  env := none
  hasNonceCache := true

/-- A request with timestamp 1000, signed with that secret. -/
def sampleRequest (delivery signature : String) : Request where
  timestamp := some "1000"
  signature := some ("sha256=" ++ signature)
  delivery := some delivery
  body := some (bytesOf "{}")

def lowerHex : String := "49ca8924d627dbef23a3a981ee4b7211f871b705a178f5cb3432d4258179d82a"

def upperHex : String := "49CA8924D627DBEF23A3A981EE4B7211F871B705A178F5CB3432D4258179D82A"

/-- **A re-sent request** under another delivery id is accepted exactly when it is not covered by
the first delivery of it. -/
theorem resent_isOk_iff {v w : Validated} (hv : validate srv a.nowSecs a.request = .ok v)
    (hw : validate srv b.nowSecs b.request = .ok w) (hid : v.delivery ≠ w.delivery) :
    (fromRequest srv (fromRequest srv [] a.nowSecs a.request).2 b.nowSecs b.request).1.isOk ↔
      ¬ Covered srv a b := by
  have hcov : Covered srv a b ↔ v.signature = w.signature ∧ b.nowSecs < expiresAt a.nowSecs := by
    constructor
    · intro h
      rcases h v w hv hw with ⟨hsig | hdel, hlt⟩
      · exact ⟨hsig, hlt⟩
      · exact absurd hdel hid
    · intro h v' w' hv' hw'
      obtain rfl : v = v' := Except.ok.inj (hv.symm.trans hv')
      obtain rfl : w = w' := Except.ok.inj (hw.symm.trans hw')
      exact ⟨.inl h.1, h.2⟩
  -- the first delivery leaves its two entries
  have hfirst : (fromRequest srv [] a.nowSecs a.request).2 =
      [("signature:" ++ v.signature, expiresAt a.nowSecs),
        ("nonce:" ++ v.delivery, expiresAt a.nowSecs)] := by
    simp [fromRequest, hv, NonceCache.checkAndStore, Expiring.retain, Expiring.contains,
      Expiring.insert, nonceKey_ne_signatureKey]
  have hsecond : ∀ s, (fromRequest srv s b.nowSecs b.request).1.isOk =
      (s.checkAndStore w.delivery w.signature b.nowSecs).1 := by
    intro s
    simp only [fromRequest, hw]
    rcases s.checkAndStore w.delivery w.signature b.nowSecs with ⟨_ | _, _⟩ <;> rfl
  rw [hcov, hsecond, hfirst, checkAndStore_iff]
  constructor
  · rintro h ⟨hsig, hlt⟩
    exact (h _ _ (List.mem_cons_self ..) hlt).2 (by rw [hsig])
  · intro h k e hk hlt
    rcases List.mem_cons.mp hk with hk | hk
    · obtain ⟨rfl, rfl⟩ := Prod.mk.inj hk
      refine ⟨(nonceKey_ne_signatureKey _ _).symm, fun hsig => h ⟨?_, hlt⟩⟩
      exact String.append_right_inj _ |>.mp hsig
    · obtain ⟨rfl, rfl⟩ := Prod.mk.inj (List.mem_singleton.mp hk)
      refine ⟨fun hdel => hid ?_, nonceKey_ne_signatureKey _ _⟩
      exact String.append_right_inj _ |>.mp hdel

end Core.WebhookValidation
