import Mathlib.Data.List.Infix
import SkyMoonScope.Core.WebhookValidation
import SkyMoonScope.Lib.OrderedMap

/-!
# Outbound webhooks

Events of contracts wait for a place in a bounded queue. One worker takes them from it, and brings
each one to the subscriptions that match it then, one after another. A delivery is tried until it
succeeds or fails for good, at most a number of times, with growing breaks. Events come in, and
subscriptions come and go, at any time. An event is let in when the code of its contract on the
ledger is that of the whitelist.

## Main definitions

* `ContractRegister`, `verifyBytecode`: the whitelist of `core/src/contract_registry.rs`
* `Step`: a step of ingestion, registry or worker of `core/src/webhooks.rs`
* `IsDelivery`: what a delivery may look like
* `received`, `sent`, `ingested`: what the labels of a run say of the events

## Main results

* `ingest_eq_ok_iff`: which events are let in
* `fanOut_of_run`: events are brought to the matching subscriptions in order, and once
* `deliveries_of_run`: what every delivery looks like
-/

namespace Core.Webhooks

open Machine WebhookValidation

/-! ## The whitelist -/

structure ContractRegisterEntry where
  contractId : String
  wasmHash : String

structure ContractRegister where
  entries : String → Option String

inductive ContractRegistryError
  | notWhitelisted (contractId : String)
  | hashMismatch (contractId expected actual : String)
  | conflict (contractId existingHash : String)
  | source (message : String)

def ContractRegistryError.toString : ContractRegistryError → String
  | .notWhitelisted contractId =>
    "contract " ++ contractId ++ " is not present in the verified contract register"
  | .hashMismatch contractId expected actual =>
    "bytecode hash mismatch for contract " ++ contractId ++ ": expected " ++ expected ++
      ", found " ++ actual ++ " — possible spoofed proxy contract"
  | .conflict contractId existingHash =>
    "conflict: contract " ++ contractId ++ " is already registered with hash " ++ existingHash
  | .source message => "failed to fetch contract bytecode: " ++ message

namespace ContractRegister

/-- A register that denies all. -/
def default : ContractRegister := ⟨fun _ => none⟩

def register (r : ContractRegister) (entry : ContractRegisterEntry) :
    Except ContractRegistryError ContractRegister :=
  match r.entries entry.contractId with
  | some existingHash => .error (.conflict entry.contractId existingHash)
  | none => .ok ⟨Function.update r.entries entry.contractId (some entry.wasmHash.toLower)⟩

/-- `from_json` of a text with these entries, which are registered one after another. -/
def fromEntries (entries : List ContractRegisterEntry) :
    Except ContractRegistryError ContractRegister :=
  entries.foldlM register default

def expectedHash (r : ContractRegister) (contractId : String) : Option String :=
  r.entries contractId

end ContractRegister

/-- The hash of a code, in hexadecimal digits. -/
def wasmHash (wasm : Bytes) : String := String.ofList (Hex.encode (Sha256.hash wasm).toList)

/-- The check before an event is let in, given what fetching the code brings. -/
def verifyBytecode (r : ContractRegister) (contractId : String) (fetched : Except String Bytes) :
    Except ContractRegistryError Unit :=
  match r.expectedHash contractId with
  | none => .error (.notWhitelisted contractId)
  | some expected =>
    match fetched with
    | .error e => .error (.source e)
    | .ok wasm =>
      if wasmHash wasm = expected then .ok ()
      else .error (.hashMismatch contractId expected (wasmHash wasm))

theorem foldlM_register {entries : List ContractRegisterEntry} {r r' : ContractRegister}
    (h : entries.foldlM ContractRegister.register r = .ok r') (contractId : String)
    (expected : String) :
    r'.expectedHash contractId = some expected ↔ r.expectedHash contractId = some expected ∨
      ∃ entry ∈ entries, entry.contractId = contractId ∧ entry.wasmHash.toLower = expected := by
  induction entries generalizing r with
  | nil =>
    obtain rfl : r = r' := Except.ok.inj h
    simp
  | cons entry entries ih =>
    rw [List.foldlM_cons] at h
    rcases hnew : r.entries entry.contractId with - | existing
    · have hregister : r.register entry =
          .ok ⟨Function.update r.entries entry.contractId (some entry.wasmHash.toLower)⟩ := by
        rw [ContractRegister.register, hnew]
      rw [hregister] at h
      rw [ih h, ContractRegister.expectedHash]
      simp only [List.mem_cons, exists_eq_or_imp, ← or_assoc]
      refine or_congr_left ?_
      by_cases hid : contractId = entry.contractId
      · subst hid
        simp [ContractRegister.expectedHash, hnew]
      · rw [Function.update_of_ne hid]
        simp [ContractRegister.expectedHash, Ne.symm hid]
    · -- the entry is there already
      have hregister : r.register entry = .error (.conflict entry.contractId existing) := by
        rw [ContractRegister.register, hnew]
      rw [hregister] at h
      cases h

theorem verifyBytecode_eq_ok_iff {entries : List ContractRegisterEntry} {r : ContractRegister}
    (h : ContractRegister.fromEntries entries = .ok r) {contractId : String}
    {fetched : Except String Bytes} {u : Unit} :
    verifyBytecode r contractId fetched = .ok u ↔ ∃ wasm, fetched = .ok wasm ∧
      ∃ entry ∈ entries, entry.contractId = contractId ∧
        entry.wasmHash.toLower = wasmHash wasm := by
  have hexpected := fun wasm => foldlM_register h contractId (wasmHash wasm)
  simp only [ContractRegister.expectedHash, ContractRegister.default, reduceCtorEq, false_or]
    at hexpected
  simp only [← hexpected]
  rw [verifyBytecode, ContractRegister.expectedHash]
  rcases r.entries contractId with - | expected
  · simp
  · rcases fetched with e | wasm
    · simp
    · by_cases heq : wasmHash wasm = expected
      · simp [heq]
      · simp [heq, Ne.symm heq]

/-! ## Subscriptions -/

structure ContractSubscription where
  id : ℕ
  contractId : String
  /-- none of them means all -/
  eventTypes : List String
  callbackUrl : String
  signingSecret : String
  active : Bool
deriving DecidableEq

structure ContractEvent where
  id : ℕ
  contractId : String
  eventType : String
  ledger : ℕ
  payload : String
  occurredAt : ℤ
deriving DecidableEq

inductive WebhookError
  | deliveryFailed (attempts : ℕ) (reason : String)
  | bytecodeUnverified (message : String)

def ContractSubscription.matches (s : ContractSubscription) (event : ContractEvent) : Bool :=
  s.active && s.contractId = event.contractId &&
    (s.eventTypes.isEmpty || s.eventTypes.any fun kind => kind = event.eventType)

/-- `EventIngestor::ingest` up to the queue, given what fetching the code brings. -/
def ingest (r : ContractRegister) (event : ContractEvent) (fetched : Except String Bytes) :
    Except WebhookError Unit :=
  match verifyBytecode r event.contractId fetched with
  | .ok u => .ok u
  | .error e => .error (.bytecodeUnverified e.toString)

/-- **An event is let in** just when its contract was configured with the hash of its code. -/
theorem ingest_eq_ok_iff {entries : List ContractRegisterEntry} {r : ContractRegister}
    (h : ContractRegister.fromEntries entries = .ok r) {event : ContractEvent}
    {fetched : Except String Bytes} {u : Unit} :
    ingest r event fetched = .ok u ↔ ∃ wasm, fetched = .ok wasm ∧
      ∃ entry ∈ entries, entry.contractId = event.contractId ∧
        entry.wasmHash.toLower = wasmHash wasm := by
  rw [← verifyBytecode_eq_ok_iff h (u := u), ingest]
  rcases verifyBytecode r event.contractId fetched with e | u'
  · simp
  · simp

abbrev SubscriptionRegistry := OrderedMap ℕ ContractSubscription

/-- The subscriptions that match, in the order in which the registry has them. -/
def SubscriptionRegistry.matching (r : SubscriptionRegistry) (event : ContractEvent) :
    List ContractSubscription :=
  (r.entries.map Prod.snd).filter fun s => s.matches event

/-! ## Deliveries -/

/-- Times are nanoseconds, and so are durations. -/
structure WebhookConfig where
  queueCapacity : ℕ
  requestTimeout : ℕ
  maxAttempts : ℕ
  retryBase : ℕ
  retryMax : ℕ

/-- The greatest duration. -/
def durationMax : ℕ := 2 ^ 64 * 10 ^ 9 - 1

def WebhookConfig.retryDelay (config : WebhookConfig) (completedAttempts : ℕ) : ℕ :=
  let exponent := min (completedAttempts - 1) 31
  min (min (config.retryBase * 2 ^ exponent) durationMax) config.retryMax

/-- What comes back: a status, or an error of the client. -/
inductive Response
  | status (code : ℕ)
  | error (message : String)

def Response.isSuccess : Response → Bool
  | .status code => 200 ≤ code && code < 300
  | .error _ => false

/-- Only some statuses are retried, and all errors are. -/
def Response.isRetryable : Response → Bool
  | .status code => (500 ≤ code && code < 600) || code = 408 || code = 429
  | .error _ => true

structure DeliveryPayload where
  deliveryId : ℕ
  subscriptionId : ℕ
  event : ContractEvent

/-- The libraries: `serde_json` for payloads, and the texts of ids and statuses. -/
structure Crates where
  toVec : DeliveryPayload → Bytes
  uuidText : ℕ → String
  statusText : ℕ → String

structure Request where
  url : String
  delivery : String
  timestamp : String
  signature : String
  body : Bytes
  timeout : ℕ

/-- One attempt, with the time at which it was sent, and what came back and when. -/
structure Attempt where
  request : Request
  sentAt : ℕ
  response : Response
  answeredAt : ℕ

section

variable (R : Crates) (config : WebhookConfig)

/-- The request of an attempt, with a signature of its own. -/
def buildRequest (s : ContractSubscription) (event : ContractEvent) (deliveryId sentAt : ℕ) :
    Request :=
  let body := R.toVec { deliveryId, subscriptionId := s.id, event }
  let timestamp := String.ofList (Nat.toDigits 10 (sentAt / 10 ^ 9))
  { url := s.callbackUrl
    delivery := R.uuidText deliveryId
    timestamp
    signature := "sha256=" ++ sign s.signingSecret timestamp body
    body
    timeout := config.requestTimeout }

/-- How often a delivery is tried at most. -/
def WebhookConfig.attempts (config : WebhookConfig) : ℕ := max config.maxAttempts 1

/-- Whether a delivery ends with an attempt. -/
def isLast (attempt : ℕ) (response : Response) : Bool :=
  response.isSuccess || !response.isRetryable || config.attempts ≤ attempt

def lastError : Response → String
  | .status code => "HTTP " ++ R.statusText code
  | .error message => message

/-- What a delivery that ends with an attempt returns. -/
def outcome (attempts : ℕ) (response : Response) : Except WebhookError Unit :=
  if response.isSuccess then .ok () else .error (.deliveryFailed attempts (lastError R response))

end

structure Delivery where
  event : ContractEvent
  subscription : ContractSubscription
  deliveryId : ℕ
  attempts : List Attempt
  result : Except WebhookError Unit

/-! ## Ingestion, registry and worker -/

/-- The worker waits for an event, is between two deliveries, or within one. -/
inductive Worker
  | idle
  | fanOut (event : ContractEvent) (rest : List ContractSubscription)
  | delivering (event : ContractEvent) (s : ContractSubscription) (deliveryId : ℕ)
      (attempts : List Attempt) (rest : List ContractSubscription)

structure State where
  registry : SubscriptionRegistry
  /-- events that were let in and wait for a place in the queue -/
  sending : List ContractEvent
  queue : List ContractEvent
  worker : Worker
  log : List Delivery

def State.init : State := ⟨.empty, [], [], .idle, []⟩

inductive Label
  | ingest (event : ContractEvent) (fetched : Except String Bytes)
  | send (event : ContractEvent)
  | insert (s : ContractSubscription)
  | remove (id : ℕ)
  | receive (event : ContractEvent) (subscriptions : List ContractSubscription)
  | start (deliveryId : ℕ)
  | attempt (a : Attempt)
  | finish

/-- The next attempt of a delivery, after those before: the break after the last one is over. -/
structure IsNext (R : Crates) (config : WebhookConfig) (event : ContractEvent)
    (s : ContractSubscription) (deliveryId : ℕ) (attempts : List Attempt) (a : Attempt) : Prop where
  request_eq : a.request = buildRequest R config s event deliveryId a.sentAt
  sentAt_le : a.sentAt ≤ a.answeredAt
  break_le : ∀ last ∈ attempts.getLast?,
    last.answeredAt + config.retryDelay attempts.length ≤ a.sentAt

variable (R : Crates) (register : ContractRegister) (config : WebhookConfig)

/-- A step. The senders get their places in any order, and the matching subscriptions come in any
order. -/
inductive Step : State → Label → State → Prop
  | ingest_ok {s event fetched} (h : Webhooks.ingest register event fetched = .ok ()) :
      Step s (.ingest event fetched) { s with sending := event :: s.sending }
  | ingest_error {s event fetched e} (h : Webhooks.ingest register event fetched = .error e) :
      Step s (.ingest event fetched) s
  | send {s event} (hmem : event ∈ s.sending) (hplace : s.queue.length < config.queueCapacity) :
      Step s (.send event) { s with sending := s.sending.erase event, queue := s.queue ++ [event] }
  | insert {s subscription} :
      Step s (.insert subscription)
        { s with registry := s.registry.insert subscription.id subscription }
  | remove {s id} : Step s (.remove id) { s with registry := s.registry.erase id }
  | receive {s event queue subscriptions} (hidle : s.worker = .idle)
      (hqueue : s.queue = event :: queue)
      (hmatching : subscriptions.Perm (SubscriptionRegistry.matching s.registry event)) :
      Step s (.receive event subscriptions) { s with queue, worker := .fanOut event subscriptions }
  | start {s event subscription rest deliveryId}
      (hworker : s.worker = .fanOut event (subscription :: rest)) :
      Step s (.start deliveryId)
        { s with worker := .delivering event subscription deliveryId [] rest }
  | attempt_again {s event subscription deliveryId attempts rest a}
      (hworker : s.worker = .delivering event subscription deliveryId attempts rest)
      (hnext : IsNext R config event subscription deliveryId attempts a)
      (hlast : isLast config (attempts.length + 1) a.response = false) :
      Step s (.attempt a)
        { s with worker := .delivering event subscription deliveryId (attempts ++ [a]) rest }
  | attempt_last {s event subscription deliveryId attempts rest a}
      (hworker : s.worker = .delivering event subscription deliveryId attempts rest)
      (hnext : IsNext R config event subscription deliveryId attempts a)
      (hlast : isLast config (attempts.length + 1) a.response = true) :
      Step s (.attempt a)
        { s with
          worker := .fanOut event rest
          log := s.log ++ [⟨event, subscription, deliveryId, attempts ++ [a],
            outcome R (attempts.length + 1) a.response⟩] }
  | finish {s event} (hworker : s.worker = .fanOut event []) :
      Step s .finish { s with worker := .idle }

theorem forall_prefix_concat {α : Type} {P : List α → α → Prop} {as : List α} {a : α}
    (h : ∀ past b, past ++ [b] <+: as → P past b) (ha : P as a) :
    ∀ past b, past ++ [b] <+: as ++ [a] → P past b := by
  intro past b hprefix
  rcases List.prefix_concat_iff.mp hprefix with heq | hprefix
  · obtain ⟨rfl, hb⟩ := List.append_inj' heq rfl
    obtain rfl := List.singleton_inj.mp hb
    exact ha
  · exact h past b hprefix

/-! ## The events, in order -/

/-- The pairs of an event with its subscriptions. -/
def pairs (event : ContractEvent) (subscriptions : List ContractSubscription) :
    List (ContractEvent × ContractSubscription) :=
  subscriptions.map fun s => (event, s)

/-- The deliveries that the worker has still to make for the event that it has taken. -/
def Worker.pending : Worker → List (ContractEvent × ContractSubscription)
  | .idle => []
  | .fanOut event rest => pairs event rest
  | .delivering event s _ _ rest => pairs event (s :: rest)

variable {R register config} {s t : State} {l : Label} {ls : List Label}

/-- The event that a label lets in. -/
def Label.ingested (register : ContractRegister) : Label → List ContractEvent
  | .ingest event fetched =>
    match Webhooks.ingest register event fetched with
    | .ok _ => [event]
    | .error _ => []
  | _ => []

/-- The event that a label puts into the queue. -/
def Label.sent : Label → List ContractEvent
  | .send event => [event]
  | _ => []

/-- The event that a label takes from the queue, with the subscriptions that get it. -/
def Label.received : Label → List (ContractEvent × List ContractSubscription)
  | .receive event subscriptions => [(event, subscriptions)]
  | _ => []

/-- The subscriptions after a label. -/
def nextRegistry (registry : SubscriptionRegistry) : Label → SubscriptionRegistry
  | .insert s => registry.insert s.id s
  | .remove id => registry.erase id
  | _ => registry

def registryAfter (ls : List Label) : SubscriptionRegistry := ls.foldl nextRegistry .empty

theorem registryAfter_concat : registryAfter (ls ++ [l]) = nextRegistry (registryAfter ls) l := by
  rw [registryAfter, List.foldl_append]
  rfl

/-- Where the events of a run are. -/
structure FanOut (register : ContractRegister) (config : WebhookConfig) (ls : List Label)
    (s : State) : Prop where
  registry_eq : s.registry = registryAfter ls
  ingested_perm : (ls.flatMap (Label.ingested register)).Perm (s.sending ++ ls.flatMap Label.sent)
  sent_eq : ls.flatMap Label.sent = (ls.flatMap Label.received).map Prod.fst ++ s.queue
  queue_length_le : s.queue.length ≤ config.queueCapacity
  received_eq : (ls.flatMap Label.received).flatMap (fun p => pairs p.1 p.2) =
    s.log.map (fun d => (d.event, d.subscription)) ++ s.worker.pending
  received_perm : ∀ past l, past ++ [l] <+: ls → ∀ event subscriptions,
    l = .receive event subscriptions → subscriptions.Perm ((registryAfter past).matching event)

open scoped List in
/-- What one more label adds. -/
theorem FanOut.concat (h : FanOut register config ls s)
    (hregistry : t.registry = nextRegistry s.registry l)
    (hingested : (l.ingested register ++ s.sending).Perm (t.sending ++ l.sent))
    (hsent : s.queue ++ l.sent = l.received.map Prod.fst ++ t.queue)
    (hlength : t.queue.length ≤ config.queueCapacity)
    (hreceived : s.log.map (fun d => (d.event, d.subscription)) ++ s.worker.pending ++
        l.received.flatMap (fun p => pairs p.1 p.2) =
      t.log.map (fun d => (d.event, d.subscription)) ++ t.worker.pending)
    (hperm : ∀ event subscriptions, l = .receive event subscriptions →
      subscriptions.Perm (SubscriptionRegistry.matching s.registry event)) :
    FanOut register config (ls ++ [l]) t := by
  refine ⟨?_, ?_, ?_, hlength, ?_, forall_prefix_concat h.received_perm ?_⟩
  · rw [hregistry, h.registry_eq, registryAfter_concat]
  · simp only [List.flatMap_append, List.flatMap_singleton]
    calc
      ls.flatMap (Label.ingested register) ++ l.ingested register
      _ ~ s.sending ++ ls.flatMap Label.sent ++ l.ingested register :=
        h.ingested_perm.append_right _
      _ ~ l.ingested register ++ s.sending ++ ls.flatMap Label.sent := by
        rw [List.append_assoc (l.ingested register)]
        exact List.perm_append_comm
      _ ~ t.sending ++ l.sent ++ ls.flatMap Label.sent := hingested.append_right _
      _ ~ t.sending ++ (ls.flatMap Label.sent ++ l.sent) := by
        rw [List.append_assoc]
        exact List.perm_append_comm.append_left _
  · simp only [List.flatMap_append, List.flatMap_singleton, List.map_append, List.append_assoc,
      h.sent_eq, hsent]
  · simp only [List.flatMap_append, List.flatMap_singleton]
    rw [h.received_eq, hreceived]
  · rwa [← h.registry_eq]

/-- One step. -/
theorem FanOut.step (h : FanOut register config ls s) (hstep : Step R register config s l t) :
    FanOut register config (ls ++ [l]) t := by
  have hlength := h.queue_length_le
  cases hstep with
  | @ingest_ok event fetched hverify =>
    refine h.concat rfl ?_ (by simp [Label.sent, Label.received]) hlength
      (by simp [Label.received]) nofun
    simp [Label.ingested, hverify, Label.sent]
  | @ingest_error event fetched e hverify =>
    refine h.concat rfl ?_ (by simp [Label.sent, Label.received]) hlength
      (by simp [Label.received]) nofun
    simp [Label.ingested, hverify, Label.sent]
  | @send event hmem hplace =>
    refine h.concat rfl ?_ (by simp [Label.sent, Label.received]) ?_
      (by simp [Label.received]) nofun
    · -- the event leaves the senders, and is the last one in the queue
      exact (List.perm_cons_erase hmem).trans (List.perm_append_singleton event _).symm
    · rw [List.length_append]
      exact hplace
  | insert =>
    exact h.concat rfl (by simp [Label.ingested, Label.sent]) (by simp [Label.sent, Label.received])
      hlength (by simp [Label.received]) nofun
  | remove =>
    exact h.concat rfl (by simp [Label.ingested, Label.sent]) (by simp [Label.sent, Label.received])
      hlength (by simp [Label.received]) nofun
  | @receive event queue subscriptions hidle hqueue hmatching =>
    refine h.concat rfl (by simp [Label.ingested, Label.sent])
      (by simp [Label.sent, Label.received, hqueue]) ?_ ?_ ?_
    · rw [hqueue] at hlength
      exact Nat.le_of_succ_le hlength
    · simp [Label.received, hidle, Worker.pending]
    · rintro event' subscriptions' heq
      cases heq
      exact hmatching
  | start hworker =>
    exact h.concat rfl (by simp [Label.ingested, Label.sent]) (by simp [Label.sent, Label.received])
      hlength (by simp [Label.received, hworker, Worker.pending]) nofun
  | attempt_again hworker hnext hlast =>
    exact h.concat rfl (by simp [Label.ingested, Label.sent]) (by simp [Label.sent, Label.received])
      hlength (by simp [Label.received, hworker, Worker.pending]) nofun
  | attempt_last hworker hnext hlast =>
    exact h.concat rfl (by simp [Label.ingested, Label.sent]) (by simp [Label.sent, Label.received])
      hlength (by simp [Label.received, hworker, Worker.pending, pairs]) nofun
  | finish hworker =>
    exact h.concat rfl (by simp [Label.ingested, Label.sent]) (by simp [Label.sent, Label.received])
      hlength (by simp [Label.received, hworker, Worker.pending, pairs]) nofun

/-- **Events are brought to the matching subscriptions in order, and once.** What was let in waits
or was put into the queue; what was put into the queue is taken from it in order, or still in it;
and each event that was taken is brought, once each, to the subscriptions that matched it then, one
after another. -/
theorem fanOut_of_run (hrun : Run (Step R register config) State.init ls s) :
    FanOut register config ls s := by
  refine hrun.history (fun ls s l t h hstep => h.step hstep) ?_
  exact ⟨rfl, .nil, rfl, Nat.zero_le _, rfl, fun _ _ h => by simp at h⟩

/-! ## What deliveries look like -/

/-- The attempts of a delivery that goes on. -/
structure IsTried (R : Crates) (config : WebhookConfig) (event : ContractEvent)
    (subscription : ContractSubscription) (deliveryId : ℕ) (attempts : List Attempt) : Prop where
  isNext : ∀ past a, past ++ [a] <+: attempts → IsNext R config event subscription deliveryId past a
  isLast_eq : ∀ past a, past ++ [a] <+: attempts →
    isLast config (past.length + 1) a.response = false

/-- A delivery that has ended. -/
structure IsDelivery (R : Crates) (config : WebhookConfig) (d : Delivery) : Prop where
  attempts_ne_nil : d.attempts ≠ []
  length_attempts_le : d.attempts.length ≤ config.attempts
  isNext : ∀ past a, past ++ [a] <+: d.attempts →
    IsNext R config d.event d.subscription d.deliveryId past a
  /-- what is tried again has failed, though not for good -/
  again : ∀ past a b, past ++ [a, b] <+: d.attempts →
    a.response.isSuccess = false ∧ a.response.isRetryable = true
  /-- it ends with a success, for good, or with the last attempt -/
  ends : ∀ last ∈ d.attempts.getLast?, d.result = outcome R d.attempts.length last.response ∧
    (last.response.isSuccess = true ∨ last.response.isRetryable = false ∨
      d.attempts.length = config.attempts)
  verifies : ∀ a ∈ d.attempts, verifySignature d.subscription.signingSecret a.request.timestamp
    a.request.body a.request.signature = true

variable {event : ContractEvent} {subscription : ContractSubscription} {deliveryId : ℕ}
  {attempts : List Attempt} {a : Attempt}

/-- One more attempt, after which it goes on. -/
theorem IsTried.concat (h : IsTried R config event subscription deliveryId attempts)
    (hnext : IsNext R config event subscription deliveryId attempts a)
    (hlast : isLast config (attempts.length + 1) a.response = false) :
    IsTried R config event subscription deliveryId (attempts ++ [a]) :=
  ⟨forall_prefix_concat h.isNext hnext, forall_prefix_concat h.isLast_eq hlast⟩

theorem IsTried.length_lt (h : IsTried R config event subscription deliveryId attempts) :
    attempts.length < config.attempts := by
  rcases List.eq_nil_or_concat' attempts with rfl | ⟨past, a, rfl⟩
  · exact Nat.lt_of_lt_of_le Nat.one_pos (Nat.le_max_right _ _)
  · have hlast := h.isLast_eq past a List.prefix_rfl
    rw [isLast, Bool.or_eq_false_iff, decide_eq_false_iff_not] at hlast
    rw [List.length_append]
    exact Nat.not_le.mp hlast.2

/-- The attempt with which it ends. -/
theorem IsTried.isDelivery (h : IsTried R config event subscription deliveryId attempts)
    (hnext : IsNext R config event subscription deliveryId attempts a)
    (hlast : isLast config (attempts.length + 1) a.response = true) :
    IsDelivery R config ⟨event, subscription, deliveryId, attempts ++ [a],
      outcome R (attempts.length + 1) a.response⟩ := by
  have hlength : (attempts ++ [a]).length = attempts.length + 1 := List.length_append
  have hle : (attempts ++ [a]).length ≤ config.attempts := hlength ▸ h.length_lt
  have hall := forall_prefix_concat h.isNext hnext
  refine ⟨by simp, hle, hall, ?_, ?_, ?_⟩
  · intro past b c hprefix
    -- `b` comes before the last attempt
    have hbefore : past ++ [b] <+: attempts := by
      rw [List.append_cons] at hprefix
      rcases List.prefix_concat_iff.mp hprefix with heq | hprefix
      · exact (List.append_inj' heq rfl).1 ▸ List.prefix_rfl
      · exact (List.prefix_append _ _).trans hprefix
    have hagain := h.isLast_eq past b hbefore
    rw [isLast, Bool.or_eq_false_iff, Bool.or_eq_false_iff, Bool.not_eq_false'] at hagain
    exact hagain.1
  · intro last hmem
    obtain rfl : a = last := by simpa using hmem
    refine ⟨by rw [hlength], ?_⟩
    rw [isLast, Bool.or_eq_true, Bool.or_eq_true, Bool.not_eq_true', decide_eq_true_eq] at hlast
    rcases hlast with (hsuccess | hfinal) | hcount
    · exact .inl hsuccess
    · exact .inr (.inl hfinal)
    · exact .inr (.inr (Nat.le_antisymm hle (hlength ▸ hcount)))
  · intro b hb
    obtain ⟨past, rest, heq⟩ := List.append_of_mem hb
    have hrequest := (hall past b ⟨rest, by simpa using heq.symm⟩).request_eq
    rw [hrequest]
    exact verifySignature_sign _ _ _

/-- What is true of the deliveries after any labels. -/
structure Delivered (R : Crates) (config : WebhookConfig) (s : State) : Prop where
  log : ∀ d ∈ s.log, IsDelivery R config d
  worker : ∀ event subscription deliveryId attempts rest,
    s.worker = .delivering event subscription deliveryId attempts rest →
      IsTried R config event subscription deliveryId attempts

theorem Delivered.step (h : Delivered R config s) (hstep : Step R register config s l t) :
    Delivered R config t := by
  obtain ⟨hlog, hworker⟩ := h
  cases hstep with
  | ingest_ok => exact ⟨hlog, hworker⟩
  | ingest_error => exact ⟨hlog, hworker⟩
  | send => exact ⟨hlog, hworker⟩
  | insert => exact ⟨hlog, hworker⟩
  | remove => exact ⟨hlog, hworker⟩
  | receive => exact ⟨hlog, nofun⟩
  | start =>
    refine ⟨hlog, ?_⟩
    rintro _ _ _ _ _ ⟨⟩
    exact ⟨fun _ _ h => by simp at h, fun _ _ h => by simp at h⟩
  | attempt_again hdelivering hnext hlast =>
    refine ⟨hlog, ?_⟩
    rintro _ _ _ _ _ ⟨⟩
    exact (hworker _ _ _ _ _ hdelivering).concat hnext hlast
  | attempt_last hdelivering hnext hlast =>
    refine ⟨fun d hd => ?_, nofun⟩
    rcases List.mem_append.mp hd with hd | hd
    · exact hlog d hd
    · obtain rfl := List.mem_singleton.mp hd
      exact (hworker _ _ _ _ _ hdelivering).isDelivery hnext hlast
  | finish => exact ⟨hlog, nofun⟩

theorem eq_receive_of_mem {p : ContractEvent × List ContractSubscription} (h : p ∈ l.received) :
    l = .receive p.1 p.2 := by
  cases l with
  | receive event subscriptions =>
    obtain rfl := List.mem_singleton.mp h
    rfl
  | _ => cases h

theorem exists_ingest_of_mem (h : event ∈ l.ingested register) :
    ∃ fetched, l = .ingest event fetched ∧ Webhooks.ingest register event fetched = .ok () := by
  cases l with
  | ingest event' fetched =>
    rw [Label.ingested] at h
    split at h
    case h_2 => cases h
    case h_1 u hverify =>
      obtain rfl := List.mem_singleton.mp h
      exact ⟨fetched, rfl, hverify⟩
  | _ => cases h

/-- The hash of the empty code, in capital letters. -/
def exampleEntry : ContractRegisterEntry :=
  { contractId := "CABC"
    wasmHash := "E3B0C44298FC1C149AFBF4C8996FB92427AE41E4649B934CA495991B7852B855" }

def exampleRegister : ContractRegister :=
  ⟨Function.update (fun _ => none) "CABC" (some exampleEntry.wasmHash.toLower)⟩

def exampleSubscription : ContractSubscription :=
  { id := 1, contractId := "CABC", eventTypes := ["transfer"],
    callbackUrl := "https://example.com/events",
    signingSecret := "a-secret-that-is-at-least-thirty-two-bytes", active := true }

def exampleEvent : ContractEvent :=
  { id := 0, contractId := "CABC", eventType := "transfer", ledger := 123,
    payload := "\x7b\"amount\":\"42\"\x7d", occurredAt := 0 }

def exampleUuid (id : ℕ) : String := "00000000-0000-0000-0000-00000000000" ++ toString id

/-- The libraries on the ids below ten, and events of the first second. -/
def exampleCrates : Crates where
  toVec p := bytesOf ("\x7b\"delivery_id\":\"" ++ exampleUuid p.deliveryId ++
    "\",\"subscription_id\":\"" ++ exampleUuid p.subscriptionId ++
    "\",\"event\":\x7b\"id\":\"" ++ exampleUuid p.event.id ++
    "\",\"contract_id\":\"" ++ p.event.contractId ++
    "\",\"event_type\":\"" ++ p.event.eventType ++
    "\",\"ledger\":" ++ toString p.event.ledger ++
    ",\"payload\":" ++ p.event.payload ++
    ",\"occurred_at\":\"1970-01-01T00:00:00Z\"\x7d\x7d")
  uuidText := exampleUuid
  statusText code := if code = 503 then "503 Service Unavailable" else "204 No Content"

/-- The default configuration. -/
def exampleConfig : WebhookConfig :=
  { queueCapacity := 1024, requestTimeout := 10 * 10 ^ 9, maxAttempts := 5, retryBase := 10 ^ 9,
    retryMax := 60 * 10 ^ 9 }

/-- An attempt at a second, that is answered at once. -/
def exampleAttempt (second code : ℕ) : Attempt where
  request := buildRequest exampleCrates exampleConfig exampleSubscription exampleEvent 2
    (second * 10 ^ 9)
  sentAt := second * 10 ^ 9
  response := .status code
  answeredAt := second * 10 ^ 9

/-- A subscription, an event, and two attempts to deliver it. -/
def exampleLabels : List Label :=
  [.insert exampleSubscription, .ingest exampleEvent (.ok []), .send exampleEvent,
    .receive exampleEvent [exampleSubscription], .start 2, .attempt (exampleAttempt 1 503),
    .attempt (exampleAttempt 2 204), .finish]

def exampleDelivery : Delivery :=
  ⟨exampleEvent, exampleSubscription, 2, [exampleAttempt 1 503, exampleAttempt 2 204], .ok ()⟩

theorem fromEntries_example :
    ContractRegister.fromEntries [exampleEntry] = .ok exampleRegister := rfl

theorem ingest_example : Webhooks.ingest exampleRegister exampleEvent (.ok []) = .ok () := by
  have hhash : exampleEntry.wasmHash.toLower = wasmHash [] := by decide +kernel
  exact (ingest_eq_ok_iff fromEntries_example).mpr
    ⟨[], rfl, exampleEntry, List.mem_singleton_self _, rfl, hhash⟩

theorem isNext_exampleAttempt (code : ℕ) :
    IsNext exampleCrates exampleConfig exampleEvent exampleSubscription 2 []
      (exampleAttempt 1 code) :=
  ⟨by simp only [exampleAttempt], Nat.le_refl _, nofun⟩

/-- The break after the first attempt is a second. -/
theorem isNext_exampleAttempt_again (code code' : ℕ) :
    IsNext exampleCrates exampleConfig exampleEvent exampleSubscription 2 [exampleAttempt 1 code]
      (exampleAttempt 2 code') := by
  refine ⟨by simp only [exampleAttempt], Nat.le_refl _, fun last hlast => ?_⟩
  obtain rfl := Option.some.inj hlast
  simp [exampleAttempt, WebhookConfig.retryDelay, exampleConfig, durationMax]

theorem run_exampleLabels : Run (Step exampleCrates exampleRegister exampleConfig) State.init
    exampleLabels
    ⟨.insert .empty 1 exampleSubscription, [], [], .idle, [exampleDelivery]⟩ := by
  refine .cons .insert (.cons (.ingest_ok ingest_example) (.cons (.send ?_ ?_)
    (.cons (.receive rfl rfl ?_) (.cons (.start rfl) (.cons (.attempt_again rfl ?_ ?_)
      (.cons (.attempt_last rfl ?_ ?_) (.cons (.finish rfl) ?_)))))))
  · exact List.mem_cons_self
  · exact (by decide : 0 < 1024)
  · exact List.Perm.of_eq rfl
  · exact isNext_exampleAttempt 503
  · rfl
  · exact isNext_exampleAttempt_again 503 204
  · rfl
  · exact .nil _

theorem fanOut_of_run_example : FanOut exampleRegister exampleConfig exampleLabels
    ⟨.insert .empty 1 exampleSubscription, [], [], .idle, [exampleDelivery]⟩ :=
  fanOut_of_run run_exampleLabels

end Core.Webhooks
