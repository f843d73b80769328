import SkyMoonScope.Lib.Dict
import SkyMoonScope.Lib.Integers
import SkyMoonScope.Lib.Text
import Mathlib.Data.List.Sort

/-!
# The provider registry

Every RPC provider has a health score, a count of consecutive failures, a circuit breaker that is
open for a cooldown after the last failure, and the observations that peers have sent of it.
Requests go to the providers that are available, and reports of their outcome move score, count and
breaker.

## Main definitions

* `Score`, `clampScore`: a health score, between 0 and 100
* `ProviderStats`, `ProviderState`, `PeerState`: what the registry keeps of a provider and a peer
* `ProviderRegistry`: the registry, with the operations `healthyProviders`, `providersByLatency`,
  `recordRtt`, `reportSuccess`, `reportFailure`, `mergeSnapshot`
* `ProviderState.buildProviderReport`: the report of a provider, `none` when it overflows
-/

namespace Core.Providers

/-! ## Scores -/

def circuitBreakerThreshold : ℕ := 3

/-- Durations and times are in nanoseconds. -/
def circuitBreakerCooldown : ℕ := 5 * 60 * 10 ^ 9

def remoteObservationTtl : ℤ := 5 * 60 * 10 ^ 9

def maxHealthScore : ℤ := 100

def minHealthScore : ℤ := 0

def localSuccessBonus : ℤ := 12

def localFailurePenalty : ℤ := 25

def peerSuccessBonus : ℤ := 8

def peerFailurePenalty : ℤ := 20

def minProviderScore : ℤ := 25

def minSamplesForEma : ℕ := 5

/-- A health score. -/
structure Score where
  val : ℤ
  min_le : minHealthScore ≤ val
  le_max : val ≤ maxHealthScore
deriving DecidableEq

@[ext] theorem Score.ext {a b : Score} (h : a.val = b.val) : a = b := by
  cases a; cases b; cases h; rfl

def clampScore (score : ℤ) : Score where
  val := max minHealthScore (min score maxHealthScore)
  min_le := le_max_left _ _
  le_max := by simp [minHealthScore, maxHealthScore]

def adjustScore (current : Score) (delta : ℤ) : Score := clampScore (current.val + delta)

def localProviderStartingScore : Score := clampScore 70

def discoveredProviderStartingScore : Score := clampScore 55

def peerStartingScore : Score := clampScore 60

/-- The score after a success: at least that of a discovered provider, and the bonus. -/
def Score.success (score : Score) : Score :=
  clampScore (max score.val discoveredProviderStartingScore.val + localSuccessBonus)

/-- The score after a failure. -/
def Score.failure (score : Score) : Score := adjustScore score (-localFailurePenalty)

/-! ## Providers -/

/-- The moving average of the round trip time, over a window. -/
structure ProviderStats where
  emaRttUs : ℕ
  sampleCount : ℕ
  window : ℕ
  one_le_window : 1 ≤ window

namespace ProviderStats

def new (window : ℕ) : ProviderStats where
  emaRttUs := 0
  sampleCount := 0
  window := max window 1
  one_le_window := le_max_right _ _

def record (s : ProviderStats) (rttUs : ℕ) : ProviderStats :=
  if s.sampleCount = 0 then { s with emaRttUs := rttUs, sampleCount := 1 }
  else
    { s with
      emaRttUs := (rttUs * 2 + s.emaRttUs * (s.window + 1 - 2)) / (s.window + 1)
      sampleCount := s.sampleCount + 1 }

def isWarmed (s : ProviderStats) : Bool := minSamplesForEma ≤ s.sampleCount

end ProviderStats

structure RpcProvider where
  name : String
  url : String
  authHeader : Option String
  authValue : Option String
  advertise : Option Bool
deriving DecidableEq

/-- What a peer has seen of a provider. None of it is checked. -/
structure RemoteProviderObservation where
  score : ℤ
  latestLedger : ℕ
  consecutiveFailures : ℕ
  healthy : Bool
  observedAt : ℤ

structure ProviderState where
  provider : RpcProvider
  source : String
  stats : ProviderStats
  localScore : Score
  consecutiveFailures : ℕ
  trippedAt : Option ℕ
  latestLedger : ℕ
  remoteObservations : Dict String RemoteProviderObservation

namespace ProviderState

def new (provider : RpcProvider) (source : String) (localScore : Score) : ProviderState where
  provider
  source
  stats := .new 20
  localScore
  consecutiveFailures := 0
  trippedAt := none
  latestLedger := 0
  remoteObservations := .empty

/-- Whether the breaker is open; one whose cooldown has elapsed is closed on the way. -/
def isProviderTripped (s : ProviderState) (now : ℕ) : Bool × ProviderState :=
  match s.trippedAt with
  | none => (false, s)
  | some when =>
    if circuitBreakerCooldown ≤ now - when then (false, { s with trippedAt := none })
    else (true, s)

def isAvailable (s : ProviderState) (now : ℕ) : Bool × ProviderState :=
  match s.isProviderTripped now with
  | (true, s) => (false, s)
  | (false, s) =>
    (minProviderScore ≤ s.localScore.val || s.consecutiveFailures < circuitBreakerThreshold, s)

def reportSuccess (s : ProviderState) : ProviderState :=
  { s with consecutiveFailures := 0, localScore := s.localScore.success, trippedAt := none }

def reportFailure (s : ProviderState) (now : ℕ) : ProviderState :=
  { s with
    consecutiveFailures := s.consecutiveFailures + 1
    localScore := s.localScore.failure
    trippedAt :=
      if circuitBreakerThreshold ≤ s.consecutiveFailures + 1 then some now else s.trippedAt }

/-- The observation is older than its time to live. One from the future is of age zero. -/
def isObservationStale (utc observedAt : ℤ) : Bool :=
  remoteObservationTtl ≤ max (utc - observedAt) 0

/-- The observations a report is made of. -/
def freshObservations (s : ProviderState) (utc : ℤ) : List RemoteProviderObservation :=
  (s.remoteObservations.entries.map Prod.snd).filter fun o => !isObservationStale utc o.observedAt

end ProviderState

structure ProviderHealthReport where
  name : String
  url : String
  effectiveScore : Score
  localScore : Score
  peerScore : ℤ
  latestLedger : ℕ
  consecutiveFailures : ℕ
  healthy : Bool
  source : String
  observationCount : ℕ

/-- The sum of the scores, as long as each partial sum is represented. -/
def sumScores (os : List RemoteProviderObservation) : Option ℤ :=
  os.foldlM (fun acc o => IntType.i64.checked (acc + o.score)) 0

/-- The average of the peers' scores, zero without any. -/
def peerScore (os : List RemoteProviderObservation) : Option ℤ :=
  if os.isEmpty then some 0
  else (sumScores os).bind fun sum => IntType.i64.checkedDiv sum os.length

/-- The local score counts twice. -/
def effectiveScore (localScore : Score) (peerScore : ℤ) : Option Score := do
  let doubled ← IntType.i64.checked (localScore.val * 2)
  let sum ← IntType.i64.checked (doubled + peerScore)
  return clampScore (sum.tdiv 3)

/-- The report of a provider at a monotonic time and a date, with the state it leaves; `none` when
the arithmetic overflows. -/
def ProviderState.buildProviderReport (s : ProviderState) (now : ℕ) (utc : ℤ) :
    Option (ProviderHealthReport × ProviderState) := do
  let (tripped, s') := s.isProviderTripped now
  let fresh := s.freshObservations utc
  let peerScore ← peerScore fresh
  let remoteHealthy := fresh.any (·.healthy)
  let bestRemoteLedger := (fresh.map (·.latestLedger)).max?.getD 0
  let remoteFailureFloor := (fresh.map (·.consecutiveFailures)).min?.getD s.consecutiveFailures
  let effectiveScore ← effectiveScore s.localScore peerScore
  let healthy := !tripped && (minProviderScore ≤ effectiveScore.val || remoteHealthy) &&
    (s.consecutiveFailures < circuitBreakerThreshold || remoteHealthy)
  return ({
    name := s.provider.name
    url := s.provider.url
    effectiveScore
    localScore := s.localScore
    peerScore
    latestLedger := max s.latestLedger bestRemoteLedger
    consecutiveFailures := min s.consecutiveFailures remoteFailureFloor
    healthy
    source := s.source
    observationCount := fresh.length }, s')

/-! ## The registry -/

/-- What the registry keeps of a peer. -/
structure PeerState where
  baseUrl : String
  instanceId : Option String
  score : Score
  consecutiveFailures : ℕ

def PeerState.new (baseUrl : String) (instanceId : Option String) : PeerState where
  baseUrl
  instanceId
  score := peerStartingScore
  consecutiveFailures := 0

structure PeerAdvertisement where
  instanceId : Option String
  baseUrl : String

structure GossipProviderSnapshot where
  name : String
  url : String
  score : ℤ
  latestLedger : Option ℕ
  consecutiveFailures : ℕ
  healthy : Bool
  observedAt : ℤ

structure RegistrySnapshot where
  instanceId : String
  baseUrl : Option String
  peers : List PeerAdvertisement
  providers : List GossipProviderSnapshot

structure RegistryConfig where
  instanceId : String
  publicBaseUrl : Option String
  seedPeers : List String

structure ProviderRegistry where
  states : Dict String ProviderState
  peers : Dict String PeerState
  publicBaseUrl : Option String
  latencyCursor : ℕ

def normalizeBaseUrl (url : String) : String :=
  .ofList (Text.trimEndMatches (· = '/') (Text.trim url.toList))

def isRetryableStatus (status : ℕ) : Bool := status = 429 || 500 ≤ status

namespace ProviderRegistry

def newWithConfig (providers : List RpcProvider) (config : RegistryConfig) : ProviderRegistry where
  states := providers.foldl (fun states provider =>
    states.insert provider.url (.new provider "seed" localProviderStartingScore)) .empty
  peers := ((config.seedPeers.map normalizeBaseUrl).filter fun peer =>
      peer ≠ "" ∧ config.publicBaseUrl ≠ some peer).foldl
    (fun peers peer => peers.insert peer (.new peer none)) .empty
  publicBaseUrl := config.publicBaseUrl.map normalizeBaseUrl
  latencyCursor := 0

/-- The states of the available providers, and the registry after each was asked. -/
def available (r : ProviderRegistry) (now : ℕ) : List ProviderState × ProviderRegistry :=
  (((r.states.entries.map Prod.snd).filter fun s => (s.isAvailable now).1).map
      fun s => (s.isAvailable now).2,
    { r with states := r.states.mapVal fun _ s => (s.isAvailable now).2 })

def healthyProviders (r : ProviderRegistry) (now : ℕ) : List RpcProvider × ProviderRegistry :=
  let (available, r) := r.available now
  (available.map (·.provider), r)

/-- The available providers, the fastest first when all of them are warmed up, and otherwise each
in turn first. -/
def providersByLatency (r : ProviderRegistry) (now : ℕ) : List RpcProvider × ProviderRegistry :=
  let (available, r) := r.available now
  if available.isEmpty then ([], r)
  else if available.all fun s => s.stats.isWarmed then
    ((available.insertionSort fun a b => a.stats.emaRttUs ≤ b.stats.emaRttUs).map (·.provider), r)
  else
    ((available.rotate (r.latencyCursor % available.length)).map (·.provider),
      { r with latencyCursor := r.latencyCursor + 1 })

/-- A sample is dropped when the map is being written. -/
def recordRtt (r : ProviderRegistry) (url : String) (rttUs : ℕ) (locked : Bool) :
    ProviderRegistry :=
  if locked then r
  else { r with states := r.states.alter url fun s => { s with stats := s.stats.record rttUs } }

def reportSuccess (r : ProviderRegistry) (url : String) : ProviderRegistry :=
  { r with states := r.states.alter url fun s => s.reportSuccess }

def reportFailure (r : ProviderRegistry) (url : String) (now : ℕ) : ProviderRegistry :=
  { r with states := r.states.alter url fun s => s.reportFailure now }

def getOrInsertProvider (r : ProviderRegistry) (provider : RpcProvider) (source : String)
    (startingScore : Score) : ProviderRegistry :=
  match r.states.get? provider.url with
  | some _ => r
  | none =>
    { r with states := r.states.insert provider.url (.new provider source startingScore) }

def registerPeer (r : ProviderRegistry) (baseUrl : String) (instanceId : Option String) :
    ProviderRegistry :=
  let normalized := normalizeBaseUrl baseUrl
  if normalized = "" ∨ r.publicBaseUrl = some normalized then r
  else
    let peer := (r.peers.get? normalized).getD (.new normalized instanceId)
    let peer := { peer with instanceId := instanceId <|> peer.instanceId }
    { r with peers := r.peers.insert normalized peer }

def reportPeerSuccess (r : ProviderRegistry) (baseUrl : String) : ProviderRegistry :=
  let normalized := normalizeBaseUrl baseUrl
  let r := r.registerPeer normalized none
  { r with peers := r.peers.alter normalized fun peer =>
      { peer with consecutiveFailures := 0, score := adjustScore peer.score peerSuccessBonus } }

def reportPeerFailure (r : ProviderRegistry) (baseUrl : String) : ProviderRegistry :=
  let normalized := normalizeBaseUrl baseUrl
  let r := r.registerPeer normalized none
  { r with peers := r.peers.alter normalized fun peer =>
      { peer with
        consecutiveFailures := peer.consecutiveFailures + 1
        score := adjustScore peer.score (-peerFailurePenalty) } }

/-- The observation that a snapshot makes of a provider. -/
def observation (p : GossipProviderSnapshot) : RemoteProviderObservation where
  score := p.score
  latestLedger := p.latestLedger.getD 0
  consecutiveFailures := p.consecutiveFailures
  healthy := p.healthy
  observedAt := p.observedAt

/-- One provider of a snapshot that `source` sent. -/
def mergeProvider (source : String) (r : ProviderRegistry) (p : GossipProviderSnapshot) :
    ProviderRegistry :=
  let provider : RpcProvider := ⟨p.name, p.url, none, none, some true⟩
  let r := r.getOrInsertProvider provider "gossip" discoveredProviderStartingScore
  { r with states := r.states.alter p.url fun s =>
      { s with remoteObservations := s.remoteObservations.insert source (observation p) } }

/-- Register the peers and take over the observations of a snapshot. -/
def mergeSnapshot (r : ProviderRegistry) (snapshot : RegistrySnapshot) : ProviderRegistry :=
  let r := match snapshot.baseUrl with
    | some baseUrl => r.registerPeer baseUrl (some snapshot.instanceId)
    | none => r
  let r := snapshot.peers.foldl (fun r peer => r.registerPeer peer.baseUrl peer.instanceId) r
  snapshot.providers.foldl (mergeProvider (snapshot.baseUrl.getD snapshot.instanceId)) r

end ProviderRegistry

end Core.Providers
