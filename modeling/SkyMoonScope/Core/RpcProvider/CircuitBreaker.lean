import SkyMoonScope.Core.RpcProvider.Registry
import SkyMoonScope.Lib.Machine
import Mathlib.Data.List.Rotate

/-!
# Recovery of the circuit breaker

A provider is offered when its breaker is closed and, besides, its score is high enough or it has
not failed too often in a row. The breaker closes after its cooldown, but only a success raises the
score or resets the count, and a provider that is not offered has none.

## Main definitions

* `Event`, `Tracked`: the reports and questions a registry gets, and the reports on each provider
* `failuresSince`, `beforeFailures`, `scoreAfter`: the failures since the last success, the reports
  before them, and the score after some reports
* `Restorable`: fewer than three failures since the last success, or three from a full score

## Main results

* `inv_run`: count, score and breaker of a provider are those of the reports on it
* `offered_iff`: after the cooldown a provider is offered exactly when it is restorable
-/

namespace Core.Providers

open Machine

/-- A report on a provider. -/
inductive Report
  | success
  | failure (time : ℕ)

/-- What happens to a registry: reports of requests, samples of latency, gossip, and questions. -/
inductive Event
  | reportSuccess (url : String)
  | reportFailure (url : String) (now : ℕ)
  | recordRtt (url : String) (rttUs : ℕ) (locked : Bool)
  | mergeSnapshot (snapshot : RegistrySnapshot)
  | reportPeerSuccess (baseUrl : String)
  | reportPeerFailure (baseUrl : String)
  | isProviderTripped (url : String) (now : ℕ)
  | healthyProviders (now : ℕ)
  | providersByLatency (now : ℕ)

/-- The registry after an event. -/
def ProviderRegistry.next (r : ProviderRegistry) : Event → ProviderRegistry
  | .reportSuccess url => r.reportSuccess url
  | .reportFailure url now => r.reportFailure url now
  | .recordRtt url rttUs locked => r.recordRtt url rttUs locked
  | .mergeSnapshot snapshot => r.mergeSnapshot snapshot
  | .reportPeerSuccess baseUrl => r.reportPeerSuccess baseUrl
  | .reportPeerFailure baseUrl => r.reportPeerFailure baseUrl
  | .isProviderTripped url now =>
    { r with states := r.states.alter url fun s => (s.isProviderTripped now).2 }
  | .healthyProviders now => (r.healthyProviders now).2
  | .providersByLatency now => (r.providersByLatency now).2

/-- A registry, and the reports on each registered provider, the latest first. -/
structure Tracked where
  registry : ProviderRegistry
  reports : String → List Report

namespace Tracked

/-- Add a report on a provider, if it is registered. -/
def addReport (t : Tracked) (url : String) (report : Report) : String → List Report :=
  if (t.registry.states.get? url).isSome then
    Function.update t.reports url (report :: t.reports url)
  else t.reports

def start (providers : List RpcProvider) (config : RegistryConfig) : Tracked where
  registry := .newWithConfig providers config
  reports := fun _ => []

def next (t : Tracked) (e : Event) : Tracked where
  registry := t.registry.next e
  reports := match e with
    | .reportSuccess url => t.addReport url .success
    | .reportFailure url now => t.addReport url (.failure now)
    | _ => t.reports

/-- One event. -/
def Step (s : Tracked) (e : Event) (t : Tracked) : Prop := s.next e = t

end Tracked

/-! ## Count and score -/

/-- The number of failures since the last success. -/
def failuresSince : List Report → ℕ
  | .failure _ :: rs => failuresSince rs + 1
  | _ => 0

/-- The reports up to the last success. -/
def beforeFailures : List Report → List Report
  | .failure _ :: rs => beforeFailures rs
  | rs => rs

/-- The score a provider has after some reports. -/
def scoreAfter (start : Score) : List Report → Score
  | [] => start
  | .success :: rs => (scoreAfter start rs).success
  | .failure _ :: rs => (scoreAfter start rs).failure

/-- The score a provider starts with: a seed of the configuration, or one discovered by gossip. -/
def startingScore (source : String) : Score :=
  if source = "seed" then localProviderStartingScore else discoveredProviderStartingScore

/-- Fewer than three failures since the last success, or three from a full score. -/
def Restorable (source : String) (rs : List Report) : Prop :=
  failuresSince rs < 3 ∨
    failuresSince rs = 3 ∧ (scoreAfter (startingScore source) (beforeFailures rs)).val = 100

/-- Every failure since the last success costs 25 points, down to none. -/
theorem scoreAfter_eq (start : Score) (rs : List Report) :
    (scoreAfter start rs).val =
      max 0 ((scoreAfter start (beforeFailures rs)).val - 25 * failuresSince rs) := by
  induction rs with
  | nil =>
    have := start.min_le
    simp only [minHealthScore] at this
    simp only [beforeFailures, scoreAfter, failuresSince]
    omega
  | cons report rs ih =>
    cases report with
    | success =>
      have := (scoreAfter start rs).success.min_le
      simp only [minHealthScore] at this
      simp only [beforeFailures, scoreAfter, failuresSince]
      omega
    | failure time =>
      have := (scoreAfter start (beforeFailures rs)).le_max
      simp only [maxHealthScore] at this
      simp only [beforeFailures, scoreAfter, failuresSince, Score.failure, adjustScore, clampScore,
        localFailurePenalty, minHealthScore, maxHealthScore, ih]
      omega

/-- The score or the count admits a provider exactly when it is restorable. -/
theorem restorable_iff (source : String) (rs : List Report) :
    minProviderScore ≤ (scoreAfter (startingScore source) rs).val ∨
      failuresSince rs < circuitBreakerThreshold ↔ Restorable source rs := by
  have hmax := (scoreAfter (startingScore source) (beforeFailures rs)).le_max
  simp only [maxHealthScore] at hmax
  rw [scoreAfter_eq, Restorable, minProviderScore, circuitBreakerThreshold]
  omega

/-! ## What an event changes -/

/-- Count, score and breaker of a provider are those of the reports on it. -/
structure ProviderInv (url : String) (rs : List Report) (s : ProviderState) : Prop where
  url_eq : s.provider.url = url
  count_eq : s.consecutiveFailures = failuresSince rs
  score_eq : s.localScore = scoreAfter (startingScore s.source) rs
  tripped : ∀ w, s.trippedAt = some w → .failure w ∈ rs

/-- Nothing of it changes, except that the breaker may close. -/
structure Frame (s t : ProviderState) : Prop where
  provider_eq : t.provider = s.provider
  source_eq : t.source = s.source
  count_eq : t.consecutiveFailures = s.consecutiveFailures
  score_eq : t.localScore = s.localScore
  tripped : ∀ w, t.trippedAt = some w → s.trippedAt = some w

theorem Frame.refl (s : ProviderState) : Frame s s := ⟨rfl, rfl, rfl, rfl, fun _ h => h⟩

theorem Frame.trans {s t u : ProviderState} (h : Frame s t) (h' : Frame t u) : Frame s u :=
  ⟨h'.provider_eq.trans h.provider_eq, h'.source_eq.trans h.source_eq,
    h'.count_eq.trans h.count_eq, h'.score_eq.trans h.score_eq,
    fun w hw => h.tripped w (h'.tripped w hw)⟩

theorem ProviderInv.frame {url : String} {rs : List Report} {s t : ProviderState}
    (h : ProviderInv url rs s) (hf : Frame s t) : ProviderInv url rs t where
  url_eq := by rw [hf.provider_eq, h.url_eq]
  count_eq := by rw [hf.count_eq, h.count_eq]
  score_eq := by rw [hf.score_eq, hf.source_eq, h.score_eq]
  tripped := fun w hw => h.tripped w (hf.tripped w hw)

theorem ProviderInv.success {url : String} {rs : List Report} {s : ProviderState}
    (h : ProviderInv url rs s) : ProviderInv url (.success :: rs) s.reportSuccess where
  url_eq := h.url_eq
  count_eq := rfl
  score_eq := by simp only [ProviderState.reportSuccess, h.score_eq, scoreAfter]
  tripped := by simp [ProviderState.reportSuccess]

theorem ProviderInv.failure {url : String} {rs : List Report} {s : ProviderState}
    (h : ProviderInv url rs s) (now : ℕ) :
    ProviderInv url (.failure now :: rs) (s.reportFailure now) where
  url_eq := h.url_eq
  count_eq := by simp only [ProviderState.reportFailure, h.count_eq, failuresSince]
  score_eq := by simp only [ProviderState.reportFailure, h.score_eq, scoreAfter]
  tripped := by
    intro w hw
    simp only [ProviderState.reportFailure] at hw
    split at hw
    · obtain rfl := Option.some.inj hw
      exact List.mem_cons_self ..
    · exact List.mem_cons_of_mem _ (h.tripped w hw)

theorem frame_isProviderTripped (s : ProviderState) (now : ℕ) :
    Frame s (s.isProviderTripped now).2 := by
  unfold ProviderState.isProviderTripped
  split
  · exact .refl s
  · split
    · exact ⟨rfl, rfl, rfl, rfl, by simp⟩
    · exact .refl s

theorem isAvailable_snd (s : ProviderState) (now : ℕ) :
    (s.isAvailable now).2 = (s.isProviderTripped now).2 := by
  unfold ProviderState.isAvailable
  split <;> rename_i h <;> rw [h]

namespace ProviderRegistry

/-- The registered providers stay as they are, and those that are new are as good as new. -/
structure Frames (r t : ProviderRegistry) : Prop where
  old : ∀ url s, r.states.get? url = some s → ∃ s', t.states.get? url = some s' ∧ Frame s s'
  new : ∀ url s', r.states.get? url = none → t.states.get? url = some s' → ProviderInv url [] s'

namespace Frames

variable {r t u : ProviderRegistry}

theorem of_states_eq (h : t.states = r.states) : Frames r t where
  old := fun url s hs => ⟨s, by rw [h, hs], .refl s⟩
  new := fun url s' hr ht => by simp [h, hr] at ht

theorem trans (h : Frames r t) (h' : Frames t u) : Frames r u where
  old := by
    intro url s hs
    obtain ⟨s', hs', hf⟩ := h.old url s hs
    obtain ⟨s'', hs'', hf'⟩ := h'.old url s' hs'
    exact ⟨s'', hs'', hf.trans hf'⟩
  new := by
    intro url s'' hr hu
    cases ht : t.states.get? url with
    | none => exact h'.new url s'' ht hu
    | some s' =>
      obtain ⟨v, hv, hf⟩ := h'.old url s' ht
      obtain rfl : s'' = v := Option.some.inj (hu.symm.trans hv)
      exact (h.new url s' hr ht).frame hf

theorem mapVal {f : String → ProviderState → ProviderState} (hf : ∀ url s, Frame s (f url s))
    (ht : t.states = r.states.mapVal f) : Frames r t where
  old := by
    intro url s hs
    exact ⟨f url s, by rw [ht, Dict.get?_mapVal, hs, Option.map_some], hf url s⟩
  new := by
    intro url s' hr hs'
    simp [ht, Dict.get?_mapVal, hr] at hs'

theorem alter {f : ProviderState → ProviderState} (hf : ∀ s, Frame s (f s)) {url : String}
    (ht : t.states = r.states.alter url f) : Frames r t := by
  refine mapVal (f := fun k s => if k = url then f s else s) ?_ ht
  intro k s
  split
  · exact hf s
  · exact .refl s

end Frames

theorem states_registerPeer (r : ProviderRegistry) (baseUrl : String)
    (instanceId : Option String) : (r.registerPeer baseUrl instanceId).states = r.states := by
  simp only [registerPeer]
  split <;> rfl

theorem frames_registerPeer (r : ProviderRegistry) (baseUrl : String)
    (instanceId : Option String) : Frames r (r.registerPeer baseUrl instanceId) :=
  .of_states_eq (states_registerPeer r baseUrl instanceId)

theorem frames_getOrInsertProvider (r : ProviderRegistry) (provider : RpcProvider) :
    Frames r (r.getOrInsertProvider provider "gossip" discoveredProviderStartingScore) := by
  unfold getOrInsertProvider
  split
  case h_1 => exact .of_states_eq rfl
  case h_2 hnone =>
    refine ⟨?_, ?_⟩
    · intro url s hs
      have hne : url ≠ provider.url := by
        rintro rfl
        simp [hnone] at hs
      exact ⟨s, by rw [Dict.get?_insert, if_neg hne, hs], .refl s⟩
    · intro url s' hr hs'
      rw [Dict.get?_insert] at hs'
      split at hs'
      case isTrue hurl =>
        obtain rfl := Option.some.inj hs'
        exact ⟨hurl.symm, rfl, rfl, by simp [ProviderState.new]⟩
      case isFalse => simp [hr] at hs'

theorem frames_mergeProvider (source : String) (r : ProviderRegistry)
    (p : GossipProviderSnapshot) : Frames r (mergeProvider source r p) :=
  (frames_getOrInsertProvider r _).trans
    (.alter (f := fun s =>
      { s with remoteObservations := s.remoteObservations.insert source (observation p) })
      (fun _ => ⟨rfl, rfl, rfl, rfl, fun _ h => h⟩) rfl)

/-- What frames the registry at every element frames it along a list. -/
theorem frames_foldl {ι : Type*} {f : ProviderRegistry → ι → ProviderRegistry}
    (hf : ∀ r x, Frames r (f r x)) (xs : List ι) (r : ProviderRegistry) :
    Frames r (xs.foldl f r) := by
  induction xs generalizing r with
  | nil => exact .of_states_eq rfl
  | cons x xs ih => exact (hf r x).trans (ih (f r x))

theorem frames_mergeSnapshot (r : ProviderRegistry) (snapshot : RegistrySnapshot) :
    Frames r (r.mergeSnapshot snapshot) := by
  simp only [mergeSnapshot]
  have hpeers := frames_foldl (f := fun r (peer : PeerAdvertisement) =>
    r.registerPeer peer.baseUrl peer.instanceId) (fun r peer => frames_registerPeer r _ _)
    snapshot.peers
  refine Frames.trans (Frames.trans ?_ (hpeers _))
    (frames_foldl (frames_mergeProvider _) snapshot.providers _)
  -- the base url of the sender itself
  split
  · exact frames_registerPeer r _ _
  · exact .of_states_eq rfl

theorem frames_newWithConfig (providers : List RpcProvider) (config : RegistryConfig)
    (url : String) (s : ProviderState)
    (hs : (newWithConfig providers config).states.get? url = some s) : ProviderInv url [] s := by
  simp only [newWithConfig] at hs
  -- every state that is inserted is new
  have hfold : ∀ (ps : List RpcProvider) (d : Dict String ProviderState),
      (∀ url s, d.get? url = some s → ProviderInv url [] s) →
      ∀ url s, (ps.foldl (fun d p => d.insert p.url
        (.new p "seed" localProviderStartingScore)) d).get? url = some s →
          ProviderInv url [] s := by
    intro ps
    induction ps with
    | nil => exact fun d hd => hd
    | cons p ps ih =>
      intro d hd
      apply ih
      intro url s hs
      rw [Dict.get?_insert] at hs
      split at hs
      case isTrue hurl =>
        obtain rfl := Option.some.inj hs
        exact ⟨hurl.symm, rfl, rfl, by simp [ProviderState.new]⟩
      case isFalse => exact hd url s hs
  exact hfold providers .empty (by simp) url s hs

theorem states_providersByLatency (r : ProviderRegistry) (now : ℕ) :
    (r.providersByLatency now).2.states = (r.available now).2.states := by
  simp only [providersByLatency]
  split
  · rfl
  · split <;> rfl

/-- An event other than a report frames the registry. -/
theorem frames_next (r : ProviderRegistry) (e : Event) (hs : ∀ url, e ≠ .reportSuccess url)
    (hf : ∀ url now, e ≠ .reportFailure url now) : Frames r (r.next e) := by
  cases e with
  | reportSuccess url => exact absurd rfl (hs url)
  | reportFailure url now => exact absurd rfl (hf url now)
  | recordRtt url rttUs locked =>
    simp only [next, recordRtt]
    split
    · exact .of_states_eq rfl
    · exact .alter (f := fun s => { s with stats := s.stats.record rttUs })
        (fun _ => ⟨rfl, rfl, rfl, rfl, fun _ h => h⟩) rfl
  | mergeSnapshot snapshot => exact frames_mergeSnapshot r snapshot
  | reportPeerSuccess baseUrl =>
    exact .of_states_eq (by simp only [next, reportPeerSuccess, states_registerPeer])
  | reportPeerFailure baseUrl =>
    exact .of_states_eq (by simp only [next, reportPeerFailure, states_registerPeer])
  | isProviderTripped url now =>
    exact .alter (fun s => frame_isProviderTripped s now) rfl
  | healthyProviders now =>
    exact .mapVal (f := fun _ s => (s.isAvailable now).2)
      (fun _ s => by rw [isAvailable_snd]; exact frame_isProviderTripped s now) rfl
  | providersByLatency now =>
    exact .mapVal (f := fun _ s => (s.isAvailable now).2)
      (fun _ s => by rw [isAvailable_snd]; exact frame_isProviderTripped s now)
      (states_providersByLatency r now)

end ProviderRegistry

/-! ## Runs -/

namespace Tracked

/-- Every provider is as the reports on it make it, and there are none on others. -/
structure Inv (t : Tracked) : Prop where
  states : ∀ url s, t.registry.states.get? url = some s → ProviderInv url (t.reports url) s
  unknown : ∀ url, t.registry.states.get? url = none → t.reports url = []

theorem inv_start (providers : List RpcProvider) (config : RegistryConfig) :
    (start providers config).Inv where
  states := ProviderRegistry.frames_newWithConfig providers config
  unknown := fun _ _ => rfl

theorem Inv.of_frames {s t : Tracked} (h : s.Inv) (hf : s.registry.Frames t.registry)
    (hr : t.reports = s.reports) : t.Inv where
  states := by
    intro url v hv
    rw [hr]
    cases hs : s.registry.states.get? url with
    | none =>
      rw [h.unknown url hs]
      exact hf.new url v hs hv
    | some u =>
      obtain ⟨v', hv', hframe⟩ := hf.old url u hs
      obtain rfl : v = v' := Option.some.inj (hv.symm.trans hv')
      exact (h.states url u hs).frame hframe
  unknown := by
    intro url ht
    rw [hr]
    cases hs : s.registry.states.get? url with
    | none => exact h.unknown url hs
    | some u =>
      obtain ⟨v, hv, -⟩ := hf.old url u hs
      rw [ht] at hv
      exact absurd hv (by simp)

/-- A report on a registered provider changes its state and is added to its reports. -/
theorem Inv.report {s : Tracked} (h : s.Inv) (url : String) (report : Report)
    {f : ProviderState → ProviderState}
    (hf : ∀ rs u, ProviderInv url rs u → ProviderInv url (report :: rs) (f u)) :
    Inv ⟨{ s.registry with states := s.registry.states.alter url f }, s.addReport url report⟩ where
  states := by
    intro k v hv
    simp only [Dict.get?_alter] at hv
    by_cases hk : k = url
    · subst hk
      rw [if_pos rfl] at hv
      obtain ⟨u, hu, rfl⟩ := Option.map_eq_some_iff.mp hv
      simp only [addReport, hu, Option.isSome_some, if_true, Function.update_self]
      exact hf _ u (h.states k u hu)
    · rw [if_neg hk] at hv
      have hreports : s.addReport url report k = s.reports k := by
        unfold addReport
        split
        · exact Function.update_of_ne hk _ _
        · rfl
      simp only [hreports]
      exact h.states k v hv
  unknown := by
    intro k hk
    simp only [Dict.get?_alter] at hk
    by_cases hurl : k = url
    · subst hurl
      rw [if_pos rfl, Option.map_eq_none_iff] at hk
      simp only [addReport, hk, Option.isSome_none, Bool.false_eq_true, if_false]
      exact h.unknown k hk
    · rw [if_neg hurl] at hk
      have hnone := h.unknown k hk
      simp only [addReport]
      split
      · rw [Function.update_of_ne hurl, hnone]
      · exact hnone

theorem Inv.step {s t : Tracked} {e : Event} (h : s.Inv) (hstep : s.Step e t) : t.Inv := by
  obtain rfl : s.next e = t := hstep
  have hquiet : (∀ url, e ≠ .reportSuccess url) → (∀ url now, e ≠ .reportFailure url now) →
      (s.next e).reports = s.reports → (s.next e).Inv := fun hs hf hr =>
    h.of_frames (ProviderRegistry.frames_next s.registry e hs hf) hr
  cases e with
  | reportSuccess url => exact h.report url .success fun _ _ hu => hu.success
  | reportFailure url now => exact h.report url (.failure now) fun _ _ hu => hu.failure now
  | _ => exact hquiet (by simp) (by simp) (by simp only [next])

end Tracked

/-! ## Offers -/

/-- When the cooldown after every failure has elapsed, only score and count matter. -/
theorem isAvailable_iff {s : ProviderState} {now : ℕ}
    (h : ∀ w, s.trippedAt = some w → w + circuitBreakerCooldown ≤ now) :
    (s.isAvailable now).1 = true ↔ minProviderScore ≤ s.localScore.val ∨
      s.consecutiveFailures < circuitBreakerThreshold := by
  have htripped : (s.isProviderTripped now).1 = false := by
    unfold ProviderState.isProviderTripped
    split
    · rfl
    case h_2 w hw =>
      have := h w hw
      rw [if_pos (by omega)]
  have hframe := frame_isProviderTripped s now
  unfold ProviderState.isAvailable
  split
  case h_1 heq => simp [heq] at htripped
  case h_2 u heq =>
    have hframe : Frame s u := by rwa [heq] at hframe
    simp only [Bool.or_eq_true, decide_eq_true_eq, hframe.score_eq, hframe.count_eq]

variable {r : ProviderRegistry} {url : String} {s : ProviderState} {now : ℕ}

/-- The providers offered are those that are available. -/
theorem mem_available_iff (hurl : ∀ url s, r.states.get? url = some s → s.provider.url = url)
    (hs : r.states.get? url = some s) :
    s.provider ∈ (r.available now).1.map (·.provider) ↔ (s.isAvailable now).1 = true := by
  have hprovider : ∀ u : ProviderState, (u.isAvailable now).2.provider = u.provider := by
    intro u
    rw [isAvailable_snd]
    exact (frame_isProviderTripped u now).provider_eq
  simp only [ProviderRegistry.available, List.mem_map, List.mem_filter]
  constructor
  · rintro ⟨-, ⟨u, ⟨⟨⟨k, v⟩, hmem, rfl⟩, havail⟩, rfl⟩, heq⟩
    -- a provider is registered under one url
    have hv := Dict.get?_eq_some_iff.mpr hmem
    have hk : k = url := by
      rw [← hurl k v hv, ← hurl url s hs, ← heq, hprovider]
    subst hk
    obtain rfl : s = v := Option.some.inj (hs.symm.trans hv)
    exact havail
  · intro havail
    exact ⟨_, ⟨s, ⟨⟨(url, s), Dict.get?_eq_some_iff.mp hs, rfl⟩, havail⟩, rfl⟩, hprovider s⟩

theorem mem_healthyProviders_iff (p : RpcProvider) :
    p ∈ (r.healthyProviders now).1 ↔ p ∈ (r.available now).1.map (·.provider) := Iff.rfl

/-- Sorting and rotating the providers offers none less. -/
theorem mem_providersByLatency_iff (p : RpcProvider) :
    p ∈ (r.providersByLatency now).1 ↔ p ∈ (r.available now).1.map (·.provider) := by
  simp only [ProviderRegistry.providersByLatency]
  split
  case isTrue hempty => rw [List.isEmpty_iff.mp hempty, List.map_nil]
  case isFalse =>
    split
    · exact ((List.perm_insertionSort _ _).map _).mem_iff
    · exact ((List.rotate_perm _ _).map _).mem_iff

/-- **Recovery.** When the cooldown has elapsed since the last failure of a provider, it is offered
exactly when it is restorable: its score after three failures from less than full, or after more, is
too low, and it is never offered again. -/
theorem offered_iff (providers : List RpcProvider) (config : RegistryConfig) (es : List Event)
    (t : Tracked) (hrun : Run Tracked.Step (.start providers config) es t) (url : String)
    (s : ProviderState) (hs : t.registry.states.get? url = some s) (now : ℕ)
    (hcool : ∀ w, .failure w ∈ t.reports url → w + circuitBreakerCooldown ≤ now) :
    (s.provider ∈ (t.registry.healthyProviders now).1 ↔ Restorable s.source (t.reports url)) ∧
      (s.provider ∈ (t.registry.providersByLatency now).1 ↔
        Restorable s.source (t.reports url)) := by
  have hinv : t.Inv := hrun.invariant (fun _ _ _ h hstep => h.step hstep)
    (Tracked.inv_start providers config)
  have hprovider := hinv.states url s hs
  have havail : s.provider ∈ (t.registry.available now).1.map (·.provider) ↔
      Restorable s.source (t.reports url) := by
    rw [mem_available_iff (fun k u hu => (hinv.states k u hu).url_eq) hs,
      isAvailable_iff (fun w hw => hcool w (hprovider.tripped w hw)), hprovider.score_eq,
      hprovider.count_eq]
    exact restorable_iff s.source (t.reports url)
  exact ⟨(mem_healthyProviders_iff _).trans havail, (mem_providersByLatency_iff _).trans havail⟩

/-- A provider without credentials. -/
def openProvider : RpcProvider := ⟨"a", "a", none, none, none⟩

/-- A registry of one provider. -/
def oneProvider : Tracked := .start [openProvider] ⟨"local", none, []⟩

/-- The provider has failed twice. -/
def twoFailures : Tracked :=
  (oneProvider.next (.reportFailure "a" 0)).next (.reportFailure "a" 1000)

/-- After two failures the provider is offered again. -/
theorem offered_iff_twoFailures :
    (openProvider ∈ (twoFailures.registry.healthyProviders 300000001000).1 ↔
        Restorable "seed" [.failure 1000, .failure 0]) ∧
      (openProvider ∈ (twoFailures.registry.providersByLatency 300000001000).1 ↔
        Restorable "seed" [.failure 1000, .failure 0]) := by
  refine offered_iff _ _ _ twoFailures (.cons rfl (.single rfl)) "a"
    (((ProviderState.new openProvider "seed" localProviderStartingScore).reportFailure
      0).reportFailure 1000) rfl 300000001000 ?_
  intro w hw
  have hreports : twoFailures.reports "a" = [.failure 1000, .failure 0] := rfl
  rw [hreports] at hw
  simp only [List.mem_cons, Report.failure.injEq, List.not_mem_nil, or_false] at hw
  rw [circuitBreakerCooldown]
  omega

/-- **A provider is lost**: after three failures the starting score of 70 is used up, and once the
cooldown is over the provider is not offered again. -/
theorem not_offered :
    ¬ ∀ (providers : List RpcProvider) (config : RegistryConfig) (es : List Event) (t : Tracked),
      Run Tracked.Step (.start providers config) es t →
      ∀ url s, t.registry.states.get? url = some s →
      ∀ now, (∀ w, .failure w ∈ t.reports url → w + circuitBreakerCooldown ≤ now) →
        s.provider ∈ (t.registry.healthyProviders now).1 := by
  intro h
  let t := ((oneProvider.next (.reportFailure "a" 0)).next (.reportFailure "a" 0)).next
    (.reportFailure "a" 0)
  have hrun : Run Tracked.Step oneProvider
      [.reportFailure "a" 0, .reportFailure "a" 0, .reportFailure "a" 0] t :=
    .cons rfl (.cons rfl (.single rfl))
  have hreports : t.reports "a" = [.failure 0, .failure 0, .failure 0] := rfl
  have hoffered := h _ _ _ t hrun "a" _ rfl 300000000000 (by
    intro w hw
    rw [hreports] at hw
    simp only [List.mem_cons, Report.failure.injEq, List.not_mem_nil, or_false] at hw
    rw [circuitBreakerCooldown]
    omega)
  have hnone : (t.registry.healthyProviders 300000000000).1 = [] := by decide
  rw [hnone] at hoffered
  exact absurd hoffered (List.not_mem_nil)

end Core.Providers
