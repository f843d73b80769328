import SkyMoonScope.Core.RpcProvider.CircuitBreaker
import Mathlib.Data.Finset.Card

/-!
# Gossiped observations

The report of a provider averages what the peers have sent of it. The registry takes over the
scores and the dates of the peers as they are: a score may be anything, and an observation from
the future does not age.

## Main definitions

* `Gossiped`: a registry and the snapshots merged into it, with the dates of their merges
* `Sound`: no report overflows, its scores are between 0 and 100, and what it is made of was merged
  less than the time to live ago
* `Sane`: the observations of a snapshot are in range and not from the future, and there are not too
  many sources for the sum of their scores to be represented

## Main results

* `exists_report`: a report of observations in range does not overflow and is in range
* `observes_mergeSnapshot`: what a snapshot adds to the observations of a registry
* `sound_of_sane`: along every run of sane snapshots all reports are sound
-/

namespace Core.Providers

open Machine

/-! ## Reports of observations in range -/

/-- The sum of scores in range is in range, and so is every partial sum. -/
theorem exists_sumScores {os : List RemoteProviderObservation}
    (hos : ∀ o ∈ os, 0 ≤ o.score ∧ o.score ≤ 100)
    (hlen : 100 * (os.length : ℤ) ≤ 2 ^ 63 - 1) :
    ∃ sum, sumScores os = some sum ∧ 0 ≤ sum ∧ sum ≤ 100 * os.length := by
  -- the sum from `acc` on
  have hfrom : ∀ (os : List RemoteProviderObservation) (acc : ℤ), 0 ≤ acc →
      (∀ o ∈ os, 0 ≤ o.score ∧ o.score ≤ 100) → acc + 100 * (os.length : ℤ) ≤ 2 ^ 63 - 1 →
      ∃ sum, os.foldlM (fun acc o => IntType.i64.checked (acc + o.score)) acc = some sum ∧
        acc ≤ sum ∧ sum ≤ acc + 100 * os.length := by
    intro os
    induction os with
    | nil => exact fun acc _ _ _ => ⟨acc, rfl, le_rfl, by simp⟩
    | cons o os ih =>
      intro acc hacc hos hbound
      obtain ⟨hlo, hhi⟩ := hos o (List.mem_cons_self ..)
      rw [List.length_cons] at hbound
      push_cast at hbound
      have hfits : IntType.i64.checked (acc + o.score) = some (acc + o.score) := by
        rw [IntType.checked_eq_some]
        refine ⟨⟨?_, ?_⟩, rfl⟩ <;> simp only [IntType.i64] <;> omega
      obtain ⟨sum, hsum, hle, hle'⟩ := ih (acc + o.score) (by omega)
        (fun o ho => hos o (List.mem_cons_of_mem _ ho)) (by omega)
      refine ⟨sum, ?_, by omega, ?_⟩
      · rw [List.foldlM_cons, hfits]
        exact hsum
      · rw [List.length_cons]
        push_cast
        omega
  obtain ⟨sum, hsum, hlo, hhi⟩ := hfrom os 0 le_rfl hos (by omega)
  exact ⟨sum, hsum, hlo, by omega⟩

/-- The average of scores in range is in range. -/
theorem exists_peerScore {os : List RemoteProviderObservation}
    (hos : ∀ o ∈ os, 0 ≤ o.score ∧ o.score ≤ 100)
    (hlen : 100 * (os.length : ℤ) ≤ 2 ^ 63 - 1) :
    ∃ score, peerScore os = some score ∧ 0 ≤ score ∧ score ≤ 100 := by
  unfold peerScore
  by_cases hempty : os.isEmpty = true
  · exact ⟨0, by rw [if_pos hempty], le_rfl, by omega⟩
  · obtain ⟨sum, hsum, hlo, hhi⟩ := exists_sumScores hos hlen
    have hpos : (0 : ℤ) < os.length := by
      have : os ≠ [] := fun h => hempty (List.isEmpty_iff.mpr h)
      exact_mod_cast List.length_pos_of_ne_nil this
    have hquot : 0 ≤ sum.tdiv os.length ∧ sum.tdiv os.length ≤ 100 := by
      rw [Int.tdiv_eq_ediv_of_nonneg hlo]
      exact ⟨Int.ediv_nonneg hlo hpos.le, Int.ediv_le_of_le_mul hpos hhi⟩
    refine ⟨sum.tdiv os.length, ?_, hquot⟩
    rw [if_neg hempty, hsum, Option.bind_some, IntType.checkedDiv_eq_some]
    refine ⟨hpos.ne', ⟨?_, ?_⟩, rfl⟩ <;> simp only [IntType.i64] <;> omega

theorem exists_effectiveScore (localScore : Score) {peerScore : ℤ} (hlo : 0 ≤ peerScore)
    (hhi : peerScore ≤ 100) : ∃ score, effectiveScore localScore peerScore = some score := by
  have hmin := localScore.min_le
  have hmax := localScore.le_max
  simp only [minHealthScore, maxHealthScore] at hmin hmax
  have hdouble : IntType.i64.checked (localScore.val * 2) = some (localScore.val * 2) := by
    rw [IntType.checked_eq_some]
    refine ⟨⟨?_, ?_⟩, rfl⟩ <;> simp only [IntType.i64] <;> omega
  have hsum : IntType.i64.checked (localScore.val * 2 + peerScore) =
      some (localScore.val * 2 + peerScore) := by
    rw [IntType.checked_eq_some]
    refine ⟨⟨?_, ?_⟩, rfl⟩ <;> simp only [IntType.i64] <;> omega
  simp only [effectiveScore, hdouble, hsum, Option.bind_eq_bind, Option.bind_some]
  exact ⟨_, rfl⟩

/-- **A report of observations in range** does not overflow, and its peer score is in range. -/
theorem exists_report {s : ProviderState} {utc : ℤ}
    (hos : ∀ o ∈ s.freshObservations utc, 0 ≤ o.score ∧ o.score ≤ 100)
    (hlen : 100 * ((s.freshObservations utc).length : ℤ) ≤ 2 ^ 63 - 1) (now : ℕ) :
    ∃ report s', s.buildProviderReport now utc = some (report, s') ∧ 0 ≤ report.peerScore ∧
      report.peerScore ≤ 100 := by
  unfold ProviderState.buildProviderReport
  obtain ⟨score, hscore, hlo, hhi⟩ := exists_peerScore hos hlen
  obtain ⟨effective, heffective⟩ := exists_effectiveScore s.localScore hlo hhi
  obtain ⟨tripped, s'⟩ := s.isProviderTripped now
  simp only [hscore, heffective, Option.bind_eq_bind, Option.bind_some]
  exact ⟨_, _, rfl, hlo, hhi⟩

/-! ## What a snapshot adds -/

/-- Whom the observations of a snapshot are from. -/
def RegistrySnapshot.source (snapshot : RegistrySnapshot) : String :=
  snapshot.baseUrl.getD snapshot.instanceId

namespace ProviderRegistry

/-- Every observation of a provider, with its source, meets a condition. -/
def Observes (P : String → String → RemoteProviderObservation → Prop) (r : ProviderRegistry) :
    Prop :=
  ∀ url s, r.states.get? url = some s → ∀ p ∈ s.remoteObservations.entries, P url p.1 p.2

variable {P Q : String → String → RemoteProviderObservation → Prop} {r t : ProviderRegistry}

theorem Observes.mono (h : Observes P r) (hPQ : ∀ url source o, P url source o → Q url source o) :
    Observes Q r := by
  intro url s hs p hp
  exact hPQ _ _ _ (h url s hs p hp)

/-- A change of the states that keeps their observations. -/
theorem Observes.mapVal (h : Observes P r) {f : String → ProviderState → ProviderState}
    (hf : ∀ url s, (f url s).remoteObservations = s.remoteObservations)
    (ht : t.states = r.states.mapVal f) : Observes P t := by
  intro url s hs
  rw [ht, Dict.get?_mapVal] at hs
  obtain ⟨u, hu, rfl⟩ := Option.map_eq_some_iff.mp hs
  rw [hf]
  exact h url u hu

theorem Observes.alter (h : Observes P r) {f : ProviderState → ProviderState}
    (hf : ∀ s, (f s).remoteObservations = s.remoteObservations) {url : String}
    (ht : t.states = r.states.alter url f) : Observes P t := by
  refine h.mapVal (f := fun k s => if k = url then f s else s) ?_ ht
  intro k s
  split
  · exact hf s
  · rfl

theorem Observes.of_states_eq (h : Observes P r) (ht : t.states = r.states) : Observes P t := by
  intro url s hs
  exact h url s (by rw [← ht, hs])

/-- A new state has no observations. -/
theorem Observes.insert (h : Observes P r) {url : String} {s : ProviderState}
    (hnew : s.remoteObservations = .empty) (ht : t.states = r.states.insert url s) :
    Observes P t := by
  intro k u hu
  rw [ht, Dict.get?_insert] at hu
  split at hu
  case isTrue =>
    obtain rfl := Option.some.inj hu
    rw [hnew]
    exact fun p hp => absurd hp (List.not_mem_nil)
  case isFalse => exact h k u hu

/-- What every element of a list keeps, the list keeps. -/
theorem Observes.foldl {ι : Type*} {f : ProviderRegistry → ι → ProviderRegistry} {xs : List ι}
    (hf : ∀ x ∈ xs, ∀ r, Observes P r → Observes P (f r x)) (h : Observes P r) :
    Observes P (xs.foldl f r) := by
  induction xs generalizing r with
  | nil => exact h
  | cons x xs ih =>
    rw [List.foldl_cons]
    refine ih (fun y hy => hf y (List.mem_cons_of_mem x hy)) ?_
    exact hf x (List.mem_cons_self ..) r h

theorem observes_newWithConfig (providers : List RpcProvider) (config : RegistryConfig) :
    Observes P (newWithConfig providers config) := by
  have hfold : ∀ (ps : List RpcProvider) (d : Dict String ProviderState),
      (∀ url s, d.get? url = some s → s.remoteObservations = .empty) →
      ∀ url s, (ps.foldl (fun d p => d.insert p.url
        (.new p "seed" localProviderStartingScore)) d).get? url = some s →
          s.remoteObservations = .empty := by
    intro ps
    induction ps with
    | nil => exact fun d hd => hd
    | cons p ps ih =>
      intro d hd
      apply ih
      intro url s hs
      rw [Dict.get?_insert] at hs
      split at hs
      · obtain rfl := Option.some.inj hs
        rfl
      · exact hd url s hs
  intro url s hs
  simp only [newWithConfig] at hs
  rw [hfold providers .empty (by simp) url s hs]
  exact fun p hp => absurd hp (List.not_mem_nil)

theorem observes_registerPeer (h : Observes P r) (baseUrl : String)
    (instanceId : Option String) : Observes P (r.registerPeer baseUrl instanceId) :=
  h.of_states_eq (states_registerPeer r baseUrl instanceId)

/-- A provider of a snapshot adds its observation. -/
theorem observes_mergeProvider (h : Observes P r) {source : String}
    {p : GossipProviderSnapshot} (hp : P p.url source (observation p)) :
    Observes P (mergeProvider source r p) := by
  have hinsert : Observes P (r.getOrInsertProvider ⟨p.name, p.url, none, none, some true⟩ "gossip"
      discoveredProviderStartingScore) := by
    unfold getOrInsertProvider
    split
    · exact h
    · exact h.insert rfl rfl
  intro url s hs
  simp only [mergeProvider, Dict.get?_alter] at hs
  split at hs
  case isTrue hurl =>
    obtain ⟨u, hu, rfl⟩ := Option.map_eq_some_iff.mp hs
    rintro ⟨k, o⟩ hmem
    have hget := Dict.get?_eq_some_iff.mpr hmem
    rw [Dict.get?_insert] at hget
    split at hget
    case isTrue hk =>
      obtain rfl := Option.some.inj hget
      rw [hurl, hk]
      exact hp
    case isFalse => exact hinsert _ u hu (k, o) (Dict.get?_eq_some_iff.mp hget)
  case isFalse => exact hinsert url s hs

/-- A snapshot adds its observations, and no others. -/
theorem observes_mergeSnapshot (h : Observes P r) {snapshot : RegistrySnapshot}
    (hsnap : ∀ p ∈ snapshot.providers, P p.url snapshot.source (observation p)) :
    Observes P (r.mergeSnapshot snapshot) := by
  simp only [mergeSnapshot]
  refine Observes.foldl (fun p hp r hr => observes_mergeProvider hr (hsnap p hp)) ?_
  refine Observes.foldl (fun peer _ r hr => observes_registerPeer hr _ _) ?_
  split
  · exact observes_registerPeer h _ _
  · exact h

theorem remoteObservations_isProviderTripped (s : ProviderState) (now : ℕ) :
    (s.isProviderTripped now).2.remoteObservations = s.remoteObservations := by
  unfold ProviderState.isProviderTripped
  split
  · rfl
  · split <;> rfl

theorem remoteObservations_isAvailable (s : ProviderState) (now : ℕ) :
    (s.isAvailable now).2.remoteObservations = s.remoteObservations := by
  rw [isAvailable_snd, remoteObservations_isProviderTripped]

/-- An event that is no snapshot adds no observation. -/
theorem observes_next (h : Observes P r) {e : Event}
    (he : ∀ snapshot, e ≠ .mergeSnapshot snapshot) : Observes P (r.next e) := by
  cases e with
  | mergeSnapshot snapshot => exact absurd rfl (he snapshot)
  | reportSuccess url => exact h.alter (f := fun s => s.reportSuccess) (fun _ => rfl) rfl
  | reportFailure url now => exact h.alter (f := fun s => s.reportFailure now) (fun _ => rfl) rfl
  | recordRtt url rttUs locked =>
    simp only [next, recordRtt]
    split
    · exact h
    · exact h.alter (f := fun s => { s with stats := s.stats.record rttUs }) (fun _ => rfl) rfl
  | reportPeerSuccess baseUrl =>
    exact h.of_states_eq (by simp only [next, reportPeerSuccess, states_registerPeer])
  | reportPeerFailure baseUrl =>
    exact h.of_states_eq (by simp only [next, reportPeerFailure, states_registerPeer])
  | isProviderTripped url now =>
    exact h.alter (fun s => remoteObservations_isProviderTripped s now) rfl
  | healthyProviders now =>
    exact h.mapVal (f := fun _ s => (s.isAvailable now).2)
      (fun _ s => remoteObservations_isAvailable s now) rfl
  | providersByLatency now =>
    exact h.mapVal (f := fun _ s => (s.isAvailable now).2)
      (fun _ s => remoteObservations_isAvailable s now) (states_providersByLatency r now)

end ProviderRegistry

/-! ## Runs -/

/-- A registry, and the snapshots merged into it with the dates of their merges. -/
structure Gossiped where
  registry : ProviderRegistry
  merged : List (ℤ × RegistrySnapshot)

namespace Gossiped

def start (providers : List RpcProvider) (config : RegistryConfig) : Gossiped where
  registry := .newWithConfig providers config
  merged := []

/-- One event, at a date. -/
def next (g : Gossiped) (l : ℤ × Event) : Gossiped where
  registry := g.registry.next l.2
  merged := match l.2 with
    | .mergeSnapshot snapshot => (l.1, snapshot) :: g.merged
    | _ => g.merged

def Step (g : Gossiped) (l : ℤ × Event) (g' : Gossiped) : Prop := g.next l = g'

/-- An observation of a provider was merged at a date. -/
def Merged (g : Gossiped) (url : String) (o : RemoteProviderObservation) (date : ℤ) : Prop :=
  ∃ snapshot, (date, snapshot) ∈ g.merged ∧
    ∃ p ∈ snapshot.providers, p.url = url ∧ ProviderRegistry.observation p = o

/-- Whom snapshots were merged from. -/
def sources (g : Gossiped) : Finset String := (g.merged.map fun m => m.2.source).toFinset

/-- Every report, at any time and date, is in range, and made of observations that were merged
less than the time to live ago. -/
def Sound (g : Gossiped) : Prop :=
  ∀ url s, g.registry.states.get? url = some s → ∀ now utc,
    (∃ report s', s.buildProviderReport now utc = some (report, s') ∧
      0 ≤ report.peerScore ∧ report.peerScore ≤ 100 ∧
      0 ≤ report.effectiveScore.val ∧ report.effectiveScore.val ≤ 100) ∧
    ∀ o ∈ s.freshObservations utc, (∃ date, g.Merged url o date) ∧
      ∀ date, g.Merged url o date → utc < date + remoteObservationTtl

/-- The scores of a snapshot are in range, its observations not from the future, and with its
source there are not too many. -/
def Sane (g : Gossiped) (l : ℤ × Event) : Prop :=
  ∀ snapshot, l.2 = .mergeSnapshot snapshot →
    (∀ p ∈ snapshot.providers, 0 ≤ p.score ∧ p.score ≤ 100 ∧ p.observedAt ≤ l.1) ∧
    100 * ((insert snapshot.source g.sources).card : ℤ) ≤ 2 ^ 63 - 1

/-- Every observation was merged in a snapshot, and all of these were sane. -/
structure Inv (g : Gossiped) : Prop where
  observed : g.registry.Observes fun url source o =>
    source ∈ g.sources ∧ ∃ date, g.Merged url o date
  sane : ∀ m ∈ g.merged, ∀ p ∈ m.2.providers, 0 ≤ p.score ∧ p.score ≤ 100 ∧ p.observedAt ≤ m.1
  few : 100 * (g.sources.card : ℤ) ≤ 2 ^ 63 - 1

theorem inv_start (providers : List RpcProvider) (config : RegistryConfig) :
    (start providers config).Inv where
  observed := ProviderRegistry.observes_newWithConfig providers config
  sane := fun m hm => absurd hm (List.not_mem_nil)
  few := by simp [start, sources]

theorem Inv.step {g g' : Gossiped} {l : ℤ × Event} (h : g.Inv)
    (hstep : g.Step l g' ∧ g.Sane l) : g'.Inv := by
  obtain ⟨rfl, hsane⟩ := hstep
  obtain ⟨date, e⟩ := l
  by_cases he : ∃ snapshot, e = .mergeSnapshot snapshot
  · obtain ⟨snapshot, rfl⟩ := he
    obtain ⟨hrange, hfew⟩ := hsane snapshot rfl
    have hsources : (g.next (date, .mergeSnapshot snapshot)).sources =
        insert snapshot.source g.sources := by
      simp only [sources, next, List.map_cons, List.toFinset_cons]
    refine ⟨?_, ?_, by rw [hsources]; exact hfew⟩
    · refine ProviderRegistry.observes_mergeSnapshot (h.observed.mono ?_) ?_
      · -- what was merged before is merged still
        rintro url source o ⟨hsource, u, old, hold, hmem⟩
        rw [hsources]
        exact ⟨Finset.mem_insert_of_mem hsource, u, old, List.mem_cons_of_mem _ hold, hmem⟩
      · intro p hp
        rw [hsources]
        exact ⟨Finset.mem_insert_self _ _, date, snapshot, List.mem_cons_self .., p, hp, rfl, rfl⟩
    · intro m hm
      rcases List.mem_cons.mp hm with rfl | hm
      · exact hrange
      · exact h.sane m hm
  · have hne : ∀ snapshot, e ≠ .mergeSnapshot snapshot := fun snapshot heq => he ⟨snapshot, heq⟩
    have hmerged : (g.next (date, e)).merged = g.merged := by
      cases e with
      | mergeSnapshot snapshot => exact absurd rfl (hne snapshot)
      | _ => simp only [next]
    refine ⟨?_, ?_, ?_⟩
    · refine (ProviderRegistry.observes_next h.observed hne).mono ?_
      rintro url source o ⟨hsource, hold⟩
      simp only [sources, Merged, hmerged]
      exact ⟨hsource, hold⟩
    · rw [hmerged]
      exact h.sane
    · simp only [sources, hmerged]
      exact h.few

/-- A fresh observation is one of a snapshot. -/
theorem Inv.exists_merged {g : Gossiped} (h : g.Inv) {url : String} {s : ProviderState}
    (hs : g.registry.states.get? url = some s) {utc : ℤ} {o : RemoteProviderObservation}
    (ho : o ∈ s.freshObservations utc) :
    ProviderState.isObservationStale utc o.observedAt = false ∧ ∃ date, g.Merged url o date := by
  simp only [ProviderState.freshObservations, List.mem_filter, List.mem_map] at ho
  obtain ⟨⟨⟨source, v⟩, hmem, rfl⟩, hfresh⟩ := ho
  obtain ⟨-, hmerged⟩ := h.observed url s hs (source, v) hmem
  exact ⟨by simpa using hfresh, hmerged⟩

/-- A provider has at most one observation of each source. -/
theorem Inv.length_freshObservations {g : Gossiped} (h : g.Inv) {url : String} {s : ProviderState}
    (hs : g.registry.states.get? url = some s) (utc : ℤ) :
    (s.freshObservations utc).length ≤ g.sources.card := by
  have hsub : (s.remoteObservations.entries.map Prod.fst).toFinset ⊆ g.sources := by
    intro source hsource
    obtain ⟨p, hp, rfl⟩ := List.mem_map.mp (List.mem_toFinset.mp hsource)
    exact (h.observed url s hs p hp).1
  calc (s.freshObservations utc).length
      ≤ (s.remoteObservations.entries.map Prod.snd).length := List.length_filter_le _ _
    _ = (s.remoteObservations.entries.map Prod.fst).length := by
        rw [List.length_map, List.length_map]
    _ = (s.remoteObservations.entries.map Prod.fst).toFinset.card :=
        (List.toFinset_card_of_nodup s.remoteObservations.nodup).symm
    _ ≤ g.sources.card := Finset.card_le_card hsub

theorem Inv.sound {g : Gossiped} (h : g.Inv) : g.Sound := by
  intro url s hs now utc
  have hrange : ∀ o ∈ s.freshObservations utc, 0 ≤ o.score ∧ o.score ≤ 100 := by
    intro o ho
    obtain ⟨-, date, snapshot, hmem, p, hp, -, rfl⟩ := h.exists_merged hs ho
    obtain ⟨hlo, hhi, -⟩ := h.sane _ hmem p hp
    exact ⟨hlo, hhi⟩
  have hlen : 100 * ((s.freshObservations utc).length : ℤ) ≤ 2 ^ 63 - 1 := by
    have hcard : ((s.freshObservations utc).length : ℤ) ≤ g.sources.card := by
      exact_mod_cast h.length_freshObservations hs utc
    have hfew := h.few
    omega
  constructor
  · obtain ⟨report, s', hreport, hlo, hhi⟩ := exists_report hrange hlen now
    exact ⟨report, s', hreport, hlo, hhi, report.effectiveScore.min_le,
      report.effectiveScore.le_max⟩
  · intro o ho
    obtain ⟨hfresh, hmerged⟩ := h.exists_merged hs ho
    refine ⟨hmerged, ?_⟩
    rintro date ⟨snapshot, hmem, p, hp, -, rfl⟩
    -- an observation that was not from the future has aged since its merge
    obtain ⟨-, -, hdate⟩ := h.sane _ hmem p hp
    have hyoung := of_decide_eq_false hfresh
    simp only [ProviderRegistry.observation] at hyoung
    omega

/-- **Robustness.** Along every run in which all snapshots are sane, every report is sound. -/
theorem sound_of_sane (providers : List RpcProvider) (config : RegistryConfig)
    (ls : List (ℤ × Event)) (g : Gossiped)
    (hrun : Run (fun g l g' => g.Step l g' ∧ g.Sane l) (.start providers config) ls g) :
    g.Sound := by
  have hinv : g.Inv := hrun.invariant (fun _ _ _ h hstep => h.step hstep)
    (inv_start providers config)
  exact hinv.sound

/-- A snapshot of one provider. -/
def snapshotOf (score observedAt : ℤ) : RegistrySnapshot :=
  ⟨"peer", none, [], [⟨"a", "a", score, none, 0, true, observedAt⟩]⟩

theorem sound_of_sane_snapshotOf :
    ((start [] ⟨"local", none, []⟩).next (5, .mergeSnapshot (snapshotOf 80 3))).Sound := by
  refine sound_of_sane [] ⟨"local", none, []⟩ [(5, .mergeSnapshot (snapshotOf 80 3))] _
    (.single ⟨rfl, ?_⟩)
  rintro snapshot hsnapshot
  obtain rfl := Event.mergeSnapshot.inj hsnapshot
  constructor
  · simp [snapshotOf]
  · have hcard : (insert (snapshotOf 80 3).source
        (start [] ⟨"local", none, []⟩).sources).card = 1 := rfl
    rw [hcard]
    norm_num

/-- **A score out of range** is taken over: the peer score of the report is out of range too. -/
theorem not_sound :
    ¬ ∀ (providers : List RpcProvider) (config : RegistryConfig) (ls : List (ℤ × Event))
      (g : Gossiped), Run Step (.start providers config) ls g → g.Sound := by
  intro h
  let g := (start [] ⟨"local", none, []⟩).next (0, .mergeSnapshot (snapshotOf 1000 0))
  have hsound : g.Sound := h [] ⟨"local", none, []⟩ _ g (.single rfl)
  obtain ⟨⟨report, s', hreport, -, hhi, -⟩, -⟩ := hsound "a" _ rfl 0 0
  have hpeer : (some (report, s')).map (fun p => p.1.peerScore) = some 1000 := by
    rw [← hreport]
    rfl
  have heq : report.peerScore = 1000 := Option.some.inj hpeer
  omega

end Gossiped

end Core.Providers
