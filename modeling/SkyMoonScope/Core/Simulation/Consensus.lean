import SkyMoonScope.Core.RpcProvider.CircuitBreaker
import SkyMoonScope.Core.Simulation.ResourceSearch
import SkyMoonScope.Lib.SortedLists

/-!
# Simulations that three providers agree on

A simulation is sent to the first three providers that are available. All of them must answer, and
the answers must agree in the resources and in the set of ledger keys that are touched. Each of the
three is reported for its own answer, whatever the others say.

## Main definitions

* `SimulationResult`, `ConsensusFingerprint`: an answer, and what is compared of it
* `diffFingerprints`: the fields in which two answers differ
* `simulateTransactionWithConsensus`: the three requests, the reports and the comparison

## Main results

* `diffFingerprints_eq_nil_iff`: a difference is explained by some field
* `consensus_ok_iff`: which answers are accepted
* `consensus_reports`: what is reported of whom
-/

namespace Core.Simulation

open Providers

/-- `Display` of an error. -/
def SimulationError.display : SimulationError → String
  | .io message => "IO error: " ++ message
  | .rpcRequestFailed message => "RPC request failed: " ++ message
  | .nodeTimeout => "RPC node timeout"
  | .nodeError message => "Node returned an error: " ++ message
  | .serializationError message => "Serialization error: " ++ message
  | .networkError message => "Network error: " ++ message
  | .base64Error message => "Base64 decode error: " ++ message
  | .xdrError message => "XDR decode error: " ++ message
  | .invalidContract message => "Invalid contract: " ++ message
  | .parseError message => "Parse error: " ++ message
  | .localUnavailable => "Local WASM execution unavailable"
  | .executionFailed message => "Contract execution failed: " ++ message
  | .insufficientConsensusProviders message => "Insufficient consensus providers: " ++ message
  | .consensusMismatch message => "Consensus mismatch: " ++ message

/-- A simulation: what the comparison reads of it, and the rest. -/
structure SimulationResult (ρ : Type) where
  resources : SorobanResources
  transactionData : String
  rest : ρ

/-- The footprint of the transaction data, the keys as text: what is only read, and what is read
and written. There is none when the data cannot be decoded. -/
abbrev Footprints (κ : Type) := String → Option (List κ × List κ)

variable {ρ κ : Type} [LinearOrder κ] (footprint : Footprints κ)

/-- The keys of a footprint, in the order of the footprint. -/
def footprintKeys (transactionData : String) : List κ :=
  if transactionData.isEmpty then []
  else
    match footprint transactionData with
    | none => []
    | some (readOnly, readWrite) => readOnly ++ readWrite

def extractTouchedLedgerKeys (transactionData : String) : List κ :=
  Canonical.dedup ((footprintKeys footprint transactionData).insertionSort (· ≤ ·))

structure ConsensusFingerprint (κ : Type) where
  resources : SorobanResources
  touchedLedgerKeys : List κ
  deriving DecidableEq

def consensusFingerprint (result : SimulationResult ρ) : ConsensusFingerprint κ where
  resources := result.resources
  touchedLedgerKeys := extractTouchedLedgerKeys footprint result.transactionData

/-- The line on a resource, if it differs. -/
def resourceDiff (name : String) (b c : ℕ) : List String :=
  if b ≠ c then [name ++ " (" ++ toString b ++ " != " ++ toString c ++ ")"] else []

def diffFingerprints (baseline candidate : ConsensusFingerprint κ) : List String :=
  let b := baseline.resources
  let c := candidate.resources
  resourceDiff "cpu_instructions" b.cpuInstructions c.cpuInstructions ++
  resourceDiff "ram_bytes" b.ramBytes c.ramBytes ++
  resourceDiff "ledger_read_bytes" b.ledgerReadBytes c.ledgerReadBytes ++
  resourceDiff "ledger_write_bytes" b.ledgerWriteBytes c.ledgerWriteBytes ++
  resourceDiff "transaction_size_bytes" b.transactionSizeBytes c.transactionSizeBytes ++
  if baseline.touchedLedgerKeys ≠ candidate.touchedLedgerKeys then
    ["touched_ledger_keys (" ++ toString baseline.touchedLedgerKeys.length ++ " keys vs " ++
      toString candidate.touchedLedgerKeys.length ++ " keys)"]
  else []

/-! ## The three requests -/

variable (exchange : RpcProvider → Exchange (SimulationResult ρ))

/-- Report the outcomes one after another, and gather results and failures. An exchange ends when
its failure is reported. -/
def reportOutcomes : List RpcProvider → ProviderRegistry →
    List (RpcProvider × SimulationResult ρ) × List String × ProviderRegistry
  | [], r => ([], [], r)
  | provider :: providers, r =>
    match simulateTransactionSingle (exchange provider).outcome with
    | .ok result =>
      let (successes, failures, r) := reportOutcomes providers (r.reportSuccess provider.url)
      ((provider, result) :: successes, failures, r)
    | .error e =>
      let (successes, failures, r) :=
        reportOutcomes providers (r.reportFailure provider.url (exchange provider).endedAt)
      (successes, (provider.name ++ ": " ++ e.display) :: failures, r)

/-- The lines on those that differ from the first one. -/
def divergences (baselineProvider : RpcProvider) (baseline : SimulationResult ρ)
    (others : List (RpcProvider × SimulationResult ρ)) : List String :=
  others.filterMap fun p =>
    let baselineFingerprint := consensusFingerprint footprint baseline
    let candidateFingerprint := consensusFingerprint footprint p.2
    if baselineFingerprint ≠ candidateFingerprint then
      some ("'" ++ baselineProvider.name ++ "' vs '" ++ p.1.name ++ "': " ++
        ", ".intercalate (diffFingerprints baselineFingerprint candidateFingerprint))
    else none

def simulateTransactionWithConsensus (r : ProviderRegistry) (now : ℕ) :
    Except SimulationError (SimulationResult ρ) × ProviderRegistry :=
  let (healthy, r) := r.healthyProviders now
  let providers := healthy.take 3
  if providers.length < 3 then
    (.error (.insufficientConsensusProviders
      ("Consensus mode requires 3 healthy RPC providers, found " ++ toString providers.length)), r)
  else
    let (successes, failures, r) := reportOutcomes exchange providers r
    if !failures.isEmpty then
      (.error (.rpcRequestFailed
        ("Consensus simulation failed because at least one provider errored: " ++
          "; ".intercalate failures)), r)
    else
      match successes with
      -- not reached: of three requests none has failed
      | [] => (.error (.executionFailed "index out of bounds"), r)
      | (baselineProvider, baseline) :: others =>
        let diffs := divergences footprint baselineProvider baseline others
        if !diffs.isEmpty then (.error (.consensusMismatch (" | ".intercalate diffs)), r)
        else (.ok baseline, r)

/-! ## What is compared -/

section

variable {footprint exchange} {b c : ConsensusFingerprint κ} {x y : SimulationResult ρ}

theorem resourceDiff_eq_nil_iff {name : String} {m n : ℕ} : resourceDiff name m n = [] ↔ m = n := by
  simp [resourceDiff]

/-- **A difference is explained** by the field it is in. -/
theorem diffFingerprints_eq_nil_iff : diffFingerprints b c = [] ↔ b = c := by
  obtain ⟨⟨_, _, _, _, _⟩, _⟩ := b
  obtain ⟨⟨_, _, _, _, _⟩, _⟩ := c
  simp [diffFingerprints, resourceDiff_eq_nil_iff, and_assoc]

variable (footprint) in
/-- Two results agree: they need the same resources and touch the same keys. -/
def Agree (x y : SimulationResult ρ) : Prop :=
  x.resources = y.resources ∧ ∀ key, key ∈ footprintKeys footprint x.transactionData ↔
    key ∈ footprintKeys footprint y.transactionData

/-- Neither the order of the keys nor repetitions matter. -/
theorem consensusFingerprint_eq_iff :
    consensusFingerprint footprint x = consensusFingerprint footprint y ↔ Agree footprint x y := by
  rw [consensusFingerprint, consensusFingerprint, ConsensusFingerprint.mk.injEq, Agree,
    extractTouchedLedgerKeys, extractTouchedLedgerKeys, Canonical.sort_dedup_eq_iff]

theorem divergences_eq_nil_iff {provider : RpcProvider}
    {others : List (RpcProvider × SimulationResult ρ)} :
    divergences footprint provider x others = [] ↔ ∀ p ∈ others, Agree footprint x p.2 := by
  simp only [divergences, List.filterMap_eq_nil_iff, ← consensusFingerprint_eq_iff]
  refine forall₂_congr fun p _ => ?_
  split
  · next hne => simp [hne]
  · next heq => simpa using heq

/-! ## Which answers are accepted -/

variable {providers : List RpcProvider} {r : ProviderRegistry}

/-- What is gathered when all have answered. -/
theorem reportOutcomes_of_ok {results : List (SimulationResult ρ)}
    (h : List.Forall₂ (fun p result =>
      simulateTransactionSingle (exchange p).outcome = .ok result) providers results) :
    (reportOutcomes exchange providers r).1 = providers.zip results ∧
      (reportOutcomes exchange providers r).2.1 = [] := by
  induction h generalizing r with
  | nil => exact ⟨rfl, rfl⟩
  | @cons p result providers results hp _ ih =>
    obtain ⟨hsuccesses, hfailures⟩ := ih (r := r.reportSuccess p.url)
    rw [reportOutcomes, hp]
    exact ⟨by rw [List.zip_cons_cons, ← hsuccesses], hfailures⟩

/-- Without a failure, all have answered. -/
theorem ok_of_failures_eq_nil (h : (reportOutcomes exchange providers r).2.1 = []) :
    ∃ results, List.Forall₂ (fun p result =>
      simulateTransactionSingle (exchange p).outcome = .ok result) providers results := by
  induction providers generalizing r with
  | nil => exact ⟨[], .nil⟩
  | cons p providers ih =>
    rcases hp : simulateTransactionSingle (exchange p).outcome with e | result
    · rw [reportOutcomes, hp] at h
      cases h
    · rw [reportOutcomes, hp] at h
      obtain ⟨results, hresults⟩ := ih h
      exact ⟨result :: results, .cons hp hresults⟩

end

/-- **Which answers are accepted**: that of the first of three available providers, if all of them
answer and the others agree with it. -/
theorem consensus_ok_iff (r : ProviderRegistry) (now : ℕ) (result : SimulationResult ρ) :
    (simulateTransactionWithConsensus footprint exchange r now).1 = .ok result ↔
      ∃ a b c rest resultB resultC, (r.healthyProviders now).1 = a :: b :: c :: rest ∧
        simulateTransactionSingle (exchange a).outcome = .ok result ∧
        simulateTransactionSingle (exchange b).outcome = .ok resultB ∧
        simulateTransactionSingle (exchange c).outcome = .ok resultC ∧
        Agree footprint result resultB ∧ Agree footprint result resultC := by
  unfold simulateTransactionWithConsensus
  rcases r.healthyProviders now with ⟨healthy, s⟩
  rcases healthy with - | ⟨a, - | ⟨b, - | ⟨c, rest⟩⟩⟩
  · simp
  · simp
  · simp
  · have htake : (a :: b :: c :: rest).take 3 = [a, b, c] := rfl
    have hlength : ¬ [a, b, c].length < 3 := by simp
    simp only [htake, hlength, if_false]
    by_cases hfailures : (reportOutcomes exchange [a, b, c] s).2.1 = []
    · -- all three have answered
      obtain ⟨results, hall⟩ := ok_of_failures_eq_nil hfailures
      obtain ⟨ra, _, ha, hbc, rfl⟩ := List.forall₂_cons_left_iff.mp hall
      obtain ⟨rb, _, hb, hlast, rfl⟩ := List.forall₂_cons_left_iff.mp hbc
      obtain ⟨rc, _, hc, hnone, rfl⟩ := List.forall₂_cons_left_iff.mp hlast
      obtain rfl := List.forall₂_nil_left_iff.mp hnone
      have hsuccesses := (reportOutcomes_of_ok (r := s)
        (.cons ha (.cons hb (.cons hc .nil)))).1
      simp only [hfailures, hsuccesses, List.isEmpty_nil, Bool.not_true, Bool.false_eq_true,
        if_false, List.zip_cons_cons, List.zip_nil_left]
      have hnil : divergences footprint a ra [(b, rb), (c, rc)] = [] ↔
          Agree footprint ra rb ∧ Agree footprint ra rc := by
        simp [divergences_eq_nil_iff]
      by_cases hdiff : divergences footprint a ra [(b, rb), (c, rc)] = []
      · obtain ⟨hab, hac⟩ := hnil.mp hdiff
        simp only [hdiff, List.isEmpty_nil, Bool.not_true, Bool.false_eq_true, if_false,
          Except.ok.injEq]
        constructor
        · rintro rfl
          exact ⟨a, b, c, rest, rb, rc, rfl, ha, hb, hc, hab, hac⟩
        · rintro ⟨a', b', c', rest', rb', rc', heq, ha', -⟩
          cases heq
          exact Except.ok.inj (ha.symm.trans ha')
      · have hne : (divergences footprint a ra [(b, rb), (c, rc)]).isEmpty = false := by
          rwa [List.isEmpty_eq_false_iff]
        simp only [hne, Bool.not_false, if_true, reduceCtorEq, false_iff]
        rintro ⟨a', b', c', rest', rb', rc', heq, ha', hb', hc', hab, hac⟩
        cases heq
        cases ha.symm.trans ha'
        cases hb.symm.trans hb'
        cases hc.symm.trans hc'
        exact hdiff (hnil.mpr ⟨hab, hac⟩)
    · have hne : (reportOutcomes exchange [a, b, c] s).2.1.isEmpty = false := by
        rwa [List.isEmpty_eq_false_iff]
      simp only [hne, Bool.not_false, if_true, reduceCtorEq, false_iff]
      rintro ⟨a', b', c', rest', rb', rc', heq, ha', hb', hc', -⟩
      cases heq
      exact hfailures (reportOutcomes_of_ok (.cons ha' (.cons hb' (.cons hc' .nil)))).2

/-! ## What is reported of whom -/

variable {exchange}

variable (exchange) in
/-- The state of a provider after the outcome of its own request was reported. -/
def reported (p : RpcProvider) (s : ProviderState) : ProviderState :=
  match simulateTransactionSingle (exchange p).outcome with
  | .ok _ => s.reportSuccess
  | .error _ => s.reportFailure (exchange p).endedAt

theorem get?_reportOutcomes_of_notMem {providers : List RpcProvider} {r : ProviderRegistry}
    {url : String} (h : ∀ p ∈ providers, p.url ≠ url) :
    (reportOutcomes exchange providers r).2.2.states.get? url = r.states.get? url := by
  induction providers generalizing r with
  | nil => rfl
  | cons p providers ih =>
    have hne : url ≠ p.url := (h p (List.mem_cons_self ..)).symm
    have hrest := fun r => ih (r := r) fun q hq => h q (List.mem_cons_of_mem p hq)
    rcases hp : simulateTransactionSingle (exchange p).outcome with e | result
    · rw [reportOutcomes, hp]
      refine (hrest _).trans ?_
      rw [ProviderRegistry.reportFailure, Dict.get?_alter, if_neg hne]
    · rw [reportOutcomes, hp]
      refine (hrest _).trans ?_
      rw [ProviderRegistry.reportSuccess, Dict.get?_alter, if_neg hne]

/-- Each of the providers is reported once, for its own outcome. -/
theorem get?_reportOutcomes {providers : List RpcProvider} {r : ProviderRegistry}
    (hnodup : (providers.map (·.url)).Nodup) {p : RpcProvider} (hp : p ∈ providers) :
    (reportOutcomes exchange providers r).2.2.states.get? p.url =
      (r.states.get? p.url).map (reported exchange p) := by
  induction providers generalizing r with
  | nil => cases hp
  | cons q providers ih =>
    obtain ⟨hnotMem, hnodup⟩ := List.nodup_cons.mp hnodup
    rcases List.mem_cons.mp hp with rfl | hp
    · -- the later reports are on other providers
      have hlater : ∀ q ∈ providers, q.url ≠ p.url := by
        intro q hq heq
        exact hnotMem (List.mem_map.mpr ⟨q, hq, heq⟩)
      rcases hout : simulateTransactionSingle (exchange p).outcome with e | result
      · rw [reportOutcomes, hout]
        refine (get?_reportOutcomes_of_notMem hlater).trans ?_
        rw [ProviderRegistry.reportFailure, Dict.get?_alter, if_pos rfl]
        refine congrArg (fun f => Option.map f _) (funext fun s => ?_)
        rw [reported, hout]
      · rw [reportOutcomes, hout]
        refine (get?_reportOutcomes_of_notMem hlater).trans ?_
        rw [ProviderRegistry.reportSuccess, Dict.get?_alter, if_pos rfl]
        refine congrArg (fun f => Option.map f _) (funext fun s => ?_)
        rw [reported, hout]
    · have hne : p.url ≠ q.url := by
        intro heq
        exact hnotMem (List.mem_map.mpr ⟨p, hp, heq⟩)
      rcases hout : simulateTransactionSingle (exchange q).outcome with e | result
      · rw [reportOutcomes, hout]
        refine (ih hnodup hp).trans ?_
        rw [ProviderRegistry.reportFailure, Dict.get?_alter, if_neg hne]
      · rw [reportOutcomes, hout]
        refine (ih hnodup hp).trans ?_
        rw [ProviderRegistry.reportSuccess, Dict.get?_alter, if_neg hne]

/-- The providers that are offered have different urls, when each is registered under its own. -/
theorem nodup_healthyProviders {r : ProviderRegistry} {now : ℕ}
    (hurl : ∀ url s, r.states.get? url = some s → s.provider.url = url) :
    ((r.healthyProviders now).1.map (·.url)).Nodup := by
  have hprovider : ∀ s : ProviderState, (s.isAvailable now).2.provider = s.provider := by
    intro s
    rw [isAvailable_snd]
    exact (frame_isProviderTripped s now).provider_eq
  have hkeys : (r.states.entries.map fun p => p.2.provider.url) =
      r.states.entries.map Prod.fst := by
    refine List.map_congr_left fun p hp => ?_
    exact hurl p.1 p.2 (Dict.get?_eq_some_iff.mpr hp)
  have hall : ((r.states.entries.map Prod.snd).map fun s => s.provider.url).Nodup := by
    rw [List.map_map]
    exact hkeys ▸ r.states.nodup
  have hsub : ((r.healthyProviders now).1.map (·.url)).Sublist
      ((r.states.entries.map Prod.snd).map fun s => s.provider.url) := by
    have hfilter := (List.filter_sublist (p := fun s : ProviderState => (s.isAvailable now).1)
      (l := r.states.entries.map Prod.snd)).map fun s => s.provider.url
    simpa [ProviderRegistry.healthyProviders, ProviderRegistry.available, Function.comp_def,
      hprovider] using hfilter
  exact hsub.nodup hall

/-- **What is reported of whom**: each of the three providers for its own outcome, once, whatever
the others answer and whether the answers agree; of all other providers nothing. -/
theorem consensus_reports (footprint : Footprints κ)
    (exchange : RpcProvider → Exchange (SimulationResult ρ)) (r : ProviderRegistry) (now : ℕ)
    (hurl : ∀ url s, r.states.get? url = some s → s.provider.url = url)
    (hthree : 3 ≤ (r.healthyProviders now).1.length) :
    (∀ p ∈ (r.healthyProviders now).1.take 3,
      (simulateTransactionWithConsensus footprint exchange r now).2.states.get? p.url =
        ((r.healthyProviders now).2.states.get? p.url).map (reported exchange p)) ∧
    ∀ url, (∀ p ∈ (r.healthyProviders now).1.take 3, p.url ≠ url) →
      (simulateTransactionWithConsensus footprint exchange r now).2.states.get? url =
        (r.healthyProviders now).2.states.get? url := by
  have hstate : (simulateTransactionWithConsensus footprint exchange r now).2 =
      (reportOutcomes exchange ((r.healthyProviders now).1.take 3)
        (r.healthyProviders now).2).2.2 := by
    have hlength : ¬ ((r.healthyProviders now).1.take 3).length < 3 := by
      rw [List.length_take]
      omega
    unfold simulateTransactionWithConsensus
    simp only [hlength, if_false]
    split
    · rfl
    · split
      · rfl
      · split <;> rfl
  have hnodup : (((r.healthyProviders now).1.take 3).map (·.url)).Nodup :=
    ((List.take_sublist 3 _).map _).nodup (nodup_healthyProviders hurl)
  rw [hstate]
  exact ⟨fun p hp => get?_reportOutcomes hnodup hp, fun url h => get?_reportOutcomes_of_notMem h⟩

/-- Three providers without credentials. -/
def threeProviders : ProviderRegistry :=
  .newWithConfig [sampleProvider "a", sampleProvider "b", sampleProvider "c"] ⟨"local", none, []⟩

/-- The second provider does not answer in time. -/
def oneTimeout (p : RpcProvider) : Exchange (SimulationResult Unit) where
  startedAt := 0
  endedAt := 10
  outcome :=
    if p.url = "b" then .timeout
    else .response 200 (.success (.ok ⟨⟨100, 200, 10, 20, 30⟩, "", ()⟩))
  rttUs := 500
  locked := false

theorem consensus_reports_timeout :
    (∀ p ∈ (threeProviders.healthyProviders 0).1.take 3,
      (simulateTransactionWithConsensus (fun _ => (none : Option (List ℕ × List ℕ))) oneTimeout
        threeProviders 0).2.states.get? p.url =
        ((threeProviders.healthyProviders 0).2.states.get? p.url).map (reported oneTimeout p)) ∧
    ∀ url, (∀ p ∈ (threeProviders.healthyProviders 0).1.take 3, p.url ≠ url) →
      (simulateTransactionWithConsensus (fun _ => (none : Option (List ℕ × List ℕ))) oneTimeout
        threeProviders 0).2.states.get? url =
        (threeProviders.healthyProviders 0).2.states.get? url := by
  refine consensus_reports _ oneTimeout threeProviders 0 (fun url s hs => ?_) (by decide)
  have hmem := Dict.get?_eq_some_iff.mp hs
  have hentries : threeProviders.states.entries =
      [("a", .new (sampleProvider "a") "seed" localProviderStartingScore),
        ("b", .new (sampleProvider "b") "seed" localProviderStartingScore),
        ("c", .new (sampleProvider "c") "seed" localProviderStartingScore)] := rfl
  rw [hentries] at hmem
  rcases List.mem_cons.mp hmem with h | hmem
  · cases h
    rfl
  · rcases List.mem_cons.mp hmem with h | hmem
    · cases h
      rfl
    · cases List.mem_singleton.mp hmem
      rfl

end Core.Simulation
