import SkyMoonScope.Core.Simulation.Failover

/-!
# The search for the least resource limit

A limit is halved in on between zero and the estimate: the simulation is tried with a candidate, and
goes on below it when it succeeds and above it when it fails. The best limit so far is kept apart
from the bounds, and a search whose candidate is zero ends there.

## Main definitions

* `ResourceSearchKind`, `evaluateResourceCandidate`: the resources, and a trial of a limit
* `Conditions`: what the rounds of a search meet
* `Search`, `Search.round`, `binarySearchResource`: the bounds, a round and the search
* `RoundBegins`: the bounds that the rounds begin with

## Main results

* `exists_search`: the search ends, and no number is beyond its type
* `search_eq_least`: limits that succeed from some limit on have the least one found
* `tested_of_search`: what is found is the estimate, or has been tried
* `binarySearchResource_spec`: all of these
-/

namespace Core.Simulation

/-! ## A trial -/

structure SorobanResources where
  cpuInstructions : ℕ
  ramBytes : ℕ
  ledgerReadBytes : ℕ
  ledgerWriteBytes : ℕ
  transactionSizeBytes : ℕ
  deriving DecidableEq

inductive ResourceSearchKind
  | cpu
  | ram
  | ledgerRead
  | ledgerWrite
  deriving DecidableEq

namespace ResourceSearchKind

def label : ResourceSearchKind → String
  | cpu => "cpu"
  | ram => "ram"
  | ledgerRead => "ledger_read"
  | ledgerWrite => "ledger_write"

def estimatedValue (kind : ResourceSearchKind) (resources : SorobanResources) : ℕ :=
  match kind with
  | cpu => resources.cpuInstructions
  | ram => resources.ramBytes
  | ledgerRead => resources.ledgerReadBytes
  | ledgerWrite => resources.ledgerWriteBytes

def observedValue (kind : ResourceSearchKind) (resources : SorobanResources) : ℕ :=
  kind.estimatedValue resources

/-- There is no limit of the memory to be set; the use of it is compared instead. -/
def applyCandidate (kind : ResourceSearchKind) (resources : SorobanResources) (candidate : ℕ) :
    SorobanResources :=
  match kind with
  | cpu => { resources with cpuInstructions := candidate }
  | ram => resources
  | ledgerRead => { resources with ledgerReadBytes := candidate }
  | ledgerWrite => { resources with ledgerWriteBytes := candidate }

end ResourceSearchKind

def cancelledSearchError (kind : ResourceSearchKind) : SimulationError :=
  .rpcRequestFailed s!"Optimization search cancelled while {kind.label} search was running"

/-- The beginnings of the messages that are no failures of the candidate. -/
def significantMessages : List String :=
  ["HTTP error:", "Network error:", "Failed to parse response:", "Internal error:",
    "Method not found", "All RPC providers", "All providers exhausted",
    "Optimization search cancelled"]

def isSignificantSearchFailure : SimulationError → Bool
  | .nodeTimeout => true
  | .networkError _ => true
  | .rpcRequestFailed msg => significantMessages.any fun p => p.toList.isPrefixOf msg.toList
  | _ => false

/-- Whether the simulation succeeds with the candidate; `simulate` is the simulation with exact
limits, and its result the resources that it used. -/
def evaluateResourceCandidate
    (simulate : SorobanResources → Except SimulationError SorobanResources)
    (kind : ResourceSearchKind) (candidate : ℕ) (base : SorobanResources) :
    Except SimulationError Bool :=
  match simulate (kind.applyCandidate base candidate) with
  | .ok used => .ok (kind.observedValue used ≤ candidate)
  | .error err => if isSignificantSearchFailure err then .error err else .ok false

/-! ## The search -/

/-- Why a search ends without a limit. After a failure the other searches are cancelled. -/
inductive Stop
  | overflow
  | diverges
  | cancelled (err : SimulationError)
  | failed (err : SimulationError)

/-- What the rounds of a search meet: the token is cancelled when a round begins, or while it waits
for the simulation, or the simulation has its say. -/
structure Conditions where
  isCancelled : ℕ → Bool
  cancelledFirst : ℕ → Bool
  simulate : ℕ → SorobanResources → Except SimulationError SorobanResources

def plainU64 (n : ℕ) : Except Stop ℕ := if n < 2 ^ 64 then .ok n else .error .overflow

def subU64 (m n : ℕ) : Except Stop ℕ := if n ≤ m then .ok (m - n) else .error .overflow

structure Search where
  low : ℕ
  high : ℕ
  minSuccess : ℕ

namespace Search

/-- The candidate of a round. -/
def mid (s : Search) : Except Stop ℕ := do
  let span ← subU64 s.high s.low
  plainU64 (s.low + span / 2)

variable (W : Conditions) (kind : ResourceSearchKind) (base : SorobanResources)

/-- The result of a trial in the round `n`. -/
def candidateResult (n : ℕ) (candidate : ℕ) : Except SimulationError Bool :=
  if W.cancelledFirst n then .error (cancelledSearchError kind)
  else evaluateResourceCandidate (W.simulate n) kind candidate base

/-- What the result of a trial leads to: the limit that is found, or the bounds that the search goes
on with. -/
def afterResult (s : Search) (mid : ℕ) : Except SimulationError Bool → Except Stop (ℕ ⊕ Search)
  | .ok true =>
    if mid = 0 then return .inl mid
    else do
      let high ← subU64 mid 1
      return .inr { s with high, minSuccess := mid }
  | .ok false => do
    let low ← plainU64 (mid + 1)
    return .inr { s with low }
  | .error err => .error (.failed err)

/-- The round `n`. -/
def round (n : ℕ) (s : Search) : Except Stop (ℕ ⊕ Search) :=
  if s.low ≤ s.high then
    if W.isCancelled n then .error (.cancelled (cancelledSearchError kind))
    else do
      let mid ← s.mid
      s.afterResult mid (candidateResult W kind base n mid)
  else .ok (.inl s.minSuccess)

/-- At most so many rounds, the next one of which is the round `n`. -/
def run : ℕ → ℕ → Search → Except Stop ℕ
  | 0, _, _ => .error .diverges
  | rounds + 1, n, s => do
    match ← round W kind base n s with
    | .inl v => return v
    | .inr s => run rounds (n + 1) s

end Search

def initialSearch (kind : ResourceSearchKind) (base : SorobanResources) : Search :=
  { low := 0
    high := kind.estimatedValue base
    minSuccess := kind.estimatedValue base }

/-- The interval is halved in each round, so that 65 rounds are enough. -/
def binarySearchResource (W : Conditions) (kind : ResourceSearchKind) (base : SorobanResources) :
    Except Stop ℕ := Search.run W kind base 65 0 (initialSearch kind base)

/-! ## A round -/

namespace Search

variable {W : Conditions} {kind : ResourceSearchKind} {base : SorobanResources} {n rounds m v : ℕ}
  {s : Search} {r : ℕ ⊕ Search}

/-- The middle of the bounds. -/
def midpoint (s : Search) : ℕ := s.low + (s.high - s.low) / 2

theorem midpoint_le (h : s.low ≤ s.high) : s.midpoint ≤ s.high := by
  unfold midpoint
  omega

theorem low_le_midpoint (s : Search) : s.low ≤ s.midpoint := Nat.le_add_right _ _

theorem mid_eq (h : s.low ≤ s.high) (hhigh : s.high < 2 ^ 64) : s.mid = .ok s.midpoint := by
  have hmid := midpoint_le h
  have hfit : s.midpoint < 2 ^ 64 := by omega
  have hsub : subU64 s.high s.low = .ok (s.high - s.low) := if_pos h
  rw [mid, hsub]
  exact if_pos hfit

theorem afterResult_zero (s : Search) : s.afterResult 0 (.ok true) = .ok (.inl 0) := rfl

theorem afterResult_true {mid : ℕ} (h : mid ≠ 0) :
    s.afterResult mid (.ok true) = .ok (.inr { s with high := mid - 1, minSuccess := mid }) := by
  have hsub : subU64 mid 1 = .ok (mid - 1) := if_pos (Nat.pos_of_ne_zero h)
  rw [afterResult, if_neg h, hsub]
  rfl

theorem afterResult_false {mid : ℕ} (h : mid + 1 < 2 ^ 64) :
    s.afterResult mid (.ok false) = .ok (.inr { s with low := mid + 1 }) := by
  have hplain : plainU64 (mid + 1) = .ok (mid + 1) := if_pos h
  rw [afterResult, hplain]
  rfl

/-- A round within the bounds tries the middle. -/
theorem round_of_le (h : s.low ≤ s.high) (hhigh : s.high < 2 ^ 64)
    (hcancelled : W.isCancelled n = false) :
    round W kind base n s =
      s.afterResult s.midpoint (candidateResult W kind base n s.midpoint) := by
  rw [round, if_pos h, hcancelled, mid_eq h hhigh]
  rfl

theorem round_of_lt (h : s.high < s.low) : round W kind base n s = .ok (.inl s.minSuccess) :=
  if_neg (Nat.not_le_of_lt h)

theorem run_of_inl (h : round W kind base n s = .ok (.inl v)) :
    run W kind base (rounds + 1) n s = .ok v := by
  rw [run, h]
  rfl

theorem run_of_inr {t : Search} (h : round W kind base n s = .ok (.inr t)) :
    run W kind base (rounds + 1) n s = run W kind base rounds (n + 1) t := by
  rw [run, h]
  rfl

theorem run_of_error {e : Stop} (h : round W kind base n s = .error e) :
    run W kind base (rounds + 1) n s = .error e := by
  rw [run, h]
  rfl

/-! ## The search ends -/

/-- The search ends with a limit or an error of the simulation, and not because a number is beyond
its type or the rounds are too few. -/
def Ends (r : Except Stop ℕ) : Prop := r ≠ .error .overflow ∧ r ≠ .error .diverges

theorem ends_ok (v : ℕ) : Ends (.ok v) := ⟨by simp, by simp⟩

theorem ends_failed (err : SimulationError) : Ends (.error (.failed err)) := ⟨by simp, by simp⟩

theorem ends_cancelled (err : SimulationError) : Ends (.error (.cancelled err)) :=
  ⟨by simp, by simp⟩

/-- **The search ends**: the interval is halved in each round. -/
theorem ends_run (hhigh : s.high < 2 ^ 64 - 1) (hsize : s.high + 1 - s.low < 2 ^ rounds) :
    Ends (run W kind base (rounds + 1) n s) := by
  induction rounds generalizing n s with
  | zero =>
    rw [pow_zero] at hsize
    rw [run_of_inl (round_of_lt (by omega))]
    exact ends_ok _
  | succ rounds ih =>
    rw [pow_succ] at hsize
    rcases Nat.lt_or_ge s.high s.low with hlt | hle
    · rw [run_of_inl (round_of_lt hlt)]
      exact ends_ok _
    · have hmid := midpoint_le hle
      have hhalf : s.midpoint = s.low + (s.high - s.low) / 2 := rfl
      rcases hcancelled : W.isCancelled n with _ | _
      · have hround : round W kind base n s =
            s.afterResult s.midpoint (candidateResult W kind base n s.midpoint) :=
          round_of_le hle (by omega) hcancelled
        rcases hresult : candidateResult W kind base n s.midpoint with err | (_ | _)
        · rw [hresult] at hround
          rw [run_of_error hround]
          exact ends_failed err
        · -- above the middle
          rw [hresult, afterResult_false (by omega)] at hround
          rw [run_of_inr hround]
          refine ih hhigh ?_
          dsimp only
          omega
        · -- below the middle
          rw [hresult] at hround
          rcases Nat.eq_zero_or_pos s.midpoint with hzero | hpos
          · rw [hzero, afterResult_zero] at hround
            rw [run_of_inl hround]
            exact ends_ok 0
          · rw [afterResult_true (by omega)] at hround
            rw [run_of_inr hround]
            refine ih ?_ ?_ <;> dsimp only <;> omega
      · have hround : round W kind base n s = .error (.cancelled (cancelledSearchError kind)) := by
          rw [round, if_pos hle, hcancelled]
          rfl
        rw [run_of_error hround]
        exact ends_cancelled _

/-! ## The least limit -/

/-- The least limit is above the lower bound and at most the best so far, which the upper bound
follows. -/
structure Around (m e : ℕ) (s : Search) : Prop where
  low_le : s.low ≤ m
  le_minSuccess : m ≤ s.minSuccess
  minSuccess_le : s.minSuccess ≤ s.high + 1
  high_le : s.high ≤ e

theorem Around.minSuccess_eq {e : ℕ} (hs : s.Around m e) (h : s.high < s.low) :
    s.minSuccess = m := by
  obtain ⟨hlow, hle, hmin, -⟩ := hs
  omega

theorem Around.below {e : ℕ} (hs : s.Around m e) (h : s.low ≤ s.high) (hmid : m ≤ s.midpoint) :
    Around m e { s with high := s.midpoint - 1, minSuccess := s.midpoint } := by
  have hle := midpoint_le h
  have hhigh := hs.high_le
  refine ⟨hs.low_le, hmid, ?_, ?_⟩ <;> dsimp only <;> omega

theorem Around.above {e : ℕ} (hs : s.Around m e) (hmid : s.midpoint < m) :
    Around m e { s with low := s.midpoint + 1 } :=
  ⟨hmid, hs.le_minSuccess, hs.minSuccess_le, hs.high_le⟩

/-- **The least limit is found** where the limits from it on succeed, and those below it fail. -/
theorem run_eq_least {e : ℕ} (he : e < 2 ^ 64 - 1) (hcalm : ∀ n, W.isCancelled n = false)
    (hresult : ∀ n, ∀ c ≤ e, candidateResult W kind base n c = .ok (decide (m ≤ c)))
    (hs : s.Around m e) (hsize : s.high + 1 - s.low < 2 ^ rounds) :
    run W kind base (rounds + 1) n s = .ok m := by
  induction rounds generalizing n s with
  | zero =>
    rw [pow_zero] at hsize
    have hlt : s.high < s.low := by omega
    rw [run_of_inl (round_of_lt hlt), hs.minSuccess_eq hlt]
  | succ rounds ih =>
    rw [pow_succ] at hsize
    have hhigh := hs.high_le
    rcases Nat.lt_or_ge s.high s.low with hlt | hle
    · rw [run_of_inl (round_of_lt hlt), hs.minSuccess_eq hlt]
    · have hmid := midpoint_le hle
      have hhalf : s.midpoint = s.low + (s.high - s.low) / 2 := rfl
      have hround : round W kind base n s =
          s.afterResult s.midpoint (candidateResult W kind base n s.midpoint) :=
        round_of_le hle (by omega) (hcalm n)
      rw [hresult n _ (by omega)] at hround
      by_cases hm : m ≤ s.midpoint
      · rw [decide_eq_true hm] at hround
        rcases Nat.eq_zero_or_pos s.midpoint with hzero | hpos
        · -- nothing is below zero
          rw [hzero, afterResult_zero] at hround
          rw [run_of_inl hround]
          exact congrArg _ (by omega)
        · rw [afterResult_true (by omega)] at hround
          rw [run_of_inr hround]
          refine ih (hs.below hle hm) ?_
          dsimp only
          omega
      · rw [decide_eq_false hm, afterResult_false (by omega)] at hround
        rw [run_of_inr hround]
        refine ih (hs.above (Nat.lt_of_not_le hm)) ?_
        dsimp only
        omega

/-! ## What is found has been tried -/

/-- A round that does not end with an error is over, or has tried the middle. -/
theorem round_eq_ok (h : round W kind base n s = .ok r) :
    r = .inl s.minSuccess ∨ ∃ mid result, s.low ≤ s.high ∧ W.isCancelled n = false ∧
      s.mid = .ok mid ∧ candidateResult W kind base n mid = result ∧
      s.afterResult mid result = .ok r := by
  rw [round] at h
  split at h
  · rename_i hle
    split at h
    · cases h
    · rename_i hcancelled
      rcases hmid : s.mid with e | mid
      · rw [hmid] at h
        cases h
      · rw [hmid] at h
        exact .inr ⟨mid, _, hle, by simpa using hcancelled, rfl, rfl, h⟩
  · cases h
    exact .inl rfl

theorem afterResult_eq_ok {mid : ℕ} {result : Except SimulationError Bool}
    (h : s.afterResult mid result = .ok r) :
    (result = .ok true ∧ (r = .inl mid ∨ ∃ t : Search, r = .inr t ∧ t.minSuccess = mid)) ∨
      ∃ t : Search, r = .inr t ∧ t.minSuccess = s.minSuccess := by
  rcases result with err | (_ | _)
  · cases h
  · rw [afterResult] at h
    rcases hplain : plainU64 (mid + 1) with e | low
    · rw [hplain] at h
      cases h
    · rw [hplain] at h
      cases h
      exact .inr ⟨_, rfl, rfl⟩
  · rcases Nat.eq_zero_or_pos mid with rfl | hpos
    · cases h
      exact .inl ⟨rfl, .inl rfl⟩
    · rw [afterResult_true (by omega)] at h
      cases h
      exact .inl ⟨rfl, .inr ⟨_, rfl, rfl⟩⟩

end Search

open Search

variable {W : Conditions} {kind : ResourceSearchKind} {base : SorobanResources} {n rounds v : ℕ}
  {s : Search}

/-- The bounds that the rounds of the search begin with. -/
inductive RoundBegins (W : Conditions) (kind : ResourceSearchKind) (base : SorobanResources) :
    ℕ → Search → Prop
  | start : RoundBegins W kind base 0 (initialSearch kind base)
  | next {n : ℕ} {s t : Search} (hs : RoundBegins W kind base n s)
    (h : round W kind base n s = .ok (.inr t)) : RoundBegins W kind base (n + 1) t

/-- A round of the search tries the candidate, and it succeeds. -/
def Tested (W : Conditions) (kind : ResourceSearchKind) (base : SorobanResources) (v : ℕ) : Prop :=
  ∃ n s, RoundBegins W kind base n s ∧ s.low ≤ s.high ∧ W.isCancelled n = false ∧ s.mid = .ok v ∧
    candidateResult W kind base n v = .ok true

/-- **What is found has been tried**, or is the estimate. -/
theorem tested_of_run (hs : RoundBegins W kind base n s)
    (hbest : s.minSuccess = kind.estimatedValue base ∨ Tested W kind base s.minSuccess)
    (h : run W kind base rounds n s = .ok v) :
    v = kind.estimatedValue base ∨ Tested W kind base v := by
  induction rounds generalizing n s with
  | zero => cases h
  | succ rounds ih =>
    rcases hround : round W kind base n s with e | r
    · rw [run_of_error hround] at h
      cases h
    · rcases round_eq_ok hround with rfl | ⟨mid, result, hle, hcancelled, hmid, hresult, hafter⟩
      · rw [run_of_inl hround] at h
        cases h
        exact hbest
      · rcases afterResult_eq_ok hafter with ⟨rfl, rfl | ⟨t, rfl, ht⟩⟩ | ⟨t, rfl, ht⟩
        · rw [run_of_inl hround] at h
          cases h
          exact .inr ⟨n, s, hs, hle, hcancelled, hmid, hresult⟩
        · rw [run_of_inr hround] at h
          refine ih (hs.next hround) (.inr ?_) h
          rw [ht]
          exact ⟨n, s, hs, hle, hcancelled, hmid, hresult⟩
        · rw [run_of_inr hround] at h
          exact ih (hs.next hround) (ht ▸ hbest) h

/-- **The search for the least limit** ends; it finds the least one where the limits succeed from
that one on, and in any case one that has been tried, or the estimate. -/
theorem binarySearchResource_spec (W : Conditions) (kind : ResourceSearchKind)
    (base : SorobanResources) :
    (kind.estimatedValue base < 2 ^ 64 - 1 → Ends (binarySearchResource W kind base) ∧
      ∀ (succeeds : ℕ → Bool) (m : ℕ), (∀ a b, a ≤ b → succeeds a → succeeds b) →
        m ≤ kind.estimatedValue base → succeeds m → (∀ c < m, succeeds c = false) →
        (∀ n, W.isCancelled n = false ∧ W.cancelledFirst n = false) →
        (∀ n, ∀ c ≤ kind.estimatedValue base,
          evaluateResourceCandidate (W.simulate n) kind c base = .ok (succeeds c)) →
        binarySearchResource W kind base = .ok m) ∧
    ∀ v, binarySearchResource W kind base = .ok v →
      v = kind.estimatedValue base ∨ Tested W kind base v := by
  refine ⟨fun he => ?_, fun v h => tested_of_run .start (.inl rfl) h⟩
  have hsize : (initialSearch kind base).high + 1 - (initialSearch kind base).low < 2 ^ 64 := by
    dsimp only [initialSearch]
    omega
  refine ⟨ends_run he hsize, ?_⟩
  intro succeeds m hmono hm hsucceeds hleast hcalm hresult
  have hdecide : ∀ c, succeeds c = decide (m ≤ c) := by
    intro c
    by_cases hc : m ≤ c
    · rw [decide_eq_true hc]
      exact hmono m c hc hsucceeds
    · rw [decide_eq_false hc]
      exact hleast c (Nat.lt_of_not_le hc)
  have htrial : ∀ n, ∀ c ≤ kind.estimatedValue base,
      candidateResult W kind base n c = .ok (decide (m ≤ c)) := by
    intro n c hc
    rw [candidateResult, (hcalm n).2, ← hdecide c]
    exact hresult n c hc
  exact run_eq_least he (fun n => (hcalm n).1) htrial
    ⟨Nat.zero_le m, hm, Nat.le_succ _, Nat.le_refl _⟩ hsize

/-- A simulation that needs ten instructions, and is not cancelled. -/
def tenInstructions : Conditions where
  isCancelled _ := false
  cancelledFirst _ := false
  simulate _ limits :=
    if 10 ≤ limits.cpuInstructions then .ok { limits with cpuInstructions := 10 }
    else .error (.nodeError "exceeded")

theorem binarySearchResource_spec_ten :
    binarySearchResource tenInstructions .cpu ⟨100, 0, 0, 0, 0⟩ = .ok 10 := by
  refine ((binarySearchResource_spec tenInstructions .cpu ⟨100, 0, 0, 0, 0⟩).1 (by decide)).2
    (fun c => decide (10 ≤ c)) 10 ?_ (by decide) (by decide) (by decide)
    (fun _ => ⟨rfl, rfl⟩) ?_
  · intro a b hab ha
    exact decide_eq_true (Nat.le_trans (of_decide_eq_true ha) hab)
  · intro n c _
    by_cases hc : 10 ≤ c
    · simp [evaluateResourceCandidate, tenInstructions, ResourceSearchKind.applyCandidate,
        ResourceSearchKind.observedValue, ResourceSearchKind.estimatedValue, hc]
    · simp [evaluateResourceCandidate, tenInstructions, ResourceSearchKind.applyCandidate,
        isSignificantSearchFailure, hc]

end Core.Simulation
