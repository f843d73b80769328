import SkyMoonScope.Core.Simulation.ResourceSearch
import Mathlib.Data.Fintype.Basic
import Mathlib.Data.Nat.Size
import Mathlib.Logic.Function.Basic

/-!
# The four searches of an optimization

The least limits of the four resources are searched for at the same time, by four tasks that share a
token. A search whose simulation fails for good cancels the token, and the others stop at their next
look at it. Their steps come in any order. The report has the four limits, or else the first failure
that is no cancellation.

## Main definitions

* `SearchPhase`, `Searches`: where a search is, and the four of them with the token
* `SearchEvent`, `Searches.step`, `Searches.run`: a step of one search, and any order of steps
* `optimizeLimits`: the report from the results of the four searches
* `Fails events kind err`: a simulation for the search `kind` fails for good
* `Answers simulate events`: the simulations give the results of `simulate`

## Main results

* `optimizeLimits_run`: the report fails just when a simulation has failed for good, and then with
  such a failure, never with a cancellation
* `optimizeLimits_minima`: otherwise the limits are the least ones, in any order of the steps
* `searches_end`: no search is ever stuck, and any order of steps ends
-/

namespace Core.Simulation

/-! ## The searches -/

/-- Where a search is: before a round, waiting for the simulation of a candidate, or at its end. -/
inductive SearchPhase
  | head (s : Search)
  | waiting (s : Search) (mid : ℕ)
  | done (r : Except Stop ℕ)

structure Searches where
  isCancelled : Bool
  phase : ResourceSearchKind → SearchPhase

/-- A step of one search: it begins a round, it gets the result of a simulation, or it sees in place
of the result that the token is cancelled. -/
inductive SearchEvent
  | proceed (kind : ResourceSearchKind)
  | answer (kind : ResourceSearchKind) (result : Except SimulationError SorobanResources)
  | notice (kind : ResourceSearchKind)

namespace Searches

variable (base : SorobanResources)

def start : Searches where
  isCancelled := false
  phase kind := .head (initialSearch kind base)

def setPhase (σ : Searches) (kind : ResourceSearchKind) (p : SearchPhase) : Searches :=
  { σ with phase := Function.update σ.phase kind p }

/-- What the search does with the result of its candidate. After a failure the token is
cancelled. -/
def conclude (σ : Searches) (kind : ResourceSearchKind) (s : Search) (mid : ℕ)
    (candidateResult : Except SimulationError Bool) : Searches :=
  match s.afterResult mid candidateResult with
  | .ok (.inl v) => σ.setPhase kind (.done (.ok v))
  | .ok (.inr t) => σ.setPhase kind (.head t)
  | .error (.failed err) =>
    { σ.setPhase kind (.done (.error (.failed err))) with isCancelled := true }
  | .error e => σ.setPhase kind (.done (.error e))

/-- The beginning of a round. -/
def proceed (σ : Searches) (kind : ResourceSearchKind) (s : Search) : Searches :=
  if s.low ≤ s.high then
    if σ.isCancelled then
      σ.setPhase kind (.done (.error (.cancelled (cancelledSearchError kind))))
    else
      match s.mid with
      | .ok mid => σ.setPhase kind (.waiting s mid)
      | .error e => σ.setPhase kind (.done (.error e))
  else σ.setPhase kind (.done (.ok s.minSuccess))

/-- A step that does not fit where the search is changes nothing. -/
def step (σ : Searches) : SearchEvent → Searches
  | .proceed kind =>
    match σ.phase kind with
    | .head s => σ.proceed kind s
    | _ => σ
  | .answer kind result =>
    match σ.phase kind with
    | .waiting s mid =>
      σ.conclude kind s mid (evaluateResourceCandidate (fun _ => result) kind mid base)
    | _ => σ
  | .notice kind =>
    match σ.phase kind with
    | .waiting s mid =>
      -- the token wins over a simulation that is still on its way
      if σ.isCancelled then σ.conclude kind s mid (.error (cancelledSearchError kind)) else σ
    | _ => σ

def run (events : List SearchEvent) : Searches := events.foldl (step base) (start base)

end Searches

/-! ## The report -/

/-- The percentage of the buffer is a float, and left out. -/
structure OptimizationBuffer where
  estimated : ℕ
  absoluteMinimum : ℕ

/-- The recommended limits are computed in floats, and left out. -/
structure OptimizationReport where
  cpu : OptimizationBuffer
  ram : OptimizationBuffer
  ledgerRead : OptimizationBuffer
  ledgerWrite : OptimizationBuffer

def buildOptimizationBuffer (estimated absoluteMinimum : ℕ) : OptimizationBuffer :=
  { estimated, absoluteMinimum }

/-- The result of a task, which may have panicked: then the runtime says so in `joinError`. -/
def resolveSearchResult (joinError : String) (kind : ResourceSearchKind) :
    Except Stop ℕ → Except SimulationError ℕ
  | .ok value => .ok value
  | .error (.failed err) => .error err
  | .error (.cancelled err) => .error err
  | .error _ =>
    .error (.rpcRequestFailed s!"{kind.label} optimization task failed: {joinError}")

def isCancelledSearchError : SimulationError → Bool
  | .rpcRequestFailed msg => "Optimization search cancelled".toList.isPrefixOf msg.toList
  | _ => false

/-- The limit of a search. A cancellation is put aside, and zero stands for the limit. -/
def takeMinimum (cancelledError : Option SimulationError) :
    Except SimulationError ℕ → Except SimulationError (ℕ × Option SimulationError)
  | .ok value => .ok (value, cancelledError)
  | .error err =>
    if isCancelledSearchError err then .ok (0, cancelledError.or (some err)) else .error err

/-- The report on the results of the four searches. -/
def optimizeLimits (estimate : SorobanResources)
    (search : ResourceSearchKind → Except SimulationError ℕ) :
    Except SimulationError OptimizationReport := do
  let (minCpu, cancelledError) ← takeMinimum none (search .cpu)
  let (minRam, cancelledError) ← takeMinimum cancelledError (search .ram)
  let (minLedgerRead, cancelledError) ← takeMinimum cancelledError (search .ledgerRead)
  let (minLedgerWrite, cancelledError) ← takeMinimum cancelledError (search .ledgerWrite)
  match cancelledError with
  | some err => .error err
  | none =>
    return {
      cpu := buildOptimizationBuffer estimate.cpuInstructions minCpu
      ram := buildOptimizationBuffer estimate.ramBytes minRam
      ledgerRead := buildOptimizationBuffer estimate.ledgerReadBytes minLedgerRead
      ledgerWrite := buildOptimizationBuffer estimate.ledgerWriteBytes minLedgerWrite }

/-! ## A step -/

namespace Searches

variable {base : SorobanResources} {σ : Searches} {kind : ResourceSearchKind}

@[simp] theorem isCancelled_setPhase (p : SearchPhase) :
    (σ.setPhase kind p).isCancelled = σ.isCancelled := rfl

@[simp] theorem phase_setPhase (p : SearchPhase) :
    (σ.setPhase kind p).phase = Function.update σ.phase kind p := rfl

end Searches

/-- The bounds are within the estimate, and a candidate is the middle of them. -/
def SearchPhase.Bounded (estimate : ℕ) : SearchPhase → Prop
  | .head s => s.high ≤ estimate
  | .waiting s mid => s.low ≤ s.high ∧ s.high ≤ estimate ∧ mid = s.midpoint
  | .done r => Search.Ends r

theorem bounded_head {estimate : ℕ} {s : Search} :
    (SearchPhase.head s).Bounded estimate ↔ s.high ≤ estimate := Iff.rfl

theorem bounded_waiting {estimate mid : ℕ} {s : Search} :
    (SearchPhase.waiting s mid).Bounded estimate ↔
      s.low ≤ s.high ∧ s.high ≤ estimate ∧ mid = s.midpoint := Iff.rfl

/-- What a step does: the search `kind` goes from a phase to another one, and the token may be
cancelled. -/
inductive Move (base : SorobanResources) (kind : ResourceSearchKind) :
    SearchEvent → Bool → SearchPhase → SearchPhase → Bool → Prop
  | ended {c : Bool} {s : Search} (h : s.high < s.low) :
      Move base kind (.proceed kind) c (.head s) (.done (.ok s.minSuccess)) c
  | stopped {s : Search} (h : s.low ≤ s.high) :
      Move base kind (.proceed kind) true (.head s)
        (.done (.error (.cancelled (cancelledSearchError kind)))) true
  | tried {s : Search} (h : s.low ≤ s.high) :
      Move base kind (.proceed kind) false (.head s) (.waiting s s.midpoint) false
  | zero {c : Bool} {s : Search} {result : Except SimulationError SorobanResources}
      (h : evaluateResourceCandidate (fun _ => result) kind 0 base = .ok true) :
      Move base kind (.answer kind result) c (.waiting s 0) (.done (.ok 0)) c
  | below {c : Bool} {s : Search} {mid : ℕ} {result : Except SimulationError SorobanResources}
      (h : evaluateResourceCandidate (fun _ => result) kind mid base = .ok true) (hmid : 0 < mid) :
      Move base kind (.answer kind result) c (.waiting s mid)
        (.head { s with high := mid - 1, minSuccess := mid }) c
  | above {c : Bool} {s : Search} {mid : ℕ} {result : Except SimulationError SorobanResources}
      (h : evaluateResourceCandidate (fun _ => result) kind mid base = .ok false) :
      Move base kind (.answer kind result) c (.waiting s mid) (.head { s with low := mid + 1 }) c
  | failed {c : Bool} {s : Search} {mid : ℕ} {err : SimulationError}
      (h : isSignificantSearchFailure err = true) :
      Move base kind (.answer kind (.error err)) c (.waiting s mid)
        (.done (.error (.failed err))) true
  | noticed {s : Search} {mid : ℕ} :
      Move base kind (.notice kind) true (.waiting s mid)
        (.done (.error (.failed (cancelledSearchError kind)))) true

/-- A trial fails for good just with an error of the simulation that says so. -/
theorem evaluateResourceCandidate_eq_error {simulate}
    {kind : ResourceSearchKind} {mid : ℕ} {base : SorobanResources} {err : SimulationError}
    (h : evaluateResourceCandidate simulate kind mid base = .error err) :
    simulate (kind.applyCandidate base mid) = .error err ∧
      isSignificantSearchFailure err = true := by
  rw [evaluateResourceCandidate] at h
  rcases hsim : simulate (kind.applyCandidate base mid) with e | used
  · rw [hsim] at h
    dsimp only at h
    split at h
    · rename_i hsig
      cases h
      exact ⟨rfl, hsig⟩
    · cases h
  · rw [hsim] at h
    cases h

section Step

variable {base : SorobanResources} {σ : Searches} {estimate : ResourceSearchKind → ℕ}

/-- **A step moves one search**, or changes nothing. No number is beyond its type. -/
theorem step_eq_or_move (hest : ∀ kind, estimate kind < 2 ^ 64 - 1)
    (hσ : ∀ kind, (σ.phase kind).Bounded (estimate kind)) (event : SearchEvent) :
    σ.step base event = σ ∨ ∃ kind p c, Move base kind event σ.isCancelled (σ.phase kind) p c ∧
      σ.step base event = ⟨c, Function.update σ.phase kind p⟩ := by
  cases event with
  | proceed kind =>
    rw [Searches.step]
    rcases hphase : σ.phase kind with s | ⟨s, mid⟩ | r
    · right
      have hhigh := bounded_head.mp (hphase ▸ hσ kind)
      have hfit := hest kind
      refine ⟨kind, ?_⟩
      dsimp only
      rw [Searches.proceed]
      rcases Nat.lt_or_ge s.high s.low with hlt | hle
      · rw [if_neg (Nat.not_le_of_lt hlt), hphase]
        exact ⟨_, _, .ended hlt, rfl⟩
      · rw [if_pos hle, hphase]
        cases hc : σ.isCancelled with
        | true =>
          rw [if_pos rfl]
          exact ⟨_, _, .stopped hle, by rw [← hc]; rfl⟩
        | false =>
          rw [if_neg (by simp), Search.mid_eq hle (by omega)]
          exact ⟨_, _, .tried hle, by rw [← hc]; rfl⟩
    · exact .inl rfl
    · exact .inl rfl
  | answer kind result =>
    rw [Searches.step]
    rcases hphase : σ.phase kind with s | ⟨s, mid⟩ | r
    · exact .inl rfl
    · right
      obtain ⟨hle, hhigh, hmid⟩ := bounded_waiting.mp (hphase ▸ hσ kind)
      have hfit := hest kind
      have hmidle := Search.midpoint_le hle
      refine ⟨kind, ?_⟩
      dsimp only
      rw [hphase, Searches.conclude]
      rcases hresult : evaluateResourceCandidate (fun _ => result) kind mid base with
        err | (_ | _)
      · obtain ⟨rfl, hsig⟩ := evaluateResourceCandidate_eq_error hresult
        exact ⟨_, _, .failed hsig, rfl⟩
      · rw [Search.afterResult_false (by omega)]
        exact ⟨_, _, .above hresult, rfl⟩
      · rcases Nat.eq_zero_or_pos mid with hzero | hpos
        · rw [hzero] at hresult ⊢
          rw [Search.afterResult_zero]
          exact ⟨_, _, .zero hresult, rfl⟩
        · rw [Search.afterResult_true (by omega)]
          exact ⟨_, _, .below hresult hpos, rfl⟩
    · exact .inl rfl
  | notice kind =>
    rw [Searches.step]
    rcases hphase : σ.phase kind with s | ⟨s, mid⟩ | r
    · exact .inl rfl
    · dsimp only
      cases hc : σ.isCancelled with
      | false => exact .inl (if_neg (by simp))
      | true =>
        rw [if_pos rfl]
        exact .inr ⟨kind, _, _, hphase ▸ .noticed, rfl⟩
    · exact .inl rfl

/-- A move keeps the bounds. -/
theorem Move.bounded {kind : ResourceSearchKind} {event : SearchEvent} {c d : Bool}
    {p q : SearchPhase} (h : Move base kind event c p q d) {e : ℕ} (hp : p.Bounded e) :
    q.Bounded e := by
  cases h with
  | ended => exact Search.ends_ok _
  | stopped => exact Search.ends_cancelled _
  | tried h => exact ⟨h, hp, rfl⟩
  | zero => exact Search.ends_ok _
  | below =>
    obtain ⟨hle, hhigh, rfl⟩ := hp
    exact ((Nat.sub_le _ 1).trans (Search.midpoint_le hle)).trans hhigh
  | above => exact hp.2.1
  | failed => exact Search.ends_failed _
  | noticed => exact Search.ends_failed _

theorem step_bounded (hest : ∀ kind, estimate kind < 2 ^ 64 - 1)
    (hσ : ∀ kind, (σ.phase kind).Bounded (estimate kind)) (event : SearchEvent)
    (kind : ResourceSearchKind) : ((σ.step base event).phase kind).Bounded (estimate kind) := by
  rcases step_eq_or_move hest hσ event with heq | ⟨kind', p, c, hmove, heq⟩
  · rw [heq]
    exact hσ kind
  · rw [heq]
    dsimp only
    by_cases hkind : kind = kind'
    · subst hkind
      rw [Function.update_self]
      exact hmove.bounded (hσ kind)
    · rw [Function.update_of_ne hkind]
      exact hσ kind

end Step

/-- The estimates of the four resources. -/
abbrev Fits (base : SorobanResources) : Prop := ∀ kind : ResourceSearchKind,
  kind.estimatedValue base < 2 ^ 64 - 1

theorem run_bounded {base : SorobanResources} (hest : Fits base) (events : List SearchEvent)
    (kind : ResourceSearchKind) :
    ((Searches.run base events).phase kind).Bounded (kind.estimatedValue base) := by
  induction events using List.reverseRecOn generalizing kind with
  | nil => exact Nat.le_refl _
  | append_singleton events event ih =>
    rw [Searches.run, List.foldl_append]
    exact step_bounded hest ih event kind

/-! ## Failures -/

/-- A simulation for the search `kind` fails for good. -/
def Fails (base : SorobanResources) (events : List SearchEvent) (kind : ResourceSearchKind)
    (err : SimulationError) : Prop :=
  ∃ before after, events = before ++ .answer kind (.error err) :: after ∧
    (∃ s mid, (Searches.run base before).phase kind = .waiting s mid) ∧
      isSignificantSearchFailure err = true

section Failures

variable {base : SorobanResources} {events : List SearchEvent} {event : SearchEvent}
  {kind : ResourceSearchKind} {err : SimulationError}

theorem run_concat : Searches.run base (events ++ [event]) =
    (Searches.run base events).step base event := by
  rw [Searches.run, List.foldl_append]
  rfl

theorem fails_concat_iff : Fails base (events ++ [event]) kind err ↔
    Fails base events kind err ∨ event = .answer kind (.error err) ∧
      (∃ s mid, (Searches.run base events).phase kind = .waiting s mid) ∧
        isSignificantSearchFailure err = true := by
  constructor
  · rintro ⟨before, after, hevents, hphase, hsig⟩
    rcases List.eq_nil_or_concat after with rfl | ⟨after, last, rfl⟩
    · obtain ⟨rfl, hlast⟩ := List.append_inj' hevents rfl
      exact .inr ⟨(List.cons.inj hlast).1, hphase, hsig⟩
    · rw [List.concat_eq_append, ← List.cons_append, ← List.append_assoc] at hevents
      obtain ⟨rfl, -⟩ := List.append_inj' hevents rfl
      exact .inl ⟨before, after, rfl, hphase, hsig⟩
  · rintro (⟨before, after, rfl, hphase, hsig⟩ | ⟨rfl, hphase, hsig⟩)
    · exact ⟨before, after ++ [event], by simp, hphase, hsig⟩
    · exact ⟨events, [], rfl, hphase, hsig⟩

/-- What failures and cancellations there are. -/
structure Searches.Inv (base : SorobanResources) (events : List SearchEvent) (σ : Searches) :
    Prop where
  /-- the token is cancelled by failures only -/
  cancelled_iff : σ.isCancelled = true ↔ ∃ kind err, Fails base events kind err
  /-- a search ends with its failure -/
  failed : ∀ kind err, Fails base events kind err → σ.phase kind = .done (.error (.failed err))
  /-- a search that ends otherwise without a limit has been cancelled -/
  error : ∀ kind e, σ.phase kind = .done (.error e) →
    (∃ err, e = .failed err ∧ Fails base events kind err) ∨
      σ.isCancelled = true ∧ (e = .failed (cancelledSearchError kind) ∨
        e = .cancelled (cancelledSearchError kind))

theorem evaluateResourceCandidate_error (h : isSignificantSearchFailure err = true) (mid : ℕ) :
    evaluateResourceCandidate (fun _ => .error err) kind mid base = .error err := by
  rw [evaluateResourceCandidate]
  exact if_pos h

/-- A failure for good ends the search, and cancels the others. -/
theorem step_fail {σ : Searches} {s : Search} {mid : ℕ} (hphase : σ.phase kind = .waiting s mid)
    (h : isSignificantSearchFailure err = true) :
    σ.step base (.answer kind (.error err)) =
      ⟨true, Function.update σ.phase kind (.done (.error (.failed err)))⟩ := by
  rw [Searches.step, hphase]
  dsimp only
  rw [evaluateResourceCandidate_error h]
  rfl

/-- Other steps are no failures for good. -/
theorem Move.eq_of_not_fails {kind : ResourceSearchKind} {event : SearchEvent} {c d : Bool}
    {p q : SearchPhase} (h : Move base kind event c p q d)
    (hfails : ∀ err, event = .answer kind (.error err) → (∃ s mid, p = .waiting s mid) →
      isSignificantSearchFailure err = false) :
    c = d ∧ ∀ e, q = .done (.error e) → c = true ∧ (e = .failed (cancelledSearchError kind) ∨
      e = .cancelled (cancelledSearchError kind)) := by
  cases h with
  | ended => exact ⟨rfl, by simp⟩
  | stopped =>
    refine ⟨rfl, fun e he => ⟨rfl, .inr ?_⟩⟩
    simpa using he.symm
  | tried => exact ⟨rfl, by simp⟩
  | zero => exact ⟨rfl, by simp⟩
  | below => exact ⟨rfl, by simp⟩
  | above => exact ⟨rfl, by simp⟩
  | failed h =>
    rw [hfails _ rfl ⟨_, _, rfl⟩] at h
    cases h
  | noticed =>
    refine ⟨rfl, fun e he => ⟨rfl, .inl ?_⟩⟩
    simpa using he.symm

/-- A search that is done stays so. -/
theorem Move.ne_done {kind : ResourceSearchKind} {event : SearchEvent} {c d : Bool}
    {p q : SearchPhase} (h : Move base kind event c p q d) (r : Except Stop ℕ) : p ≠ .done r := by
  cases h <;> simp

/-- **The invariant**: a failure for good leaves its search with it, and cancels the token. -/
theorem inv_run (hest : Fits base) (events : List SearchEvent) :
    (Searches.run base events).Inv base events := by
  induction events using List.reverseRecOn with
  | nil =>
    have hnone : ∀ kind err, ¬Fails base [] kind err := by
      rintro kind err ⟨before, after, hevents, -⟩
      simp at hevents
    exact ⟨by simp [Searches.run, Searches.start, hnone],
      fun kind err h => absurd h (hnone kind err), fun kind e h => by cases h⟩
  | append_singleton events event ih =>
    rw [run_concat]
    by_cases hfail : ∃ kind err, event = .answer kind (.error err) ∧
        (∃ s mid, (Searches.run base events).phase kind = .waiting s mid) ∧
          isSignificantSearchFailure err = true
    · obtain ⟨kind, err, rfl, ⟨s, mid, hphase⟩, hsig⟩ := hfail
      have hfails : Fails base (events ++ [.answer kind (.error err)]) kind err :=
        fails_concat_iff.mpr (.inr ⟨rfl, ⟨s, mid, hphase⟩, hsig⟩)
      rw [step_fail hphase hsig]
      refine ⟨⟨fun _ => ⟨kind, err, hfails⟩, fun _ => rfl⟩, fun kind' err' h => ?_,
        fun kind' e h => ?_⟩
      · rcases fails_concat_iff.mp h with h | ⟨heq, -⟩
        · have hdone := ih.failed kind' err' h
          have hne : kind' ≠ kind := by
            rintro rfl
            rw [hphase] at hdone
            cases hdone
          exact (Function.update_of_ne hne _ _).trans hdone
        · cases heq
          exact Function.update_self _ _ _
      · by_cases hkind : kind' = kind
        · subst hkind
          dsimp only at h
          rw [Function.update_self] at h
          cases h
          exact .inl ⟨err, rfl, hfails⟩
        · dsimp only at h
          rw [Function.update_of_ne hkind] at h
          rcases ih.error kind' e h with ⟨err', rfl, hfails'⟩ | ⟨-, he⟩
          · exact .inl ⟨err', rfl, fails_concat_iff.mpr (.inl hfails')⟩
          · exact .inr ⟨rfl, he⟩
    · -- no failure is added
      have hsame : ∀ kind err,
          Fails base (events ++ [event]) kind err ↔ Fails base events kind err := by
        intro kind err
        rw [fails_concat_iff]
        exact or_iff_left fun h => hfail ⟨kind, err, h⟩
      rcases step_eq_or_move hest (run_bounded hest events) event with
        heq | ⟨kind, p, c, hmove, heq⟩
      · rw [heq]
        exact ⟨by simpa only [hsame] using ih.cancelled_iff, by simpa only [hsame] using ih.failed,
          by simpa only [hsame] using ih.error⟩
      · obtain ⟨rfl, hstopped⟩ := hmove.eq_of_not_fails fun err hevent hphase => by
          rw [← Bool.not_eq_true]
          exact fun hsig => hfail ⟨kind, err, hevent, hphase, hsig⟩
        rw [heq]
        refine ⟨by simpa only [hsame] using ih.cancelled_iff, fun kind' err h => ?_,
          fun kind' e h => ?_⟩
        · have hdone := ih.failed kind' err ((hsame _ _).mp h)
          have hne : kind' ≠ kind := by
            rintro rfl
            exact hmove.ne_done _ hdone
          exact (Function.update_of_ne hne _ _).trans hdone
        · simp only [hsame]
          by_cases hkind : kind' = kind
          · subst hkind
            dsimp only at h
            rw [Function.update_self] at h
            exact .inr (hstopped e h)
          · dsimp only at h
            rw [Function.update_of_ne hkind] at h
            exact ih.error kind' e h

end Failures

/-! ## The report -/

section Report

variable {estimate : ResourceSearchKind → ℕ} {base : SorobanResources}
  {search : ResourceSearchKind → Except SimulationError ℕ} {err : SimulationError}

theorem optimizeLimits_eq_ok {m : ResourceSearchKind → ℕ} (h : ∀ kind, search kind = .ok (m kind)) :
    optimizeLimits base search = .ok
      { cpu := ⟨base.cpuInstructions, m .cpu⟩
        ram := ⟨base.ramBytes, m .ram⟩
        ledgerRead := ⟨base.ledgerReadBytes, m .ledgerRead⟩
        ledgerWrite := ⟨base.ledgerWriteBytes, m .ledgerWrite⟩ } := by
  rw [optimizeLimits, h .cpu, h .ram, h .ledgerRead, h .ledgerWrite]
  rfl

/-- What the report `r` says of the searches `kinds`, with a cancellation that has been put aside:
it fails when one of them has, with the failure of one of them, and with a cancellation only if
there is nothing else. -/
structure Reports (search : ResourceSearchKind → Except SimulationError ℕ)
    (kinds : List ResourceSearchKind) (aside : Option SimulationError)
    (r : Except SimulationError OptimizationReport) : Prop where
  fails : (aside ≠ none ∨ ∃ kind ∈ kinds, ∃ e, search kind = .error e) → ∃ err, r = .error err
  failure : ∀ err, r = .error err →
    aside = some err ∨ ∃ kind ∈ kinds, search kind = .error err
  real : ∀ err, r = .error err →
    (∃ kind ∈ kinds, ∃ e, search kind = .error e ∧ isCancelledSearchError e = false) →
      isCancelledSearchError err = false

theorem Reports.cons {kind : ResourceSearchKind} {kinds : List ResourceSearchKind}
    {aside : Option SimulationError}
    {rest : ℕ × Option SimulationError → Except SimulationError OptimizationReport}
    (h : ∀ v aside, Reports search kinds aside (rest (v, aside))) :
    Reports search (kind :: kinds) aside (takeMinimum aside (search kind) >>= rest) := by
  rcases hkind : search kind with e | v
  · cases hc : isCancelledSearchError e with
    | true =>
      -- the cancellation is put aside
      have htake : takeMinimum aside (.error e) = .ok (0, aside.or (some e)) := if_pos hc
      rw [htake]
      obtain ⟨hfails, hfailure, hreal⟩ := h 0 (aside.or (some e))
      refine ⟨fun _ => hfails (.inl (by simp)), fun err herr => ?_, fun err herr => ?_⟩
      · rcases hfailure err herr with haside | ⟨k, hk, hsearch⟩
        · cases aside with
          | none => exact .inr ⟨kind, List.mem_cons_self, hkind.trans (by simpa using haside)⟩
          | some a => exact .inl haside
        · exact .inr ⟨k, List.mem_cons_of_mem _ hk, hsearch⟩
      · rintro ⟨k, hk, e', hsearch, hreal'⟩
        rcases List.mem_cons.mp hk with rfl | hk
        · rw [hkind] at hsearch
          cases hsearch
          rw [hc] at hreal'
          cases hreal'
        · exact hreal err herr ⟨k, hk, e', hsearch, hreal'⟩
    | false =>
      have htake : takeMinimum aside (.error e) = .error e := if_neg (by simp [hc])
      rw [htake]
      refine ⟨fun _ => ⟨e, rfl⟩, fun err herr => ?_, fun err herr _ => ?_⟩
      · cases herr
        exact .inr ⟨kind, List.mem_cons_self, hkind⟩
      · cases herr
        exact hc
  · have hne : ∀ e, search kind ≠ .error e := fun e he => by
      rw [hkind] at he
      cases he
    obtain ⟨hfails, hfailure, hreal⟩ := h v aside
    refine ⟨fun hor => hfails ?_, fun err herr => ?_, fun err herr => ?_⟩
    · refine hor.imp_right ?_
      rintro ⟨k, hk, e, hsearch⟩
      rcases List.mem_cons.mp hk with rfl | hk
      · exact absurd hsearch (hne e)
      · exact ⟨k, hk, e, hsearch⟩
    · exact (hfailure err herr).imp_right fun ⟨k, hk, hsearch⟩ =>
        ⟨k, List.mem_cons_of_mem _ hk, hsearch⟩
    · rintro ⟨k, hk, e, hsearch, hreal'⟩
      rcases List.mem_cons.mp hk with rfl | hk
      · exact absurd hsearch (hne e)
      · exact hreal err herr ⟨k, hk, e, hsearch, hreal'⟩

/-- **The report fails** when a search has, with the failure of a search, and with a cancellation
only if there is nothing else. -/
theorem optimizeLimits_reports (base : SorobanResources)
    (search : ResourceSearchKind → Except SimulationError ℕ) :
    Reports search [.cpu, .ram, .ledgerRead, .ledgerWrite] none (optimizeLimits base search) := by
  refine .cons fun minCpu _ => .cons fun minRam _ => .cons fun minLedgerRead _ =>
    .cons fun minLedgerWrite aside => ?_
  rcases aside with - | a
  · refine ⟨by simp, ?_, ?_⟩ <;> rintro err ⟨⟩
  · refine ⟨fun _ => ⟨a, rfl⟩, ?_, by simp⟩
    rintro err ⟨⟩
    exact .inl rfl

end Report

theorem mem_kinds (kind : ResourceSearchKind) :
    kind ∈ [ResourceSearchKind.cpu, .ram, .ledgerRead, .ledgerWrite] := by
  cases kind <;> simp

theorem isCancelledSearchError_cancelled (kind : ResourceSearchKind) :
    isCancelledSearchError (cancelledSearchError kind) = true := by
  cases kind <;> decide

/-- **The report of any interleaving**: it fails just when a simulation has failed for good, and
then with such a failure. The failures of the simulation are none that read as a cancellation. -/
theorem optimizeLimits_run {base : SorobanResources} (hest : Fits base) (joinError : String)
    {events : List SearchEvent} {r : ResourceSearchKind → Except Stop ℕ}
    (hdone : ∀ kind, (Searches.run base events).phase kind = .done (r kind))
    (htexts : ∀ kind err, .answer kind (.error err) ∈ events → isCancelledSearchError err = false) :
    let report := optimizeLimits base fun kind => resolveSearchResult joinError kind (r kind)
    ((∃ err, report = .error err) ↔ ∃ kind err, Fails base events kind err) ∧
      ∀ err, report = .error err → ∃ kind, Fails base events kind err := by
  intro report
  obtain ⟨hcancelled, hfailed, herror⟩ := inv_run hest events
  obtain ⟨hfails, hfailure, hreal⟩ := optimizeLimits_reports base
    fun kind => resolveSearchResult joinError kind (r kind)
  have hresolve : ∀ {kind err}, Fails base events kind err →
      resolveSearchResult joinError kind (r kind) = .error err := by
    intro kind err h
    have hphase := hfailed kind err h
    rw [hdone kind, SearchPhase.done.injEq] at hphase
    rw [hphase]
    rfl
  have htext : ∀ {kind err}, Fails base events kind err → isCancelledSearchError err = false := by
    rintro kind err ⟨before, after, rfl, -⟩
    exact htexts kind err (by simp)
  -- the error of a search is a failure, or there is one that has cancelled it
  have hany : ∀ {kind err}, resolveSearchResult joinError kind (r kind) = .error err →
      Fails base events kind err ∨
        isCancelledSearchError err = true ∧ ∃ kind err, Fails base events kind err := by
    intro kind err h
    rcases hr : r kind with e | v
    · rw [hr] at h
      have hphase := hdone kind
      rw [hr] at hphase
      rcases herror kind e hphase with ⟨err', rfl, hfail⟩ | ⟨hc, rfl | rfl⟩
      · cases h
        exact .inl hfail
      · cases h
        exact .inr ⟨isCancelledSearchError_cancelled kind, hcancelled.mp hc⟩
      · cases h
        exact .inr ⟨isCancelledSearchError_cancelled kind, hcancelled.mp hc⟩
    · rw [hr] at h
      cases h
  refine ⟨⟨fun ⟨err, herr⟩ => ?_, fun ⟨kind, err, hfail⟩ => ?_⟩, fun err herr => ?_⟩
  · rcases hfailure err herr with haside | ⟨kind, -, hsearch⟩
    · cases haside
    · rcases hany hsearch with hfail | ⟨-, hfail⟩
      · exact ⟨kind, err, hfail⟩
      · exact hfail
  · exact hfails (.inr ⟨kind, mem_kinds kind, err, hresolve hfail⟩)
  · rcases hfailure err herr with haside | ⟨kind, -, hsearch⟩
    · cases haside
    · rcases hany hsearch with hfail | ⟨hc, kind', err', hfail⟩
      · exact ⟨kind, hfail⟩
      · -- there is a failure, and the report would have that
        rw [hreal err herr ⟨kind', mem_kinds kind', err', hresolve hfail, htext hfail⟩] at hc
        cases hc

/-- The simulation for the instructions times out while that for the memory is on its way. -/
def timeoutEvents : List SearchEvent :=
  [.proceed .cpu, .proceed .ram, .answer .cpu (.error .nodeTimeout), .notice .ram,
    .proceed .ledgerWrite, .proceed .ledgerRead]

/-- How the four searches end. -/
def timeoutResults (kind : ResourceSearchKind) : Except Stop ℕ :=
  match kind with
  | .cpu => .error (.failed .nodeTimeout)
  | .ram => .error (.failed (cancelledSearchError .ram))
  | .ledgerRead => .error (.cancelled (cancelledSearchError .ledgerRead))
  | .ledgerWrite => .error (.cancelled (cancelledSearchError .ledgerWrite))

theorem optimizeLimits_run_timeout :
    ∃ kind, Fails ⟨0, 0, 0, 0, 0⟩ timeoutEvents kind .nodeTimeout := by
  have hest : Fits ⟨0, 0, 0, 0, 0⟩ := fun kind => by cases kind <;> decide
  have hdone : ∀ kind, (Searches.run ⟨0, 0, 0, 0, 0⟩ timeoutEvents).phase kind =
      .done (timeoutResults kind) := fun kind => by cases kind <;> rfl
  refine (optimizeLimits_run hest "" hdone ?_).2 _ rfl
  intro kind err h
  simp only [timeoutEvents, List.mem_cons, reduceCtorEq, SearchEvent.answer.injEq,
    Except.error.injEq, List.not_mem_nil, or_false, false_or] at h
  rw [h.2]
  rfl

/-! ## The least limits -/

/-- The simulations give the results of `simulate`. -/
def Answers (simulate : SorobanResources → Except SimulationError SorobanResources)
    (base : SorobanResources) (events : List SearchEvent) : Prop :=
  ∀ before kind result after, events = before ++ .answer kind result :: after →
    ∀ s mid, (Searches.run base before).phase kind = .waiting s mid →
      result = simulate (kind.applyCandidate base mid)

/-- The search is around the least limit, or has found it. -/
def SearchPhase.Finds (m e : ℕ) : SearchPhase → Prop
  | .head s => s.Around m e
  | .waiting s _ => s.Around m e
  | .done r => r = .ok m

section Minima

variable {base : SorobanResources} {kind : ResourceSearchKind} {event : SearchEvent}
  {simulate : SorobanResources → Except SimulationError SorobanResources}
  {m : ResourceSearchKind → ℕ}

/-- A move of a search that is not cancelled, with a result that is right. -/
theorem Move.finds {m e : ℕ} {p q : SearchPhase} {d : Bool} (h : Move base kind event false p q d)
    (hp : p.Bounded e) (hfinds : p.Finds m e)
    (hresult : ∀ result s mid, event = .answer kind result → p = .waiting s mid → mid ≤ e →
      evaluateResourceCandidate (fun _ => result) kind mid base = .ok (decide (m ≤ mid))) :
    d = false ∧ q.Finds m e := by
  cases h with
  | ended h => exact ⟨rfl, congrArg _ (hfinds.minSuccess_eq h)⟩
  | tried => exact ⟨rfl, hfinds⟩
  | zero h =>
    have hright := hresult _ _ _ rfl rfl (Nat.zero_le e)
    rw [h, Except.ok.injEq, eq_comm, decide_eq_true_eq] at hright
    exact ⟨rfl, congrArg _ (Nat.le_zero.mp hright).symm⟩
  | below h hmid =>
    obtain ⟨hle, hhigh, rfl⟩ := hp
    have hright := hresult _ _ _ rfl rfl ((Search.midpoint_le hle).trans hhigh)
    rw [h, Except.ok.injEq, eq_comm, decide_eq_true_eq] at hright
    exact ⟨rfl, hfinds.below hle hright⟩
  | above h =>
    obtain ⟨hle, hhigh, rfl⟩ := hp
    have hright := hresult _ _ _ rfl rfl ((Search.midpoint_le hle).trans hhigh)
    rw [h, Except.ok.injEq, eq_comm, decide_eq_false_iff_not, not_le] at hright
    exact ⟨rfl, hfinds.above hright⟩
  | failed h =>
    obtain ⟨hle, hhigh, rfl⟩ := hp
    have hright := hresult _ _ _ rfl rfl ((Search.midpoint_le hle).trans hhigh)
    rw [evaluateResourceCandidate_error h] at hright
    cases hright

theorem finds_run (hest : Fits base) (hm : ∀ kind, m kind ≤ kind.estimatedValue base)
    (hright : ∀ kind, ∀ c ≤ kind.estimatedValue base,
      evaluateResourceCandidate simulate kind c base = .ok (decide (m kind ≤ c)))
    (events : List SearchEvent) (hanswers : Answers simulate base events) :
    (Searches.run base events).isCancelled = false ∧ ∀ kind,
      ((Searches.run base events).phase kind).Finds (m kind) (kind.estimatedValue base) := by
  induction events using List.reverseRecOn with
  | nil => exact ⟨rfl, fun kind => ⟨Nat.zero_le _, hm kind, Nat.le_succ _, Nat.le_refl _⟩⟩
  | append_singleton events event ih =>
    obtain ⟨hcancelled, hfinds⟩ := ih fun before kind result after hevents =>
      hanswers before kind result (after ++ [event]) (by simp [hevents])
    rw [run_concat]
    rcases step_eq_or_move hest (run_bounded hest events) event with
      heq | ⟨kind, p, c, hmove, heq⟩
    · rw [heq]
      exact ⟨hcancelled, hfinds⟩
    · rw [hcancelled] at hmove
      obtain ⟨rfl, hp⟩ := hmove.finds (run_bounded hest events kind) (hfinds kind) (by
        rintro result s mid rfl hphase hmid
        obtain rfl := hanswers events kind result [] rfl s mid hphase
        exact hright kind mid hmid)
      rw [heq]
      refine ⟨rfl, fun kind' => ?_⟩
      dsimp only
      by_cases hkind : kind' = kind
      · subst hkind
        rw [Function.update_self]
        exact hp
      · rw [Function.update_of_ne hkind]
        exact hfinds kind'

/-- **The report of any interleaving has the least limits**, where the simulation succeeds from
these limits on, and fails below them. -/
theorem optimizeLimits_minima (hest : Fits base) (hm : ∀ kind, m kind ≤ kind.estimatedValue base)
    (hright : ∀ kind, ∀ c ≤ kind.estimatedValue base,
      evaluateResourceCandidate simulate kind c base = .ok (decide (m kind ≤ c)))
    {events : List SearchEvent} (hanswers : Answers simulate base events) (joinError : String)
    {r : ResourceSearchKind → Except Stop ℕ}
    (hdone : ∀ kind, (Searches.run base events).phase kind = .done (r kind)) :
    optimizeLimits base (fun kind => resolveSearchResult joinError kind (r kind)) = .ok
      { cpu := ⟨base.cpuInstructions, m .cpu⟩
        ram := ⟨base.ramBytes, m .ram⟩
        ledgerRead := ⟨base.ledgerReadBytes, m .ledgerRead⟩
        ledgerWrite := ⟨base.ledgerWriteBytes, m .ledgerWrite⟩ } := by
  refine optimizeLimits_eq_ok fun kind => ?_
  have hfinds := (finds_run hest hm hright events hanswers).2 kind
  rw [hdone kind] at hfinds
  have hr : r kind = .ok (m kind) := hfinds
  rw [hr]
  rfl

/-- The searches for a contract that needs nothing. -/
def nothingEvents : List SearchEvent :=
  [.proceed .ram, .proceed .cpu, .answer .ram (.ok ⟨0, 0, 0, 0, 0⟩), .proceed .ledgerRead,
    .proceed .ledgerWrite, .answer .ledgerWrite (.ok ⟨0, 0, 0, 0, 0⟩),
    .answer .cpu (.ok ⟨0, 0, 0, 0, 0⟩), .answer .ledgerRead (.ok ⟨0, 0, 0, 0, 0⟩)]

theorem optimizeLimits_minima_nothing :
    optimizeLimits ⟨0, 0, 0, 0, 0⟩ (fun kind => resolveSearchResult "" kind (.ok 0)) =
      .ok ⟨⟨0, 0⟩, ⟨0, 0⟩, ⟨0, 0⟩, ⟨0, 0⟩⟩ := by
  have hest : Fits ⟨0, 0, 0, 0, 0⟩ := fun kind => by cases kind <;> decide
  have hanswers : Answers (fun _ => .ok ⟨0, 0, 0, 0, 0⟩) ⟨0, 0, 0, 0, 0⟩ nothingEvents := by
    intro before kind result after hevents s mid _
    have hmem : SearchEvent.answer kind result ∈ nothingEvents := by simp [hevents]
    simp only [nothingEvents, List.mem_cons, reduceCtorEq, SearchEvent.answer.injEq,
      List.not_mem_nil, or_false, false_or] at hmem
    tauto
  refine optimizeLimits_minima (m := fun _ => 0) hest (fun _ => Nat.zero_le _) ?_ hanswers "" ?_
  · intro kind c _
    cases kind <;> simp [evaluateResourceCandidate, ResourceSearchKind.observedValue,
      ResourceSearchKind.estimatedValue]
  · intro kind
    cases kind <;> rfl

end Minima

/-! ## The searches end -/

/-- A bound on the moves that a search still makes. -/
def SearchPhase.cost : SearchPhase → ℕ
  | .head s => 2 * (s.high + 1 - s.low).size + 1
  | .waiting s _ => 2 * (s.high + 1 - s.low).size
  | .done _ => 0

/-- A bound on the moves that the four of them still make. -/
def Searches.cost (σ : Searches) : ℕ :=
  (σ.phase .cpu).cost + (σ.phase .ram).cost + (σ.phase .ledgerRead).cost +
    (σ.phase .ledgerWrite).cost

section End

variable {base : SorobanResources} {kind : ResourceSearchKind} {event : SearchEvent}

/-- A number that is at most half of another one has a digit less. -/
theorem size_lt_size {k n : ℕ} (hn : 0 < n) (h : 2 * k ≤ n) : k.size < n.size := by
  have hsize := Nat.size_pos.mpr hn
  have hlt := Nat.lt_size_self n
  have hpow : 2 ^ n.size = 2 * 2 ^ (n.size - 1) := by
    rw [← pow_succ', Nat.sub_add_cancel hsize]
  have hk : k.size ≤ n.size - 1 := Nat.size_le.mpr (by omega)
  omega

/-- A search that waits has a candidate left. -/
theorem cost_waiting_pos {s : Search} {mid e : ℕ} (h : (SearchPhase.waiting s mid).Bounded e) :
    0 < (SearchPhase.waiting s mid).cost :=
  Nat.mul_pos Nat.two_pos (Nat.size_pos.mpr (Nat.sub_pos_of_lt (Nat.lt_succ_of_le h.1)))

/-- **Every move costs**: the interval is halved between two trials. -/
theorem Move.cost_lt {c d : Bool} {p q : SearchPhase} (h : Move base kind event c p q d) {e : ℕ}
    (hp : p.Bounded e) : q.cost < p.cost := by
  cases h with
  | ended => exact Nat.succ_pos _
  | stopped => exact Nat.succ_pos _
  | tried => exact Nat.lt_succ_self _
  | zero => exact cost_waiting_pos hp
  | @below _ s mid result h hmid =>
    obtain ⟨hle, hhigh, rfl⟩ := hp
    have hhalf : s.midpoint = s.low + (s.high - s.low) / 2 := rfl
    have hsize : (s.midpoint - 1 + 1 - s.low).size < (s.high + 1 - s.low).size :=
      size_lt_size (by omega) (by omega)
    simp only [SearchPhase.cost]
    omega
  | @above _ s mid result h =>
    obtain ⟨hle, hhigh, rfl⟩ := hp
    have hhalf : s.midpoint = s.low + (s.high - s.low) / 2 := rfl
    have hsize : (s.high + 1 - (s.midpoint + 1)).size < (s.high + 1 - s.low).size :=
      size_lt_size (by omega) (by omega)
    simp only [SearchPhase.cost]
    omega
  | failed => exact cost_waiting_pos hp
  | noticed => exact cost_waiting_pos hp

theorem cost_update_lt {σ : Searches} {p : SearchPhase} {c : Bool}
    (h : p.cost < (σ.phase kind).cost) :
    (⟨c, Function.update σ.phase kind p⟩ : Searches).cost < σ.cost := by
  cases kind <;> simp [Searches.cost] <;> omega

/-- A search that has begun a round or waits has a step that moves it. -/
theorem exists_step_ne {σ : Searches} (hdone : ∀ r, σ.phase kind ≠ .done r) :
    σ.step base (.proceed kind) ≠ σ ∨ ∀ result, σ.step base (.answer kind result) ≠ σ := by
  rcases hphase : σ.phase kind with s | ⟨s, mid⟩ | r
  · left
    intro heq
    have hkind := congrArg (fun τ : Searches => τ.phase kind) heq
    simp only [Searches.step, hphase, Searches.proceed] at hkind
    split_ifs at hkind
    · simp at hkind
    · rcases hmid : s.mid with e | mid <;> simp [hmid] at hkind
    · simp at hkind
  · right
    intro result heq
    have hkind := congrArg (fun τ : Searches => τ.phase kind) heq
    simp only [Searches.step, hphase, Searches.conclude] at hkind
    split at hkind <;> simp at hkind
  · exact absurd hphase (hdone r)

theorem cost_run (hest : Fits base) {events : List SearchEvent}
    (hmoves : ∀ before event after, events = before ++ event :: after →
      (Searches.run base before).step base event ≠ Searches.run base before) :
    (Searches.run base events).cost + events.length ≤ (Searches.start base).cost := by
  induction events using List.reverseRecOn with
  | nil => exact Nat.le_refl _
  | append_singleton events event ih =>
    have hlen := ih fun before e after hevents =>
      hmoves before e (after ++ [event]) (by simp [hevents])
    have hlt : (Searches.run base (events ++ [event])).cost < (Searches.run base events).cost := by
      rw [run_concat]
      rcases step_eq_or_move hest (run_bounded hest events) event with
        heq | ⟨kind, p, c, hmove, heq⟩
      · exact absurd heq (hmoves events event [] rfl)
      · rw [heq]
        exact cost_update_lt (hmove.cost_lt (run_bounded hest events kind))
    rw [List.length_append, List.length_singleton]
    omega

theorem cost_start_le (hest : Fits base) : (Searches.start base).cost ≤ 516 := by
  have hsize : ∀ kind : ResourceSearchKind, (kind.estimatedValue base + 1).size ≤ 64 := by
    intro kind
    have hfit := hest kind
    exact Nat.size_le.mpr (by omega)
  have hcpu := hsize .cpu
  have hram := hsize .ram
  have hread := hsize .ledgerRead
  have hwrite := hsize .ledgerWrite
  simp only [Searches.cost, Searches.start, SearchPhase.cost, initialSearch, Nat.sub_zero]
  omega

/-- **The searches end**: in any order, at most 516 steps move a search, and until all of them are
done each of the others can be moved, by any answer of the simulation if it waits for one. -/
theorem searches_end (hest : Fits base) (events : List SearchEvent) :
    ((∀ before event after, events = before ++ event :: after →
        (Searches.run base before).step base event ≠ Searches.run base before) →
      events.length ≤ 516) ∧
    ∀ kind, (∀ r, (Searches.run base events).phase kind ≠ .done r) →
      (Searches.run base events).step base (.proceed kind) ≠ Searches.run base events ∨
        ∀ result, (Searches.run base events).step base (.answer kind result) ≠
          Searches.run base events := by
  constructor
  · intro hmoves
    have hcost := cost_run hest hmoves
    have hstart := cost_start_le hest
    omega
  · intro kind hdone
    exact exists_step_ne hdone

theorem searches_end_nothing :
    (Searches.run ⟨0, 0, 0, 0, 0⟩ []).step ⟨0, 0, 0, 0, 0⟩ (.proceed .cpu) ≠
        Searches.run ⟨0, 0, 0, 0, 0⟩ [] ∨
      ∀ result, (Searches.run ⟨0, 0, 0, 0, 0⟩ []).step ⟨0, 0, 0, 0, 0⟩ (.answer .cpu result) ≠
        Searches.run ⟨0, 0, 0, 0, 0⟩ [] := by
  have hest : Fits ⟨0, 0, 0, 0, 0⟩ := fun kind => by cases kind <;> decide
  refine (searches_end hest []).2 .cpu ?_
  rintro r ⟨⟩

end End

end Core.Simulation
