import SkyMoonScope.Lib.TimeAverage
import SkyMoonScope.Soroban.Arithmetic
import SkyMoonScope.TwapOracle.Oracle

/-!
# The average of the accepted prices

The accepted updates of a run are observations of a price. At ledgers whose times are positive and
do not decrease, the accumulators are the integral of these observations and the time from the first
to the last of them. So the average lies between two accepted prices, which are `i128` values, and
its conversion to this type does not saturate.

## Main definitions

* `observations ls`: the prices and the times of the accepted updates
* `Accumulated ls s`: the stored values against the observations
* `Integrity xs s`: the accumulators, and the average between the prices

## Main results

* `accumulated_step`: every call that returns keeps the stored values in line
* `average_between`: the accumulators and the average in every run
-/

namespace TwapOracle

open Soroban Machine TimeAverage

variable {Address : Type}

/-- The price and the time of an accepted update. -/
def observation (l : Event Address) : Option (ℕ × ℕ) :=
  match l.call, l.result with
  | .updatePrice currentPrice _, .ok () => some (currentPrice.toNat, l.host.timestamp)
  | _, _ => none

def observations (ls : List (Event Address)) : List (ℕ × ℕ) := ls.filterMap observation

/-- Ledgers whose times are positive and do not decrease. -/
structure Timely (ls : List (Event Address)) : Prop where
  positive : ∀ l ∈ ls, 0 < l.host.timestamp
  ordered : (ls.map fun l => l.host.timestamp).IsChain (· ≤ ·)

/-- The accumulators are those of the observations, the average lies between two of the prices, and
its conversion does not saturate. -/
structure Integrity (xs : List (ℕ × ℕ)) (s : State Address) : Prop where
  cumulative_eq : s.cumulativePrice = integral xs
  total_eq : s.totalTime = span xs
  average_eq : 0 < s.totalTime → getTwap s = (s.cumulativePrice / s.totalTime : ℕ)
  between : 0 < s.totalTime → ∃ x ∈ xs, ∃ y ∈ xs, (x.1 : ℤ) ≤ getTwap s ∧ getTwap s ≤ (y.1 : ℤ)

section Observations

variable {ls : List (Event Address)} {l : Event Address} {x : ℕ × ℕ}

theorem observations_concat :
    observations (ls ++ [l]) = observations ls ++ (observation l).toList := by
  rw [observations, List.filterMap_append]
  cases hl : observation l <;> simp [observations, hl]

/-- An observation is of a price that is positive as an `i128`, at the time of an event. -/
theorem of_mem_observations (hx : x ∈ observations ls) :
    x.1 < 2 ^ 127 ∧ ∃ l ∈ ls, x.2 = l.host.timestamp := by
  obtain ⟨l, hl, hobservation⟩ := List.mem_filterMap.mp hx
  unfold observation at hobservation
  split at hobservation
  next currentPrice fits _ _ =>
    obtain rfl := Option.some.inj hobservation
    have hhi : currentPrice ≤ 2 ^ 127 - 1 := fits.2
    exact ⟨by dsimp only; omega, l, hl, rfl⟩
  next => cases hobservation

theorem Timely.of_concat (h : Timely (ls ++ [l])) : Timely ls where
  positive := fun k hk => h.positive k (List.mem_append_left [l] hk)
  ordered := by
    have hordered := h.ordered
    rw [List.map_append] at hordered
    exact hordered.left_of_append

/-- Observations are not later than the next event. -/
theorem Timely.le_last (h : Timely (ls ++ [l])) (hx : x ∈ observations ls) :
    x.2 ≤ l.host.timestamp := by
  obtain ⟨-, k, hk, hxk⟩ := of_mem_observations hx
  have hpairwise := List.isChain_iff_pairwise.mp h.ordered
  rw [List.map_append, List.pairwise_append] at hpairwise
  rw [hxk]
  exact hpairwise.2.2 _ (List.mem_map_of_mem hk) _ (List.mem_singleton_self _)

/-- The observations are ordered by their times. -/
theorem Timely.ordered_observations (h : Timely ls) : Ordered (observations ls) := by
  induction ls using List.reverseRecOn with
  | nil => exact List.Pairwise.nil
  | append_singleton ls l ih =>
    rw [observations_concat]
    refine List.pairwise_append.mpr ⟨ih h.of_concat, ?_, fun x hx y hy => ?_⟩
    · cases observation l
      · exact List.Pairwise.nil
      · exact List.pairwise_singleton _ _
    · have hy' : y ∈ observations [l] := by
        rwa [← List.nil_append [l], observations_concat, observations, List.filterMap_nil,
          List.nil_append]
      obtain ⟨-, k, hk, hyk⟩ := of_mem_observations hy'
      rw [List.mem_singleton.mp hk] at hyk
      rw [hyk]
      exact h.le_last hx

end Observations

/-! ## The stored values -/

/-- The accumulators are those of the observations, and the last observation is stored. -/
structure Accumulated (ls : List (Event Address)) (s : State Address) : Prop where
  cumulative_eq : s.cumulativePrice = integral (observations ls)
  total_eq : s.totalTime = span (observations ls)
  last_eq : (observations ls).getLast?.getD (0, 0) = (s.lastPrice, s.lastUpdateTimestamp)
  uninitialized : s.tokenA = none → observations ls = []

section Accumulated

variable {ls : List (Event Address)} {l : Event Address} {env : Env} {call : Call Address}
  {s t : State Address} {r : Unit}

/-- An event without an observation keeps what is stored. -/
theorem Accumulated.concat (h : Accumulated ls s) (hl : observation l = none) :
    Accumulated (ls ++ [l]) s := by
  have hls : observations (ls ++ [l]) = observations ls := by
    rw [observations_concat, hl]
    exact List.append_nil _
  refine ⟨?_, ?_, ?_, ?_⟩ <;> rw [hls]
  · exact h.cumulative_eq
  · exact h.total_eq
  · exact h.last_eq
  · exact h.uninitialized

/-- **Every call that returns** keeps the stored values in line with the observations. -/
theorem accumulated_step (htimely : Timely (ls ++ [⟨env, call, .ok r⟩])) (hs : Accumulated ls s)
    (h : Returns (entryPoint env call) s r t) : Accumulated (ls ++ [⟨env, call, .ok r⟩]) t := by
  cases call with
  | initializeOracle tokenA tokenB minUpdateIntervalSeconds =>
    obtain ⟨hnone, rfl⟩ := returns_initializeOracle.mp h
    have hempty : observations (ls ++ [⟨env, .initializeOracle tokenA tokenB
        minUpdateIntervalSeconds, .ok r⟩]) = [] := by
      rw [observations_concat, hs.uninitialized hnone]
      rfl
    refine ⟨?_, ?_, ?_, fun hnone => (by cases hnone)⟩ <;> rw [hempty]
    · rfl
    · rfl
    · rfl
  | updatePrice currentPrice fits =>
    obtain ⟨htoken, -, rfl⟩ := returns_updatePrice h
    have hlast := hs.last_eq
    have hordered := htimely.ordered_observations
    have hpositive : 0 < env.timestamp :=
      htimely.positive _ (List.mem_append_right _ (List.mem_singleton_self _))
    have hconcat : observations (ls ++ [⟨env, .updatePrice currentPrice fits, .ok r⟩]) =
        observations ls ++ [(currentPrice.toNat, env.timestamp)] := observations_concat
    rw [hconcat] at hordered
    cases hx : (observations ls).getLast? with
    | none =>
      -- the first observation
      obtain hempty := List.getLast?_eq_none_iff.mp hx
      have hcumulative := hs.cumulative_eq
      have htotal := hs.total_eq
      rw [hempty] at hcumulative htotal
      rw [hx] at hlast
      obtain ⟨hprice, hupdate⟩ := Prod.mk.inj hlast
      rw [hempty, List.nil_append] at hconcat
      have helapsed : elapsedSince s.lastUpdateTimestamp env.timestamp = 0 := if_pos hupdate.symm
      refine ⟨?_, ?_, ?_, fun hnone => absurd hnone htoken⟩ <;> rw [hconcat]
      · rw [helapsed, hcumulative]
        rfl
      · rw [helapsed, htotal, span_singleton]
        rfl
      · rfl
    | some x =>
      rw [hx] at hlast
      obtain rfl : x = (s.lastPrice, s.lastUpdateTimestamp) := hlast
      -- the stored time is that of an event, so it is not zero
      have hupdate : s.lastUpdateTimestamp ≠ 0 := by
        obtain ⟨-, k, hk, hxk⟩ := of_mem_observations (List.mem_of_getLast? hx)
        have hpos := htimely.of_concat.positive k hk
        dsimp only at hxk
        omega
      have helapsed : elapsedSince s.lastUpdateTimestamp env.timestamp =
          env.timestamp - s.lastUpdateTimestamp := if_neg hupdate
      refine ⟨?_, ?_, ?_, fun hnone => absurd hnone htoken⟩ <;> rw [hconcat]
      · rw [helapsed, hs.cumulative_eq, integral_concat hx]
      · rw [helapsed, hs.total_eq, span_concat hx hordered]
      · rw [List.getLast?_concat]
        rfl

theorem accumulated_of_run (h : Run (Step entryPoint) (State.initial Address) ls s)
    (htimely : Timely ls) : Accumulated ls s := by
  refine Run.history (H := fun ks u => Timely ks → Accumulated ks u) ?_ h ?_ htimely
  · rintro ks u ⟨env, call, result⟩ w hu hl hks
    have hbefore := hu hks.of_concat
    rcases hl.cases with ⟨v, hv, hreturns⟩ | ⟨⟨fault, hfault⟩, rfl⟩
    · obtain rfl : result = .ok v := hv
      exact accumulated_step hks hbefore hreturns
    · obtain rfl : result = .error fault := hfault
      exact hbefore.concat (by cases call <;> rfl)
  · exact fun _ => ⟨rfl, rfl, rfl, fun _ => rfl⟩

/-- **The average** lies between the prices. -/
theorem Accumulated.integrity (h : Accumulated ls s) (htimely : Timely ls) :
    Integrity (observations ls) s := by
  have hordered := htimely.ordered_observations
  have hquotient : 0 < s.totalTime → s.cumulativePrice / s.totalTime < 2 ^ 127 := by
    intro hpos
    rw [h.total_eq] at hpos
    obtain ⟨y, hy, hle⟩ := exists_average_le hordered hpos
    rw [h.cumulative_eq, h.total_eq]
    exact hle.trans_lt (of_mem_observations hy).1
  have haverage : 0 < s.totalTime → getTwap s = (s.cumulativePrice / s.totalTime : ℕ) := by
    intro hpos
    rw [getTwap, if_neg hpos.ne', toI128, if_pos (hquotient hpos)]
  refine ⟨h.cumulative_eq, h.total_eq, haverage, fun hpos => ?_⟩
  rw [haverage hpos]
  rw [h.total_eq] at hpos
  obtain ⟨x, hx, hxle⟩ := exists_le_average hordered hpos
  obtain ⟨y, hy, hley⟩ := exists_average_le hordered hpos
  rw [h.cumulative_eq, h.total_eq]
  exact ⟨x, hx, y, hy, by exact_mod_cast hxle, by exact_mod_cast hley⟩

end Accumulated

/-! ## Runs -/

/-- **The average of a run** at ledgers whose times are positive and do not decrease. The
accumulators are the integral and the span of the accepted updates, the average lies between two of
their prices and is not cut to its type, and a call that is refused changes nothing. -/
theorem average_between {ls : List (Event Address)} {s : State Address}
    (h : Run (Step entryPoint) (State.initial Address) ls s) (htimely : Timely ls) :
    Integrity (observations ls) s ∧
      ∀ (l : Event Address) t, Step entryPoint s l t → (∀ r, l.result ≠ .ok r) → t = s := by
  refine ⟨(accumulated_of_run h htimely).integrity htimely, fun l t hl hrefused => ?_⟩
  rcases hl.cases with ⟨v, hv, -⟩ | ⟨-, rfl⟩
  · exact absurd hv (hrefused v)
  · rfl

def samplePrice (n : ℕ) : Call ℕ := .updatePrice (n % 1000 : ℕ) (fits_mod n)

/-- Prices of 100, 10, 40 and 7, the second refused for its time. -/
def sampleCalls : List (Env × Call ℕ) :=
  [(⟨5⟩, .initializeOracle 1 2 60), (⟨10⟩, samplePrice 100), (⟨30⟩, samplePrice 10),
   (⟨110⟩, samplePrice 40), (⟨210⟩, samplePrice 7)]

theorem average_between_sample :
    Integrity [(100, 10), (40, 110), (7, 210)]
        (execute entryPoint (State.initial ℕ) sampleCalls).2 ∧
      getTwap (execute entryPoint (State.initial ℕ) sampleCalls).2 = 70 := by
  have htimes : (execute entryPoint (State.initial ℕ) sampleCalls).1.map
      (fun l => l.host.timestamp) = [5, 10, 30, 110, 210] := by decide +kernel
  have htimely : Timely (execute entryPoint (State.initial ℕ) sampleCalls).1 := by
    refine ⟨fun l hl => ?_, by rw [htimes]; decide⟩
    have hmem := List.mem_map_of_mem (f := fun l => l.host.timestamp) hl
    rw [htimes] at hmem
    exact (by decide : ∀ n ∈ [5, 10, 30, 110, 210], 0 < n) _ hmem
  have hobservations : observations (execute entryPoint (State.initial ℕ) sampleCalls).1 =
      [(100, 10), (40, 110), (7, 210)] := by decide +kernel
  have hbetween := average_between (run_execute entryPoint (State.initial ℕ) sampleCalls) htimely
  rw [hobservations] at hbetween
  exact ⟨hbetween.1, by decide +kernel⟩

end TwapOracle
