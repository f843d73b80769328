import SkyMoonScope.Lib.TimeAverage
import SkyMoonScope.OracleAggregator.Quorum
import SkyMoonScope.Soroban.Calls

/-!
# The time weighted average

A sample is a price and the time from which it holds, up to the next sample or to the current time.
The average of a window weights every price by the seconds for which it held in the window. Samples
that had been followed by another one before the window began do not count, so that they can be
pruned: also for a later window of the same length, which begins later.

The products and their sum are saturated. So the average is between two of the prices just as long
as the least price, over the time of the average, is an `i128`.

## Main definitions

* `computeTwap`, `getTwap`: the average
* `Call`, `entryPoint`: the calls that write the samples
* `Recorded now s`: positive prices at times that do not go down

## Main results

* `computeTwap_pruneSamples`: pruning does not change an average
* `recorded_of_run`: the samples of every run
* `twap_between_iff`: the average is between two of the prices just when their least one, over the
  time, fits
-/

namespace OracleAggregator

open Soroban Machine TimeAverage

variable {Address : Type}

/-- The rounds over the samples: their prices, each times the seconds for which it held in the
window, and the seconds. -/
def twapLoop (now windowStart : ℕ) : List TwapSample → ℤ → ℤ → ℤ × ℤ
  | [], weighted, duration => (weighted, duration)
  | sample :: rest, weighted, duration =>
    let start := if sample.timestamp < windowStart then windowStart else sample.timestamp
    let stop := rest.head?.elim now TwapSample.timestamp
    if stop > start then
      let dt : ℤ := (stop - start : ℕ)
      twapLoop now windowStart rest
        (IntType.i128.saturate (weighted + IntType.i128.saturate (sample.price * dt)))
        (IntType.i128.saturate (duration + dt))
    else twapLoop now windowStart rest weighted duration

def computeTwap (samples : List TwapSample) (now window : ℕ) : ℤ :=
  match samples.getLast? with
  | none => 0
  | some last =>
    let (weighted, duration) := twapLoop now (now - window) samples 0 0
    if duration = 0 then last.price else weighted.tdiv duration

def getTwap (env : Env Address) (s : State) : ℤ :=
  computeTwap (s.twapSamples.getD []) env.timestamp
    (s.twapWindowSeconds.getD defaultTwapWindowSeconds)

/-- The times of the samples do not go down. -/
def Chronological (samples : List TwapSample) : Prop :=
  samples.Pairwise fun x y => x.timestamp ≤ y.timestamp

/-! ## Pruning -/

section Pruning

variable {samples rest : List TwapSample} {x y last : TwapSample} {now now' window windowStart : ℕ}
  {weighted duration : ℤ}

/-- The samples from the last one that began before the window. -/
def current (windowStart : ℕ) : List TwapSample → List TwapSample
  | x :: y :: rest =>
    if y.timestamp < windowStart then current windowStart (y :: rest) else x :: y :: rest
  | samples => samples

theorem current_suffix (windowStart : ℕ) (samples : List TwapSample) :
    current windowStart samples <:+ samples := by
  induction samples using current.induct windowStart with
  | case1 x y rest hlt ih =>
    rw [current, if_pos hlt]
    exact ih.trans (List.suffix_cons x _)
  | case2 x y rest hle =>
    have heq : current windowStart (x :: y :: rest) = x :: y :: rest := by
      rw [current, if_neg hle]
    exact ⟨[], heq⟩
  | case3 samples hshort =>
    unfold current
    split
    · exact absurd rfl (hshort _ _ _)
    · exact List.suffix_rfl

theorem getLast?_current : (current windowStart samples).getLast? = samples.getLast? := by
  induction samples using current.induct windowStart with
  | case1 x y rest hlt ih => rw [current, if_pos hlt, ih, List.getLast?_cons_cons]
  | case2 x y rest hle => rw [current, if_neg hle]
  | case3 samples hshort =>
    unfold current
    split
    · exact absurd rfl (hshort _ _ _)
    · rfl

/-- A round of the loop that prunes. -/
def pruneRound (windowStart : ℕ) (kept : List TwapSample × Option TwapSample)
    (sample : TwapSample) : List TwapSample × Option TwapSample :=
  if sample.timestamp < windowStart then (kept.1, some sample)
  else (kept.1 ++ kept.2.toList ++ [sample], none)

/-- The rounds keep all samples of the window. -/
theorem foldl_pruneRound_of_le (h : ∀ x ∈ rest, windowStart ≤ x.timestamp) :
    rest.foldl (pruneRound windowStart) (samples, none) = (samples ++ rest, none) := by
  induction rest generalizing samples with
  | nil => rw [List.foldl_nil, List.append_nil]
  | cons y rest ih =>
    have hy := h y List.mem_cons_self
    rw [List.foldl_cons, pruneRound, if_neg (not_lt.mpr hy),
      ih fun x hx => h x (List.mem_cons_of_mem y hx), Option.toList_none, List.append_nil,
      List.append_assoc, List.singleton_append]

/-- **The rounds after a sample from before the window** keep what is current of them. -/
theorem foldl_pruneRound (hsamples : Chronological (x :: rest)) :
    let kept := rest.foldl (pruneRound windowStart) ([], some x)
    (if kept.1.isEmpty then kept.1 ++ kept.2.toList else kept.1) =
      current windowStart (x :: rest) := by
  induction rest generalizing x with
  | nil => rfl
  | cons y rest ih =>
    have hrest : Chronological (y :: rest) := (List.pairwise_cons.mp hsamples).2
    by_cases hlt : y.timestamp < windowStart
    · -- the sample `x` had been followed before the window began
      rw [List.foldl_cons, pruneRound, if_pos hlt, current, if_pos hlt]
      exact ih hrest
    · -- the sample `y` is in the window, and so are all after it; `x` is put back before them
      have hafter : ∀ z ∈ rest, windowStart ≤ z.timestamp := fun z hz =>
        (not_lt.mp hlt).trans ((List.pairwise_cons.mp hrest).1 z hz)
      rw [List.foldl_cons, pruneRound, if_neg hlt, current, if_neg hlt,
        foldl_pruneRound_of_le hafter]
      rfl

/-- **What pruning keeps** of samples in order. -/
theorem pruneSamples_eq (hsamples : Chronological samples) :
    pruneSamples samples now window = current (now - window) samples := by
  show (let kept := samples.foldl (pruneRound (now - window)) ([], none)
    if kept.1.isEmpty then kept.1 ++ kept.2.toList else kept.1) = _
  cases samples with
  | nil => rfl
  | cons x rest =>
    by_cases hlt : x.timestamp < now - window
    · rw [List.foldl_cons, pruneRound, if_pos hlt]
      exact foldl_pruneRound hsamples
    · -- all samples are in the window
      have hall : ∀ z ∈ x :: rest, now - window ≤ z.timestamp := fun z hz => by
        rcases List.mem_cons.mp hz with rfl | hz
        · exact not_lt.mp hlt
        · exact (not_lt.mp hlt).trans ((List.pairwise_cons.mp hsamples).1 z hz)
      rw [foldl_pruneRound_of_le hall]
      cases rest with
      | nil => rfl
      | cons y rest =>
        have hy := hall y (List.mem_cons_of_mem x List.mem_cons_self)
        rw [current, if_neg (not_lt.mpr hy)]
        rfl

/-- A sample that had been followed before the window began adds nothing. -/
theorem twapLoop_cons_cons (h : y.timestamp ≤ windowStart) :
    twapLoop now windowStart (x :: y :: rest) weighted duration =
      twapLoop now windowStart (y :: rest) weighted duration := by
  rw [twapLoop]
  dsimp only [List.head?_cons, Option.elim_some]
  -- the next sample takes over before the window begins
  refine if_neg ?_
  split <;> omega

theorem twapLoop_current {start : ℕ} (h : start ≤ windowStart) :
    twapLoop now windowStart (current start samples) weighted duration =
      twapLoop now windowStart samples weighted duration := by
  induction samples using current.induct start with
  | case1 x y rest hlt ih => rw [current, if_pos hlt, ih, twapLoop_cons_cons (hlt.le.trans h)]
  | case2 x y rest hle => rw [current, if_neg hle]
  | case3 samples hshort =>
    unfold current
    split
    · exact absurd rfl (hshort _ _ _)
    · rfl

/-- **Pruning does not change an average**, now or later. -/
theorem computeTwap_pruneSamples (hsamples : Chronological samples) (hnow : now ≤ now') :
    computeTwap (pruneSamples samples now window) now' window =
      computeTwap samples now' window := by
  have hstart : now - window ≤ now' - window := Nat.sub_le_sub_right hnow window
  rw [pruneSamples_eq hsamples]
  unfold computeTwap
  rw [getLast?_current, twapLoop_current hstart]

theorem computeTwap_pruneSamples_sample :
    let samples : List TwapSample := [⟨7, 0⟩, ⟨100, 10⟩, ⟨200, 50⟩]
    (pruneSamples samples 60 30).length = 2 ∧
      computeTwap (pruneSamples samples 60 30) 70 30 = computeTwap samples 70 30 :=
  ⟨by decide, computeTwap_pruneSamples (by unfold Chronological; decide) (by decide)⟩

end Pruning

/-! ## The bound -/

/-- Positive prices, at times that do not go down and are not after the current one. -/
structure RecordedSamples (now : ℕ) (samples : List TwapSample) : Prop where
  chronological : Chronological samples
  timestamp_le : ∀ x ∈ samples, x.timestamp ≤ now
  positive : ∀ x ∈ samples, 0 < x.price
  fits : ∀ x ∈ samples, IntType.i128.Fits x.price

/-- A sample as an observation of a window. -/
def observe (windowStart : ℕ) (x : TwapSample) : ℕ × ℕ :=
  (x.price.toNat, max x.timestamp windowStart)

/-- The observations of a window up to the current time. What is observed then does not count. -/
def observations (windowStart now price : ℕ) (samples : List TwapSample) : List (ℕ × ℕ) :=
  samples.map (observe windowStart) ++ [(price, now)]

/-- The seconds of the window for which there are samples. -/
def averagedSeconds (samples : List TwapSample) (now window : ℕ) : ℕ :=
  now - samples.head?.elim now fun x => max x.timestamp (now - window)

section Bound

variable {samples rest : List TwapSample} {x y last : TwapSample} {now window windowStart : ℕ}
  {sum seconds price dt : ℕ}

theorem RecordedSamples.tail (h : RecordedSamples now (x :: rest)) : RecordedSamples now rest where
  chronological := (List.pairwise_cons.mp h.chronological).2
  timestamp_le := fun y hy => h.timestamp_le y (List.mem_cons_of_mem x hy)
  positive := fun y hy => h.positive y (List.mem_cons_of_mem x hy)
  fits := fun y hy => h.fits y (List.mem_cons_of_mem x hy)

/-- The sum of the products, as far as it is an `i128`. -/
def saturated (sum : ℕ) : ℤ := min sum (2 ^ 127 - 1)

/-- A round adds to the sum, which was and is saturated. -/
theorem saturated_add : IntType.i128.saturate
    (saturated sum + IntType.i128.saturate ((price : ℤ) * dt)) = saturated (sum + price * dt) := by
  have hproduct : (0 : ℤ) ≤ (price : ℤ) * dt := by positivity
  unfold saturated IntType.saturate
  push_cast
  generalize (price : ℤ) * dt = product at hproduct ⊢
  simp only [IntType.i128]
  omega

/-- **A round** adds the price times the seconds from the sample to the next one, both moved into
the window. Where these are none, it adds nothing. -/
theorem twapLoop_cons (hsamples : RecordedSamples now (x :: rest)) (hseconds : seconds < 2 ^ 64)
    (hnow : now < 2 ^ 64) :
    twapLoop now windowStart (x :: rest) (saturated sum) seconds =
      let dt := max (rest.head?.elim now TwapSample.timestamp) windowStart -
        max x.timestamp windowStart
      twapLoop now windowStart rest (saturated (sum + x.price.toNat * dt))
        (seconds + dt : ℕ) := by
  have hx := hsamples.timestamp_le x List.mem_cons_self
  -- a sample holds until the next one, which is not after the current time
  have hstop : x.timestamp ≤ rest.head?.elim now TwapSample.timestamp ∧
      rest.head?.elim now TwapSample.timestamp ≤ now := by
    cases rest with
    | nil => exact ⟨hx, le_rfl⟩
    | cons y rest =>
      exact ⟨(List.pairwise_cons.mp hsamples.chronological).1 y List.mem_cons_self,
        hsamples.timestamp_le y (List.mem_cons_of_mem x List.mem_cons_self)⟩
  have hprice := Int.toNat_of_nonneg (hsamples.positive x List.mem_cons_self).le
  have hstart : (if x.timestamp < windowStart then windowStart else x.timestamp) =
      max x.timestamp windowStart := by
    split <;> omega
  rw [twapLoop, hstart]
  dsimp only
  generalize rest.head?.elim now TwapSample.timestamp = stop at hstop ⊢
  split
  next hlt =>
    rw [max_eq_left (by omega : windowStart ≤ stop)]
    -- the seconds are far from the bounds of an `i128`
    have hduration : IntType.i128.saturate (seconds + (stop - max x.timestamp windowStart : ℕ)) =
        (seconds + (stop - max x.timestamp windowStart) : ℕ) := by
      unfold IntType.saturate
      simp only [IntType.i128]
      omega
    rw [hduration, ← saturated_add, hprice]
  next hle =>
    -- the sample was followed before the window, or at once
    rw [show max stop windowStart - max x.timestamp windowStart = 0 by omega, Nat.mul_zero,
      Nat.add_zero, Nat.add_zero]

/-- **The loop** computes the integral of the observations, saturated, and their time. -/
theorem twapLoop_eq (hwindow : windowStart ≤ now) (hsamples : RecordedSamples now (x :: rest))
    (hnow : now < 2 ^ 64) (hseconds : seconds + (now - max x.timestamp windowStart) < 2 ^ 64) :
    twapLoop now windowStart (x :: rest) (saturated sum) seconds =
      (saturated (sum + integral (observations windowStart now price (x :: rest))),
        ((seconds + (now - max x.timestamp windowStart) : ℕ) : ℤ)) := by
  induction rest generalizing x sum seconds with
  | nil =>
    rw [twapLoop_cons hsamples (by omega) hnow]
    dsimp only [List.head?_nil, Option.elim_none]
    rw [max_eq_left hwindow]
    rfl
  | cons y rest ih =>
    have hxy : x.timestamp ≤ y.timestamp :=
      (List.pairwise_cons.mp hsamples.chronological).1 y List.mem_cons_self
    have hy := hsamples.timestamp_le y (List.mem_cons_of_mem x List.mem_cons_self)
    rw [twapLoop_cons hsamples (by omega) hnow]
    dsimp only [List.head?_cons, Option.elim_some]
    rw [ih hsamples.tail (by omega)]
    -- the seconds of the round and of those after it are the seconds from `x` on
    have htime : max y.timestamp windowStart - max x.timestamp windowStart +
        (now - max y.timestamp windowStart) = now - max x.timestamp windowStart := by omega
    rw [Nat.add_assoc, Nat.add_assoc, htime]
    rfl

/-- The observations of a window are in order. -/
theorem ordered_observations (hwindow : windowStart ≤ now) (h : RecordedSamples now samples) :
    Ordered (observations windowStart now price samples) := by
  refine List.pairwise_append.mpr ⟨?_, List.pairwise_singleton _ _, ?_⟩
  · rw [List.pairwise_map]
    exact h.chronological.imp fun hxy => max_le_max_right _ hxy
  · rintro o ho o' ho'
    obtain ⟨z, hz, rfl⟩ := List.mem_map.mp ho
    rw [List.mem_singleton.mp ho']
    exact max_le (h.timestamp_le z hz) hwindow

theorem span_observations : span (observations windowStart now price (x :: rest)) =
    now - max x.timestamp windowStart := by
  unfold span observations
  rw [List.getLast?_concat]
  rfl

/-- **The average of recorded samples** is the last price, or the saturated integral divided. -/
theorem computeTwap_eq (hsamples : RecordedSamples now (x :: rest)) (hnow : now < 2 ^ 64) :
    let xs := observations (now - window) now x.price.toNat (x :: rest)
    computeTwap (x :: rest) now window =
      if span xs = 0 then ((x :: rest).getLast (List.cons_ne_nil x rest)).price
      else saturated (integral xs) / span xs := by
  intro xs
  have hloop := @twapLoop_eq rest x now (now - window) 0 0 x.price.toNat (Nat.sub_le now window)
    hsamples hnow (by omega)
  unfold computeTwap
  rw [List.getLast?_eq_some_getLast (List.cons_ne_nil x rest)]
  dsimp only
  rw [show twapLoop now (now - window) (x :: rest) 0 0 = _ from hloop, Nat.zero_add, Nat.zero_add,
    ← @span_observations rest x now (now - window) x.price.toNat]
  dsimp only
  by_cases hspan : span xs = 0
  · rw [if_pos (by exact_mod_cast hspan), if_pos hspan]
  · rw [if_neg (by exact_mod_cast hspan), if_neg hspan]
    exact Int.tdiv_eq_ediv_of_nonneg (le_min (Int.natCast_nonneg _) (by decide))

/-- The average is between two of the prices. -/
def Between (samples : List TwapSample) (twap : ℤ) : Prop :=
  (∃ x ∈ samples, x.price ≤ twap) ∧ ∃ y ∈ samples, twap ≤ y.price

/-- What is observed are the prices of the samples. -/
theorem exists_price_of_mem (hsamples : RecordedSamples now (x :: rest)) {o : ℕ × ℕ}
    (ho : o ∈ observations windowStart now x.price.toNat (x :: rest)) :
    ∃ y ∈ x :: rest, (o.1 : ℤ) = y.price := by
  rcases List.mem_append.mp ho with ho | ho
  · obtain ⟨y, hy, rfl⟩ := List.mem_map.mp ho
    exact ⟨y, hy, Int.toNat_of_nonneg (hsamples.positive y hy).le⟩
  · rw [List.mem_singleton.mp ho]
    exact ⟨x, List.mem_cons_self, Int.toNat_of_nonneg (hsamples.positive x List.mem_cons_self).le⟩

/-- **The average of recorded samples** is between two of the prices just when one of the prices,
over the time, is an `i128`. -/
theorem computeTwap_between_iff (hsamples : RecordedSamples now samples) (hnow : now < 2 ^ 64)
    (hne : samples ≠ []) : Between samples (computeTwap samples now window) ↔
      ∃ x ∈ samples, x.price * averagedSeconds samples now window ≤ 2 ^ 127 - 1 := by
  obtain ⟨x, rest, rfl⟩ := List.exists_cons_of_ne_nil hne
  have hcompute := @computeTwap_eq rest x now window hsamples hnow
  have hordered : Ordered (observations (now - window) now x.price.toNat (x :: rest)) :=
    ordered_observations (Nat.sub_le now window) hsamples
  have hmem := @exists_price_of_mem _ _ _ (now - window) hsamples
  have hspan : averagedSeconds (x :: rest) now window =
      span (observations (now - window) now x.price.toNat (x :: rest)) := span_observations.symm
  rw [hspan]
  dsimp only at hcompute
  rw [hcompute]
  generalize observations (now - window) now x.price.toNat (x :: rest) = xs at hordered hmem ⊢
  by_cases hzero : span xs = 0
  · -- no time has passed, and the average is the last price
    have hlast := List.getLast_mem (List.cons_ne_nil x rest)
    rw [if_pos hzero, hzero]
    exact iff_of_true ⟨⟨_, hlast, le_rfl⟩, _, hlast, le_rfl⟩
      ⟨x, List.mem_cons_self, by rw [Nat.cast_zero, mul_zero]; decide⟩
  · rw [if_neg hzero]
    have hpos : 0 < span xs := Nat.pos_of_ne_zero hzero
    have hpos' : (0 : ℤ) < span xs := by exact_mod_cast hpos
    constructor
    · -- a price below the average, over the time, is below the saturated integral
      rintro ⟨⟨y, hy, hle⟩, -⟩
      refine ⟨y, hy, ?_⟩
      exact ((Int.le_ediv_iff_mul_le hpos').mp hle).trans (min_le_right _ _)
    · -- without saturation the average is between two of the prices
      rintro ⟨y, hy, hfits⟩
      obtain ⟨low, hlow, hle⟩ := exists_le_average hordered hpos
      obtain ⟨high, hhigh, hge⟩ := exists_average_le hordered hpos
      obtain ⟨z, hz, hlow⟩ := hmem hlow
      obtain ⟨z', hz', hhigh⟩ := hmem hhigh
      refine ⟨?_, z', hz', ?_⟩
      · -- either the integral fits, or it is cut to what is enough for `y`
        rcases le_total (integral xs : ℤ) (2 ^ 127 - 1) with hintegral | hintegral
        · refine ⟨z, hz, ?_⟩
          rw [saturated, min_eq_left hintegral, ← hlow]
          exact_mod_cast hle
        · refine ⟨y, hy, ?_⟩
          rw [saturated, min_eq_right hintegral]
          exact (Int.le_ediv_iff_mul_le hpos').mpr hfits
      · calc saturated (integral xs) / (span xs : ℤ)
            ≤ (integral xs : ℤ) / span xs := Int.ediv_le_ediv hpos' (min_le_left _ _)
          _ ≤ z'.price := by
            rw [← hhigh]
            exact_mod_cast hge

end Bound

/-! ## Runs -/

inductive Call (Address : Type)
  | initializeAggregator (windowSeconds : ℕ)
  | aggregatePrice (sources : List Address) (maxAgeSeconds : ℕ)

def State.initial : State := ⟨none, none⟩

/-- The body of the called entry point, with zero for the result of one that returns none. -/
def entryPoint (env : Env Address) : Call Address → Body ℤ
  | .initializeAggregator windowSeconds => (fun _ => 0) <$> initializeAggregator windowSeconds
  | .aggregatePrice sources maxAgeSeconds => aggregatePrice env sources maxAgeSeconds

abbrev Event (Address : Type) := Soroban.Event (Env Address) (Call Address) Error ℤ

/-- The times of the calls do not go down, and are not after the current one. -/
def Clocked (ls : List (Event Address)) (now : ℕ) : Prop :=
  ((ls.map fun l => l.host.timestamp) ++ [now]).IsChain (· ≤ ·)

section Runs

variable {env : Env Address} {ls : List (Event Address)} {s t : State} {r : ℤ} {now later : ℕ}
  {sources : List Address} {maxAgeSeconds : ℕ} {samples : List TwapSample}

theorem RecordedSamples.mono (h : RecordedSamples now samples) (hle : now ≤ later) :
    RecordedSamples later samples :=
  ⟨h.chronological, fun x hx => (h.timestamp_le x hx).trans hle, h.positive, h.fits⟩

theorem RecordedSamples.suffix {kept : List TwapSample} (h : RecordedSamples now samples)
    (hkept : kept <:+ samples) : RecordedSamples now kept :=
  ⟨h.chronological.sublist hkept.sublist, fun x hx => h.timestamp_le x (hkept.mem hx),
    fun x hx => h.positive x (hkept.mem hx), fun x hx => h.fits x (hkept.mem hx)⟩

/-- **A sample at the current time** is recorded, and others are pruned. -/
theorem recorded_recordSample {v : Unit}
    (hs : RecordedSamples env.timestamp (s.twapSamples.getD [])) (hpositive : 0 < r)
    (hfits : IntType.i128.Fits r) (h : Returns (recordSample env r) s v t) :
    RecordedSamples env.timestamp (t.twapSamples.getD []) := by
  rw [recordSample, returns_get_bind, returns_set] at h
  obtain rfl := h
  have hall : RecordedSamples env.timestamp (s.twapSamples.getD [] ++ [⟨r, env.timestamp⟩]) := by
    refine ⟨List.pairwise_append.mpr ⟨hs.chronological, List.pairwise_singleton _ _, ?_⟩, ?_, ?_,
      ?_⟩
    · intro x hx y hy
      rw [List.mem_singleton.mp hy]
      exact hs.timestamp_le x hx
    all_goals
      intro x hx
      rcases List.mem_append.mp hx with hx | hx
    · exact hs.timestamp_le x hx
    · rw [List.mem_singleton.mp hx]
    · exact hs.positive x hx
    · rwa [List.mem_singleton.mp hx]
    · exact hs.fits x hx
    · rwa [List.mem_singleton.mp hx]
  dsimp only [Option.getD_some]
  -- pruning drops samples from the front
  rw [pruneSamples_eq hall.chronological]
  exact hall.suffix (current_suffix _ _)

/-- A call that returns a price records it. -/
theorem recordSample_of_aggregatePrice
    (h : Returns (aggregatePrice env sources maxAgeSeconds) s r t) :
    ∃ v, Returns (recordSample env r) s v t := by
  -- the medians and the filter read nothing and leave the storage as it is
  simp only [aggregatePrice, returns_require_bind] at h
  obtain ⟨-, -, -, h⟩ := h
  obtain ⟨center, u, hcenter, h⟩ := returns_bind.mp h
  obtain rfl := readOnly_median _ _ _ _ hcenter
  obtain ⟨kept, u, hkept, h⟩ := returns_bind.mp h
  obtain rfl := (returns_filterOutliers hkept).2
  rw [returns_require_bind] at h
  obtain ⟨snapshot, u, hsnapshot, h⟩ := returns_bind.mp h.2
  obtain rfl := readOnly_median _ _ _ _ hsnapshot
  obtain ⟨v, u, hrecord, hpure⟩ := returns_bind.mp h
  obtain ⟨rfl, rfl⟩ := returns_pure.mp hpure
  exact ⟨v, hrecord⟩

theorem recorded_step {call : Call Address}
    (hs : RecordedSamples env.timestamp (s.twapSamples.getD []))
    (h : Returns (entryPoint env call) s r t) :
    RecordedSamples env.timestamp (t.twapSamples.getD []) := by
  cases call with
  | initializeAggregator windowSeconds =>
    obtain ⟨_, h, -⟩ := returns_map.mp h
    rw [initializeAggregator, returns_require_bind, returns_set] at h
    obtain ⟨-, rfl⟩ := h
    exact ⟨List.Pairwise.nil, nofun, nofun, nofun⟩
  | aggregatePrice sources maxAgeSeconds =>
    obtain ⟨v, hrecord⟩ := recordSample_of_aggregatePrice h
    obtain ⟨-, center, kept, -, hkept, -, hmedian⟩ := returns_aggregatePrice h
    -- the price is between two of those that the sources gave
    obtain ⟨⟨low, hlow, hle⟩, high, hhigh, hge⟩ := kept_between (kept_sublist hkept) hmedian
    have hpositive : 0 < r := (of_mem_quotes hlow).1.trans_le hle
    exact recorded_recordSample hs hpositive
      ⟨le_trans (by decide) hpositive.le, hge.trans (of_mem_quotes hhigh).2.2⟩ hrecord

/-- **The samples of every run** whose clock does not go back. -/
theorem recorded_of_run (h : Run (Step entryPoint) State.initial ls s) (hclock : Clocked ls now) :
    RecordedSamples now (s.twapSamples.getD []) := by
  refine Run.history (H := fun ks u => ∀ {now}, Clocked ks now →
    RecordedSamples now (u.twapSamples.getD [])) ?_ h ?_ hclock
  · rintro ks u ⟨env, call, result⟩ w hu hl now hks
    rw [Clocked, List.map_append, List.map_singleton, List.append_assoc] at hks
    have hbefore : Clocked ks env.timestamp := by
      rw [← List.singleton_append, ← List.append_assoc] at hks
      exact hks.left_of_append
    -- the clock of the run goes on to the current time
    have hle : env.timestamp ≤ now := by
      have hlast := hks.right_of_append
      exact (List.isChain_cons_cons.mp hlast).1
    rcases hl.cases with ⟨v, -, hreturns⟩ | ⟨-, rfl⟩
    · exact (recorded_step (hu hbefore) hreturns).mono hle
    · exact (hu hbefore).mono hle
  · exact fun _ => ⟨List.Pairwise.nil, nofun, nofun, nofun⟩

/-- **The average in every run** whose clock does not go back is between two of the sampled prices
just when one of them, over the time of the average, is an `i128`. -/
theorem twap_between_iff (h : Run (Step entryPoint) State.initial ls s)
    (hclock : Clocked ls env.timestamp) (hnow : env.timestamp < 2 ^ 64)
    (hne : s.twapSamples.getD [] ≠ []) :
    Between (s.twapSamples.getD []) (getTwap env s) ↔ ∃ x ∈ s.twapSamples.getD [],
      x.price * averagedSeconds (s.twapSamples.getD []) env.timestamp
        (s.twapWindowSeconds.getD defaultTwapWindowSeconds) ≤ 2 ^ 127 - 1 :=
  computeTwap_between_iff (recorded_of_run h hclock) hnow hne

end Runs

/-! ## Two prices -/

deriving instance DecidableEq for TwapSample

/-- Sources that all answer with one price at the current time. -/
def feedAt (price : ℤ) (fits : IntType.i128.Fits price) (timestamp : ℕ) : Env ℕ where
  timestamp
  latestPrice := fun _ _ => some ⟨price, timestamp, fits⟩

/-- A call at the time 1000, for which three sources answer with a price. -/
def oneSample (price : ℤ) (fits : IntType.i128.Fits price) : List (Env ℕ × Call ℕ) :=
  [(feedAt price fits 1000, .aggregatePrice [1, 2, 3] 60)]

theorem fits_greatest : IntType.i128.Fits (2 ^ 127 - 1) := by decide

/-- What the call leaves. -/
theorem oneSample_result :
    let s := (execute entryPoint State.initial (oneSample 5 (by decide))).2
    let t := (execute entryPoint State.initial (oneSample (2 ^ 127 - 1) fits_greatest)).2
    s.twapSamples.getD [] = [⟨5, 1000⟩] ∧ t.twapSamples.getD [] = [⟨2 ^ 127 - 1, 1000⟩] := by
  decide +kernel

theorem clocked_oneSample {price : ℤ} {fits : IntType.i128.Fits price} {now : ℕ} (h : 1000 ≤ now) :
    Clocked (execute entryPoint State.initial (oneSample price fits)).1 now := by
  have htimes : (execute entryPoint State.initial (oneSample price fits)).1.map
      (fun l => l.host.timestamp) = [1000] := by
    unfold oneSample execute
    cases invoke (entryPoint (feedAt price fits 1000) (.aggregatePrice [1, 2, 3] 60)) State.initial
    rfl
  rw [Clocked, htimes]
  exact .cons_cons h (.singleton now)

theorem twap_between_sample :
    let s := (execute entryPoint State.initial (oneSample 5 (by decide))).2
    let env := feedAt 5 (by decide) 1030
    getTwap env s = 5 ∧ (Between (s.twapSamples.getD []) (getTwap env s) ↔
      ∃ x ∈ s.twapSamples.getD [], x.price * averagedSeconds (s.twapSamples.getD []) 1030
        (s.twapWindowSeconds.getD defaultTwapWindowSeconds) ≤ 2 ^ 127 - 1) :=
  ⟨by decide +kernel, twap_between_iff (run_execute entryPoint _ _)
    (clocked_oneSample (by decide : 1000 ≤ 1030)) (by decide)
    (oneSample_result.1 ▸ List.cons_ne_nil _ _)⟩

/-- **An average below all prices.** Two seconds after a sample of the greatest price, the average
is half of it. -/
theorem twap_below_prices :
    ¬∀ (ls : List (Event ℕ)) (s : State) (env : Env ℕ), Run (Step entryPoint) State.initial ls s →
      Clocked ls env.timestamp → env.timestamp < 2 ^ 64 → s.twapSamples.getD [] ≠ [] →
        Between (s.twapSamples.getD []) (getTwap env s) := by
  intro hall
  have hsamples := oneSample_result.2
  obtain ⟨⟨x, hx, hle⟩, -⟩ := hall _ _ (feedAt (2 ^ 127 - 1) fits_greatest 1002)
    (run_execute entryPoint _ (oneSample (2 ^ 127 - 1) fits_greatest))
    (clocked_oneSample (by decide)) (by decide) (hsamples ▸ List.cons_ne_nil _ _)
  -- the greatest price is the only one
  rw [hsamples, List.mem_singleton] at hx
  subst hx
  exact absurd hle (by decide +kernel)

end OracleAggregator
