import Mathlib.Algebra.BigOperators.Group.List.Basic
import Mathlib.Data.Rat.Defs
import Mathlib.Tactic.Linarith
import SkyMoonScope.Lib.SortedLists

/-!
# The trend of the fees

The store keeps one sample for a ledger and returns the samples with the greatest ledger sequence
first. The analytics takes the base fees in this order and compares the average of five from one
end with that of five from the other one. It calls those at the front of the list the older ones.
But the front has the most recent ledgers, so that the two averages are the wrong way round and the
direction is right only as long as no trend is there.

The averages are exact rationals here, where the analytics uses floating point numbers.

## Main definitions

* `FeeStore`, `getRecentSamples`: the samples, one for a ledger, and the most recent ones
* `detectTrend`, `predictTrend`: the direction that is reported
* `TrendRight samples t`: `t` is the direction in which the fees of the samples go

## Main results

* `mostRecentFirst_iff_returned`: the lists that a store returns
* `trendRight_iff`: the direction is right exactly when there is no trend
-/

namespace Core.FeeAnalytics

open Ranks

/-- A sample of the fees of a ledger. -/
structure LedgerFeeSample where
  ledgerSequence : ℤ
  collectedAt : ℤ
  baseReserve : ℤ
  baseFee : ℤ
  maxFee : ℤ
  feeCharged : ℤ
  transactionCount : ℤ
  ledgerCloseTime : ℤ

/-- The table of samples, with the ledger sequence as its primary key. -/
structure FeeStore where
  rows : List LedgerFeeSample
  distinct : rows.Pairwise fun a b => a.ledgerSequence ≠ b.ledgerSequence

namespace FeeStore

/-- Insert a sample, in place of an earlier one of its ledger. -/
def upsertLedgerSample (store : FeeStore) (sample : LedgerFeeSample) : FeeStore where
  rows := sample :: store.rows.filter fun row => row.ledgerSequence ≠ sample.ledgerSequence
  distinct := by
    refine List.pairwise_cons.mpr ⟨fun row hrow => ?_, store.distinct.filter _⟩
    have hne := (List.mem_filter.mp hrow).2
    exact fun h => of_decide_eq_true hne h.symm

/-- Insert samples, each only if its ledger has none. -/
def batchInsertSamples (store : FeeStore) (samples : List LedgerFeeSample) : FeeStore :=
  samples.foldl (fun store sample =>
    if store.rows.any fun row => row.ledgerSequence = sample.ledgerSequence then store
    else store.upsertLedgerSample sample) store

/-- `ORDER BY ledger_sequence DESC LIMIT ?1`. A negative limit is none. -/
def getRecentSamples (store : FeeStore) (limit : ℤ) : List LedgerFeeSample :=
  let sorted := store.rows.mergeSort fun a b => b.ledgerSequence ≤ a.ledgerSequence
  if limit < 0 then sorted else sorted.take limit.toNat

end FeeStore

/-- Direction of a fee trend. -/
inductive TrendDirection where
  | upward
  | downward
  | stable
deriving DecidableEq

def calculateMean (data : List ℤ) : ℚ := if data.isEmpty then 0 else data.sum / data.length

/-- Compare the recent with the older averages. -/
def detectTrend (data : List ℤ) : TrendDirection :=
  if data.length < 10 then .stable
  else
    let recentWindow := min 5 (data.length / 2)
    let olderWindow := min 5 (data.length / 2)
    let older := data.take olderWindow
    let recent := (data.drop (data.length - recentWindow)).take olderWindow
    let recentAvg := calculateMean recent
    let olderAvg := calculateMean older
    let threshold := olderAvg * (1 / 20)
    if recentAvg > olderAvg + threshold then .upward
    else if recentAvg < olderAvg - threshold then .downward
    else .stable

/-- The direction in a prediction. -/
def predictTrend (samples : List LedgerFeeSample) : TrendDirection :=
  if samples.isEmpty then .stable else detectTrend (samples.map LedgerFeeSample.baseFee)

/-- Without samples the trend is stable, as it is for any fewer than ten. -/
theorem predictTrend_eq (samples : List LedgerFeeSample) :
    predictTrend samples = detectTrend (samples.map LedgerFeeSample.baseFee) := by
  cases samples with
  | nil => simp [predictTrend, detectTrend]
  | cons s samples => simp [predictTrend]

/-- The order in which the store returns samples. -/
def MostRecentFirst (samples : List LedgerFeeSample) : Prop :=
  samples.Pairwise fun a b => b.ledgerSequence < a.ledgerSequence

theorem FeeStore.getRecentSamples_mostRecentFirst (store : FeeStore) (limit : ℤ) :
    MostRecentFirst (store.getRecentSamples limit) := by
  set sorted := store.rows.mergeSort fun a b => b.ledgerSequence ≤ a.ledgerSequence with hsorted
  have hsort : sorted.Pairwise fun a b => decide (b.ledgerSequence ≤ a.ledgerSequence) = true :=
    List.pairwise_mergeSort (by grind) (by grind) store.rows
  have hle : sorted.Pairwise fun a b => b.ledgerSequence ≤ a.ledgerSequence :=
    hsort.imp of_decide_eq_true
  have hne : sorted.Pairwise fun a b => a.ledgerSequence ≠ b.ledgerSequence :=
    (List.Perm.pairwise_iff (fun h => h.symm) (List.mergeSort_perm _ _)).mpr store.distinct
  have hlt : MostRecentFirst sorted := hle.imp₂ (fun _ _ h hn => lt_of_le_of_ne h hn.symm) hne
  rw [getRecentSamples, ← hsorted]
  split_ifs
  · exact hlt
  · exact hlt.sublist (List.take_sublist _ _)

/-- A store that has just the samples of a list returns them all in this order. -/
theorem mostRecentFirst_iff_returned {samples : List LedgerFeeSample} :
    MostRecentFirst samples ↔
      ∃ (store : FeeStore) (limit : ℤ), store.getRecentSamples limit = samples := by
  constructor
  · intro h
    refine ⟨⟨samples, h.imp fun hlt => hlt.ne'⟩, -1, ?_⟩
    have hle : samples.Pairwise fun a b => decide (b.ledgerSequence ≤ a.ledgerSequence) = true :=
      h.imp fun hlt => decide_eq_true hlt.le
    simp [FeeStore.getRecentSamples, List.mergeSort_of_pairwise hle]
  · rintro ⟨store, limit, rfl⟩
    exact store.getRecentSamples_mostRecentFirst limit

/-! ## The direction in which the fees go -/

/-- The five samples with the greatest ledger sequences. -/
def fiveMostRecent (samples : List LedgerFeeSample) : List LedgerFeeSample :=
  firsts (fun a b => b.ledgerSequence < a.ledgerSequence) 5 samples

/-- The five samples with the least ledger sequences. -/
def fiveOldest (samples : List LedgerFeeSample) : List LedgerFeeSample :=
  firsts (fun a b => a.ledgerSequence < b.ledgerSequence) 5 samples

/-- The average base fee. -/
def average (samples : List LedgerFeeSample) : ℚ :=
  (samples.map LedgerFeeSample.baseFee).sum / samples.length

/-- The fees go upward just when the recent average is more than a twentieth above the older one,
and downward just when it is more than a twentieth below it. -/
def TrendRight (samples : List LedgerFeeSample) (trend : TrendDirection) : Prop :=
  let recent := average (fiveMostRecent samples)
  let older := average (fiveOldest samples)
  (trend = .upward ↔ older + older / 20 < recent) ∧
    (trend = .downward ↔ recent < older - older / 20)

variable {samples : List LedgerFeeSample}

theorem fiveMostRecent_eq_take (h : MostRecentFirst samples) :
    fiveMostRecent samples = samples.take 5 := by
  have : Std.Asymm fun a b : LedgerFeeSample => b.ledgerSequence < a.ledgerSequence :=
    ⟨fun _ _ hab => hab.not_gt⟩
  exact firsts_eq_take h 5

theorem fiveOldest_eq_drop (h : MostRecentFirst samples) :
    fiveOldest samples = samples.drop (samples.length - 5) := by
  have : Std.Asymm fun a b : LedgerFeeSample => b.ledgerSequence < a.ledgerSequence :=
    ⟨fun _ _ hab => hab.not_gt⟩
  exact firsts_swap_eq_drop h 5

theorem calculateMean_map (samples : List LedgerFeeSample) :
    calculateMean (samples.map LedgerFeeSample.baseFee) = average samples := by
  cases samples with
  | nil => simp [calculateMean, average]
  | cons s samples => simp [calculateMean, average]

/-- The trend is that of going back in time: the average of the oldest is compared with the one of
the most recent. -/
theorem detectTrend_eq (h : MostRecentFirst samples) (hlength : 10 ≤ samples.length) :
    detectTrend (samples.map LedgerFeeSample.baseFee) =
      let recent := average (fiveMostRecent samples)
      let older := average (fiveOldest samples)
      if recent + recent / 20 < older then .upward
      else if older < recent - recent / 20 then .downward
      else .stable := by
  have hwindow : min 5 (samples.length / 2) = 5 := by omega
  have hlast : (fiveOldest samples).take 5 = fiveOldest samples := by
    rw [List.take_of_length_le]
    rw [fiveOldest_eq_drop h, List.length_drop]
    omega
  simp only [detectTrend, List.length_map, hlength.not_gt, if_false, hwindow, ← List.map_take,
    ← List.map_drop, calculateMean_map, ← fiveMostRecent_eq_take h, ← fiveOldest_eq_drop h, hlast,
    mul_one_div, gt_iff_lt]

/-- The direction is right exactly when neither average is more than a twentieth above the other
one, and then it is stable. -/
theorem trendRight_iff (h : MostRecentFirst samples) (hlength : 10 ≤ samples.length) :
    TrendRight samples (detectTrend (samples.map LedgerFeeSample.baseFee)) ↔
      average (fiveOldest samples) ≤
          average (fiveMostRecent samples) + average (fiveMostRecent samples) / 20 ∧
        average (fiveMostRecent samples) ≤
          average (fiveOldest samples) + average (fiveOldest samples) / 20 := by
  rw [detectTrend_eq h hlength, TrendRight]
  generalize average (fiveMostRecent samples) = recent
  generalize average (fiveOldest samples) = older
  dsimp only
  by_cases hup : recent + recent / 20 < older
  · -- upward is reported when the older average is above the recent one
    simp only [hup, if_true, true_iff, reduceCtorEq, false_iff, not_lt]
    constructor
    · rintro ⟨hlt, hle⟩
      linarith
    · rintro ⟨hle, -⟩
      linarith
  by_cases hdown : older < recent - recent / 20
  · simp only [hup, hdown, if_true, if_false, true_iff, reduceCtorEq, false_iff, not_lt]
    constructor
    · rintro ⟨hle, hlt⟩
      linarith
    · rintro ⟨-, hle⟩
      linarith
  · simp only [hup, hdown, if_false, reduceCtorEq, false_iff, not_lt]
    constructor
    · rintro ⟨hle, -⟩
      exact ⟨not_lt.mp hup, hle⟩
    · rintro ⟨-, hle⟩
      exact ⟨hle, by linarith⟩

/-- Ten ledgers, the last five with twice the fee of the first five. -/
def risingSamples : List LedgerFeeSample :=
  [10, 9, 8, 7, 6, 5, 4, 3, 2, 1].map fun sequence =>
    let fee := if sequence ≤ 5 then 100 else 200
    { ledgerSequence := sequence
      collectedAt := 5 * sequence
      baseReserve := 0
      baseFee := fee
      maxFee := fee
      feeCharged := fee
      transactionCount := 10
      ledgerCloseTime := 5 * sequence }

theorem risingSamples_mostRecentFirst : MostRecentFirst risingSamples := by
  unfold MostRecentFirst
  decide

theorem trendRight_iff_rising :
    TrendRight risingSamples (detectTrend (risingSamples.map LedgerFeeSample.baseFee)) ↔
      average (fiveOldest risingSamples) ≤
          average (fiveMostRecent risingSamples) + average (fiveMostRecent risingSamples) / 20 ∧
        average (fiveMostRecent risingSamples) ≤
          average (fiveOldest risingSamples) + average (fiveOldest risingSamples) / 20 :=
  trendRight_iff risingSamples_mostRecentFirst (by decide)

/-- Fees that have doubled are reported to go downward. -/
theorem not_trendRight_rising :
    ¬ ∀ samples, MostRecentFirst samples → 10 ≤ samples.length →
      TrendRight samples (detectTrend (samples.map LedgerFeeSample.baseFee)) := by
  intro h
  have hright := (h risingSamples risingSamples_mostRecentFirst (by decide)).1
  have hdown : detectTrend (risingSamples.map LedgerFeeSample.baseFee) = .downward := by
    decide +kernel
  have hrose : average (fiveOldest risingSamples) + average (fiveOldest risingSamples) / 20 <
      average (fiveMostRecent risingSamples) := by
    decide +kernel
  rw [hdown] at hright
  exact absurd (hright.mpr hrose) (by decide)

end Core.FeeAnalytics
