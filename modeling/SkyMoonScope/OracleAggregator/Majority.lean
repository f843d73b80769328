import SkyMoonScope.OracleAggregator.Quorum

/-!
# The majority of the prices

More than half of the prices lie in an interval, so the median of all prices does, whatever the
other sources answer. The filter drops prices by their distance to this median, and may drop more on
the one side of it than on the other. So the median of the prices that are kept may leave the
interval, but no further than the greatest share of the median that a kept price is away from it.

## Main definitions

* `Majority lo hi prices`: more than half of the prices lie in the interval

## Main results

* `median_mem_of_majority`: the median lies where the majority does
* `near_center`: a price that is kept is near the median
* `near_majority`: the price of a call against the interval
-/

namespace OracleAggregator

open Soroban

variable {Address : Type}

/-- More than half of the prices lie in the interval. -/
def Majority (lo hi : ℤ) (prices : List ℤ) : Prop :=
  prices.length < 2 * prices.countP fun p => decide (lo ≤ p ∧ p ≤ hi)

instance (lo hi : ℤ) (prices : List ℤ) : Decidable (Majority lo hi prices) :=
  inferInstanceAs (Decidable (_ < _))

section Center

variable {prices : List ℤ} {lo hi center m p : ℤ} {s t : State}

theorem Majority.perm {prices' : List ℤ} (hperm : prices'.Perm prices)
    (h : Majority lo hi prices) : Majority lo hi prices' := by
  unfold Majority at h ⊢
  rwa [hperm.length_eq, hperm.countP_eq]

/-- **The median** lies where the majority of the prices does. -/
theorem median_mem_of_majority (hsorted : prices.Pairwise (· ≤ ·))
    (hpositive : ∀ x ∈ prices, 0 < x) (hmajority : Majority lo hi prices)
    (h : Returns (median prices) s m t) : lo ≤ m ∧ m ≤ hi := by
  obtain ⟨-, i, j, hi', hj', hlower, hupper, hle, hge⟩ := returns_median hsorted hpositive h
  constructor
  · refine le_trans ?_ hle
    exact Median.le_middle_of_majority hsorted
      (fun x _ hx => (of_decide_eq_true hx).1) hmajority hlower hi'
  · refine hge.trans ?_
    exact Median.middle_le_of_majority hsorted
      (fun x _ hx => (of_decide_eq_true hx).2) hmajority hupper hj'

/-! The deviation of all prices bounds how far a kept price is from the median, even where the five
percent of the median are more than the type represents. -/

theorem squares_bounds (center : ℤ) (prices : List ℤ) :
    0 ≤ squares center prices ∧ squares center prices ≤ 2 ^ 127 - 1 ∧
      ∀ x ∈ prices,
        IntType.i128.saturate (|x - center| * |x - center|) ≤ squares center prices := by
  have hfold : ∀ (l : List ℤ) (a : ℤ), 0 ≤ a → a ≤ 2 ^ 127 - 1 →
      a ≤ l.foldl (fun sum price => IntType.i128.saturate (sum +
          IntType.i128.saturate (|price - center| * |price - center|))) a ∧
        l.foldl (fun sum price => IntType.i128.saturate (sum +
          IntType.i128.saturate (|price - center| * |price - center|))) a ≤ 2 ^ 127 - 1 ∧
        ∀ x ∈ l, IntType.i128.saturate (|x - center| * |x - center|) ≤
          l.foldl (fun sum price => IntType.i128.saturate (sum +
            IntType.i128.saturate (|price - center| * |price - center|))) a := by
    intro l
    induction l with
    | nil => exact fun a _ ha => ⟨le_rfl, ha, by simp⟩
    | cons x l ih =>
      intro a ha0 ha
      have hsquare : 0 ≤ |x - center| * |x - center| := mul_nonneg (abs_nonneg _) (abs_nonneg _)
      -- a round adds the square, as far as the type goes
      have hround : 0 ≤ IntType.i128.saturate (|x - center| * |x - center|) ∧
          a ≤ IntType.i128.saturate (a + IntType.i128.saturate (|x - center| * |x - center|)) ∧
          IntType.i128.saturate (|x - center| * |x - center|) ≤
            IntType.i128.saturate (a + IntType.i128.saturate (|x - center| * |x - center|)) ∧
          IntType.i128.saturate (a + IntType.i128.saturate (|x - center| * |x - center|)) ≤
            2 ^ 127 - 1 := by
        simp only [IntType.saturate, IntType.i128]
        omega
      obtain ⟨hge, hle, hrest⟩ := ih _ (ha0.trans hround.2.1) hround.2.2.2
      refine ⟨hround.2.1.trans hge, hle, ?_⟩
      exact List.forall_mem_cons.mpr ⟨hround.2.2.1.trans hge, hrest⟩
  obtain ⟨hge, hle, hrest⟩ := hfold prices 0 le_rfl (by norm_num)
  exact ⟨hge, hle, hrest⟩

/-- A price that the deviation does not drop is near the center. -/
theorem lt_of_not_dropped (hlength : prices.length < 2 ^ 32) (hp : p ∈ prices)
    (h : dropped prices center p = false) : |p - center| < 2 ^ 65 := by
  obtain ⟨hsum0, hsum, hsquares⟩ := squares_bounds center prices
  have hlength0 : 0 < prices.length := List.length_pos_of_mem hp
  set variance := (squares center prices).tdiv prices.length with hvariance
  have hvariance' : variance = squares center prices / prices.length := by
    rw [hvariance, Int.tdiv_eq_ediv_of_nonneg hsum0]
  have hroot := Nat.sqrt_le variance.toNat
  have hroot' := Nat.lt_succ_sqrt variance.toNat
  have hp' := hsquares p hp
  have hdistance := abs_nonneg (p - center)
  unfold dropped exceeds at h
  rw [← hvariance] at h
  simp only [decide_eq_false_iff_not, not_or, not_and, not_le, ge_iff_le] at h
  have hdeviation := h.1
  have hvariance0 : 0 ≤ variance := by
    rw [hvariance']
    exact Int.ediv_nonneg hsum0 (by omega)
  have hvariancele : variance ≤ squares center prices := by
    rw [hvariance']
    exact Int.ediv_le_self _ hsum0
  rcases Nat.eq_zero_or_pos (Nat.sqrt variance.toNat) with hzero | hpos
  · -- without a deviation every square is less than the number of prices
    rw [hzero] at hroot'
    have hsmall : squares center prices < prices.length := by
      have hlt : squares center prices / prices.length < 1 := by
        rw [← hvariance']
        omega
      have := Int.lt_mul_of_ediv_lt (by omega) hlt
      linarith
    have hsquare : |p - center| * |p - center| < 2 ^ 32 := by
      simp only [IntType.saturate, IntType.i128] at hp'
      omega
    nlinarith
  · -- the deviation is the root of an `i128`
    have hdist := hdeviation (by exact_mod_cast hpos)
    have hdouble : |p - center| < Nat.sqrt variance.toNat * 2 :=
      hdist.trans_le (IntType.saturate_le (by
        simp only [IntType.i128, stddevMultiplier]
        omega))
    have hbound : Nat.sqrt variance.toNat < 2 ^ 64 := by
      by_contra hlarge
      have hmul := Nat.mul_le_mul (not_lt.mp hlarge) (not_lt.mp hlarge)
      omega
    omega

/-- **A price that is kept** is not further from the center than the share of it. -/
theorem near_center (hlength : prices.length < 2 ^ 32) (hcenter : 0 < center) (hp : p ∈ prices)
    (h : dropped prices center p = false) : 95 * center ≤ 100 * p ∧ 100 * p ≤ 105 * center := by
  have hnear := lt_of_not_dropped hlength hp h
  have hpercent : |p - center| * 100 ≤ center * 5 := by
    unfold dropped exceeds at h
    simp only [decide_eq_false_iff_not, not_or, not_lt] at h
    have hshare := h.2
    simp only [maxDeviationPercent, IntType.saturate, IntType.i128] at hshare
    omega
  have hle := le_abs_self (p - center)
  have hge := neg_abs_le (p - center)
  constructor <;> linarith

end Center

/-! ## The price of a call -/

/-- **The majority.** When more than half of the fresh prices lie in an interval, their median does,
and the price returned leaves the interval by at most five percent of its bound. It lies in the
interval itself when more than half of the prices that the filter keeps do. -/
theorem near_majority {env : Env Address} {sources : List Address} {maxAgeSeconds : ℕ}
    {s t : State} {price lo hi : ℤ} (hlength : sources.length < 2 ^ 32)
    (h : Returns (aggregatePrice env sources maxAgeSeconds) s price t)
    (hmajority : Majority lo hi (givenPrices env maxAgeSeconds sources)) :
    ∃ center kept,
      Returns (median (sortPrices (givenPrices env maxAgeSeconds sources))) s center s ∧
      Returns (filterOutliers (sortPrices (givenPrices env maxAgeSeconds sources)) center) s kept
        s ∧
      (lo ≤ center ∧ center ≤ hi) ∧
      (95 * lo ≤ 100 * price ∧ 100 * price ≤ 105 * hi) ∧
      (Majority lo hi kept → lo ≤ price ∧ price ≤ hi) := by
  obtain ⟨-, center, kept, hcenter, hkept, -, hprice⟩ := returns_aggregatePrice h
  have hsorted := sortPrices_sorted (givenPrices env maxAgeSeconds sources)
  have hperm := sortPrices_perm (givenPrices env maxAgeSeconds sources)
  have hpositive : ∀ x ∈ sortPrices (givenPrices env maxAgeSeconds sources), 0 < x :=
    fun x hx => sorted_positive hx
  have hmem := median_mem_of_majority hsorted hpositive (hmajority.perm hperm) hcenter
  have hsublist := kept_sublist hkept
  have hsorted' := hsorted.sublist hsublist
  have hpositive' : ∀ x ∈ kept, 0 < x := fun x hx => hpositive x (hsublist.subset hx)
  refine ⟨center, kept, hcenter, hkept, hmem, ?_, fun hmajority' =>
    median_mem_of_majority hsorted' hpositive' hmajority' hprice⟩
  -- the median of the kept prices is between two of them
  obtain ⟨-, i, j, hi', hj', -, -, hle, hge⟩ := returns_median hsorted' hpositive' hprice
  have hcenter0 : 0 < center := by
    obtain ⟨-, k, -, hk, -, -, -, hk', -⟩ := returns_median hsorted hpositive hcenter
    exact (hpositive _ (List.getElem_mem hk)).trans_le hk'
  have hlength' : (sortPrices (givenPrices env maxAgeSeconds sources)).length < 2 ^ 32 := by
    rw [hperm.length_eq, givenPrices, List.length_map]
    exact length_quotes_le.trans_lt hlength
  have hnear : ∀ x ∈ kept, 95 * center ≤ 100 * x ∧ 100 * x ≤ 105 * center := by
    intro x hx
    have hkeeps := hx
    rw [(returns_filterOutliers hkept).1, List.mem_filter, Bool.not_eq_true'] at hkeeps
    exact near_center hlength' hcenter0 hkeeps.1 hkeeps.2
  have hlower := (hnear _ (List.getElem_mem hi')).1
  have hupper := (hnear _ (List.getElem_mem hj')).2
  constructor <;> linarith [hmem.1, hmem.2]

/-- Sources that answer with small amounts. -/
def offers (amounts : ℕ → ℕ) : Env ℕ where
  timestamp := 0
  latestPrice := fun n _ => some ⟨(amounts n % 1000 : ℕ), 0, fits_mod (amounts n)⟩

theorem near_majority_sample : ∃ center kept,
    Returns (median (sortPrices (givenPrices (offers fun n => 100 + n) 0 [1, 2, 3])))
      ⟨none, none⟩ center ⟨none, none⟩ ∧
    Returns (filterOutliers (sortPrices (givenPrices (offers fun n => 100 + n) 0 [1, 2, 3])) center)
      ⟨none, none⟩ kept ⟨none, none⟩ ∧
    (100 ≤ center ∧ center ≤ 101) ∧
    (95 * (100 : ℤ) ≤ 100 * 101 ∧ 100 * 101 ≤ 105 * (101 : ℤ)) ∧
    (Majority 100 101 kept → (100 : ℤ) ≤ 101 ∧ (101 : ℤ) ≤ 101) := by
  have hreturns : ∃ t, Returns (aggregatePrice (offers fun n => 100 + n) [1, 2, 3] 0)
      ⟨none, none⟩ 101 t := ⟨_, rfl⟩
  obtain ⟨t, ht⟩ := hreturns
  exact near_majority (by decide) ht (by decide)

/-- Prices of 50, 90, 100, 101 and 102. Three of the five are at most 100, but only one of the three
that are near the median. -/
theorem shifted_by_filter : ∃ amounts : ℕ → ℕ, ∃ t, [1, 2, 3, 4, 5].Nodup ∧
    Returns (aggregatePrice (offers amounts) [1, 2, 3, 4, 5] 0) ⟨none, none⟩ 101 t ∧
      Majority 50 100 (givenPrices (offers amounts) 0 [1, 2, 3, 4, 5]) ∧ ¬(101 : ℤ) ≤ 100 := by
  have hvalue : (invoke (aggregatePrice (offers fun n => [50, 90, 100, 101, 102].getD n 0)
      [1, 2, 3, 4, 5] 0) ⟨none, none⟩).1.toOption = some 101 := by decide +kernel
  obtain ⟨t, ht⟩ := exists_returns_of_toOption hvalue
  exact ⟨_, t, by decide, ht, by decide, by decide⟩

end OracleAggregator
