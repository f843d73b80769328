import SkyMoonScope.Cdp.Conservation

/-!
# What a liquidation seizes

A quote repays at most what the collateral covers together with the incentive, and seizes collateral
for what is repaid and for the incentive on it. All four divisions round down. The liquidator is
never given more than the incentive allows, and less than one unit of collateral too little for what
is repaid. That unit may be all there is: a repayment that is worth less than one unit of the
collateral seizes nothing.

## Main definitions

* `seizeValue`, `seizable`: what a repayment seizes, as a value and in collateral
* `Fair`: what a quote owes to both sides

## Main results

* `seizable_le`: what is covered never seizes more than the collateral
* `quoteLiquidation_eq`: what a quote computes
* `quoteLiquidation_fair`: every quote is fair
* `quote_seizes_nothing`: a quote that repays and seizes nothing
-/

namespace Cdp

open Soroban Machine

variable {price incentive collateral repay : ℤ}

/-- The value that a repayment seizes, with the incentive on it. -/
def seizeValue (incentive repay : ℤ) : ℤ :=
  repay * (bps + incentive) / bps

/-- The collateral of that value. -/
def seizable (price incentive repay : ℤ) : ℤ :=
  seizeValue incentive repay * priceScale / price

/-- What a quote owes to both sides: it repays some of the debt, seizes at most the collateral and
at most what the incentive allows, and less than one unit of collateral too little for what it
repays. It seizes nothing where not even one unit is worth so little. -/
structure Fair (price incentive : ℤ) (p : Position) (quote : LiquidationQuote) : Prop where
  repay_pos : 0 < quote.repayAmount
  repay_le : quote.repayAmount ≤ p.debtAmount
  seize_nonneg : 0 ≤ quote.collateralToSeize
  seize_le : quote.collateralToSeize ≤ p.collateralAmount
  seize_pos_iff : 0 < quote.collateralToSeize ↔
    price ≤ seizeValue incentive quote.repayAmount * priceScale
  le_allowed : quote.collateralToSeize * price * bps ≤
    quote.repayAmount * (bps + incentive) * priceScale
  repaid_lt : quote.repayAmount * priceScale < quote.collateralToSeize * price + price

/-! ## The roundings -/

theorem bps_pos : 0 < bps := by decide

theorem priceScale_pos : 0 < priceScale := by decide

/-- The incentive is on top of what is repaid. -/
theorem le_seizeValue (hincentive : 0 ≤ incentive) (hrepay : 0 ≤ repay) :
    repay ≤ seizeValue incentive repay := by
  apply (Int.le_ediv_iff_mul_le bps_pos).mpr
  exact mul_le_mul_of_nonneg_left (le_add_of_nonneg_right hincentive) hrepay

/-- Only a positive value has a positive quotient. -/
theorem pos_of_tdiv_pos {a b : ℤ} (hb : 0 ≤ b) (h : 0 < a.tdiv b) : 0 < a := by
  by_contra hneg
  have hnonneg : 0 ≤ (-a).tdiv b := Int.tdiv_nonneg (neg_nonneg.mpr (not_lt.mp hneg)) hb
  rw [Int.neg_tdiv] at hnonneg
  exact absurd h (not_lt.mpr (neg_nonneg.mp hnonneg))

theorem seizeValue_mul_le : seizeValue incentive repay * bps ≤ repay * (bps + incentive) :=
  Int.ediv_mul_le _ bps_pos.ne'

/-- A repayment that the collateral covers seizes at most its value. -/
theorem seizeValue_le {value : ℤ} (hincentive : 0 ≤ incentive)
    (hcovered : repay ≤ value * bps / (bps + incentive)) : seizeValue incentive repay ≤ value := by
  have hfactor : 0 < bps + incentive := add_pos_of_pos_of_nonneg bps_pos hincentive
  have hrepaid : repay * (bps + incentive) ≤ value * bps :=
    (Int.le_ediv_iff_mul_le hfactor).mp hcovered
  exact le_of_mul_le_mul_right (seizeValue_mul_le.trans hrepaid) bps_pos

/-- **A repayment that the collateral covers** seizes at most the collateral, so that the cap at the
collateral is never reached. -/
theorem seizable_le (hprice : 0 < price) (hincentive : 0 ≤ incentive)
    (hcovered : repay ≤ collateral * price / priceScale * bps / (bps + incentive)) :
    seizable price incentive repay ≤ collateral := by
  have hvalue : seizeValue incentive repay * priceScale ≤ collateral * price :=
    calc seizeValue incentive repay * priceScale
        ≤ collateral * price / priceScale * priceScale :=
          mul_le_mul_of_nonneg_right (seizeValue_le hincentive hcovered) priceScale_pos.le
      _ ≤ collateral * price := Int.ediv_mul_le _ priceScale_pos.ne'
  calc seizable price incentive repay
      ≤ collateral * price / price := Int.ediv_le_ediv hprice hvalue
    _ = collateral := Int.mul_ediv_cancel _ hprice.ne'

/-- What a repayment seizes is fair, wherever the collateral covers it. -/
theorem fair_of_covered {p : Position} {quote : LiquidationQuote} (hprice : 0 < price)
    (hincentive : 0 ≤ incentive) (hrepay : 0 < quote.repayAmount)
    (hdebt : quote.repayAmount ≤ p.debtAmount)
    (hcovered : quote.repayAmount ≤
      p.collateralAmount * price / priceScale * bps / (bps + incentive))
    (hseized : quote.collateralToSeize = seizable price incentive quote.repayAmount) :
    Fair price incentive p quote := by
  have hvalue : 0 < seizeValue incentive quote.repayAmount :=
    hrepay.trans_le (le_seizeValue hincentive hrepay.le)
  have hworth : 0 ≤ seizeValue incentive quote.repayAmount * priceScale :=
    (mul_pos hvalue priceScale_pos).le
  rw [seizable] at hseized
  refine ⟨hrepay, hdebt, ?_, ?_, ?_, ?_, ?_⟩
  · rw [hseized]
    exact Int.ediv_nonneg hworth hprice.le
  · rw [hseized]
    exact seizable_le hprice hincentive hcovered
  · -- one unit of collateral is what has to be covered
    rw [hseized, ← Int.add_one_le_iff, zero_add, Int.le_ediv_iff_mul_le hprice, one_mul]
  · calc quote.collateralToSeize * price * bps
        ≤ seizeValue incentive quote.repayAmount * priceScale * bps := by
          rw [hseized]
          exact mul_le_mul_of_nonneg_right (Int.ediv_mul_le _ hprice.ne') bps_pos.le
      _ = seizeValue incentive quote.repayAmount * bps * priceScale := mul_right_comm _ _ _
      _ ≤ quote.repayAmount * (bps + incentive) * priceScale :=
          mul_le_mul_of_nonneg_right seizeValue_mul_le priceScale_pos.le
  · calc quote.repayAmount * priceScale
        ≤ seizeValue incentive quote.repayAmount * priceScale :=
          mul_le_mul_of_nonneg_right (le_seizeValue hincentive hrepay.le) priceScale_pos.le
      _ < (quote.collateralToSeize + 1) * price := by
          rw [hseized]
          exact Int.lt_ediv_add_one_mul_self _ hprice
      _ = quote.collateralToSeize * price + price := add_one_mul _ _

/-! ## Quotes of the contract -/

section Quotes

variable {Address Tokens : Type} [DecidableEq Address] {host : Host Address Tokens}
  {env : Env host} {s t : State Address Tokens} {borrower : Address} {requested : ℤ}
  {quote : LiquidationQuote} {params : RiskParams}

/-- **What a quote computes** from the accrued position, the stored incentive and the price. -/
theorem quoteLiquidation_eq
    (h : Returns (quoteLiquidation env borrower requested) s quote t)
    (hparams : s.riskParams = some params) :
    ∃ p oracle price, Returns (accruePosition env borrower) s p t ∧ s.oracle = some oracle ∧
      env.latestPrice oracle = some price ∧ 0 < price ∧ 0 < quote.repayAmount ∧
      quote.repayAmount = min (min requested p.debtAmount)
        (((p.collateralAmount * price).tdiv priceScale * bps).tdiv
          (bps + params.liquidationIncentiveBps)) ∧
      quote.collateralToSeize = min (((quote.repayAmount *
        (bps + params.liquidationIncentiveBps)).tdiv bps * priceScale).tdiv price)
          p.collateralAmount := by
  simp only [quoteLiquidation, returns_require_bind] at h
  obtain ⟨-, h⟩ := h
  obtain ⟨p, u, haccrue, h⟩ := returns_bind.mp h
  obtain ⟨horacle, hriskParams, -⟩ := frame_of_accrue haccrue
  simp only [readRiskParams, oraclePrice, collateralValue, bind_assoc, pure_bind, returns_get_bind,
    returns_orFault_bind, returns_bind_of_readOnly readOnly_collateralRatioBps,
    returns_require_bind, returns_checked_bind, returns_plain_bind, returns_divide_bind,
    returns_pure, horacle, hriskParams, hparams, Option.some.injEq] at h
  obtain ⟨_, rfl, oracle, horacle, price, hlatest, hprice, _, -, -, -, -, -, -, -, hrepay, -, -, -,
    -, -, rfl, rfl⟩ := h
  refine ⟨p, oracle, price, haccrue, horacle, hlatest, not_le.mp hprice, not_le.mp hrepay, rfl, ?_⟩
  dsimp only
  split
  -- more is worth seizing than there is
  next hcap => exact (min_eq_right hcap.le).symm
  next hcap => exact (min_eq_left (not_lt.mp hcap)).symm

/-- **Every quote is fair**, for every position, price and request and every incentive that is not
negative. -/
theorem quoteLiquidation_fair
    (h : Returns (quoteLiquidation env borrower requested) s quote t)
    (hparams : s.riskParams = some params) (hincentive : 0 ≤ params.liquidationIncentiveBps) :
    ∃ p oracle price, Returns (accruePosition env borrower) s p t ∧ s.oracle = some oracle ∧
      env.latestPrice oracle = some price ∧ 0 < price ∧
      Fair price params.liquidationIncentiveBps p quote := by
  obtain ⟨p, oracle, price, haccrue, horacle, hlatest, hprice, hrepay, hrepaid, hseized⟩ :=
    quoteLiquidation_eq h hparams
  refine ⟨p, oracle, price, haccrue, horacle, hlatest, hprice, ?_⟩
  have hfactor : 0 < bps + params.liquidationIncentiveBps :=
    add_pos_of_pos_of_nonneg bps_pos hincentive
  have hcovered : quote.repayAmount ≤
      ((p.collateralAmount * price).tdiv priceScale * bps).tdiv
        (bps + params.liquidationIncentiveBps) := hrepaid.trans_le (min_le_right _ _)
  -- something is repaid, so that the collateral is worth something
  have hscaled : 0 < (p.collateralAmount * price).tdiv priceScale * bps :=
    pos_of_tdiv_pos hfactor.le (hrepay.trans_le hcovered)
  have hworth : 0 < p.collateralAmount * price :=
    pos_of_tdiv_pos priceScale_pos.le (pos_of_mul_pos_left hscaled bps_pos.le)
  rw [Int.tdiv_eq_ediv_of_nonneg hscaled.le, Int.tdiv_eq_ediv_of_nonneg hworth.le] at hcovered
  have hfair : quote.collateralToSeize =
      seizable price params.liquidationIncentiveBps quote.repayAmount := by
    have hgross : 0 ≤ quote.repayAmount * (bps + params.liquidationIncentiveBps) :=
      (mul_pos hrepay hfactor).le
    have hvalue : 0 ≤ seizeValue params.liquidationIncentiveBps quote.repayAmount * priceScale :=
      mul_nonneg (Int.ediv_nonneg hgross bps_pos.le) priceScale_pos.le
    rw [hseized, Int.tdiv_eq_ediv_of_nonneg hgross, ← seizeValue,
      Int.tdiv_eq_ediv_of_nonneg hvalue]
    -- the cap at the collateral is not reached, as the collateral covers the repayment
    exact min_eq_left (seizable_le hprice hincentive hcovered)
  exact fair_of_covered hprice hincentive hrepay
    (hrepaid.trans_le ((min_le_left _ _).trans (min_le_right _ _))) hcovered hfair

end Quotes

/-! ## A position with an expensive collateral -/

section Sample

/-- A unit of the collateral was worth ten units of debt. -/
def sampleCallsAtTen : List (Env sampleHost × Call ℕ) :=
  [(sampleEnv 1 100000000, .initializeContract 9 100 101 sampleRiskParams sampleModel),
   (sampleEnv 1 100000000, .depositCollateral 1 200000),
   (sampleEnv 1 100000000, .mintStable 1 1000000)]

def sampleAtTen : State ℕ Unit :=
  (execute (entryPoint sampleHost) (State.initial ()) sampleCallsAtTen).2

/-- A unit is worth six, and 105000 are seized for 100000. -/
theorem quoteLiquidation_fair_sample :
    ∃ quote t, Returns (quoteLiquidation (sampleEnv 1 60000000) 1 100000) sampleAtTen quote t ∧
      quote.collateralToSeize = 17500 ∧
      ∃ p oracle price, Returns (accruePosition (sampleEnv 1 60000000) 1) sampleAtTen p t ∧
        sampleAtTen.oracle = some oracle ∧
        (sampleEnv 1 60000000).latestPrice oracle = some price ∧ 0 < price ∧
        Fair price 500 p quote := by
  have hquote : ∃ t, Returns (quoteLiquidation (sampleEnv 1 60000000) 1 100000) sampleAtTen
      ⟨100000, 17500, 5000⟩ t := exists_returns_of_toOption (by decide +kernel)
  obtain ⟨t, ht⟩ := hquote
  have hparams : sampleAtTen.riskParams = some sampleRiskParams := by decide +kernel
  exact ⟨_, t, ht, rfl, quoteLiquidation_fair ht hparams (by decide)⟩

/-- **A repayment of one unit seizes nothing**, as it is worth a sixth of a unit of collateral. -/
theorem quote_seizes_nothing :
    ¬ ∀ (ls : List (Event (Env sampleHost) (Call ℕ) Error Response)) (s t : State ℕ Unit)
      (env : Env sampleHost) (borrower : ℕ) (requested : ℤ) (quote : LiquidationQuote)
      (params : RiskParams), Run (Step (entryPoint sampleHost)) (State.initial ()) ls s →
      s.riskParams = some params → 0 ≤ params.liquidationIncentiveBps →
      Returns (quoteLiquidation env borrower requested) s quote t →
      ∃ p oracle price, Returns (accruePosition env borrower) s p t ∧ s.oracle = some oracle ∧
        env.latestPrice oracle = some price ∧ 0 < price ∧
        0 < quote.repayAmount ∧ quote.repayAmount ≤ p.debtAmount ∧
        0 < quote.collateralToSeize ∧ quote.collateralToSeize ≤ p.collateralAmount ∧
        quote.collateralToSeize * price * bps ≤
          quote.repayAmount * (bps + params.liquidationIncentiveBps) * priceScale ∧
        quote.repayAmount * priceScale < quote.collateralToSeize * price + price := by
  intro h
  have hquote : ∃ t, Returns (quoteLiquidation (sampleEnv 1 60000000) 1 1) sampleAtTen
      ⟨1, 0, 0⟩ t := exists_returns_of_toOption (by decide +kernel)
  obtain ⟨t, ht⟩ := hquote
  have hrun := run_execute (entryPoint sampleHost) (State.initial ()) sampleCallsAtTen
  obtain ⟨p, oracle, price, -, -, -, -, -, -, hseized, -⟩ :=
    h _ _ t _ 1 1 _ sampleRiskParams hrun (by decide +kernel) (by decide) ht
  exact absurd hseized (lt_irrefl 0)

end Sample

end Cdp
