import SkyMoonScope.Cdp.Conservation
import Mathlib.Data.Rat.Floor
import Mathlib.Tactic.Ring

/-!
# What a position is worth after the check

`withdraw_collateral` and `mint_stable` compare the ratio of a position, rounded to the nearest
basis point, with the required one, whose floor is interpolated with a truncating division. A
position is admitted that is up to half a basis point below the required ratio, when this one is
rounded down.

## Main definitions

* `Admitted`: the parameters that the contract accepts
* `requiredRatio`: the required ratio, as a rational number
* `Covers`: the collateral is worth what is required, up to half a basis point
* `Healthy`: no debt is negative, and the parameters are admitted

## Main results

* `dynamicCollateralFloor_eq`: the floor is the interpolation, rounded down
* `le_of_collateralRatioBps`: a ratio is at most half a basis point too large
* `covers_after`: what a position is worth after both calls
* `admitted_below`: a position is admitted below the required ratio
-/

namespace Cdp

open Soroban Machine

variable {Address Tokens : Type}

/-- What `initialize` and the setters accept. -/
structure Admitted (params : RiskParams) : Prop where
  minRatio : bps < params.minCollateralRatioBps
  low : 0 ≤ params.volatilityConfig.lowVolatilityThresholdBps
  high : params.volatilityConfig.lowVolatilityThresholdBps <
    params.volatilityConfig.highVolatilityThresholdBps
  base : bps ≤ params.volatilityConfig.baseCollateralFloorBps
  max : params.volatilityConfig.baseCollateralFloorBps ≤
    params.volatilityConfig.maxCollateralFloorBps

/-- The floor of the ratio, interpolated between the two thresholds. -/
def interpolatedFloor (config : VolatilityConfig) (volatility : ℤ) : ℚ :=
  if volatility ≤ config.lowVolatilityThresholdBps then config.baseCollateralFloorBps
  else if volatility ≥ config.highVolatilityThresholdBps then config.maxCollateralFloorBps
  else config.baseCollateralFloorBps +
    (config.maxCollateralFloorBps - config.baseCollateralFloorBps) *
        (volatility - config.lowVolatilityThresholdBps) /
      (config.highVolatilityThresholdBps - config.lowVolatilityThresholdBps)

/-- The larger one of the static minimum and the floor. -/
def requiredRatio (params : RiskParams) (volatility : ℤ) : ℚ :=
  max params.minCollateralRatioBps (interpolatedFloor params.volatilityConfig volatility)

/-- The collateral of a position is worth its debt times the ratio `r`, up to half a basis point. -/
def Covers (r price : ℤ) (p : Position) : Prop :=
  2 * (r * p.debtAmount * priceScale) ≤
    2 * (p.collateralAmount * price * bps) + p.debtAmount * priceScale

/-- No debt is negative, and the parameters are admitted. -/
structure Healthy (s : State Address Tokens) : Prop where
  debt_nonneg : ∀ a, 0 ≤ debtOf s a
  admitted : ∀ params, s.riskParams = some params → Admitted params

section Checks

variable {host : Host Address Tokens} {env : Env host} {s t : State Address Tokens}
  {params : RiskParams} {price collateral debt ratio floor r : ℤ}

theorem oraclePrice_spec (h : Returns (oraclePrice env) s price t) :
    0 < price ∧ ∃ oracle, s.oracle = some oracle ∧ env.latestPrice oracle = some price := by
  simp only [oraclePrice, returns_get_bind, returns_orFault_bind, returns_require_bind,
    returns_pure] at h
  obtain ⟨oracle, horacle, _, hprice, hpos, rfl, -⟩ := h
  exact ⟨not_le.mp hpos, oracle, horacle, hprice⟩

/-- A truncated quotient of values that are not negative is rounded down. -/
theorem floor_div_eq {a b : ℤ} (ha : 0 ≤ a) (hb : 0 ≤ b) : ⌊(a : ℚ) / b⌋ = a.tdiv b := by
  obtain ⟨n, rfl⟩ := Int.eq_ofNat_of_zero_le hb
  rw [Int.tdiv_eq_ediv_of_nonneg ha, Int.cast_natCast, Rat.floor_intCast_div_natCast]

/-- **The floor** is the interpolation, rounded down. -/
theorem dynamicCollateralFloor_eq (hparams : s.riskParams = some params) (ha : Admitted params)
    (h : Returns (dynamicCollateralFloor env) s floor t) :
    ∃ oracle volatility, s.oracle = some oracle ∧ env.volatilityBps oracle = some volatility ∧
      floor = ⌊interpolatedFloor params.volatilityConfig volatility⌋ := by
  simp only [dynamicCollateralFloor, readRiskParams, oracleVolatilityBps, bind_assoc,
    returns_get_bind, returns_orFault_bind, returns_require_bind, pure_bind, hparams,
    Option.some.injEq] at h
  obtain ⟨_, rfl, oracle, horacle, volatility, hvolatility, -, h⟩ := h
  refine ⟨oracle, volatility, horacle, hvolatility, ?_⟩
  unfold interpolatedFloor
  by_cases hlow : volatility ≤ params.volatilityConfig.lowVolatilityThresholdBps
  · rw [if_pos hlow] at h ⊢
    rw [Int.floor_intCast]
    exact (returns_pure.mp h).1.symm
  rw [if_neg hlow] at h ⊢
  by_cases hhigh : volatility ≥ params.volatilityConfig.highVolatilityThresholdBps
  · rw [if_pos hhigh] at h ⊢
    rw [Int.floor_intCast]
    exact (returns_pure.mp h).1.symm
  rw [if_neg hhigh] at h ⊢
  simp only [returns_plain_bind, returns_checked_bind, returns_divide_bind, returns_checked] at h
  obtain ⟨-, -, -, -, -, -, rfl, -⟩ := h
  have hproduct : 0 ≤ (params.volatilityConfig.maxCollateralFloorBps -
      params.volatilityConfig.baseCollateralFloorBps) *
        (volatility - params.volatilityConfig.lowVolatilityThresholdBps) :=
    mul_nonneg (sub_nonneg.mpr ha.max) (by linarith)
  have hfloor := floor_div_eq hproduct (sub_nonneg.mpr ha.high.le)
  push_cast at hfloor
  rw [Int.floor_intCast_add, hfloor]

/-- **A ratio** is at most half a basis point too large. -/
theorem le_of_collateralRatioBps (h : Returns (collateralRatioBps price collateral debt) s ratio t)
    (hr : 1 ≤ r) (hle : r ≤ ratio) (hsafe : 0 < debt ∨ 0 ≤ collateral * price) :
    2 * (r * debt * priceScale) ≤ 2 * (collateral * price * bps) + debt * priceScale := by
  rw [collateralRatioBps] at h
  split at h
  next hdebt =>
    -- nothing is owed
    have hworth : 0 ≤ collateral * price * bps :=
      mul_nonneg (hsafe.resolve_left (not_lt.mpr hdebt)) (by decide)
    have howed : 0 ≤ -debt * priceScale := mul_nonneg (by linarith) (by decide)
    nlinarith
  next hdebt =>
    have hd : 0 < debt * priceScale := mul_pos (not_le.mp hdebt) (by decide)
    simp only [returns_checked_bind, returns_divide_bind] at h
    obtain ⟨-, -, -, -, -, h⟩ := h
    rw [mul_assoc r debt]
    set worth := collateral * price * bps
    set owed := debt * priceScale
    have hsplit := Int.tmod_add_tdiv_mul worth owed
    split at h
    next hround =>
      -- rounded up, as twice the remainder is at least what is owed
      obtain ⟨-, rfl, -⟩ := returns_checked.mp h
      have hmul := mul_le_mul_of_nonneg_right hle hd.le
      linarith
    next hround =>
      obtain ⟨rfl, -⟩ := returns_pure.mp h
      have hmul := mul_le_mul_of_nonneg_right hle hd.le
      have hone := mul_le_mul_of_nonneg_right (hr.trans hle) hd.le
      have hworth : 0 ≤ worth := by linarith [Int.lt_tmod_of_pos worth hd]
      linarith [Int.tmod_nonneg owed hworth]

/-- **A position that passes** is covered, at the answers of the oracle. -/
theorem ensureSafe_spec {p : Position} {u : Unit} (hs : Healthy s)
    (hsafe : 0 < p.debtAmount ∨ 0 ≤ p.collateralAmount)
    (h : Returns (ensureSafe env p) s u t) :
    ∃ oracle params price volatility, s.oracle = some oracle ∧ s.riskParams = some params ∧
      env.latestPrice oracle = some price ∧ env.volatilityBps oracle = some volatility ∧
      Covers ⌊requiredRatio params volatility⌋ price p := by
  simp only [ensureSafe, returns_bind_of_readOnly readOnly_oraclePrice,
    returns_bind_of_readOnly readOnly_readRiskParams,
    returns_bind_of_readOnly readOnly_dynamicCollateralFloor,
    returns_bind_of_readOnly readOnly_collateralRatioBps, returns_require] at h
  obtain ⟨price, hprice, params, hparams, floor, hfloor, ratio, hratio, hle, -⟩ := h
  obtain ⟨hpos, oracle, horacle, hlatest⟩ := oraclePrice_spec hprice
  have hstored : s.riskParams = some params := by
    simp only [readRiskParams, returns_get_bind, returns_orFault] at hparams
    exact hparams.1
  have hadmitted := hs.admitted params hstored
  obtain ⟨oracle', volatility, horacle', hvolatility, rfl⟩ :=
    dynamicCollateralFloor_eq hstored hadmitted hfloor
  obtain rfl : oracle = oracle' := Option.some.inj (horacle.symm.trans horacle')
  refine ⟨oracle, params, price, volatility, horacle, hstored, hlatest, hvolatility, ?_⟩
  -- rounding down and the maximum can be exchanged
  have hrequired : ⌊requiredRatio params volatility⌋ =
      max params.minCollateralRatioBps
        ⌊interpolatedFloor params.volatilityConfig volatility⌋ := by
    rw [requiredRatio, Int.floor_mono.map_max, Int.floor_intCast]
  have hle' : ⌊requiredRatio params volatility⌋ ≤ ratio := by
    rw [hrequired]
    split at hle <;> omega
  have hone : 1 ≤ ⌊requiredRatio params volatility⌋ := by
    rw [hrequired]
    exact le_max_of_le_left (le_trans (by decide) hadmitted.minRatio.le)
  exact le_of_collateralRatioBps hratio hone hle'
    (hsafe.imp_right fun hc => mul_nonneg hc hpos.le)

end Checks

/-! ## Reachable storages -/

section Runs

variable [DecidableEq Address] {host : Host Address Tokens} {env : Env host}
  {s t u : State Address Tokens} {user : Address} {p q : Position} {amount : ℤ}

namespace Healthy

omit [DecidableEq Address] in
theorem congr (hs : Healthy s) (hposition : t.position = s.position)
    (hparams : t.riskParams = s.riskParams) : Healthy t where
  debt_nonneg := by
    intro a
    rw [debtOf, hposition]
    exact hs.debt_nonneg a
  admitted := by
    rw [hparams]
    exact hs.admitted

/-- A position is written whose debt is not negative. -/
theorem write (hs : Healthy s) (hposition : t.position = Function.update s.position user (some p))
    (hdebt : 0 ≤ p.debtAmount) (hparams : t.riskParams = s.riskParams) : Healthy t where
  debt_nonneg := by
    intro a
    rw [debtOf, hposition]
    by_cases ha : a = user
    · rw [ha, Function.update_self]
      exact hdebt
    · rw [Function.update_of_ne ha]
      exact hs.debt_nonneg a
  admitted := by
    rw [hparams]
    exact hs.admitted

theorem accrue (hs : Healthy s) (h : Returns (accruePosition env user) s q u) :
    Healthy u ∧ 0 ≤ q.debtAmount := by
  obtain ⟨booked, haccrued, -⟩ := accruePosition_spec h
  have hdebt : 0 ≤ q.debtAmount := by
    rw [haccrued.debt, readPosition_debtAmount]
    exact add_nonneg (hs.debt_nonneg user) haccrued.booked_nonneg
  exact ⟨hs.write haccrued.position hdebt (by rw [haccrued.frame]), hdebt⟩

end Healthy

/-- **A position is checked and written** after an accrual, with debt or with collateral that is not
negative. -/
structure CheckedWrite (env : Env host) (user : Address) (p : Position)
    (u t : State Address Tokens) : Prop where
  safe : Returns (ensureSafe env p) u () u
  debt_nonneg : 0 ≤ p.debtAmount
  pos_or_nonneg : 0 < p.debtAmount ∨ 0 ≤ p.collateralAmount
  position : t.position = Function.update u.position user (some p)
  riskParams : t.riskParams = u.riskParams

theorem withdrawCollateral_checks (hs : Healthy s)
    (h : Returns (withdrawCollateral env user amount) s p t) :
    ∃ q u, Returns (accruePosition env user) s q u ∧ CheckedWrite env user p u t := by
  obtain ⟨-, q, u, tokens, haccrue, hcover, rfl, hsafe, rfl⟩ := withdrawCollateral_spec h
  have hrest : 0 ≤ q.collateralAmount - amount := sub_nonneg.mpr hcover
  exact ⟨q, u, haccrue, hsafe, (hs.accrue haccrue).2, .inr hrest, rfl, rfl⟩

theorem mintStable_checks (hs : Healthy s) (h : Returns (mintStable env user amount) s p t) :
    ∃ q u, Returns (accruePosition env user) s q u ∧ CheckedWrite env user p u t := by
  obtain ⟨-, hpos, q, u, haccrue, rfl, hsafe, rfl⟩ := mintStable_spec h
  have hdebt : 0 < q.debtAmount + amount :=
    add_pos_of_nonneg_of_pos (hs.accrue haccrue).2 hpos
  exact ⟨q, u, haccrue, hsafe, hdebt.le, .inl hdebt, rfl, rfl⟩

namespace Healthy

theorem checked (hs : Healthy s) (haccrue : Returns (accruePosition env user) s q u)
    (h : CheckedWrite env user p u t) : Healthy t :=
  (hs.accrue haccrue).1.write h.position h.debt_nonneg h.riskParams

theorem deposit (hs : Healthy s) (h : Returns (depositCollateral env user amount) s p t) :
    Healthy t := by
  obtain ⟨-, q, u, tokens, haccrue, rfl, rfl⟩ := depositCollateral_spec h
  obtain ⟨hu, hdebt⟩ := hs.accrue haccrue
  exact hu.write rfl hdebt rfl

theorem repay (hs : Healthy s) (h : Returns (Cdp.repay env user amount) s p t) : Healthy t := by
  obtain ⟨-, q, u, r, haccrue, -, hle, rfl, rfl⟩ := repay_spec h
  exact (hs.accrue haccrue).1.write rfl (sub_nonneg.mpr hle) rfl

theorem liquidate {liquidator : Address} {requested : ℤ} {quote : LiquidationQuote}
    (hs : Healthy s) (h : Returns (Cdp.liquidate env liquidator user requested) s quote t) :
    Healthy t := by
  obtain ⟨-, u, tokens, hquote, rfl⟩ := liquidate_spec h
  obtain ⟨q, haccrue, hle⟩ := quoteLiquidation_spec hquote
  obtain ⟨-, hdebt, -⟩ := book_accrue haccrue
  -- the position is read again, as the quote has left it
  have hrest : 0 ≤ (readPosition env.sequence u user).debtAmount - quote.repayAmount := by
    rw [readPosition_debtAmount, ← hdebt]
    exact sub_nonneg.mpr hle
  exact (hs.accrue haccrue).1.write rfl hrest rfl

theorem selfLiquidate (hs : Healthy s) (h : Returns (Cdp.selfLiquidate env user) s p t) :
    Healthy t := by
  obtain ⟨q, u, bad, haccrue, rfl, rfl⟩ := selfLiquidate_spec h
  exact (hs.accrue haccrue).1.write rfl le_rfl rfl

/-- **No call makes a debt negative**, or stores parameters that are not admitted. -/
theorem call (hs : Healthy s) {call : Call Address} {v : Response}
    (h : Returns (entryPoint host env call) s v t) : Healthy t := by
  cases call with
  | initializeContract admin token oracle params model =>
    simp only [entryPoint, initializeContract, bind_assoc, returns_get_bind, returns_require_bind,
      returns_set_bind, returns_pure] at h
    obtain ⟨-, hconfig, -, rfl⟩ := h
    refine ⟨hs.debt_nonneg, ?_⟩
    rintro _ ⟨⟩
    push Not at hconfig
    exact ⟨hconfig.1, hconfig.2.2.2.2.1, hconfig.2.2.2.2.2.1, hconfig.2.2.2.2.2.2.1,
      hconfig.2.2.2.2.2.2.2.1⟩
  | setOracle oracle =>
    simp only [entryPoint, setOracle, bind_assoc, returns_bind_of_readOnly readOnly_requireAdmin,
      returns_get_bind, returns_set_bind, returns_pure] at h
    obtain ⟨_, -, -, rfl⟩ := h
    exact hs.congr rfl rfl
  | setLiquidationThreshold minRatio =>
    simp only [entryPoint, setLiquidationThreshold, readRiskParams, bind_assoc,
      returns_bind_of_readOnly readOnly_requireAdmin, returns_orFault_bind, returns_require_bind,
      returns_get_bind, returns_set_bind, returns_pure] at h
    obtain ⟨_, -, hconfig, params, hparams, -, rfl⟩ := h
    refine ⟨hs.debt_nonneg, ?_⟩
    rintro _ ⟨⟩
    have hadmitted := hs.admitted params hparams
    exact ⟨not_le.mp (not_or.mp hconfig).1, hadmitted.low, hadmitted.high, hadmitted.base,
      hadmitted.max⟩
  | setLiquidationIncentive incentive =>
    simp only [entryPoint, setLiquidationIncentive, readRiskParams, bind_assoc,
      returns_bind_of_readOnly readOnly_requireAdmin, returns_orFault_bind, returns_require_bind,
      returns_get_bind, returns_set_bind, returns_pure] at h
    obtain ⟨_, -, -, params, hparams, -, rfl⟩ := h
    refine ⟨hs.debt_nonneg, ?_⟩
    rintro _ ⟨⟩
    have hadmitted := hs.admitted params hparams
    exact ⟨hadmitted.minRatio, hadmitted.low, hadmitted.high, hadmitted.base, hadmitted.max⟩
  | getRiskParams =>
    obtain ⟨_, h, -⟩ := returns_map.mp h
    exact readOnly_readRiskParams _ _ _ h ▸ hs
  | liquidationThresholdBps =>
    exact (ReadOnly.bind readOnly_readRiskParams fun _ => .pure _) _ _ _ h ▸ hs
  | currentBorrowRateBps =>
    obtain ⟨_, h, -⟩ := returns_map.mp h
    exact readOnly_currentBorrowRateBps _ _ _ h ▸ hs
  | collateralRatioBps user =>
    simp only [entryPoint, returns_get_bind, returns_bind_of_readOnly readOnly_oraclePrice,
      returns_map] at h
    obtain ⟨_, -, _, h, -⟩ := h
    exact readOnly_collateralRatioBps _ _ _ h ▸ hs
  | dynamicCollateralFloor =>
    obtain ⟨_, h, -⟩ := returns_map.mp h
    exact readOnly_dynamicCollateralFloor _ _ _ h ▸ hs
  | currentVolatilityBps =>
    obtain ⟨_, h, -⟩ := returns_map.mp h
    exact readOnly_oracleVolatilityBps _ _ _ h ▸ hs
  | depositCollateral user amount =>
    obtain ⟨_, h, -⟩ := returns_map.mp h
    exact hs.deposit h
  | withdrawCollateral user amount =>
    obtain ⟨_, h, -⟩ := returns_map.mp h
    obtain ⟨q, u, haccrue, hchecked⟩ := withdrawCollateral_checks hs h
    exact hs.checked haccrue hchecked
  | mintStable user amount =>
    obtain ⟨_, h, -⟩ := returns_map.mp h
    obtain ⟨q, u, haccrue, hchecked⟩ := mintStable_checks hs h
    exact hs.checked haccrue hchecked
  | repay user amount =>
    obtain ⟨_, h, -⟩ := returns_map.mp h
    exact hs.repay h
  | transferStable source destination amount =>
    simp only [entryPoint, transferStable, requireAuth, writeStableBalance, bind_assoc,
      returns_require_bind, returns_get_bind, returns_checked_bind, returns_set_bind,
      returns_pure] at h
    obtain ⟨-, -, -, -, -, -, rfl⟩ := h
    exact hs.congr rfl rfl
  | quoteLiquidation borrower requested =>
    obtain ⟨_, h, -⟩ := returns_map.mp h
    obtain ⟨q, haccrue, -⟩ := quoteLiquidation_spec h
    exact (hs.accrue haccrue).1
  | liquidate liquidator borrower requested =>
    obtain ⟨_, h, -⟩ := returns_map.mp h
    exact hs.liquidate h
  | selfLiquidate borrower =>
    obtain ⟨_, h, -⟩ := returns_map.mp h
    exact hs.selfLiquidate h
  | view view =>
    simp only [entryPoint, returns_get_bind, returns_pure] at h
    obtain ⟨-, rfl⟩ := h
    exact hs

omit [DecidableEq Address] in
theorem initial (tokens : Tokens) : Healthy (State.initial tokens : State Address Tokens) where
  debt_nonneg := fun _ => le_rfl
  admitted := by rintro _ ⟨⟩

end Healthy

/-- **After both calls a position is covered.** In every storage that a run reaches, at all answers
of the oracle, a withdrawal or a mint that returns leaves a position that is worth the required
ratio, rounded down, less at most half a basis point. -/
theorem covers_after {tokens : Tokens}
    {ls : List (Event (Env host) (Call Address) Error Response)}
    (h : Run (Step (entryPoint host)) (State.initial tokens) ls s)
    (hcall : Returns (withdrawCollateral env user amount) s p t ∨
      Returns (mintStable env user amount) s p t) :
    t.position user = some p ∧ ∃ oracle params price volatility, s.oracle = some oracle ∧
      s.riskParams = some params ∧ env.latestPrice oracle = some price ∧
      env.volatilityBps oracle = some volatility ∧
      Covers ⌊requiredRatio params volatility⌋ price p := by
  have hs : Healthy s := by
    apply invariant_of_returns (I := Healthy) (P := fun _ _ _ => True) ?_ (run_unconditional h)
      (.initial tokens)
    intro env call v u w hu hreturns _
    exact hu.call hreturns
  obtain ⟨q, u, haccrue, hchecked⟩ :
      ∃ q u, Returns (accruePosition env user) s q u ∧ CheckedWrite env user p u t :=
    hcall.elim (withdrawCollateral_checks hs) (mintStable_checks hs)
  obtain ⟨horacle, hparams, -⟩ := frame_of_accrue haccrue
  have hsafe := ensureSafe_spec (hs.accrue haccrue).1 hchecked.pos_or_nonneg hchecked.safe
  rw [horacle, hparams] at hsafe
  refine ⟨?_, hsafe⟩
  rw [hchecked.position, Function.update_self]

end Runs

/-! ## Positions at the boundary -/

section Boundary

/-- A deposit of collateral that is worth as much as stable coins. -/
def sampleDeposit (amount : ℤ) : List (Env sampleHost × Call ℕ) :=
  [(sampleEnv 1 10000000, .initializeContract 9 100 101 sampleRiskParams sampleModel),
   (sampleEnv 1 10000000, .depositCollateral 1 amount)]

/-- Exactly one and a half times the debt. -/
theorem covers_after_sample :
    let s := (execute (entryPoint sampleHost) (State.initial ()) (sampleDeposit 150000)).2
    ∃ p t, Returns (mintStable (sampleEnv 1 10000000) 1 100000) s p t ∧ t.position 1 = some p ∧
      ∃ oracle params price volatility, s.oracle = some oracle ∧ s.riskParams = some params ∧
        (sampleEnv 1 10000000).latestPrice oracle = some price ∧
        (sampleEnv 1 10000000).volatilityBps oracle = some volatility ∧
        Covers ⌊requiredRatio params volatility⌋ price p := by
  intro s
  have hmint : ∃ t, Returns (mintStable (sampleEnv 1 10000000) 1 100000) s
      ⟨150000, 100000, 1⟩ t := exists_returns_of_toOption (by decide)
  obtain ⟨t, ht⟩ := hmint
  have hrun := run_execute (entryPoint sampleHost) (State.initial ()) (sampleDeposit 150000)
  exact ⟨_, t, ht, covers_after hrun (.inr ht)⟩

/-- **A position is admitted below the required ratio**: with one unit of collateral less, the ratio
is 14999.9 basis points and is rounded to 15000. -/
theorem admitted_below :
    ¬ ∀ (ls : List (Event (Env sampleHost) (Call ℕ) Error Response)) (s t : State ℕ Unit)
      (env : Env sampleHost) (user : ℕ) (amount : ℤ) (p : Position),
      Run (Step (entryPoint sampleHost)) (State.initial ()) ls s →
      Returns (withdrawCollateral env user amount) s p t ∨
        Returns (mintStable env user amount) s p t →
      ∀ oracle params price volatility, s.oracle = some oracle → s.riskParams = some params →
        env.latestPrice oracle = some price → env.volatilityBps oracle = some volatility →
        requiredRatio params volatility * p.debtAmount * priceScale ≤
          p.collateralAmount * price * bps := by
  intro h
  have hmint : ∃ t, Returns (mintStable (sampleEnv 1 10000000) 1 100000)
      (execute (entryPoint sampleHost) (State.initial ()) (sampleDeposit 149999)).2
      ⟨149999, 100000, 1⟩ t := exists_returns_of_toOption (by decide)
  obtain ⟨t, ht⟩ := hmint
  have hrun := run_execute (entryPoint sampleHost) (State.initial ()) (sampleDeposit 149999)
  have hle := h _ _ t _ 1 100000 _ hrun (.inr ht) 101 sampleRiskParams 10000000 0 rfl rfl rfl rfl
  norm_num [requiredRatio, interpolatedFloor, sampleRiskParams, priceScale, bps] at hle

end Boundary

end Cdp
