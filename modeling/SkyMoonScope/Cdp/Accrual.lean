import SkyMoonScope.Cdp.Positions

/-!
# Reading positions off the entry points

What a body reads of prices, rates and ratios leaves the storage as it is, so that the entry points
are read off as the accrual of a position and what they write after it. An accrual adds interest
that is not negative to the debt of the position, to the total of the debts and to the supply.

## Main definitions

* `Accrued`: what the accrual of a position has written

## Main results

* `accruePosition_spec`: an accrual that returns
* `quoteLiquidation_spec`: a quote writes nothing but the accrual
* `depositCollateral_spec`, `withdrawCollateral_spec`, `mintStable_spec`, `repay_spec`,
  `liquidate_spec`, `selfLiquidate_spec`: what the entry points write after it
-/

namespace Cdp

open Soroban

variable {Address Tokens α : Type} {host : Host Address Tokens} {env : Env host}
  {s t : State Address Tokens} {user : Address}

/-! ## What only reads -/

section Reads

variable {x y z price collateral debt : ℤ} {f : ℤ → Body Address Tokens α} {c : α}

@[simp] theorem returns_checked_bind :
    Returns (checked x >>= f) s c t ↔ IntType.i128.Fits x ∧ Returns (f x) s c t := by
  rw [checked, returns_orFault_bind]
  simp

@[simp] theorem returns_checked :
    Returns (checked x : Body Address Tokens ℤ) s z t ↔
      IntType.i128.Fits x ∧ x = z ∧ s = t := by
  simp [checked, and_assoc]

@[simp] theorem returns_plain_bind :
    Returns (plain x >>= f) s c t ↔ IntType.i128.Fits x ∧ Returns (f x) s c t := by
  rw [plain, returns_orFault_bind]
  simp

@[simp] theorem returns_divide_bind :
    Returns (divide x y >>= f) s c t ↔
      (y ≠ 0 ∧ IntType.i128.Fits (x.tdiv y)) ∧ Returns (f (x.tdiv y)) s c t := by
  rw [divide, returns_orFault_bind]
  constructor
  · rintro ⟨q, hq, h⟩
    obtain ⟨hy, hfits, rfl⟩ := IntType.checkedDiv_eq_some.mp hq
    exact ⟨⟨hy, hfits⟩, h⟩
  · rintro ⟨⟨hy, hfits⟩, h⟩
    exact ⟨_, IntType.checkedDiv_eq_some.mpr ⟨hy, hfits, rfl⟩, h⟩

theorem readOnly_checked : ReadOnly (checked x : Body Address Tokens ℤ) := .orFault

theorem readOnly_plain : ReadOnly (plain x : Body Address Tokens ℤ) := .orFault

theorem readOnly_divide : ReadOnly (divide x y : Body Address Tokens ℤ) := .orFault

theorem readOnly_uncoveredDebt : ReadOnly (uncoveredDebt debt x : Body Address Tokens ℤ) :=
  .ite readOnly_plain (.pure _)

theorem readOnly_readRiskParams : ReadOnly (readRiskParams : Body Address Tokens RiskParams) :=
  .bind .get fun _ => .orFault

theorem readOnly_readInterestModel :
    ReadOnly (readInterestModel : Body Address Tokens InterestRateModel) :=
  .bind .get fun _ => .orFault

theorem readOnly_readCollateralToken :
    ReadOnly (readCollateralToken : Body Address Tokens Address) :=
  .bind .get fun _ => .orFault

theorem readOnly_requireAdmin : ReadOnly (requireAdmin env) :=
  .bind .get fun _ => .bind .orFault fun _ => .require

theorem readOnly_oraclePrice : ReadOnly (oraclePrice env) :=
  .bind .get fun _ => .bind .orFault fun _ => .bind .orFault fun _ => .bind .require fun _ =>
    .pure _

theorem readOnly_oracleVolatilityBps : ReadOnly (oracleVolatilityBps env) :=
  .bind .get fun _ => .bind .orFault fun _ => .bind .orFault fun _ => .bind .require fun _ =>
    .pure _

theorem readOnly_collateralValue :
    ReadOnly (collateralValue price collateral : Body Address Tokens ℤ) :=
  .bind readOnly_checked fun _ => readOnly_divide

theorem readOnly_collateralRatioBps :
    ReadOnly (collateralRatioBps price collateral debt : Body Address Tokens ℤ) :=
  .ite (.pure _) <| .bind readOnly_checked fun _ => .bind readOnly_checked fun _ =>
    .bind readOnly_checked fun _ => .bind readOnly_divide fun _ => .bind readOnly_checked fun _ =>
      .ite readOnly_checked (.pure _)

theorem readOnly_utilizationBps : ReadOnly (utilizationBps price : Body Address Tokens ℤ) :=
  .bind .get fun _ => .bind readOnly_collateralValue fun _ => .ite (.pure _) <|
    .bind readOnly_checked fun _ => .bind readOnly_divide fun _ => .pure _

theorem readOnly_borrowRateBps {model : InterestRateModel} :
    ReadOnly (borrowRateBps model x : Body Address Tokens ℤ) :=
  .ite (.bind readOnly_checked fun _ => .bind readOnly_divide fun _ => readOnly_checked) <|
    .bind readOnly_checked fun _ => .bind readOnly_plain fun _ => .bind readOnly_checked fun _ =>
      .bind readOnly_plain fun _ => .bind readOnly_divide fun _ => readOnly_checked

theorem readOnly_currentBorrowRateBps : ReadOnly (currentBorrowRateBps env) :=
  .bind readOnly_readInterestModel fun _ => .bind readOnly_oraclePrice fun _ =>
    .bind readOnly_utilizationBps fun _ => readOnly_borrowRateBps

theorem readOnly_dynamicCollateralFloor : ReadOnly (dynamicCollateralFloor env) :=
  .bind readOnly_readRiskParams fun _ => .bind readOnly_oracleVolatilityBps fun _ =>
    .ite (.pure _) <| .ite (.pure _) <| .bind readOnly_plain fun _ => .bind readOnly_plain fun _ =>
      .bind readOnly_plain fun _ => .bind readOnly_checked fun _ => .bind readOnly_divide fun _ =>
        readOnly_checked

theorem readOnly_ensureSafe {position : Position} : ReadOnly (ensureSafe env position) :=
  .bind readOnly_oraclePrice fun _ => .bind readOnly_readRiskParams fun _ =>
    .bind readOnly_dynamicCollateralFloor fun _ => .bind readOnly_collateralRatioBps fun _ =>
      .require

end Reads

/-! ## Accrual -/

/-- The interest on a debt over a number of ledgers at a rate, as the contract computes it. -/
def interest (debt rateBps elapsed : ℤ) : ℤ :=
  ((debt * rateBps * elapsed).tdiv bps).tdiv ledgersPerYear

/-- **What an accrual has written**: the position `old` with the interest that was booked, the two
totals that grow by it, and nothing else. -/
structure Accrued [DecidableEq Address] (env : Env host) (s : State Address Tokens) (user : Address)
    (old : Position) (booked : ℤ) (p : Position) (t : State Address Tokens) : Prop where
  booked_nonneg : 0 ≤ booked
  collateral : p.collateralAmount = old.collateralAmount
  debt : p.debtAmount = old.debtAmount + booked
  ledger : p.lastAccrualLedger = env.sequence
  position : t.position = Function.update s.position user (some p)
  totalDebt : Cdp.totalDebt t = Cdp.totalDebt s + booked
  supply : totalStableSupply t = totalStableSupply s + booked
  frame : t = { s with
    position := t.position
    totalDebt := t.totalDebt
    totalStableSupply := t.totalStableSupply }

variable [DecidableEq Address]

/-- **An accrual that returns.** There is interest where the debt is positive and ledgers have
passed, at the current borrow rate; interest that is not positive is not booked. -/
theorem accruePosition_spec {p : Position} (h : Returns (accruePosition env user) s p t) :
    ∃ booked, Accrued env s user (readPosition env.sequence s user) booked p t ∧
      ((readPosition env.sequence s user).debtAmount ≤ 0 ∨
          env.sequence ≤ (readPosition env.sequence s user).lastAccrualLedger → booked = 0) ∧
      (0 < (readPosition env.sequence s user).debtAmount →
        (readPosition env.sequence s user).lastAccrualLedger < env.sequence →
          ∃ rateBps, Returns (currentBorrowRateBps env) s rateBps s ∧
            booked = max (interest (readPosition env.sequence s user).debtAmount rateBps
              (env.sequence - (readPosition env.sequence s user).lastAccrualLedger)) 0) := by
  simp only [accruePosition, writePosition, returns_get_bind] at h
  generalize readPosition env.sequence s user = position at h ⊢
  split at h
  next hidle =>
    simp only [bind_assoc, returns_get_bind, returns_set_bind, returns_pure] at h
    obtain ⟨rfl, rfl⟩ := h
    refine ⟨0, ⟨le_rfl, rfl, (add_zero _).symm, rfl, rfl, (add_zero _).symm, (add_zero _).symm,
      rfl⟩, fun _ => rfl, ?_⟩
    intro hdebt hledger
    omega
  next hactive =>
    simp only [bind_assoc, returns_bind_of_readOnly readOnly_currentBorrowRateBps,
      returns_checked_bind, bookInterest] at h
    obtain ⟨rateBps, hrate, -, -, h⟩ := h
    have hinterest : ((position.debtAmount * rateBps *
        (env.sequence - position.lastAccrualLedger)).tdiv bps).tdiv ledgersPerYear =
        interest position.debtAmount rateBps (env.sequence - position.lastAccrualLedger) := rfl
    rw [hinterest] at h
    refine ⟨max (interest position.debtAmount rateBps
      (env.sequence - position.lastAccrualLedger)) 0, ?_, fun hidle => absurd hidle hactive,
      fun _ _ => ⟨rateBps, hrate, rfl⟩⟩
    split at h
    next hpos =>
      simp only [setTotalDebt, setTotalStableSupply, bind_assoc, returns_checked_bind,
        returns_get_bind, returns_set_bind, pure_bind, returns_pure] at h
      obtain ⟨-, -, -, rfl, rfl⟩ := h
      rw [max_eq_left hpos.le]
      exact ⟨hpos.le, rfl, rfl, rfl, rfl, rfl, rfl, rfl⟩
    next hpos =>
      simp only [pure_bind, returns_get_bind, returns_set_bind, returns_pure] at h
      obtain ⟨rfl, rfl⟩ := h
      rw [max_eq_right (not_lt.mp hpos)]
      exact ⟨le_rfl, rfl, (add_zero _).symm, rfl, rfl, (add_zero _).symm, (add_zero _).symm, rfl⟩

/-- **A quote writes nothing but the accrual** of the position, and repays at most the debt. -/
theorem quoteLiquidation_spec {requested : ℤ} {quote : LiquidationQuote}
    (h : Returns (quoteLiquidation env user requested) s quote t) :
    ∃ p, Returns (accruePosition env user) s p t ∧ quote.repayAmount ≤ p.debtAmount := by
  simp only [quoteLiquidation, returns_require_bind] at h
  obtain ⟨-, h⟩ := h
  obtain ⟨p, u, hp, h⟩ := returns_bind.mp h
  simp only [returns_bind_of_readOnly readOnly_readRiskParams,
    returns_bind_of_readOnly readOnly_oraclePrice,
    returns_bind_of_readOnly readOnly_collateralRatioBps,
    returns_bind_of_readOnly readOnly_collateralValue, returns_require_bind, returns_checked_bind,
    returns_plain_bind, returns_divide_bind, returns_pure] at h
  obtain ⟨_, -, _, -, _, -, -, _, -, -, -, -, -, -, -, -, -, -, rfl, rfl⟩ := h
  exact ⟨p, hp, (min_le_left _ _).trans (min_le_right _ _)⟩

/-! ## What follows the accrual -/

section Effects

variable {p : Position} {amount : ℤ}

omit [DecidableEq Address] in
/-- A position is checked and found safe. -/
theorem returns_ensureSafe_bind {α : Type} {f : Unit → Body Address Tokens α} {c : α} :
    Returns (ensureSafe env p >>= f) s c t ↔
      Returns (ensureSafe env p) s () s ∧ Returns (f ()) s c t := by
  rw [returns_bind_of_readOnly readOnly_ensureSafe]
  exact ⟨fun ⟨_, h⟩ => h, fun h => ⟨(), h⟩⟩

theorem depositCollateral_spec (h : Returns (depositCollateral env user amount) s p t) :
    env.auth user = true ∧ ∃ q u tokens, Returns (accruePosition env user) s q u ∧
      p = { q with collateralAmount := q.collateralAmount + amount } ∧
      t = { u with
        position := Function.update u.position user (some p)
        totalCollateral := some (totalCollateral u + amount)
        tokens
        transfers := ⟨user, host.currentContractAddress, amount⟩ :: u.transfers } := by
  simp only [depositCollateral, requireAuth, returns_require_bind,
    returns_bind_of_readOnly readOnly_readCollateralToken] at h
  obtain ⟨hauth, -, token, -, h⟩ := h
  obtain ⟨q, u, haccrue, h⟩ := returns_bind.mp h
  simp only [transfer, writePosition, setTotalCollateral, bind_assoc, returns_get_bind,
    returns_orFault_bind, returns_set_bind, returns_checked_bind, returns_pure] at h
  obtain ⟨tokens, -, -, -, rfl, rfl⟩ := h
  exact ⟨hauth, q, u, tokens, haccrue, rfl, rfl⟩

/-- What is withdrawn is at most the collateral, and the rest is safe. -/
theorem withdrawCollateral_spec (h : Returns (withdrawCollateral env user amount) s p t) :
    env.auth user = true ∧ ∃ q u tokens, Returns (accruePosition env user) s q u ∧
      amount ≤ q.collateralAmount ∧
      p = { q with collateralAmount := q.collateralAmount - amount } ∧
      Returns (ensureSafe env p) u () u ∧
      t = { u with
        position := Function.update u.position user (some p)
        totalCollateral := some (totalCollateral u - amount)
        tokens
        transfers := ⟨host.currentContractAddress, user, amount⟩ :: u.transfers } := by
  simp only [withdrawCollateral, requireAuth, returns_require_bind,
    returns_bind_of_readOnly readOnly_readCollateralToken] at h
  obtain ⟨hauth, -, token, -, h⟩ := h
  obtain ⟨q, u, haccrue, h⟩ := returns_bind.mp h
  simp only [transfer, writePosition, setTotalCollateral, bind_assoc, returns_get_bind,
    returns_require_bind, returns_ensureSafe_bind, returns_orFault_bind, returns_set_bind,
    returns_checked_bind, returns_pure] at h
  obtain ⟨hcover, -, hsafe, -, tokens, -, rfl, rfl⟩ := h
  exact ⟨hauth, q, u, tokens, haccrue, not_lt.mp hcover, rfl, hsafe, rfl⟩

/-- What is minted is positive, and the indebted position is safe. -/
theorem mintStable_spec (h : Returns (mintStable env user amount) s p t) :
    env.auth user = true ∧ 0 < amount ∧ ∃ q u, Returns (accruePosition env user) s q u ∧
      p = { q with debtAmount := q.debtAmount + amount } ∧
      Returns (ensureSafe env p) u () u ∧
      t = { u with
        stableBalance :=
          Function.update u.stableBalance user (some (readStableBalance u user + amount))
        position := Function.update u.position user (some p)
        totalDebt := some (totalDebt u + amount)
        totalStableSupply := some (totalStableSupply u + amount) } := by
  simp only [mintStable, requireAuth, returns_require_bind] at h
  obtain ⟨hauth, hpos, h⟩ := h
  obtain ⟨q, u, haccrue, h⟩ := returns_bind.mp h
  simp only [writeStableBalance, writePosition, setTotalDebt, setTotalStableSupply, bind_assoc,
    returns_get_bind, returns_ensureSafe_bind, returns_set_bind, returns_checked_bind,
    returns_pure] at h
  obtain ⟨-, hsafe, -, -, -, rfl, rfl⟩ := h
  exact ⟨hauth, not_le.mp hpos, q, u, haccrue, rfl, hsafe, rfl⟩

/-- What is repaid is at most the debt. -/
theorem repay_spec (h : Returns (repay env user amount) s p t) :
    env.auth user = true ∧ ∃ q u r, Returns (accruePosition env user) s q u ∧
      0 < readStableBalance u user ∧ r ≤ q.debtAmount ∧
      p = { q with debtAmount := q.debtAmount - r } ∧
      t = { u with
        stableBalance :=
          Function.update u.stableBalance user (some (readStableBalance u user - r))
        position := Function.update u.position user (some p)
        totalDebt := some (totalDebt u - r)
        totalStableSupply := some (totalStableSupply u - r) } := by
  simp only [repay, requireAuth, returns_require_bind] at h
  obtain ⟨hauth, -, h⟩ := h
  obtain ⟨q, u, haccrue, h⟩ := returns_bind.mp h
  simp only [returns_get_bind, returns_require_bind] at h
  obtain ⟨hbalance, -, h⟩ := h
  -- the amount is cut to the balance first, and what is left of it to the debt
  generalize (if amount > readStableBalance u user then readStableBalance u user else amount) =
    affordable at h
  have hle : (if affordable > q.debtAmount then q.debtAmount else affordable) ≤ q.debtAmount := by
    split <;> omega
  simp only [writeStableBalance, writePosition, setTotalDebt, setTotalStableSupply, bind_assoc,
    returns_get_bind, returns_set_bind, returns_checked_bind, returns_pure] at h
  obtain ⟨-, -, -, -, rfl, rfl⟩ := h
  exact ⟨hauth, q, u, _, haccrue, not_le.mp hbalance, hle, rfl, rfl⟩

/-- The position is read again, as the quote has left it. -/
theorem liquidate_spec {liquidator borrower : Address} {requested : ℤ} {quote : LiquidationQuote}
    (h : Returns (liquidate env liquidator borrower requested) s quote t) :
    env.auth liquidator = true ∧ ∃ u tokens,
      Returns (quoteLiquidation env borrower requested) s quote u ∧
      t = { u with
        stableBalance := Function.update u.stableBalance liquidator
          (some (readStableBalance u liquidator - quote.repayAmount))
        position := Function.update u.position borrower (some
          { readPosition env.sequence u borrower with
            debtAmount :=
              (readPosition env.sequence u borrower).debtAmount - quote.repayAmount
            collateralAmount :=
              (readPosition env.sequence u borrower).collateralAmount - quote.collateralToSeize })
        totalDebt := some (totalDebt u - quote.repayAmount)
        totalStableSupply := some (totalStableSupply u - quote.repayAmount)
        totalCollateral := some (totalCollateral u - quote.collateralToSeize)
        tokens
        transfers :=
          ⟨host.currentContractAddress, liquidator, quote.collateralToSeize⟩ :: u.transfers } := by
  simp only [liquidate, requireAuth, returns_require_bind] at h
  obtain ⟨hauth, h⟩ := h
  obtain ⟨quoted, u, hquote, h⟩ := returns_bind.mp h
  simp only [transfer, writeStableBalance, writePosition, setTotalDebt, setTotalStableSupply,
    setTotalCollateral, bind_assoc, returns_get_bind, returns_require_bind,
    returns_bind_of_readOnly readOnly_readCollateralToken, returns_orFault_bind, returns_set_bind,
    returns_checked_bind, returns_pure] at h
  obtain ⟨-, token, -, -, -, -, -, -, -, tokens, -, rfl, rfl⟩ := h
  exact ⟨hauth, u, tokens, hquote, rfl⟩

/-- The whole position is taken over, whatever part of the debt is bad. -/
theorem selfLiquidate_spec (h : Returns (selfLiquidate env user) s p t) :
    ∃ q u bad, Returns (accruePosition env user) s q u ∧
      p = { collateralAmount := 0, debtAmount := 0, lastAccrualLedger := env.sequence } ∧
      t = { u with
        position := Function.update u.position user (some p)
        protocolCollateralReserves := some (protocolCollateralReserves u + q.collateralAmount)
        totalBadDebt := some (totalBadDebt u + bad)
        totalDebt := some (totalDebt u - (q.debtAmount - bad))
        totalCollateral := some (totalCollateral u - q.collateralAmount) } := by
  rw [selfLiquidate] at h
  obtain ⟨q, u, haccrue, h⟩ := returns_bind.mp h
  simp only [returns_bind_of_readOnly readOnly_readRiskParams,
    returns_bind_of_readOnly readOnly_oraclePrice,
    returns_bind_of_readOnly readOnly_collateralRatioBps,
    returns_bind_of_readOnly readOnly_collateralValue, returns_require_bind, returns_checked_bind,
    returns_plain_bind, returns_divide_bind, returns_bind_of_readOnly readOnly_uncoveredDebt,
    writePosition, bind_assoc, returns_get_bind, returns_set_bind, returns_pure] at h
  -- the parameters, the price, the ratio and the value of the collateral are only read
  obtain ⟨_, -, _, -, _, -, -, _, -, -, -, -, bad, -, -, -, -, -, -, rfl, rfl⟩ := h
  exact ⟨q, u, bad, haccrue, rfl, rfl⟩

end Effects

end Cdp
