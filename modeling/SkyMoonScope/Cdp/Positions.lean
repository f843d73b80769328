import SkyMoonScope.Lib.Integers
import SkyMoonScope.Soroban.Calls

/-!
# Collateralized debt positions

The contract of `contracts/cdp/src/lib.rs`. A position has collateral and a debt of the stable
token, which the contract itself keeps; the debt grows by interest whenever the position is looked
at. The collateral token and the oracle are other contracts. A `checked_` method returns
`Error::MathOverflow` where its value leaves the range of the type, a plain operator traps there,
and division truncates. Events and the lifetimes of storage entries are left out.

## Main definitions

* `State`: the storage, with the storage of the token contracts and the transfers made so far
* `Host`, `Env`: the token contracts, and what a call is given
* `accruePosition`: the interest of a position up to the current ledger
* `quoteLiquidation`, `liquidate`, `selfLiquidate`: the two kinds of liquidations
* `Call`, `entryPoint`: the entry points
-/

namespace Cdp

open Soroban

def bps : ℤ := 10000

def priceScale : ℤ := 10000000

def ledgersPerYear : ℤ := 6307200

inductive Error
  | alreadyInitialized
  | notInitialized
  | invalidAmount
  | invalidConfig
  | positionNotFound
  | positionHealthy
  | undercollateralized
  | insufficientCollateral
  | insufficientStableBalance
  | oracleNotConfigured
  | invalidOraclePrice
  | liquidationUnavailable
  | mathOverflow
  | volatilityNotAvailable
  | volatilityTooHigh
deriving DecidableEq

structure Position where
  collateralAmount : ℤ
  debtAmount : ℤ
  lastAccrualLedger : ℤ
deriving DecidableEq

structure VolatilityConfig where
  lowVolatilityThresholdBps : ℤ
  highVolatilityThresholdBps : ℤ
  baseCollateralFloorBps : ℤ
  maxCollateralFloorBps : ℤ
deriving DecidableEq

structure RiskParams where
  minCollateralRatioBps : ℤ
  liquidationIncentiveBps : ℤ
  volatilityConfig : VolatilityConfig
deriving DecidableEq

structure InterestRateModel where
  baseRateBps : ℤ
  slope1Bps : ℤ
  slope2Bps : ℤ
  optimalUtilizationBps : ℤ
deriving DecidableEq

structure LiquidationQuote where
  repayAmount : ℤ
  collateralToSeize : ℤ
  incentiveAmount : ℤ
deriving DecidableEq

/-- A transfer of the collateral token that the contract has made. -/
structure Transfer (Address : Type) where
  source : Address
  destination : Address
  amount : ℤ

/-- The storage, with a field for every kind of `DataKey` that is used, the storage `Tokens` of the
token contracts, and a record of the transfers that the contract has made. -/
structure State (Address Tokens : Type) where
  admin : Option Address
  collateralToken : Option Address
  oracle : Option Address
  totalCollateral : Option ℤ
  totalDebt : Option ℤ
  totalStableSupply : Option ℤ
  protocolCollateralReserves : Option ℤ
  totalBadDebt : Option ℤ
  riskParams : Option RiskParams
  interestRateModel : Option InterestRateModel
  position : Address → Option Position
  stableBalance : Address → Option ℤ
  tokens : Tokens
  transfers : List (Transfer Address)

/-- The storage before the first call. -/
def State.initial {Address Tokens : Type} (tokens : Tokens) : State Address Tokens where
  admin := none
  collateralToken := none
  oracle := none
  totalCollateral := none
  totalDebt := none
  totalStableSupply := none
  protocolCollateralReserves := none
  totalBadDebt := none
  riskParams := none
  interestRateModel := none
  position := fun _ => none
  stableBalance := fun _ => none
  tokens := tokens
  transfers := []

/-- The contract's own address, and a transfer of a token contract, which it may refuse. -/
structure Host (Address Tokens : Type) where
  currentContractAddress : Address
  transfer : Address → Address → Address → ℤ → Tokens → Option Tokens

/-- What a call is given: the ledger, who authorized the call, and the answers of the oracles. The
contract itself authorizes no call, as it makes none of its own entry points. An oracle without an
answer traps. -/
structure Env {Address Tokens : Type} (host : Host Address Tokens) where
  sequence : ℤ
  auth : Address → Bool
  auth_contract : auth host.currentContractAddress = false
  latestPrice : Address → Option ℤ
  volatilityBps : Address → Option ℤ

variable {Address Tokens : Type}

abbrev Body (Address Tokens α : Type) := Contract (State Address Tokens) Error α

/-! ## Arithmetic -/

/-- A `checked_` method on `i128` values, followed by `.ok_or(Error::MathOverflow)?`. -/
def checked (x : ℤ) : Body Address Tokens ℤ :=
  orFault (IntType.i128.checked x) (.error .mathOverflow)

/-- A plain operator on `i128` values, which traps on overflow. -/
def plain (x : ℤ) : Body Address Tokens ℤ :=
  orFault (IntType.i128.checked x) (.trap "arithmetic operation with overflow")

/-- Division of `i128` values, which traps on a zero divisor. -/
def divide (x y : ℤ) : Body Address Tokens ℤ :=
  orFault (IntType.i128.checkedDiv x y) (.trap "attempt to divide by zero")

/-! ## Reading the storage -/

def readRiskParams : Body Address Tokens RiskParams := do
  let s ← get
  orFault s.riskParams (.error .notInitialized)

def readInterestModel : Body Address Tokens InterestRateModel := do
  let s ← get
  orFault s.interestRateModel (.error .notInitialized)

def readCollateralToken : Body Address Tokens Address := do
  let s ← get
  orFault s.collateralToken (.error .notInitialized)

/-- The position of a user; a new one is accrued up to the current ledger. -/
def readPosition (sequence : ℤ) (s : State Address Tokens) (user : Address) : Position :=
  (s.position user).getD { collateralAmount := 0, debtAmount := 0, lastAccrualLedger := sequence }

def readStableBalance (s : State Address Tokens) (user : Address) : ℤ :=
  (s.stableBalance user).getD 0

def totalDebt (s : State Address Tokens) : ℤ := s.totalDebt.getD 0

def totalCollateral (s : State Address Tokens) : ℤ := s.totalCollateral.getD 0

def totalStableSupply (s : State Address Tokens) : ℤ := s.totalStableSupply.getD 0

def protocolCollateralReserves (s : State Address Tokens) : ℤ :=
  s.protocolCollateralReserves.getD 0

def totalBadDebt (s : State Address Tokens) : ℤ := s.totalBadDebt.getD 0

section Writes

variable [DecidableEq Address]

def writePosition (user : Address) (position : Position) : Body Address Tokens Unit := do
  let s ← get
  set { s with position := Function.update s.position user (some position) }

def writeStableBalance (user : Address) (amount : ℤ) : Body Address Tokens Unit := do
  let s ← get
  set { s with stableBalance := Function.update s.stableBalance user (some amount) }

end Writes

def setTotalDebt (x : ℤ) : Body Address Tokens Unit := do
  let s ← get
  set { s with totalDebt := some x }

def setTotalStableSupply (x : ℤ) : Body Address Tokens Unit := do
  let s ← get
  set { s with totalStableSupply := some x }

def setTotalCollateral (x : ℤ) : Body Address Tokens Unit := do
  let s ← get
  set { s with totalCollateral := some x }

/-! ## Prices and rates -/

section Rates

variable {host : Host Address Tokens} (env : Env host)

def requireAuth (addr : Address) : Body Address Tokens Unit :=
  require (env.auth addr) (.trap "Error(Auth, InvalidAction)")

def requireAdmin : Body Address Tokens Unit := do
  let s ← get
  let admin ← orFault s.admin (.error .notInitialized)
  requireAuth env admin

def oraclePrice : Body Address Tokens ℤ := do
  let s ← get
  let oracle ← orFault s.oracle (.error .oracleNotConfigured)
  let price ← orFault (env.latestPrice oracle) (.trap "Error(Contract)")
  require (¬price ≤ 0) (.error .invalidOraclePrice)
  pure price

def oracleVolatilityBps : Body Address Tokens ℤ := do
  let s ← get
  let oracle ← orFault s.oracle (.error .oracleNotConfigured)
  let volatility ← orFault (env.volatilityBps oracle) (.trap "Error(Contract)")
  require (¬volatility < 0) (.error .volatilityNotAvailable)
  pure volatility

def collateralValue (price collateralAmount : ℤ) : Body Address Tokens ℤ := do
  let value ← checked (collateralAmount * price)
  divide value priceScale

/-- The ratio of the collateral's value to the debt, rounded to the nearest basis point. -/
def collateralRatioBps (price collateralAmount debtAmount : ℤ) : Body Address Tokens ℤ := do
  if debtAmount ≤ 0 then pure IntType.i128.hi
  else
    let numerator ← checked (collateralAmount * price)
    let scaledNumerator ← checked (numerator * bps)
    let denominator ← checked (debtAmount * priceScale)
    let ratio ← divide scaledNumerator denominator
    let remainder := scaledNumerator.tmod denominator
    let remainderTwice ← checked (remainder * 2)
    if remainderTwice ≥ denominator then checked (ratio + 1) else pure ratio

def utilizationBps (price : ℤ) : Body Address Tokens ℤ := do
  let s ← get
  let collateralValueTotal ← collateralValue price (totalCollateral s)
  if collateralValueTotal ≤ 0 then pure 0
  else
    let scaled ← checked (totalDebt s * bps)
    let util ← divide scaled collateralValueTotal
    pure (if util > bps then bps else util)

def borrowRateBps (model : InterestRateModel) (utilization : ℤ) : Body Address Tokens ℤ := do
  if utilization ≤ model.optimalUtilizationBps then
    let product ← checked (utilization * model.slope1Bps)
    let variableRate ← divide product model.optimalUtilizationBps
    checked (model.baseRateBps + variableRate)
  else
    let base ← checked (model.baseRateBps + model.slope1Bps)
    let excessUtil ← plain (utilization - model.optimalUtilizationBps)
    let product ← checked (excessUtil * model.slope2Bps)
    let room ← plain (bps - model.optimalUtilizationBps)
    let tail ← divide product room
    checked (base + tail)

/-- The borrow rate for the current price and utilization. -/
def currentBorrowRateBps : Body Address Tokens ℤ := do
  let model ← readInterestModel
  let price ← oraclePrice env
  let utilization ← utilizationBps price
  borrowRateBps model utilization

variable [DecidableEq Address]

/-- Books interest on a position: the debt, the total of the debts and the supply all grow by it. -/
def bookInterest (position : Position) (interest : ℤ) : Body Address Tokens Position := do
  if interest > 0 then
    let debtAmount ← checked (position.debtAmount + interest)
    let s ← get
    let newTotalDebt ← checked (totalDebt s + interest)
    setTotalDebt newTotalDebt
    let newSupply ← checked (totalStableSupply s + interest)
    setTotalStableSupply newSupply
    pure { position with debtAmount }
  else
    pure position

/-- **Accrual**: the interest since the last accrual at the current rate, rounded down. Where there
is none the position is only marked as accrued up to now. -/
def accruePosition (user : Address) : Body Address Tokens Position := do
  let s ← get
  let position := readPosition env.sequence s user
  let now := env.sequence
  if position.debtAmount ≤ 0 ∨ position.lastAccrualLedger ≥ now then
    let accrued := { position with lastAccrualLedger := now }
    writePosition user accrued
    pure accrued
  else
    let elapsed := now - position.lastAccrualLedger
    let rateBps ← currentBorrowRateBps env
    let perYear ← checked (position.debtAmount * rateBps)
    let product ← checked (perYear * elapsed)
    let interest := (product.tdiv bps).tdiv ledgersPerYear
    let booked ← bookInterest position interest
    let accrued := { booked with lastAccrualLedger := now }
    writePosition user accrued
    pure accrued

/-- The floor of the collateral ratio, which rises with the volatility between two thresholds. -/
def dynamicCollateralFloor : Body Address Tokens ℤ := do
  let params ← readRiskParams
  let volatility ← oracleVolatilityBps env
  let config := params.volatilityConfig
  if volatility ≤ config.lowVolatilityThresholdBps then pure config.baseCollateralFloorBps
  else if volatility ≥ config.highVolatilityThresholdBps then pure config.maxCollateralFloorBps
  else
    let volatilityRange ←
      plain (config.highVolatilityThresholdBps - config.lowVolatilityThresholdBps)
    let volatilityAboveLow ← plain (volatility - config.lowVolatilityThresholdBps)
    let floorRange ← plain (config.maxCollateralFloorBps - config.baseCollateralFloorBps)
    let product ← checked (floorRange * volatilityAboveLow)
    let additionalFloor ← divide product volatilityRange
    checked (config.baseCollateralFloorBps + additionalFloor)

def ensureSafe (position : Position) : Body Address Tokens Unit := do
  let price ← oraclePrice env
  let params ← readRiskParams
  let dynamicFloor ← dynamicCollateralFloor env
  let ratio ← collateralRatioBps price position.collateralAmount position.debtAmount
  let requiredRatio :=
    if params.minCollateralRatioBps > dynamicFloor then params.minCollateralRatioBps
    else dynamicFloor
  require (¬ratio < requiredRatio) (.error .undercollateralized)

end Rates

/-! ## Entry points -/

section EntryPoints

variable [DecidableEq Address] {host : Host Address Tokens} (env : Env host)

/-- A transfer of the collateral token, which is recorded; where it fails, the contract traps. -/
def transfer (host : Host Address Tokens) (token source destination : Address) (amount : ℤ) :
    Body Address Tokens Unit := do
  let s ← get
  let tokens ← orFault (host.transfer token source destination amount s.tokens)
    (.trap "Error(Contract)")
  set { s with tokens, transfers := { source, destination, amount } :: s.transfers }

def initializeContract (admin collateralToken oracle : Address) (params : RiskParams)
    (model : InterestRateModel) : Body Address Tokens Unit := do
  let s ← get
  require s.admin.isNone (.error .alreadyInitialized)
  let config := params.volatilityConfig
  require (¬(params.minCollateralRatioBps ≤ bps
    ∨ params.liquidationIncentiveBps < 0
    ∨ model.optimalUtilizationBps ≤ 0
    ∨ model.optimalUtilizationBps ≥ bps
    ∨ config.lowVolatilityThresholdBps < 0
    ∨ config.highVolatilityThresholdBps ≤ config.lowVolatilityThresholdBps
    ∨ config.baseCollateralFloorBps < bps
    ∨ config.maxCollateralFloorBps < config.baseCollateralFloorBps
    ∨ config.maxCollateralFloorBps > bps * 3)) (.error .invalidConfig)
  set { s with
    admin := some admin
    collateralToken := some collateralToken
    oracle := some oracle
    riskParams := some params
    interestRateModel := some model
    totalCollateral := some 0
    totalDebt := some 0
    totalStableSupply := some 0
    protocolCollateralReserves := some 0
    totalBadDebt := some 0 }

def setOracle (oracle : Address) : Body Address Tokens Unit := do
  requireAdmin env
  let s ← get
  set { s with oracle := some oracle }

def setLiquidationThreshold (minCollateralRatioBps : ℤ) : Body Address Tokens Unit := do
  requireAdmin env
  require (¬(minCollateralRatioBps ≤ bps ∨ minCollateralRatioBps > bps * 10))
    (.error .invalidConfig)
  let params ← readRiskParams
  let s ← get
  set { s with riskParams := some { params with minCollateralRatioBps } }

def setLiquidationIncentive (liquidationIncentiveBps : ℤ) : Body Address Tokens Unit := do
  requireAdmin env
  require (¬(liquidationIncentiveBps < 0 ∨ liquidationIncentiveBps ≥ bps))
    (.error .invalidConfig)
  let params ← readRiskParams
  let s ← get
  set { s with riskParams := some { params with liquidationIncentiveBps } }

def depositCollateral (user : Address) (amount : ℤ) : Body Address Tokens Position := do
  requireAuth env user
  require (¬amount ≤ 0) (.error .invalidAmount)
  let collateralToken ← readCollateralToken
  let position ← accruePosition env user
  transfer host collateralToken user host.currentContractAddress amount
  let collateralAmount ← checked (position.collateralAmount + amount)
  let deposited := { position with collateralAmount }
  writePosition user deposited
  let s ← get
  let total ← checked (totalCollateral s + amount)
  setTotalCollateral total
  pure deposited

def withdrawCollateral (user : Address) (amount : ℤ) : Body Address Tokens Position := do
  requireAuth env user
  require (¬amount ≤ 0) (.error .invalidAmount)
  let collateralToken ← readCollateralToken
  let position ← accruePosition env user
  require (¬amount > position.collateralAmount) (.error .insufficientCollateral)
  let collateralAmount ← checked (position.collateralAmount - amount)
  let rest := { position with collateralAmount }
  ensureSafe env rest
  writePosition user rest
  let s ← get
  let total ← checked (totalCollateral s - amount)
  setTotalCollateral total
  transfer host collateralToken host.currentContractAddress user amount
  pure rest

def mintStable (user : Address) (amount : ℤ) : Body Address Tokens Position := do
  requireAuth env user
  require (¬amount ≤ 0) (.error .invalidAmount)
  let position ← accruePosition env user
  let debtAmount ← checked (position.debtAmount + amount)
  let indebted := { position with debtAmount }
  ensureSafe env indebted
  let s ← get
  let newBalance ← checked (readStableBalance s user + amount)
  writeStableBalance user newBalance
  writePosition user indebted
  let total ← checked (totalDebt s + amount)
  setTotalDebt total
  let totalSupply ← checked (totalStableSupply s + amount)
  setTotalStableSupply totalSupply
  pure indebted

def repay (user : Address) (amount : ℤ) : Body Address Tokens Position := do
  requireAuth env user
  require (¬amount ≤ 0) (.error .invalidAmount)
  let position ← accruePosition env user
  let s ← get
  let balance := readStableBalance s user
  require (¬balance ≤ 0) (.error .insufficientStableBalance)
  let affordable := if amount > balance then balance else amount
  let repayAmount := if affordable > position.debtAmount then position.debtAmount else affordable
  require (¬repayAmount ≤ 0) (.error .invalidAmount)
  let debtAmount ← checked (position.debtAmount - repayAmount)
  let repaid := { position with debtAmount }
  let newBalance ← checked (balance - repayAmount)
  writeStableBalance user newBalance
  writePosition user repaid
  let total ← checked (totalDebt s - repayAmount)
  setTotalDebt total
  let totalSupply ← checked (totalStableSupply s - repayAmount)
  setTotalStableSupply totalSupply
  pure repaid

/-- The balance of the destination is read after the source was written. -/
def transferStable (source destination : Address) (amount : ℤ) : Body Address Tokens Unit := do
  requireAuth env source
  require (¬amount ≤ 0) (.error .invalidAmount)
  let s ← get
  let fromBalance := readStableBalance s source
  require (¬fromBalance < amount) (.error .insufficientStableBalance)
  let rest ← checked (fromBalance - amount)
  writeStableBalance source rest
  let t ← get
  let received ← checked (readStableBalance t destination + amount)
  writeStableBalance destination received

/-- What a liquidation of a position would repay and seize. It accrues the position. -/
def quoteLiquidation (borrower : Address) (requestedRepayAmount : ℤ) :
    Body Address Tokens LiquidationQuote := do
  require (¬requestedRepayAmount ≤ 0) (.error .invalidAmount)
  let position ← accruePosition env borrower
  let params ← readRiskParams
  let price ← oraclePrice env
  let ratio ← collateralRatioBps price position.collateralAmount position.debtAmount
  require (¬ratio ≥ params.minCollateralRatioBps) (.error .positionHealthy)
  let collateralValueTotal ← collateralValue price position.collateralAmount
  let scaledValue ← checked (collateralValueTotal * bps)
  let factor ← plain (bps + params.liquidationIncentiveBps)
  let maxCoverableRepay ← divide scaledValue factor
  let repayAmount := min (min requestedRepayAmount position.debtAmount) maxCoverableRepay
  require (¬repayAmount ≤ 0) (.error .liquidationUnavailable)
  let scaledRepay ← checked (repayAmount * factor)
  let seizeValue ← divide scaledRepay bps
  let scaledSeize ← checked (seizeValue * priceScale)
  let seized ← divide scaledSeize price
  let collateralToSeize :=
    if seized > position.collateralAmount then position.collateralAmount else seized
  let incentiveAmount ← checked (seizeValue - repayAmount)
  pure { repayAmount, collateralToSeize, incentiveAmount }

def liquidate (liquidator borrower : Address) (requestedRepayAmount : ℤ) :
    Body Address Tokens LiquidationQuote := do
  requireAuth env liquidator
  let quote ← quoteLiquidation env borrower requestedRepayAmount
  let s ← get
  let liquidatorBalance := readStableBalance s liquidator
  require (¬liquidatorBalance < quote.repayAmount) (.error .insufficientStableBalance)
  let collateralToken ← readCollateralToken
  -- the position that the quote has written
  let position := readPosition env.sequence s borrower
  let debtAmount ← checked (position.debtAmount - quote.repayAmount)
  let collateralAmount ← checked (position.collateralAmount - quote.collateralToSeize)
  let newBalance ← checked (liquidatorBalance - quote.repayAmount)
  writeStableBalance liquidator newBalance
  writePosition borrower { position with debtAmount, collateralAmount }
  let debt ← checked (totalDebt s - quote.repayAmount)
  setTotalDebt debt
  let supply ← checked (totalStableSupply s - quote.repayAmount)
  setTotalStableSupply supply
  let collateral ← checked (totalCollateral s - quote.collateralToSeize)
  setTotalCollateral collateral
  transfer host collateralToken host.currentContractAddress liquidator quote.collateralToSeize
  pure quote

/-- The part of a debt that the collateral does not cover. -/
def uncoveredDebt (debtAmount repayCoverable : ℤ) : Body Address Tokens ℤ :=
  if debtAmount > repayCoverable then plain (debtAmount - repayCoverable) else pure 0

/-- The protocol takes over the whole position, and records as bad debt what the collateral does not
cover. Nobody has to authorize it. -/
def selfLiquidate (borrower : Address) : Body Address Tokens Position := do
  let position ← accruePosition env borrower
  let params ← readRiskParams
  let price ← oraclePrice env
  let ratio ← collateralRatioBps price position.collateralAmount position.debtAmount
  require (¬ratio ≥ params.minCollateralRatioBps) (.error .positionHealthy)
  let collateralValueTotal ← collateralValue price position.collateralAmount
  let scaledValue ← checked (collateralValueTotal * bps)
  let factor ← plain (bps + params.liquidationIncentiveBps)
  let repayCoverable ← divide scaledValue factor
  let badDebt ← uncoveredDebt position.debtAmount repayCoverable
  let debtRepaid ← plain (position.debtAmount - badDebt)
  let seizedCollateral := position.collateralAmount
  let s ← get
  let reserves ← checked (protocolCollateralReserves s + seizedCollateral)
  let totalBad ← checked (totalBadDebt s + badDebt)
  let debt ← checked (totalDebt s - debtRepaid)
  let collateral ← checked (totalCollateral s - seizedCollateral)
  set { s with
    protocolCollateralReserves := some reserves
    totalBadDebt := some totalBad
    totalDebt := some debt
    totalCollateral := some collateral }
  let closed : Position :=
    { collateralAmount := 0, debtAmount := 0, lastAccrualLedger := env.sequence }
  writePosition borrower closed
  pure closed

end EntryPoints

/-! ## Calls -/

/-- An entry point that reads the storage and cannot fail. -/
inductive View (Address : Type)
  | getPosition (user : Address)
  | stableBalance (user : Address)
  | totalDebt
  | totalStableSupply
  | protocolCollateralReserves
  | totalBadDebt

/-- A call of an entry point. -/
inductive Call (Address : Type)
  | initializeContract (admin collateralToken oracle : Address) (params : RiskParams)
      (model : InterestRateModel)
  | setOracle (oracle : Address)
  | setLiquidationThreshold (minCollateralRatioBps : ℤ)
  | setLiquidationIncentive (liquidationIncentiveBps : ℤ)
  | getRiskParams
  | liquidationThresholdBps
  | currentBorrowRateBps
  | collateralRatioBps (user : Address)
  | dynamicCollateralFloor
  | currentVolatilityBps
  | depositCollateral (user : Address) (amount : ℤ)
  | withdrawCollateral (user : Address) (amount : ℤ)
  | mintStable (user : Address) (amount : ℤ)
  | repay (user : Address) (amount : ℤ)
  | transferStable (source destination : Address) (amount : ℤ)
  | quoteLiquidation (borrower : Address) (requestedRepayAmount : ℤ)
  | liquidate (liquidator borrower : Address) (requestedRepayAmount : ℤ)
  | selfLiquidate (borrower : Address)
  | view (view : View Address)

/-- What a call returns. -/
inductive Response
  | unit
  | amount (x : ℤ)
  | params (p : RiskParams)
  | position (p : Position)
  | quote (q : LiquidationQuote)
deriving DecidableEq

def View.read (sequence : ℤ) (s : State Address Tokens) : View Address → Response
  | getPosition user => .position (readPosition sequence s user)
  | stableBalance user => .amount (readStableBalance s user)
  | totalDebt => .amount (Cdp.totalDebt s)
  | totalStableSupply => .amount (Cdp.totalStableSupply s)
  | protocolCollateralReserves => .amount (Cdp.protocolCollateralReserves s)
  | totalBadDebt => .amount (Cdp.totalBadDebt s)

/-- The body of the called entry point. -/
def entryPoint [DecidableEq Address] (host : Host Address Tokens) (env : Env host) :
    Call Address → Body Address Tokens Response
  | .initializeContract admin collateralToken oracle params model => do
    initializeContract admin collateralToken oracle params model
    pure .unit
  | .setOracle oracle => do
    setOracle env oracle
    pure .unit
  | .setLiquidationThreshold minCollateralRatioBps => do
    setLiquidationThreshold env minCollateralRatioBps
    pure .unit
  | .setLiquidationIncentive liquidationIncentiveBps => do
    setLiquidationIncentive env liquidationIncentiveBps
    pure .unit
  | .getRiskParams => .params <$> readRiskParams
  | .liquidationThresholdBps => do
    let params ← readRiskParams
    pure (.amount params.minCollateralRatioBps)
  | .currentBorrowRateBps => .amount <$> currentBorrowRateBps env
  | .collateralRatioBps user => do
    let s ← get
    let position := readPosition env.sequence s user
    let price ← oraclePrice env
    .amount <$> collateralRatioBps price position.collateralAmount position.debtAmount
  | .dynamicCollateralFloor => .amount <$> dynamicCollateralFloor env
  | .currentVolatilityBps => .amount <$> oracleVolatilityBps env
  | .depositCollateral user amount => .position <$> depositCollateral env user amount
  | .withdrawCollateral user amount => .position <$> withdrawCollateral env user amount
  | .mintStable user amount => .position <$> mintStable env user amount
  | .repay user amount => .position <$> repay env user amount
  | .transferStable source destination amount => do
    transferStable env source destination amount
    pure .unit
  | .quoteLiquidation borrower requestedRepayAmount =>
    .quote <$> quoteLiquidation env borrower requestedRepayAmount
  | .liquidate liquidator borrower requestedRepayAmount =>
    .quote <$> liquidate env liquidator borrower requestedRepayAmount
  | .selfLiquidate borrower => .position <$> selfLiquidate env borrower
  | .view view => do
    let s ← get
    pure (view.read env.sequence s)

end Cdp
