import SkyMoonScope.Lib.Integers
import SkyMoonScope.Soroban.Calls

/-!
# The oracle of time weighted prices

The contract of `contracts/twap_oracle/src/lib.rs`. Every update adds the price before it, times the
time since, to an accumulator. The product and the sums are checked against their types. The entry
point that returns the two tokens is left out.

## Main definitions

* `State`: the entries of the contract
* `updatePrice`: an observation of a price
* `getTwap`: the average of the prices so far
* `Call`, `entryPoint`: a call of the contract, and its body

## Main results

* `returns_updatePrice`: what an update has checked, and what it writes
-/

namespace TwapOracle

open Soroban

inductive Error
  | alreadyInitialized
  | notInitialized
  | invalidPrice
  | insufficientTimeElapsed
  | arithmeticOverflow
deriving DecidableEq

/-- The entries of the contract. Numbers that are not stored read as zero. -/
structure State (Address : Type) where
  tokenA : Option Address
  tokenB : Option Address
  cumulativePrice : ℕ
  totalTime : ℕ
  lastUpdateTimestamp : ℕ
  lastPrice : ℕ
  minUpdateIntervalSeconds : ℕ

/-- The storage before the first call. -/
def State.initial (Address : Type) : State Address where
  tokenA := none
  tokenB := none
  cumulativePrice := 0
  totalTime := 0
  lastUpdateTimestamp := 0
  lastPrice := 0
  minUpdateIntervalSeconds := 0

/-- What a call takes from its surroundings: the time of the ledger. -/
structure Env where
  timestamp : ℕ

variable {Address : Type}

abbrev Body (Address α : Type) := Contract (State Address) Error α

def initializeOracle (tokenA tokenB : Address) (minUpdateIntervalSeconds : ℕ) :
    Body Address Unit := do
  let s ← get
  require s.tokenA.isNone (.error .alreadyInitialized)
  set {
    tokenA := some tokenA
    tokenB := some tokenB
    cumulativePrice := 0
    totalTime := 0
    lastUpdateTimestamp := 0
    lastPrice := 0
    minUpdateIntervalSeconds : State Address }

/-- A product or a sum of `u128` values, where the type represents it. -/
def checkedU128 (x : ℕ) : Body Address ℕ := do
  require (x < 2 ^ 128) (.error .arithmeticOverflow)
  pure x

/-- The time since the last update. The first update has none before it. -/
def elapsedSince (lastUpdate now : ℕ) : ℕ := if lastUpdate = 0 then 0 else now - lastUpdate

def updatePrice (env : Env) (currentPrice : ℤ) : Body Address Unit := do
  let s ← get
  require s.tokenA.isSome (.error .notInitialized)
  require (¬currentPrice ≤ 0) (.error .invalidPrice)
  let elapsed := elapsedSince s.lastUpdateTimestamp env.timestamp
  require (¬(s.lastUpdateTimestamp > 0 ∧ elapsed < s.minUpdateIntervalSeconds))
    (.error .insufficientTimeElapsed)
  let weighted ← checkedU128 (s.lastPrice * elapsed)
  let newCumulative ← checkedU128 (s.cumulativePrice + weighted)
  let newTotalTime ← checkedU128 (s.totalTime + elapsed)
  set { s with
    cumulativePrice := newCumulative
    totalTime := newTotalTime
    lastUpdateTimestamp := env.timestamp
    lastPrice := currentPrice.toNat }

/-- `i128::try_from`, with the greatest value of the type where it fails. -/
def toI128 (x : ℕ) : ℤ := if x < 2 ^ 127 then x else 2 ^ 127 - 1

/-- The average of the prices so far, zero before any time has passed. -/
def getTwap (s : State Address) : ℤ :=
  if s.totalTime = 0 then 0 else toI128 (s.cumulativePrice / s.totalTime)

/-! ## Calls -/

/-- A call with its arguments, of which a price is an `i128`. -/
inductive Call (Address : Type)
  | initializeOracle (tokenA tokenB : Address) (minUpdateIntervalSeconds : ℕ)
  | updatePrice (currentPrice : ℤ) (fits : IntType.i128.Fits currentPrice)

/-- The body of a call. -/
def entryPoint (env : Env) : Call Address → Body Address Unit
  | .initializeOracle tokenA tokenB minUpdateIntervalSeconds =>
    initializeOracle tokenA tokenB minUpdateIntervalSeconds
  | .updatePrice currentPrice _ => updatePrice env currentPrice

/-- A call of the contract with what it returned. -/
abbrev Event (Address : Type) := Soroban.Event Env (Call Address) Error Unit

/-! ## What the entry points check and write -/

section Spec

variable {env : Env} {s t : State Address} {r : Unit}

theorem returns_initializeOracle {tokenA tokenB : Address} {minUpdateIntervalSeconds : ℕ} :
    Returns (initializeOracle tokenA tokenB minUpdateIntervalSeconds) s r t ↔
      s.tokenA = none ∧ t = ⟨some tokenA, some tokenB, 0, 0, 0, 0, minUpdateIntervalSeconds⟩ := by
  simp only [initializeOracle, returns_get_bind, returns_require_bind, returns_set,
    Option.isNone_iff_eq_none, eq_comm (a := t)]

theorem returns_checkedU128_bind {α : Type} {v : α} {x : ℕ} {f : ℕ → Body Address α} :
    Returns (checkedU128 x >>= f) s v t ↔ x < 2 ^ 128 ∧ Returns (f x) s v t := by
  simp only [checkedU128, bind_assoc, pure_bind, returns_require_bind]

/-- **An update** adds the last price, times the time since, and becomes the last one. -/
theorem returns_updatePrice {currentPrice : ℤ} (h : Returns (updatePrice env currentPrice) s r t) :
    s.tokenA ≠ none ∧ 0 < currentPrice ∧
      t = { s with
        cumulativePrice :=
          s.cumulativePrice + s.lastPrice * elapsedSince s.lastUpdateTimestamp env.timestamp
        totalTime := s.totalTime + elapsedSince s.lastUpdateTimestamp env.timestamp
        lastUpdateTimestamp := env.timestamp
        lastPrice := currentPrice.toNat } := by
  simp only [updatePrice, returns_get_bind, returns_require_bind, returns_checkedU128_bind,
    returns_set, Option.isSome_iff_ne_none] at h
  obtain ⟨htoken, hprice, -, -, -, -, rfl⟩ := h
  exact ⟨htoken, not_le.mp hprice, rfl⟩

end Spec

end TwapOracle
