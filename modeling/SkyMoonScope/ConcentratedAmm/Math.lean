import Mathlib.Data.Nat.Bitwise
import Mathlib.Order.Lattice

/-!
# The arithmetic of the concentrated AMM

The functions of `contracts/concentrated_amm/src/math.rs` that the contract uses. Prices are square
roots in Q64.64. A value of type `u128` is a natural number, and a function has no value where the
source returns an error; all these errors become the same one in the contract.

## Main definitions

* `mulDivU128`: a product divided, with an intermediate result of 256 bits
* `getSqrtRatioAtTick`: the price at a tick, by repeated squaring
* `getAmount0Delta`, `getAmount1Delta`: the amounts of the two tokens between two prices
* `getNextSqrtPriceFromInput`: the price after an amount was put in
-/

namespace ConcentratedAmm

def q64 : ℕ := 1 <<< 64

def minTick : ℤ := -524280

def maxTick : ℤ := 524280

/-- The greatest value of the type `u128`. -/
def u128Max : ℕ := 2 ^ 128 - 1

/-- The rounds of the long division for the bits below `n`: the remainder loses its highest bit
where it is shifted out of the type. -/
def divLoop (low d : ℕ) : ℕ → ℕ → ℕ → ℕ
  | 0, _, quotient => quotient
  | i + 1, remainder, quotient =>
    let shifted := (remainder <<< 1) % 2 ^ 128 ||| (low >>> i &&& 1)
    if shifted ≥ d then divLoop low d i (shifted - d) (quotient ||| 1 <<< i)
    else divLoop low d i shifted quotient

/-- The product of two values divided by a third. -/
def mulDivU128 (a b d : ℕ) : Option ℕ :=
  if d = 0 then none
  else if a * b < 2 ^ 128 then some (a * b / d)
  else
    let aLow := a &&& 0xFFFFFFFFFFFFFFFF
    let aHigh := a >>> 64
    let bLow := b &&& 0xFFFFFFFFFFFFFFFF
    let bHigh := b >>> 64
    let p0 := aLow * bLow
    let p1 := aLow * bHigh
    let p2 := aHigh * bLow
    let p3 := aHigh * bHigh
    let mid := (p1 &&& 0xFFFFFFFFFFFFFFFF) + (p2 &&& 0xFFFFFFFFFFFFFFFF) + p0 >>> 64
    let high := p3 + p1 >>> 64 + p2 >>> 64 + mid >>> 64
    let low := (mid <<< 64) % 2 ^ 128 ||| (p0 &&& 0xFFFFFFFFFFFFFFFF)
    if high ≥ d then none
    else some (divLoop low d 128 high 0)

/-- The ratio of one tick, 1.00005 in Q64. -/
def ratioBase : ℕ := 18447669818844880896

/-- The squarings for the bits of `t`, of which there are at most as many as rounds. -/
def ratioLoop : ℕ → ℕ → ℕ → ℕ → Option ℕ
  | 0, _, ratio, _ => some ratio
  | rounds + 1, t, ratio, currentBase =>
    if t = 0 then some ratio
    else do
      let ratio' ← if t &&& 1 = 1 then mulDivU128 ratio currentBase q64 else some ratio
      let nextBase ← mulDivU128 currentBase currentBase q64
      ratioLoop rounds (t >>> 1) ratio' nextBase

/-- The price at a tick, which has at most 32 bits. -/
def getSqrtRatioAtTick (tick : ℤ) : Option ℕ := do
  let ratio ← ratioLoop 32 tick.natAbs q64 ratioBase
  if tick < 0 then mulDivU128 q64 q64 ratio else some ratio

/-- The amount of the first token for a liquidity between two prices. -/
def getAmount0Delta (sqrtRatioA sqrtRatioB liquidity : ℕ) : Option ℕ := do
  let lower := min sqrtRatioA sqrtRatioB
  let upper := max sqrtRatioA sqrtRatioB
  let num1 ← mulDivU128 liquidity q64 upper
  mulDivU128 num1 (upper - lower) lower

/-- The amount of the second token for a liquidity between two prices. -/
def getAmount1Delta (sqrtRatioA sqrtRatioB liquidity : ℕ) : Option ℕ :=
  let lower := min sqrtRatioA sqrtRatioB
  let upper := max sqrtRatioA sqrtRatioB
  mulDivU128 liquidity (upper - lower) q64

/-- A sum, where the type `u128` represents it. -/
def checkedAdd (a b : ℕ) : Option ℕ := if a + b < 2 ^ 128 then some (a + b) else none

def getNextSqrtPriceFromInput (sqrtPrice liquidity amountIn : ℕ) (zeroForOne : Bool) :
    Option ℕ :=
  if amountIn = 0 then some sqrtPrice
  else if zeroForOne then do
    let pRealTimesDelta ← mulDivU128 amountIn sqrtPrice q64
    let den ← checkedAdd liquidity pRealTimesDelta
    mulDivU128 sqrtPrice liquidity den
  else do
    let delta ← mulDivU128 amountIn q64 liquidity
    checkedAdd sqrtPrice delta

end ConcentratedAmm
