import SkyMoonScope.ConcentratedAmm.Pool

/-!
# The entry points of the concentrated AMM

A swap goes in rounds. A round looks for the next tick in use. It crosses the tick when what remains
of the input reaches the price there, and the liquidity that is active changes by the net liquidity
of the tick; otherwise the round moves the price within the liquidity that it has, and is the last.
Without liquidity a round crosses the next tick in use, or ends the swap. The loop has as many
rounds as the resources of the call allow, and the call traps after that.

## Main definitions

* `liquidityFor`: the liquidity of a new position and the amounts that it takes
* `mint`, `burn`, `collectFees`: positions
* `computeStep`: the amounts and the price of a round
* `swapRound`, `swapLoop`, `swap`: a swap, round by round
* `Call`, `entryPoint`: the entry points
-/

namespace ConcentratedAmm

open Soroban

variable {Address Tokens : Type}

/-! ## The pool -/

/-- The first call, which writes all entries of the pool. -/
def initializePool (tokenA tokenB : Address) (feeBps : ℕ) (tickSpacing : ℤ)
    (initialSqrtPrice : ℕ) (initialTick : ℤ) : Body Address Tokens Unit := do
  let s ← storage
  require s.pool.isNone (.error .alreadyInitialized)
  require (¬(initialTick < minTick ∨ initialTick > maxTick)) (.error .invalidTickRange)
  savePool
    { tokenA, tokenB, feeBps, tickSpacing, currentTick := initialTick,
      currentSqrtPrice := initialSqrtPrice, liquidity := 0, feeGrowthGlobal0 := 0,
      feeGrowthGlobal1 := 0 }

/-! ## Positions -/

/-- A remainder of `i32` values, which traps on a zero divisor and where the quotient overflows. -/
def remainder (x y : ℤ) : Body Address Tokens ℤ := do
  require (¬(y = 0 ∨ x = -2 ^ 31 ∧ y = -1)) (.trap "attempt to calculate the remainder")
  pure (x.tmod y)

/-- The liquidity of a new position, and the amounts of the two tokens for it. Below the range only
the first token is needed, above it only the second, and both within it. -/
def liquidityFor (sqrtPrice sqrtRatioA sqrtRatioB amountADesired amountBDesired : ℕ) :
    Option (ℕ × ℕ × ℕ) :=
  if sqrtPrice ≤ sqrtRatioA then do
    let num1 ← mulDivU128 amountADesired sqrtRatioB q64
    let num2 ← mulDivU128 num1 sqrtRatioA q64
    let den ← if sqrtRatioA ≤ sqrtRatioB then some (sqrtRatioB - sqrtRatioA) else none
    let liquidity ← mulDivU128 num2 q64 den
    some (liquidity, amountADesired, 0)
  else if sqrtPrice ≥ sqrtRatioB then do
    let diff ← if sqrtRatioA ≤ sqrtRatioB then some (sqrtRatioB - sqrtRatioA) else none
    let liquidity ← mulDivU128 amountBDesired q64 diff
    some (liquidity, 0, amountBDesired)
  else do
    let num1 ← mulDivU128 amountADesired sqrtRatioB q64
    let num2 ← mulDivU128 num1 sqrtPrice q64
    let liqA ← mulDivU128 num2 q64 (sqrtRatioB - sqrtPrice)
    let liqB ← mulDivU128 amountBDesired q64 (sqrtPrice - sqrtRatioA)
    let liquidity := if liqA < liqB then liqA else liqB
    let amountA ← getAmount0Delta sqrtPrice sqrtRatioB liquidity
    let amountB ← getAmount1Delta sqrtRatioA sqrtPrice liquidity
    some (liquidity, amountA, amountB)

section Positions

variable [DecidableEq Address] (host : Host Address Tokens) (env : Env Address Tokens)

def savePosition (key : PositionKey Address) (pos : Option PositionInfo) :
    Body Address Tokens Unit :=
  save fun s => { s with position := Function.update s.position key pos }

/-- Changes the liquidity at both bounds of a position, and the bitmap where a tick came into use or
fell out of it. -/
def updateTicks (pool : Pool Address) (key : PositionKey Address) (liquidityDelta : ℤ) :
    Body Address Tokens Unit := do
  let flippedLower ← updateTick key.tickLower pool.currentTick liquidityDelta
    pool.feeGrowthGlobal0 pool.feeGrowthGlobal1 false
  let flippedUpper ← updateTick key.tickUpper pool.currentTick liquidityDelta
    pool.feeGrowthGlobal0 pool.feeGrowthGlobal1 true
  if flippedLower then flipTickBitmap key.tickLower pool.tickSpacing else pure ()
  if flippedUpper then flipTickBitmap key.tickUpper pool.tickSpacing else pure ()

/-- The active liquidity after a change of a position, which counts where the position is around the
current tick. -/
def updateLiquidity (key : PositionKey Address) (liquidityDelta : ℤ) :
    Body Address Tokens Unit := do
  let pool ← unwrapPool
  if pool.currentTick ≥ key.tickLower ∧ pool.currentTick < key.tickUpper then
    let liquidity ← plainU128 (pool.liquidity + liquidityDelta)
    savePool { pool with liquidity }
  else
    pure ()

def mint (owner : Address) (tickLower tickUpper : ℤ) (amountADesired amountBDesired : ℕ) :
    Body Address Tokens (ℕ × ℕ × ℕ) := do
  requireAuth env.auth owner
  let pool ← loadPool
  require (¬tickLower ≥ tickUpper) (.error .invalidTickRange)
  let lowerRest ← remainder tickLower pool.tickSpacing
  require (¬lowerRest ≠ 0) (.error .invalidTickRange)
  let upperRest ← remainder tickUpper pool.tickSpacing
  require (¬upperRest ≠ 0) (.error .invalidTickRange)
  require (¬(tickLower < minTick ∨ tickUpper > maxTick)) (.error .invalidTickRange)
  let sqrtRatioA ← math (getSqrtRatioAtTick tickLower)
  let sqrtRatioB ← math (getSqrtRatioAtTick tickUpper)
  let (liquidity, amountA, amountB) ←
    math (liquidityFor pool.currentSqrtPrice sqrtRatioA sqrtRatioB amountADesired amountBDesired)
  require (¬liquidity = 0) (.error .insufficientAmount)
  transferSome host pool.tokenA owner host.currentContractAddress amountA
  transferSome host pool.tokenB owner host.currentContractAddress amountB
  let key : PositionKey Address := { owner, tickLower, tickUpper }
  updateTicks pool key (asI128 liquidity)
  let s ← storage
  let inside := getFeeGrowthInside s tickLower tickUpper pool.currentTick
    pool.feeGrowthGlobal0 pool.feeGrowthGlobal1
  let pos ← settleFees ((s.position key).getD
    { liquidity := 0, feeGrowthInside0Last := inside.1, feeGrowthInside1Last := inside.2,
      tokensOwed0 := 0, tokensOwed1 := 0 }) inside
  let sum ← plainU128 (pos.liquidity + liquidity)
  savePosition key (some { pos with liquidity := sum })
  updateLiquidity key liquidity
  pure (liquidity, amountA, amountB)

/-- What is paid for liquidity that is burned, by the side of the range the current tick is on. -/
def burnAmounts (currentTick : ℤ) (sqrtPrice : ℕ) (tickLower tickUpper : ℤ)
    (sqrtRatioA sqrtRatioB liquidity : ℕ) : Option (ℕ × ℕ) :=
  if currentTick < tickLower then do
    let amountA ← getAmount0Delta sqrtRatioA sqrtRatioB liquidity
    some (amountA, 0)
  else if currentTick ≥ tickUpper then do
    let amountB ← getAmount1Delta sqrtRatioA sqrtRatioB liquidity
    some (0, amountB)
  else do
    let amountA ← getAmount0Delta sqrtPrice sqrtRatioB liquidity
    let amountB ← getAmount1Delta sqrtRatioA sqrtPrice liquidity
    some (amountA, amountB)

def burn (owner : Address) (tickLower tickUpper : ℤ) (liquidity : ℕ) :
    Body Address Tokens (ℕ × ℕ) := do
  requireAuth env.auth owner
  require (¬(tickLower < minTick ∨ tickUpper > maxTick ∨ tickLower ≥ tickUpper))
    (.error .invalidTickRange)
  let key : PositionKey Address := { owner, tickLower, tickUpper }
  let s ← storage
  let pos ← orFault (s.position key) (.error .insufficientAmount)
  require (¬pos.liquidity < liquidity) (.error .insufficientAmount)
  let pool ← unwrapPool
  let sqrtRatioA ← math (getSqrtRatioAtTick tickLower)
  let sqrtRatioB ← math (getSqrtRatioAtTick tickUpper)
  let (amountA, amountB) ← math (burnAmounts pool.currentTick pool.currentSqrtPrice tickLower
    tickUpper sqrtRatioA sqrtRatioB liquidity)
  let inside := getFeeGrowthInside s tickLower tickUpper pool.currentTick
    pool.feeGrowthGlobal0 pool.feeGrowthGlobal1
  let settled ← settleFees pos inside
  let rest := { settled with liquidity := settled.liquidity - liquidity }
  savePosition key
    (if rest.liquidity = 0 ∧ rest.tokensOwed0 = 0 ∧ rest.tokensOwed1 = 0 then none else some rest)
  let negated ← plainI128 (-asI128 liquidity)
  updateTicks pool key negated
  updateLiquidity key (-liquidity)
  transferSome host pool.tokenA host.currentContractAddress owner amountA
  transferSome host pool.tokenB host.currentContractAddress owner amountB
  pure (amountA, amountB)

def collectFees (owner : Address) (tickLower tickUpper : ℤ) : Body Address Tokens (ℕ × ℕ) := do
  requireAuth env.auth owner
  require (¬(tickLower < minTick ∨ tickUpper > maxTick ∨ tickLower ≥ tickUpper))
    (.error .invalidTickRange)
  let key : PositionKey Address := { owner, tickLower, tickUpper }
  let s ← storage
  let pos ← orFault (s.position key) (.error .insufficientAmount)
  let pool ← unwrapPool
  let inside := getFeeGrowthInside s tickLower tickUpper pool.currentTick
    pool.feeGrowthGlobal0 pool.feeGrowthGlobal1
  let settled ← settleFees pos inside
  savePosition key
    (if settled.liquidity = 0 then none
      else some { settled with tokensOwed0 := 0, tokensOwed1 := 0 })
  transferSome host pool.tokenA host.currentContractAddress owner settled.tokensOwed0
  transferSome host pool.tokenB host.currentContractAddress owner settled.tokensOwed1
  pure (settled.tokensOwed0, settled.tokensOwed1)

end Positions

/-! ## Swaps -/

/-- What the loop of a swap carries along. -/
structure SwapState where
  currentSqrtPrice : ℕ
  currentTick : ℤ
  liquidity : ℕ
  fg0 : ℕ
  fg1 : ℕ
  amountRemaining : ℕ
  amountInTotal : ℕ
  amountOutTotal : ℕ

/-- The active liquidity once a tick with a net liquidity is crossed. -/
def applyNet (liquidity : ℕ) (liquidityNet : ℤ) (zeroForOne : Bool) : Body Address Tokens ℕ := do
  let net ← plainI128 (if zeroForOne then -liquidityNet else liquidityNet)
  if net < 0 then
    let lost ← plainI128 (-net)
    pure (liquidity - lost.toNat)
  else
    pure (saturatingAdd liquidity net.toNat)

/-- Crosses a tick: its growth outside becomes that of the other side. -/
def crossTick (tick : ℤ) (info : TickInfo) (fg0 fg1 liquidity : ℕ) (zeroForOne : Bool) :
    Body Address Tokens ℕ := do
  saveTick tick
    { info with
      feeGrowthOutside0 := wrappingSub fg0 info.feeGrowthOutside0
      feeGrowthOutside1 := wrappingSub fg1 info.feeGrowthOutside1 }
  applyNet liquidity info.liquidityNet zeroForOne

/-- The tick after a tick was crossed. -/
def tickBeyond (tick : ℤ) (zeroForOne : Bool) : ℤ := if zeroForOne then tick - 1 else tick

/-- A round without liquidity: it crosses the next tick in use, or the swap ends. -/
def emptyRound (tickSpacing : ℤ) (zeroForOne : Bool) (l : SwapState) :
    Body Address Tokens (Option SwapState) := do
  let (nextTick, initialized) ←
    nextInitializedTickWithinOneWord l.currentTick tickSpacing zeroForOne
  if initialized then
    let s ← storage
    let liquidity ← match s.tick nextTick with
      | some info => crossTick nextTick info l.fg0 l.fg1 l.liquidity zeroForOne
      | none => pure l.liquidity
    let currentTick := tickBeyond nextTick zeroForOne
    let currentSqrtPrice ← math (getSqrtRatioAtTick currentTick)
    pure (some { l with liquidity, currentTick, currentSqrtPrice })
  else
    pure none

/-- The amounts of a round, and the price after it. -/
structure StepAmounts where
  crossed : Bool
  amountIn : ℕ
  amountOut : ℕ
  feeAmount : ℕ
  nextPrice : ℕ

/-- The amount of the token that is put in, or of the one that is taken out, between two prices. -/
def amountDelta (first : Bool) (sqrtPrice sqrtPriceNext liquidity : ℕ) : Option ℕ :=
  if first then getAmount0Delta sqrtPrice sqrtPriceNext liquidity
  else getAmount1Delta sqrtPrice sqrtPriceNext liquidity

/-- A round whose price moves to the next tick, or as far as the input reaches. -/
def computeStep (sqrtPrice sqrtPriceNext liquidity amountRemaining feeBps : ℕ)
    (zeroForOne initialized : Bool) : Option StepAmounts := do
  let lessFee ← mulDivU128 amountRemaining (10000 - feeBps) 10000
  let maxAmountIn := (amountDelta zeroForOne sqrtPrice sqrtPriceNext liquidity).getD u128Max
  if lessFee ≥ maxAmountIn ∧ initialized then
    let amountOut ← amountDelta (!zeroForOne) sqrtPrice sqrtPriceNext liquidity
    let feeAmount ← mulDivU128 maxAmountIn feeBps (10000 - feeBps)
    some { crossed := true, amountIn := maxAmountIn, amountOut, feeAmount,
           nextPrice := sqrtPriceNext }
  else
    let nextPrice ← getNextSqrtPriceFromInput sqrtPrice liquidity lessFee zeroForOne
    let amountOut ← amountDelta (!zeroForOne) sqrtPrice nextPrice liquidity
    some { crossed := false, amountIn := lessFee, amountOut,
           feeAmount := amountRemaining - lessFee, nextPrice }

/-- The state of the loop with the amounts of a round. -/
def bookStep (zeroForOne : Bool) (l : SwapState) (step : StepAmounts) :
    Body Address Tokens SwapState := do
  let feeGrowth ← math (mulDivU128 step.feeAmount q64 l.liquidity)
  let taken ← plainU128 (step.amountIn + step.feeAmount)
  let amountInTotal ← plainU128 (l.amountInTotal + taken)
  let amountOutTotal ← plainU128 (l.amountOutTotal + step.amountOut)
  pure { l with
    fg0 := if zeroForOne then wrappingAdd l.fg0 feeGrowth else l.fg0
    fg1 := if zeroForOne then l.fg1 else wrappingAdd l.fg1 feeGrowth
    amountInTotal
    amountOutTotal
    amountRemaining := l.amountRemaining - taken
    currentSqrtPrice := step.nextPrice }

/-- A round with liquidity. -/
def liquidRound (feeBps : ℕ) (tickSpacing : ℤ) (zeroForOne : Bool) (l : SwapState) :
    Body Address Tokens (Option SwapState) := do
  let (nextTick, initialized) ←
    nextInitializedTickWithinOneWord l.currentTick tickSpacing zeroForOne
  let sqrtPriceNext ← math (getSqrtRatioAtTick nextTick)
  require (feeBps ≤ 10000) (.trap "arithmetic operation with overflow")
  let step ← math (computeStep l.currentSqrtPrice sqrtPriceNext l.liquidity l.amountRemaining
    feeBps zeroForOne initialized)
  let booked ← bookStep zeroForOne l step
  if step.crossed then
    let s ← storage
    let info ← orFault (s.tick nextTick) (.trap "called `Option::unwrap()` on a `None` value")
    let liquidity ← crossTick nextTick info booked.fg0 booked.fg1 booked.liquidity zeroForOne
    pure (some { booked with liquidity, currentTick := tickBeyond nextTick zeroForOne })
  else
    pure (some booked)

/-- A round of the loop; without a result the swap ends. -/
def swapRound (feeBps : ℕ) (tickSpacing : ℤ) (zeroForOne : Bool) (l : SwapState) :
    Body Address Tokens (Option SwapState) :=
  if l.liquidity = 0 then emptyRound tickSpacing zeroForOne l
  else liquidRound feeBps tickSpacing zeroForOne l

def swapLoop (feeBps : ℕ) (tickSpacing : ℤ) (zeroForOne : Bool) :
    ℕ → SwapState → Body Address Tokens SwapState
  | 0, l => do
    require (¬l.amountRemaining > 0) (.trap "Error(Budget, ExceededLimit)")
    pure l
  | budget + 1, l => do
    if l.amountRemaining > 0 then
      match ← swapRound feeBps tickSpacing zeroForOne l with
      | some l' => swapLoop feeBps tickSpacing zeroForOne budget l'
      | none => pure l
    else
      pure l

/-- The state of the loop before its first round. -/
def SwapState.start (pool : Pool Address) (amountSpecified : ℕ) : SwapState where
  currentSqrtPrice := pool.currentSqrtPrice
  currentTick := pool.currentTick
  liquidity := pool.liquidity
  fg0 := pool.feeGrowthGlobal0
  fg1 := pool.feeGrowthGlobal1
  amountRemaining := amountSpecified
  amountInTotal := 0
  amountOutTotal := 0

/-- The pool with what the loop ended with. -/
def SwapState.finish (pool : Pool Address) (l : SwapState) : Pool Address :=
  { pool with
    currentSqrtPrice := l.currentSqrtPrice
    currentTick := l.currentTick
    liquidity := l.liquidity
    feeGrowthGlobal0 := l.fg0
    feeGrowthGlobal1 := l.fg1 }

def swap (host : Host Address Tokens) (env : Env Address Tokens) (trader : Address)
    (zeroForOne : Bool) (amountSpecified : ℕ) : Body Address Tokens (ℕ × ℕ) := do
  requireAuth env.auth trader
  let pool ← loadPool
  let l ← swapLoop pool.feeBps pool.tickSpacing zeroForOne env.budget
    (.start pool amountSpecified)
  savePool (l.finish pool)
  transfer host (if zeroForOne then pool.tokenA else pool.tokenB) trader
    host.currentContractAddress (asI128 l.amountInTotal)
  transfer host (if zeroForOne then pool.tokenB else pool.tokenA)
    host.currentContractAddress trader (asI128 l.amountOutTotal)
  pure (l.amountInTotal, l.amountOutTotal)

/-! ## Calls -/

/-- A call of an entry point. -/
inductive Call (Address : Type)
  | initializePool (tokenA tokenB : Address) (feeBps : ℕ) (tickSpacing : ℤ)
      (initialSqrtPrice : ℕ) (initialTick : ℤ)
  | mint (owner : Address) (tickLower tickUpper : ℤ) (amountADesired amountBDesired : ℕ)
  | burn (owner : Address) (tickLower tickUpper : ℤ) (liquidity : ℕ)
  | collectFees (owner : Address) (tickLower tickUpper : ℤ)
  | swap (trader : Address) (zeroForOne : Bool) (amountSpecified : ℕ)

/-- What a call returns: nothing, two amounts, or a liquidity and two amounts. -/
inductive Response
  | unit
  | amounts (a b : ℕ)
  | minted (liquidity a b : ℕ)
deriving DecidableEq

/-- The body of the called entry point. -/
def Call.body [DecidableEq Address] (host : Host Address Tokens) (env : Env Address Tokens) :
    Call Address → Body Address Tokens Response
  | .initializePool tokenA tokenB feeBps tickSpacing initialSqrtPrice initialTick => do
    ConcentratedAmm.initializePool tokenA tokenB feeBps tickSpacing initialSqrtPrice initialTick
    pure .unit
  | .mint owner tickLower tickUpper amountADesired amountBDesired =>
    (fun r => .minted r.1 r.2.1 r.2.2) <$>
      ConcentratedAmm.mint host env owner tickLower tickUpper amountADesired amountBDesired
  | .burn owner tickLower tickUpper liquidity =>
    (fun r => .amounts r.1 r.2) <$>
      ConcentratedAmm.burn host env owner tickLower tickUpper liquidity
  | .collectFees owner tickLower tickUpper =>
    (fun r => .amounts r.1 r.2) <$>
      ConcentratedAmm.collectFees host env owner tickLower tickUpper
  | .swap trader zeroForOne amountSpecified =>
    (fun r => .amounts r.1 r.2) <$>
      ConcentratedAmm.swap host env trader zeroForOne amountSpecified

/-- The called entry point, which finds the token contracts as the environment has them. -/
def entryPoint [DecidableEq Address] (host : Host Address Tokens) (env : Env Address Tokens)
    (call : Call Address) : Contract (State Address) Error Response :=
  zoom (fun s => { storage := s, tokens := env.tokens }) (fun _ c => c.storage) id
    (call.body host env)

end ConcentratedAmm
