import SkyMoonScope.ConcentratedAmm.Math
import SkyMoonScope.Lib.Bitmap
import SkyMoonScope.Lib.Integers
import SkyMoonScope.Soroban.Calls
import SkyMoonScope.Soroban.Token

/-!
# The concentrated AMM

The contract of `contracts/concentrated_amm/src/lib.rs`. A position has liquidity between two ticks;
a tick keeps the sums of the liquidity that it bounds, a bitmap the ticks in use, and the pool the
liquidity of the positions around the current tick. A plain operator traps when its value leaves the
range of its type, a cast wraps, and the methods that wrap or saturate do so. The lifetimes of
storage entries are left out.

## Main definitions

* `State`, `Session`: the storage, and during a call with that of the token contracts
* `Host`, `Env`: the token contracts, and what a call is given
* `updateTick`, `flipTickBitmap`, `nextInitializedTickWithinOneWord`: ticks and their bitmap
* `getFeeGrowthInside`, `settleFees`: what a position is owed
-/

namespace ConcentratedAmm

open Soroban

inductive Error
  | alreadyInitialized
  | notInitialized
  | invalidTickRange
  | insufficientAmount
  | slippageExceeded
  | invalidFee
  | mathError
deriving DecidableEq

structure TickInfo where
  liquidityGross : ℕ
  liquidityNet : ℤ
  feeGrowthOutside0 : ℕ
  feeGrowthOutside1 : ℕ
deriving DecidableEq

structure PositionInfo where
  liquidity : ℕ
  feeGrowthInside0Last : ℕ
  feeGrowthInside1Last : ℕ
  tokensOwed0 : ℕ
  tokensOwed1 : ℕ
deriving DecidableEq

/-- The entries that the first call writes. They are there all together or not at all. -/
structure Pool (Address : Type) where
  tokenA : Address
  tokenB : Address
  feeBps : ℕ
  tickSpacing : ℤ
  currentTick : ℤ
  currentSqrtPrice : ℕ
  liquidity : ℕ
  feeGrowthGlobal0 : ℕ
  feeGrowthGlobal1 : ℕ

/-- A position is owned by an address and lies between two ticks. -/
structure PositionKey (Address : Type) where
  owner : Address
  tickLower : ℤ
  tickUpper : ℤ
deriving DecidableEq

/-- The storage. A word of the bitmap that is not there is read as zero. -/
structure State (Address : Type) where
  pool : Option (Pool Address)
  tick : ℤ → Option TickInfo
  tickBitmap : ℤ → ℕ
  position : PositionKey Address → Option PositionInfo

/-- The storage before the first call. -/
def State.initial {Address : Type} : State Address where
  pool := none
  tick := fun _ => none
  tickBitmap := fun _ => 0
  position := fun _ => none

/-- The storage during a call, and that of the token contracts. -/
structure Session (Address Tokens : Type) where
  storage : State Address
  tokens : Tokens

/-- The token contracts, and the contract's own address. -/
structure Host (Address Tokens : Type) extends TokenInterface Address Tokens where
  currentContractAddress : Address

/-- What a call is given: who authorized it, the token contracts as it finds them, and how many
rounds of a loop its resources last. -/
structure Env (Address Tokens : Type) where
  auth : Address → Bool
  tokens : Tokens
  budget : ℕ

variable {Address Tokens : Type}

abbrev Body (Address Tokens α : Type) := Contract (Session Address Tokens) Error α

/-! ## Arithmetic -/

/-- A function of the math, whose errors all become the same one. -/
def math {α : Type} (o : Option α) : Body Address Tokens α := orFault o (.error .mathError)

/-- A plain operator on `u128` values, which traps on overflow. -/
def plainU128 (x : ℤ) : Body Address Tokens ℕ := do
  require (0 ≤ x ∧ x < 2 ^ 128) (.trap "arithmetic operation with overflow")
  pure x.toNat

/-- A plain operator on `i128` values, which traps on overflow. -/
def plainI128 (x : ℤ) : Body Address Tokens ℤ :=
  orFault (IntType.i128.checked x) (.trap "arithmetic operation with overflow")

/-- A plain operator on `i32` values, which traps on overflow. -/
def plainI32 (x : ℤ) : Body Address Tokens ℤ := do
  require (-2 ^ 31 ≤ x ∧ x < 2 ^ 31) (.trap "arithmetic operation with overflow")
  pure x

/-- `as i128` of a `u128` value. -/
def asI128 (x : ℕ) : ℤ := if x < 2 ^ 127 then x else x - 2 ^ 128

def wrappingAdd (x y : ℕ) : ℕ := (x + y) % 2 ^ 128

def wrappingSub (x y : ℕ) : ℕ := (x + 2 ^ 128 - y) % 2 ^ 128

def saturatingAdd (x y : ℕ) : ℕ := min (x + y) u128Max

/-! ## Storage -/

def storage : Body Address Tokens (State Address) := do
  let c ← get
  pure c.storage

/-- Writes entries of the storage. -/
def save (f : State Address → State Address) : Body Address Tokens Unit := do
  let c ← get
  set { c with storage := f c.storage }

def requireAuth (auth : Address → Bool) (addr : Address) : Body Address Tokens Unit :=
  require (auth addr) (.trap "Error(Auth, InvalidAction)")

/-- The entries of the pool, of which the first that is read is missing. -/
def loadPool : Body Address Tokens (Pool Address) := do
  let s ← storage
  orFault s.pool (.error .notInitialized)

/-- The entries of the pool, which are unwrapped. -/
def unwrapPool : Body Address Tokens (Pool Address) := do
  let s ← storage
  orFault s.pool (.trap "called `Option::unwrap()` on a `None` value")

def savePool (pool : Pool Address) : Body Address Tokens Unit :=
  save fun s => { s with pool := some pool }

def saveTick (tick : ℤ) (info : TickInfo) : Body Address Tokens Unit :=
  save fun s => { s with tick := Function.update s.tick tick (some info) }

/-- A transfer of a token; where it fails, the contract traps. -/
def transfer (host : Host Address Tokens) (token source destination : Address) (amount : ℤ) :
    Body Address Tokens Unit := do
  let c ← get
  let tokens ← orFault (host.transfer token source destination amount c.tokens)
    (.trap "Error(Contract)")
  set { c with tokens }

/-- A transfer that is made only if there is something to transfer. -/
def transferSome (host : Host Address Tokens) (token source destination : Address) (amount : ℕ) :
    Body Address Tokens Unit := do
  if amount > 0 then transfer host token source destination (asI128 amount) else pure ()

/-! ## Ticks -/

def TickInfo.new : TickInfo where
  liquidityGross := 0
  liquidityNet := 0
  feeGrowthOutside0 := 0
  feeGrowthOutside1 := 0

/-- The gross liquidity of a tick after a change by `delta`. -/
def grossAfter (gross : ℕ) (delta : ℤ) : ℕ :=
  if delta < 0 then gross - (-delta).toNat else saturatingAdd gross delta.toNat

/-- Changes the liquidity at a tick, and tells whether the tick came into use or fell out of it. -/
def updateTick (tick currentTick liquidityDelta : ℤ) (fg0 fg1 : ℕ) (isUpper : Bool) :
    Body Address Tokens Bool := do
  let s ← storage
  let info := (s.tick tick).getD TickInfo.new
  let before := info.liquidityGross
  let outside :=
    if before = 0 ∧ tick ≤ currentTick then
      { info with feeGrowthOutside0 := fg0, feeGrowthOutside1 := fg1 }
    else info
  -- the least value has no negation, which is taken of it on one way or the other
  require (liquidityDelta ≠ IntType.i128.lo) (.trap "attempt to negate with overflow")
  let liquidityNet ←
    plainI128 (info.liquidityNet + if isUpper then -liquidityDelta else liquidityDelta)
  let liquidityGross := grossAfter before liquidityDelta
  let after := { outside with liquidityGross, liquidityNet }
  if liquidityGross = 0 then
    save fun s => { s with tick := Function.update s.tick tick none }
    pure (decide (before > 0))
  else
    saveTick tick after
    pure (decide (before = 0))

/-- Flips the bit of a tick. -/
def flipTickBitmap (tick tickSpacing : ℤ) : Body Address Tokens Unit :=
  save fun s => { s with tickBitmap := Bitmap.flip s.tickBitmap (tick.tdiv tickSpacing) }

/-- The number of the tick in the bitmap, rounded down for a spacing that is not negative. -/
def compress (tick tickSpacing : ℤ) : ℤ :=
  if tick < 0 ∧ tick.tmod tickSpacing ≠ 0 then tick.tdiv tickSpacing - 1
  else tick.tdiv tickSpacing

/-- The next tick in use, down or up, or the bound of the word where it has none. -/
def nextInitializedTickWithinOneWord (tick tickSpacing : ℤ) (lte : Bool) :
    Body Address Tokens (ℤ × Bool) := do
  require (tickSpacing ≠ 0) (.trap "attempt to divide by zero")
  let s ← storage
  let compressed := compress tick tickSpacing
  if lte then
    match Bitmap.lastUpTo s.tickBitmap compressed with
    | some found => do
      let next ← plainI32 (found * tickSpacing)
      pure (next, true)
    | none => do
      let next ← plainI32 (compressed / 64 * 64 * tickSpacing)
      pure (next, false)
  else
    match Bitmap.firstFrom s.tickBitmap (compressed + 1) with
    | some found => do
      let next ← plainI32 (found * tickSpacing)
      pure (next, true)
    | none => do
      let next ← plainI32 ((((compressed + 1) / 64 + 1) * 64 - 1) * tickSpacing)
      pure (next, false)

/-- The fee growth on one side of a tick: what is outside of it, or the rest. -/
def growthBeyond (outside : Bool) (fg growthOutside : ℕ) : ℕ :=
  if outside then growthOutside else wrappingSub fg growthOutside

def getFeeGrowthInside (s : State Address) (tickLower tickUpper tickCurrent : ℤ)
    (fg0 fg1 : ℕ) : ℕ × ℕ :=
  let lower := (s.tick tickLower).getD TickInfo.new
  let upper := (s.tick tickUpper).getD TickInfo.new
  let below := decide (tickCurrent ≥ tickLower)
  let above := decide (tickCurrent < tickUpper)
  (wrappingSub (wrappingSub fg0 (growthBeyond below fg0 lower.feeGrowthOutside0))
      (growthBeyond above fg0 upper.feeGrowthOutside0),
    wrappingSub (wrappingSub fg1 (growthBeyond below fg1 lower.feeGrowthOutside1))
      (growthBeyond above fg1 upper.feeGrowthOutside1))

/-- What a position is owed more for a growth since the last one; nothing where the math fails. -/
def owedFor (liquidity growth last : ℕ) : ℕ :=
  (mulDivU128 liquidity (wrappingSub growth last) q64).getD 0

/-- A position with what it is owed up to now. -/
def settleFees (pos : PositionInfo) (inside : ℕ × ℕ) : Body Address Tokens PositionInfo := do
  let tokensOwed0 ←
    plainU128 (pos.tokensOwed0 + owedFor pos.liquidity inside.1 pos.feeGrowthInside0Last)
  let tokensOwed1 ←
    plainU128 (pos.tokensOwed1 + owedFor pos.liquidity inside.2 pos.feeGrowthInside1Last)
  pure { pos with
    tokensOwed0
    tokensOwed1
    feeGrowthInside0Last := inside.1
    feeGrowthInside1Last := inside.2 }

end ConcentratedAmm
