import SkyMoonScope.Soroban.Arithmetic
import SkyMoonScope.Soroban.Calls
import SkyMoonScope.Soroban.Token

/-!
# The hybrid of a pool and an order book

The contract of `soroscope/contracts/hybrid_amm_lob/src/lib.rs`. Makers place limit orders and leave
what they offer with the contract, liquidity providers deposit both tokens, and a taker's swap walks
the orders from the best one on and takes the rest from the pool. Events, the lifetimes of the
entries and the entry points that only read are left out.

## Main definitions

* `Order`, `PoolState`, `State`: the entries of the contract
* `Host`, `Env`: the token contracts, and what a call takes from its surroundings
* `insertBid`, `insertAsk`: the sorted insertions
* `fillAsks`, `fillBids`, `ammFill`: the two phases of a swap
* `Call`, `entryPoint`: a call of the contract, and its body
-/

namespace HybridAmmLob

open Soroban Function

inductive Error
  | alreadyInitialized
  | notInitialized
  | invalidAmount
  | invalidPrice
  | orderNotFound
  | slippageExceeded
  | insufficientLiquidity
  | insufficientShares
  | unauthorized
deriving DecidableEq

/-- A single limit order in the book. A bid buys token A and has left token B with the contract, an
ask sells token A and has left that; the amount is in token A for both. -/
structure Order (Address : Type) where
  id : ℕ
  maker : Address
  isBid : Bool
  price : ℤ
  amount : ℤ

/-- Pool and fee state stored in a single entry. -/
structure PoolState (Address : Type) where
  tokenA : Address
  tokenB : Address
  reserveA : ℤ
  reserveB : ℤ
  totalShares : ℤ
  lpFeeBps : ℤ
  makerFeeBps : ℤ
  admin : Address
  nextOrderId : ℕ

structure SwapResult where
  amountIn : ℤ
  amountOut : ℤ
  lobFilled : ℤ
  ammFilled : ℤ

/-- The entries of the contract, and the storage of the token contracts. A list that is not stored
reads as empty, and a balance of shares as zero. -/
structure State (Address Tokens : Type) where
  pool : Option (PoolState Address)
  bids : List (Order Address)
  asks : List (Order Address)
  balance : Address → ℤ
  tokens : Tokens

/-- The storage before the first call. -/
def State.initial {Address Tokens : Type} (tokens : Tokens) : State Address Tokens where
  pool := none
  bids := []
  asks := []
  balance := fun _ => 0
  tokens := tokens

/-- The token contracts, and the address of this one. -/
structure Host (Address Tokens : Type) extends TokenInterface Address Tokens where
  currentContractAddress : Address

/-- What a call takes from its surroundings: who has authorized it, which the contract itself never
has, and what became of the tokens since the call before, where nobody else takes from the
contract. -/
structure Env {Address Tokens : Type} (host : Host Address Tokens) where
  auth : Address → Bool
  auth_contract : auth host.currentContractAddress = false
  outside : Tokens → Tokens
  le_outside : ∀ token s, host.balance token s host.currentContractAddress ≤
    host.balance token (outside s) host.currentContractAddress

/-- Prices are token B per token A, times this. -/
def priceScale : ℤ := 1000000

variable {Address Tokens : Type}

abbrev Body (Address Tokens α : Type) := Contract (State Address Tokens) Error α

/-! ## Helpers -/

/-- A `checked_` method on `i128` values, followed by `.ok_or(..)?`. -/
def checked (e : Error) (x : ℤ) : Body Address Tokens ℤ :=
  orFault (IntType.i128.checked x) (.error e)

def loadPool : Body Address Tokens (PoolState Address) := do
  let s ← get
  orFault s.pool (.error .notInitialized)

def savePool (pool : PoolState Address) : Body Address Tokens Unit := do
  let s ← get
  set { s with pool := some pool }

def saveBids (bids : List (Order Address)) : Body Address Tokens Unit := do
  let s ← get
  set { s with bids }

def saveAsks (asks : List (Order Address)) : Body Address Tokens Unit := do
  let s ← get
  set { s with asks }

/-- The list with an order put before the first one that has to come after it. -/
def insertBefore (after : Order Address → Bool) (order : Order Address) :
    List (Order Address) → List (Order Address)
  | [] => [order]
  | o :: orders => if after o then order :: o :: orders else o :: insertBefore after order orders

/-- Bids stand from the highest price on. -/
def insertBid (order : Order Address) (orders : List (Order Address)) : List (Order Address) :=
  insertBefore (fun o => o.price < order.price) order orders

/-- Asks stand from the lowest price on. -/
def insertAsk (order : Order Address) (orders : List (Order Address)) : List (Order Address) :=
  insertBefore (fun o => o.price > order.price) order orders

/-- Newton's iteration, where the product of the first deposit is not zero. -/
def sqrt (x : ℤ) : Body Address Tokens ℤ := if x = 0 then pure 0 else newtonSqrt x

section Functions

variable {host : Host Address Tokens} (env : Env host)

def requireAuth (addr : Address) : Body Address Tokens Unit :=
  require (env.auth addr) (.trap "Error(Auth, InvalidAction)")

variable (host)

/-- A transfer of a token, which fails where the token contract does. -/
def transfer (token source destination : Address) (amount : ℤ) : Body Address Tokens Unit := do
  let s ← get
  let tokens ← orFault (host.transfer token source destination amount s.tokens)
    (.trap "Error(Contract, #10)")
  set { s with tokens }

variable {host}

/-! ## Liquidity -/

def initializePool (admin tokenA tokenB : Address) (lpFeeBps makerFeeBps : ℤ) :
    Body Address Tokens Unit := do
  let s ← get
  require s.pool.isNone (.error .alreadyInitialized)
  require (¬(lpFeeBps < 0 ∨ makerFeeBps < 0)) (.error .invalidAmount)
  savePool {
    tokenA, tokenB, lpFeeBps, makerFeeBps, admin
    reserveA := 0
    reserveB := 0
    totalShares := 0
    nextOrderId := 1 }

/-- What a deposit is worth in shares. -/
def sharesFor (pool : PoolState Address) (amountA amountB : ℤ) : Body Address Tokens ℤ :=
  if pool.totalShares = 0 then do
    let product ← checked .invalidAmount (amountA * amountB)
    sqrt product
  else do
    let productA ← checked .invalidAmount (amountA * pool.totalShares)
    let sharesA ← divideI128 productA pool.reserveA
    let productB ← checked .invalidAmount (amountB * pool.totalShares)
    let sharesB ← divideI128 productB pool.reserveB
    pure (min sharesA sharesB)

variable [DecidableEq Address]

def deposit (recipient : Address) (amountA amountB : ℤ) : Body Address Tokens ℤ := do
  require (¬(amountA ≤ 0 ∨ amountB ≤ 0)) (.error .invalidAmount)
  requireAuth env recipient
  let pool ← loadPool
  transfer host pool.tokenA recipient host.currentContractAddress amountA
  transfer host pool.tokenB recipient host.currentContractAddress amountB
  let shares ← sharesFor pool amountA amountB
  let s ← get
  let balance ← plainI128 (s.balance recipient + shares)
  set { s with balance := update s.balance recipient balance }
  let reserveA ← plainI128 (pool.reserveA + amountA)
  let reserveB ← plainI128 (pool.reserveB + amountB)
  let totalShares ← plainI128 (pool.totalShares + shares)
  savePool { pool with reserveA, reserveB, totalShares }
  pure shares

def withdraw (recipient : Address) (shares : ℤ) : Body Address Tokens (ℤ × ℤ) := do
  require (¬shares ≤ 0) (.error .invalidAmount)
  requireAuth env recipient
  let pool ← loadPool
  let s ← get
  require (¬shares > s.balance recipient) (.error .insufficientShares)
  let productA ← plainI128 (shares * pool.reserveA)
  let outA ← divideI128 productA pool.totalShares
  let productB ← plainI128 (shares * pool.reserveB)
  let outB ← divideI128 productB pool.totalShares
  let balance ← plainI128 (s.balance recipient - shares)
  set { s with balance := update s.balance recipient balance }
  let reserveA ← plainI128 (pool.reserveA - outA)
  let reserveB ← plainI128 (pool.reserveB - outB)
  let totalShares ← plainI128 (pool.totalShares - shares)
  savePool { pool with reserveA, reserveB, totalShares }
  transfer host pool.tokenA host.currentContractAddress recipient outA
  transfer host pool.tokenB host.currentContractAddress recipient outB
  pure (outA, outB)

/-! ## The order book -/

omit [DecidableEq Address] in
/-- A bid leaves its cost in token B with the contract, an ask its amount of token A. -/
def placeOrder (maker : Address) (isBid : Bool) (price amount : ℤ) : Body Address Tokens ℕ := do
  require (¬amount ≤ 0) (.error .invalidAmount)
  require (¬price ≤ 0) (.error .invalidPrice)
  requireAuth env maker
  let pool ← loadPool
  if isBid then
    let product ← checked .invalidAmount (amount * price)
    transfer host pool.tokenB maker host.currentContractAddress (product.tdiv priceScale)
  else transfer host pool.tokenA maker host.currentContractAddress amount
  let id := pool.nextOrderId
  require (id + 1 < 2 ^ 64) (.trap "arithmetic operation with overflow")
  savePool { pool with nextOrderId := id + 1 }
  let order := { id, maker, isBid, price, amount }
  let s ← get
  if isBid then saveBids (insertBid order s.bids) else saveAsks (insertAsk order s.asks)
  pure id

/-- The first bid with the id is refunded and removed, or else the first ask with it. -/
def cancelOrder (maker : Address) (orderId : ℕ) : Body Address Tokens Unit := do
  requireAuth env maker
  let pool ← loadPool
  let s ← get
  match s.bids.find? (fun o => o.id = orderId) with
  | some o =>
    require (o.maker = maker) (.error .unauthorized)
    let product ← checked .invalidAmount (o.amount * o.price)
    transfer host pool.tokenB host.currentContractAddress maker (product.tdiv priceScale)
    saveBids (s.bids.eraseP fun o => o.id = orderId)
  | none =>
    match s.asks.find? (fun o => o.id = orderId) with
    | some o =>
      require (o.maker = maker) (.error .unauthorized)
      transfer host pool.tokenA host.currentContractAddress maker o.amount
      saveAsks (s.asks.eraseP fun o => o.id = orderId)
    | none => throw (.error .orderNotFound)

/-! ## Swaps -/

/-- How far a swap has come: what the taker still is to get, what it pays so far, and what it got
from orders. -/
structure Fill where
  remainingOut : ℤ
  totalIn : ℤ
  lobFilled : ℤ

variable (host)

omit [DecidableEq Address] in
/-- The walk over the asks: the taker gets token A from each, and its maker is paid in token B. An
ask that is sold out leaves the list. -/
def fillAsks (pool : PoolState Address) (taker : Address) :
    List (Order Address) → Fill → Body Address Tokens (List (Order Address) × Fill)
  | [], f => pure ([], f)
  | order :: asks, f =>
    if f.remainingOut > 0 then do
      let fillA := min f.remainingOut order.amount
      let product ← checked .invalidAmount (fillA * order.price)
      let baseCost := product.tdiv priceScale
      let fee ← checked .invalidAmount (baseCost * pool.makerFeeBps)
      let makerFee := fee.tdiv 10000
      let takerCost ← plainI128 (baseCost + makerFee)
      let totalIn ← plainI128 (f.totalIn + takerCost)
      let remainingOut ← plainI128 (f.remainingOut - fillA)
      let lobFilled ← plainI128 (f.lobFilled + fillA)
      transfer host pool.tokenA host.currentContractAddress taker fillA
      transfer host pool.tokenB host.currentContractAddress order.maker takerCost
      let amount ← plainI128 (order.amount - fillA)
      let (asks, f) ← fillAsks pool taker asks { remainingOut, totalIn, lobFilled }
      if amount = 0 then pure (asks, f) else pure ({ order with amount } :: asks, f)
    else pure (order :: asks, f)

omit [DecidableEq Address] in
/-- The walk over the bids: the taker gets token B from each, and its maker is paid in token A. -/
def fillBids (pool : PoolState Address) (taker : Address) :
    List (Order Address) → Fill → Body Address Tokens (List (Order Address) × Fill)
  | [], f => pure ([], f)
  | order :: bids, f =>
    if f.remainingOut > 0 then do
      let product ← checked .invalidAmount (order.amount * order.price)
      let fillB := min f.remainingOut (product.tdiv priceScale)
      let scaled ← checked .invalidAmount (fillB * priceScale)
      let fillA ← divideI128 scaled order.price
      let _makerFee ← checked .invalidAmount (fillB * pool.makerFeeBps)
      let totalIn ← plainI128 (f.totalIn + fillA)
      let remainingOut ← plainI128 (f.remainingOut - fillB)
      let lobFilled ← plainI128 (f.lobFilled + fillB)
      transfer host pool.tokenB host.currentContractAddress taker fillB
      transfer host pool.tokenA host.currentContractAddress order.maker fillA
      let amount ← plainI128 (order.amount - fillA)
      let (bids, f) ← fillBids pool taker bids { remainingOut, totalIn, lobFilled }
      if amount = 0 then pure (bids, f) else pure ({ order with amount } :: bids, f)
    else pure (order :: bids, f)

variable {host}

omit [DecidableEq Address] in
/-- The rest of a swap from the pool: the pool after it, and what the taker pays for all. -/
def ammFill (buyA : Bool) (pool : PoolState Address) (f : Fill) :
    Body Address Tokens (PoolState Address × ℤ) := do
  let reserveIn := if buyA then pool.reserveB else pool.reserveA
  let reserveOut := if buyA then pool.reserveA else pool.reserveB
  require (¬f.remainingOut ≥ reserveOut) (.error .insufficientLiquidity)
  let feeScale ← plainI128 (10000 - pool.lpFeeBps)
  let product ← checked .insufficientLiquidity (reserveIn * f.remainingOut)
  let numerator ← checked .insufficientLiquidity (product * 10000)
  let left ← plainI128 (reserveOut - f.remainingOut)
  let denominator ← checked .insufficientLiquidity (left * feeScale)
  let quotient ← divideI128 numerator denominator
  let ammIn ← plainI128 (quotient + 1)
  let totalIn ← plainI128 (f.totalIn + ammIn)
  let reserveOut ← plainI128 (reserveOut - f.remainingOut)
  let reserveIn ← plainI128 (reserveIn + ammIn)
  if buyA then pure ({ pool with reserveA := reserveOut, reserveB := reserveIn }, totalIn)
  else pure ({ pool with reserveA := reserveIn, reserveB := reserveOut }, totalIn)

omit [DecidableEq Address] in
/-- The second phase of a swap, where something remains. -/
def fillRemainder (buyA : Bool) (pool : PoolState Address) (f : Fill) :
    Body Address Tokens (PoolState Address × ℤ) :=
  if f.remainingOut > 0 then ammFill buyA pool f else pure (pool, f.totalIn)

variable (host) in
omit [DecidableEq Address] in
/-- The first phase of a swap, over the asks or over the bids. -/
def fillOrders (taker : Address) (buyA : Bool) (pool : PoolState Address) (f : Fill) :
    Body Address Tokens Fill := do
  let s ← get
  if buyA then
    let (asks, f) ← fillAsks host pool taker s.asks f
    saveAsks asks
    pure f
  else
    let (bids, f) ← fillBids host pool taker s.bids f
    saveBids bids
    pure f

omit [DecidableEq Address] in
def swap (taker : Address) (buyA : Bool) (out inMax : ℤ) : Body Address Tokens SwapResult := do
  require (¬out ≤ 0) (.error .invalidAmount)
  requireAuth env taker
  let pool ← loadPool
  let f ← fillOrders host taker buyA pool ⟨out, 0, 0⟩
  let (pool, totalIn) ← fillRemainder buyA pool f
  let ammFilled := if f.remainingOut > 0 then f.remainingOut else 0
  savePool pool
  require (¬totalIn > inMax) (.error .slippageExceeded)
  let tokenIn := if buyA then pool.tokenB else pool.tokenA
  let tokenOut := if buyA then pool.tokenA else pool.tokenB
  transfer host tokenIn taker host.currentContractAddress totalIn
  if ammFilled > 0 then transfer host tokenOut host.currentContractAddress taker ammFilled
  pure { amountIn := totalIn, amountOut := out, lobFilled := f.lobFilled, ammFilled }

end Functions

/-! ## Calls -/

inductive Call (Address : Type)
  | initializePool (admin tokenA tokenB : Address) (lpFeeBps makerFeeBps : ℤ)
  | deposit (recipient : Address) (amountA amountB : ℤ)
  | withdraw (recipient : Address) (shares : ℤ)
  | placeOrder (maker : Address) (isBid : Bool) (price amount : ℤ)
  | cancelOrder (maker : Address) (orderId : ℕ)
  | swap (taker : Address) (buyA : Bool) (out inMax : ℤ)

/-- What a call returns. -/
inductive Response
  | unit
  | shares (x : ℤ)
  | amounts (a b : ℤ)
  | orderId (id : ℕ)
  | swapped (result : SwapResult)

section Dispatch

variable [DecidableEq Address] {host : Host Address Tokens}

/-- The body of the called entry point. -/
def body (env : Env host) : Call Address → Body Address Tokens Response
  | .initializePool admin tokenA tokenB lpFeeBps makerFeeBps =>
    (fun _ => .unit) <$> initializePool admin tokenA tokenB lpFeeBps makerFeeBps
  | .deposit recipient amountA amountB => .shares <$> deposit env recipient amountA amountB
  | .withdraw recipient shares =>
    (fun out => .amounts out.1 out.2) <$> withdraw env recipient shares
  | .placeOrder maker isBid price amount => .orderId <$> placeOrder env maker isBid price amount
  | .cancelOrder maker orderId => (fun _ => .unit) <$> cancelOrder env maker orderId
  | .swap taker buyA out inMax => .swapped <$> swap env taker buyA out inMax

/-- A call, which finds the tokens as they are by then. -/
def entryPoint (env : Env host) (call : Call Address) : Body Address Tokens Response := do
  let s ← get
  set { s with tokens := env.outside s.tokens }
  body env call

end Dispatch

end HybridAmmLob
