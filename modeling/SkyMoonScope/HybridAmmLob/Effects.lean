import SkyMoonScope.HybridAmmLob.Book
import SkyMoonScope.Lib.Accounts

/-!
# What the calls of the hybrid do

Each entry point that returns has made certain transfers and has left certain entries. A walk over
the orders is a list of trades: the taker gets an amount from the contract, the maker is paid, and
the order shrinks or leaves the list.

## Main definitions

* `Trade`, `askTrade`, `bidTrade`: what one order contributes to a swap
* `Walk`: trades with the orders of a list, from the first one on
* `escrow`: the token B that a bid has left with the contract

## Main results

* `walk_of_fillAsks`, `walk_of_fillBids`: both loops of a swap are walks
* `deposit_spec`, `withdraw_spec`, `placeOrder_spec`, `cancelOrder_spec`, `swap_spec`: what is
  stored by an entry point that returns
-/

namespace HybridAmmLob

open Soroban Function

variable {Address Tokens : Type}

/-- What the taker gets from an order, what its maker is paid for that, and what the order shrinks
by. -/
structure Trade where
  out : ℤ
  paid : ℤ
  used : ℤ

/-- A trade with an ask: the maker is paid the cost and a fee. -/
def askTrade (pool : PoolState Address) (remainingOut : ℤ) (order : Order Address) : Trade :=
  let out := min remainingOut order.amount
  let baseCost := (out * order.price).tdiv priceScale
  { out, paid := baseCost + (baseCost * pool.makerFeeBps).tdiv 10000, used := out }

/-- The token B that a bid has left with the contract, and that its cancellation gives back. -/
def escrow (order : Order Address) : ℤ := (order.amount * order.price).tdiv priceScale

/-- A trade with a bid: the maker is paid as much token A as the token B is worth. -/
def bidTrade (remainingOut : ℤ) (order : Order Address) : Trade :=
  let out := min remainingOut (escrow order)
  let paid := (out * priceScale).tdiv order.price
  { out, paid, used := paid }

/-- The order that is left by a trade, in front of the rest. -/
def keep (order : Order Address) (amount : ℤ) (orders : List (Order Address)) :
    List (Order Address) :=
  if amount = 0 then orders else { order with amount } :: orders

/-- A walk over orders from the first one on, until the taker has got everything: the orders, the
progress of the swap and the tokens before and after it. -/
inductive Walk (host : Host Address Tokens) (tokenOut tokenIn taker : Address)
    (trades : ℤ → Order Address → Trade) :
    List (Order Address) → Fill → Tokens → List (Order Address) → Fill → Tokens → Prop
  | done {orders : List (Order Address)} {f : Fill} {k : Tokens}
      (h : orders = [] ∨ f.remainingOut ≤ 0) :
      Walk host tokenOut tokenIn taker trades orders f k orders f k
  | trade {order : Order Address} {orders orders' : List (Order Address)} {f f' : Fill}
      {k k₁ k₂ k' : Tokens} {trade : Trade} (hremaining : 0 < f.remainingOut)
      (htrade : trades f.remainingOut order = trade)
      (hout : host.transfer tokenOut host.currentContractAddress taker trade.out k = some k₁)
      (hpaid : host.transfer tokenIn host.currentContractAddress order.maker trade.paid k₁ =
        some k₂)
      (hrest : Walk host tokenOut tokenIn taker trades orders
        ⟨f.remainingOut - trade.out, f.totalIn + trade.paid, f.lobFilled + trade.out⟩ k₂
        orders' f' k') :
      Walk host tokenOut tokenIn taker trades (order :: orders) f k
        (keep order (order.amount - trade.used) orders') f' k'

section Returns

variable {host : Host Address Tokens} {env : Env host} {s t : State Address Tokens} {x y : ℤ}
  {r : Unit} {token source destination addr : Address} {pool : PoolState Address}
  {α : Type} {v : α}

@[simp] theorem returns_checked {e : Error} :
    Returns (checked e x : Body Address Tokens ℤ) s y t ↔
      (IntType.i128.Fits x ∧ x = y) ∧ s = t := by
  simp [checked]

theorem returns_checked_bind {e : Error} {f : ℤ → Body Address Tokens α} :
    Returns (checked e x >>= f) s v t ↔ IntType.i128.Fits x ∧ Returns (f x) s v t := by
  rw [returns_bind_of_reads fun _ _ => returns_checked]
  simp

@[simp] theorem returns_transfer :
    Returns (transfer host token source destination x) s r t ↔
      ∃ k, host.transfer token source destination x s.tokens = some k ∧
        t = { s with tokens := k } := by
  simp only [transfer, returns_get_bind, returns_orFault_bind, returns_set, eq_comm (a := t)]

theorem returns_transfer_bind {f : Unit → Body Address Tokens α} :
    Returns (transfer host token source destination x >>= f) s v t ↔
      ∃ k, host.transfer token source destination x s.tokens = some k ∧
        Returns (f ()) { s with tokens := k } v t := by
  simp only [returns_bind, returns_transfer]
  constructor
  · rintro ⟨_, _, ⟨k, hk, rfl⟩, h⟩
    exact ⟨k, hk, h⟩
  · rintro ⟨k, hk, h⟩
    exact ⟨(), _, ⟨k, hk, rfl⟩, h⟩

theorem returns_loadPool_bind {f : PoolState Address → Body Address Tokens α} :
    Returns (loadPool >>= f) s v t ↔ ∃ pool, s.pool = some pool ∧ Returns (f pool) s v t := by
  simp only [loadPool, bind_assoc, returns_get_bind, returns_orFault_bind]

theorem returns_savePool_bind {f : Unit → Body Address Tokens α} :
    Returns (savePool pool >>= f) s v t ↔ Returns (f ()) { s with pool := some pool } v t := by
  simp only [savePool, bind_assoc, returns_get_bind, returns_set_bind]

theorem returns_requireAuth_bind {f : Unit → Body Address Tokens α} :
    Returns (requireAuth env addr >>= f) s v t ↔ env.auth addr = true ∧ Returns (f ()) s v t :=
  returns_require_bind

/-! ## The walks of a swap -/

theorem returns_keep {order : Order Address} {amount : ℤ} {orders orders' : List (Order Address)}
    {f f' : Fill} :
    Returns (if amount = 0 then pure (orders, f) else pure ({ order with amount } :: orders, f) :
        Body Address Tokens (List (Order Address) × Fill)) s (orders', f') t ↔
      (orders' = keep order amount orders ∧ f' = f) ∧ s = t := by
  unfold keep
  split <;> simp [eq_comm]

/-- The loop over the asks is a walk, which changes nothing but the tokens. -/
theorem walk_of_fillAsks {taker : Address} {asks asks' : List (Order Address)} {f f' : Fill}
    (h : Returns (fillAsks host pool taker asks f) s (asks', f') t) :
    Walk host pool.tokenA pool.tokenB taker (askTrade pool) asks f s.tokens asks' f' t.tokens ∧
      t = { s with tokens := t.tokens } := by
  induction asks generalizing f s asks' with
  | nil =>
    simp only [fillAsks, returns_pure, Prod.mk.injEq] at h
    obtain ⟨⟨rfl, rfl⟩, rfl⟩ := h
    exact ⟨.done (.inl rfl), rfl⟩
  | cons order asks ih =>
    rw [fillAsks] at h
    split at h
    next hremaining =>
      simp only [returns_checked_bind, returns_plainI128_bind, returns_transfer_bind] at h
      obtain ⟨-, -, -, -, -, -, k₁, hout, k₂, hpaid, -, h⟩ := h
      obtain ⟨⟨rest, g⟩, u, hrest, h⟩ := returns_bind.mp h
      obtain ⟨⟨rfl, rfl⟩, rfl⟩ := returns_keep.mp h
      obtain ⟨hwalk, heq⟩ := ih hrest
      exact ⟨.trade hremaining rfl hout hpaid hwalk, heq⟩
    next hremaining =>
      simp only [returns_pure, Prod.mk.injEq] at h
      obtain ⟨⟨rfl, rfl⟩, rfl⟩ := h
      exact ⟨.done (.inr (not_lt.mp hremaining)), rfl⟩

/-- The loop over the bids is a walk as well. -/
theorem walk_of_fillBids {taker : Address} {bids bids' : List (Order Address)} {f f' : Fill}
    (h : Returns (fillBids host pool taker bids f) s (bids', f') t) :
    Walk host pool.tokenB pool.tokenA taker bidTrade bids f s.tokens bids' f' t.tokens ∧
      t = { s with tokens := t.tokens } := by
  induction bids generalizing f s bids' with
  | nil =>
    simp only [fillBids, returns_pure, Prod.mk.injEq] at h
    obtain ⟨⟨rfl, rfl⟩, rfl⟩ := h
    exact ⟨.done (.inl rfl), rfl⟩
  | cons order bids ih =>
    rw [fillBids] at h
    split at h
    next hremaining =>
      simp only [returns_checked_bind, returns_plainI128_bind, returns_divideI128_bind,
        returns_transfer_bind] at h
      obtain ⟨-, -, -, -, -, -, -, -, k₁, hout, k₂, hpaid, -, h⟩ := h
      obtain ⟨⟨rest, g⟩, u, hrest, h⟩ := returns_bind.mp h
      obtain ⟨⟨rfl, rfl⟩, rfl⟩ := returns_keep.mp h
      obtain ⟨hwalk, heq⟩ := ih hrest
      exact ⟨.trade hremaining rfl hout hpaid hwalk, heq⟩
    next hremaining =>
      simp only [returns_pure, Prod.mk.injEq] at h
      obtain ⟨⟨rfl, rfl⟩, rfl⟩ := h
      exact ⟨.done (.inr (not_lt.mp hremaining)), rfl⟩

/-! ## Liquidity -/

theorem initializePool_spec {admin tokenA tokenB : Address} {lpFeeBps makerFeeBps : ℤ}
    (h : Returns (initializePool admin tokenA tokenB lpFeeBps makerFeeBps) s r t) :
    s.pool = none ∧ (0 ≤ lpFeeBps ∧ 0 ≤ makerFeeBps) ∧
      t = { s with pool := some {
        tokenA, tokenB, lpFeeBps, makerFeeBps, admin
        reserveA := 0
        reserveB := 0
        totalShares := 0
        nextOrderId := 1 } } := by
  simp only [initializePool, savePool, returns_get_bind, returns_require_bind, returns_set,
    Option.isNone_iff_eq_none] at h
  obtain ⟨hnone, hfees, rfl⟩ := h
  exact ⟨hnone, by omega, rfl⟩

/-- Shares are computed without a change of the entries, and are not negative where the pool has
nothing negative. -/
theorem sharesFor_spec {amountA amountB : ℤ} (ha : 0 < amountA) (hb : 0 < amountB)
    (h : Returns (sharesFor pool amountA amountB : Body Address Tokens ℤ) s x t) :
    s = t ∧ (0 ≤ pool.totalShares → 0 ≤ pool.reserveA → 0 ≤ pool.reserveB → 0 ≤ x) := by
  have hproduct : 0 < amountA * amountB := mul_pos ha hb
  unfold sharesFor at h
  split at h
  · rw [returns_checked_bind, sqrt, if_neg hproduct.ne', returns_newtonSqrt hproduct] at h
    obtain ⟨-, -, rfl, rfl⟩ := h
    exact ⟨rfl, fun _ _ _ => Int.natCast_nonneg _⟩
  · simp only [returns_checked_bind, returns_divideI128_bind, returns_pure] at h
    obtain ⟨-, -, -, -, -, -, rfl, rfl⟩ := h
    refine ⟨rfl, fun hshares hreserveA hreserveB => le_min ?_ ?_⟩
    · exact Int.tdiv_nonneg (mul_nonneg ha.le hshares) hreserveA
    · exact Int.tdiv_nonneg (mul_nonneg hb.le hshares) hreserveB

variable [DecidableEq Address]

/-- What a deposit that returns has moved and stored. -/
theorem deposit_spec {recipient : Address} {amountA amountB shares : ℤ}
    (h : Returns (deposit env recipient amountA amountB) s shares t) :
    env.auth recipient = true ∧ (0 < amountA ∧ 0 < amountB) ∧ ∃ pool k₁ k₂,
      s.pool = some pool ∧
      host.transfer pool.tokenA recipient host.currentContractAddress amountA s.tokens =
        some k₁ ∧
      host.transfer pool.tokenB recipient host.currentContractAddress amountB k₁ = some k₂ ∧
      (0 ≤ pool.totalShares → 0 ≤ pool.reserveA → 0 ≤ pool.reserveB → 0 ≤ shares) ∧
      t = { s with
        pool := some { pool with
          reserveA := pool.reserveA + amountA
          reserveB := pool.reserveB + amountB
          totalShares := pool.totalShares + shares }
        balance := Accounts.credit s.balance recipient shares
        tokens := k₂ } := by
  simp only [deposit, returns_require_bind, returns_requireAuth_bind, returns_loadPool_bind,
    returns_transfer_bind] at h
  obtain ⟨hamounts, hauth, pool, hpool, k₁, ha, k₂, hb, h⟩ := h
  rw [not_or, not_le, not_le] at hamounts
  obtain ⟨x, u, hshares, h⟩ := returns_bind.mp h
  obtain ⟨rfl, hnonneg⟩ := sharesFor_spec hamounts.1 hamounts.2 hshares
  simp only [returns_get_bind, returns_plainI128_bind, returns_set_bind, returns_savePool_bind,
    returns_pure] at h
  obtain ⟨-, -, -, -, rfl, rfl⟩ := h
  exact ⟨hauth, hamounts, pool, k₁, k₂, hpool, ha, hb, hnonneg, rfl⟩

/-- What a withdrawal that returns has moved and stored. -/
theorem withdraw_spec {recipient : Address} {shares : ℤ} {out : ℤ × ℤ}
    (h : Returns (withdraw env recipient shares) s out t) :
    env.auth recipient = true ∧ (0 < shares ∧ shares ≤ s.balance recipient) ∧ ∃ pool k₁ k₂,
      s.pool = some pool ∧
      out = ((shares * pool.reserveA).tdiv pool.totalShares,
        (shares * pool.reserveB).tdiv pool.totalShares) ∧
      host.transfer pool.tokenA host.currentContractAddress recipient out.1 s.tokens = some k₁ ∧
      host.transfer pool.tokenB host.currentContractAddress recipient out.2 k₁ = some k₂ ∧
      t = { s with
        pool := some { pool with
          reserveA := pool.reserveA - out.1
          reserveB := pool.reserveB - out.2
          totalShares := pool.totalShares - shares }
        balance := Accounts.credit s.balance recipient (-shares)
        tokens := k₂ } := by
  simp only [withdraw, returns_require_bind, returns_requireAuth_bind, returns_loadPool_bind,
    returns_get_bind, returns_plainI128_bind, returns_divideI128_bind, returns_set_bind,
    returns_savePool_bind, returns_transfer_bind, returns_pure] at h
  obtain ⟨hpos, hauth, pool, hpool, hcovered, -, -, -, -, -, -, -, -, -, -, k₁, ha, k₂, hb, rfl,
    rfl⟩ := h
  exact ⟨hauth, ⟨not_le.mp hpos, not_lt.mp hcovered⟩, pool, k₁, k₂, hpool, rfl, ha, hb, rfl⟩

/-! ## Orders -/

omit [DecidableEq Address] in
/-- What an order that is placed has moved and stored. -/
theorem placeOrder_spec {maker : Address} {isBid : Bool} {price amount : ℤ} {id : ℕ}
    (h : Returns (placeOrder env maker isBid price amount) s id t) :
    env.auth maker = true ∧ (0 < amount ∧ 0 < price) ∧ ∃ pool k,
      s.pool = some pool ∧ id = pool.nextOrderId ∧
      host.transfer (if isBid then pool.tokenB else pool.tokenA) maker
        host.currentContractAddress
        (if isBid then (amount * price).tdiv priceScale else amount) s.tokens = some k ∧
      t = { s with
        pool := some { pool with nextOrderId := pool.nextOrderId + 1 }
        bids := if isBid then insertBid { id, maker, isBid, price, amount } s.bids else s.bids
        asks := if isBid then s.asks else insertAsk { id, maker, isBid, price, amount } s.asks
        tokens := k } := by
  simp only [placeOrder, returns_require_bind, returns_requireAuth_bind,
    returns_loadPool_bind] at h
  obtain ⟨hamount, hprice, hauth, pool, hpool, h⟩ := h
  refine ⟨hauth, ⟨not_le.mp hamount, not_le.mp hprice⟩, pool, ?_⟩
  cases isBid
  · simp only [Bool.false_eq_true, if_false, returns_transfer_bind, returns_require_bind,
      returns_savePool_bind, saveAsks, bind_assoc, returns_get_bind, returns_set_bind,
      returns_pure] at h ⊢
    obtain ⟨k, hk, -, rfl, rfl⟩ := h
    exact ⟨k, hpool, rfl, hk, rfl⟩
  · simp only [if_true, bind_assoc, returns_checked_bind, returns_transfer_bind,
      returns_require_bind, returns_savePool_bind, saveBids, returns_get_bind, returns_set_bind,
      returns_pure] at h ⊢
    obtain ⟨-, k, hk, -, rfl, rfl⟩ := h
    exact ⟨k, hpool, rfl, hk, rfl⟩

/-- What a cancellation that returns has refunded and stored, of a bid or of an ask. -/
theorem cancelOrder_spec {maker : Address} {orderId : ℕ}
    (h : Returns (cancelOrder env maker orderId) s r t) :
    env.auth maker = true ∧ ∃ pool o k, s.pool = some pool ∧ o.maker = maker ∧
      (s.bids.find? (fun o => o.id = orderId) = some o ∧
          host.transfer pool.tokenB host.currentContractAddress maker (escrow o) s.tokens =
            some k ∧
          t = { s with bids := s.bids.eraseP fun o => o.id = orderId, tokens := k } ∨
        s.asks.find? (fun o => o.id = orderId) = some o ∧
          host.transfer pool.tokenA host.currentContractAddress maker o.amount s.tokens =
            some k ∧
          t = { s with asks := s.asks.eraseP fun o => o.id = orderId, tokens := k }) := by
  simp only [cancelOrder, returns_requireAuth_bind, returns_loadPool_bind, returns_get_bind] at h
  obtain ⟨hauth, pool, hpool, h⟩ := h
  refine ⟨hauth, pool, ?_⟩
  split at h
  next o hbid =>
    simp only [returns_require_bind, returns_checked_bind, returns_transfer_bind, saveBids,
      returns_get_bind, returns_set] at h
    obtain ⟨hmaker, -, k, hk, rfl⟩ := h
    exact ⟨o, k, hpool, hmaker, .inl ⟨hbid, hk, rfl⟩⟩
  next =>
    split at h
    next o hask =>
      simp only [returns_require_bind, returns_transfer_bind, saveAsks, returns_get_bind,
        returns_set] at h
      obtain ⟨hmaker, k, hk, rfl⟩ := h
      exact ⟨o, k, hpool, hmaker, .inr ⟨hask, hk, rfl⟩⟩
    next => exact absurd h not_returns_throw

/-! ## Swaps -/

/-- The pool after it has given an amount of one token for an amount of the other. -/
def exchanged (buyA : Bool) (pool : PoolState Address) (out ammIn : ℤ) : PoolState Address :=
  if buyA then { pool with reserveA := pool.reserveA - out, reserveB := pool.reserveB + ammIn }
  else { pool with reserveA := pool.reserveA + ammIn, reserveB := pool.reserveB - out }

/-- What the pool takes for an amount: the quotient rounded down, and one more. -/
def ammIn (buyA : Bool) (pool : PoolState Address) (out : ℤ) : ℤ :=
  ((if buyA then pool.reserveB else pool.reserveA) * out * 10000).tdiv
    (((if buyA then pool.reserveA else pool.reserveB) - out) * (10000 - pool.lpFeeBps)) + 1

/-- The pool gives what the taker is still to get, less than its reserve, for an amount that is
positive unless the fee takes more than everything. -/
structure AmmLeg (buyA : Bool) (pool pool' : PoolState Address) (f : Fill) (totalIn : ℤ) :
    Prop where
  covered : f.remainingOut < if buyA then pool.reserveA else pool.reserveB
  exchange : ∃ ammIn, totalIn = f.totalIn + ammIn ∧
    pool' = exchanged buyA pool f.remainingOut ammIn ∧
    (0 < f.remainingOut → 0 ≤ (if buyA then pool.reserveB else pool.reserveA) →
      pool.lpFeeBps ≤ 10000 → 0 < ammIn)
  charged : totalIn = f.totalIn + ammIn buyA pool f.remainingOut
  fee_ne : pool.lpFeeBps ≠ 10000

omit [DecidableEq Address] in
theorem ammFill_spec {buyA : Bool} {f : Fill} {v : PoolState Address × ℤ}
    (h : Returns (ammFill buyA pool f) s v t) : AmmLeg buyA pool v.1 f v.2 ∧ s = t := by
  simp only [ammFill, returns_require_bind, returns_plainI128_bind, returns_checked_bind,
    returns_divideI128_bind] at h
  obtain ⟨hcovered, -, -, -, -, -, hdenominator, -, -, -, -, -, h⟩ := h
  rw [ge_iff_le, not_le] at hcovered
  have hfee : pool.lpFeeBps ≠ 10000 := by
    rintro hfee
    rw [hfee] at hdenominator
    simp at hdenominator
  -- the quotient is not negative where the reserve and the part after the fee are not
  have hquotient : 0 < f.remainingOut → 0 ≤ (if buyA then pool.reserveB else pool.reserveA) →
      pool.lpFeeBps ≤ 10000 → 0 < ammIn buyA pool f.remainingOut := by
    intro hremaining hreserve hfee
    have hnonneg := Int.tdiv_nonneg
      (mul_nonneg (mul_nonneg hreserve hremaining.le) (by decide : (0 : ℤ) ≤ 10000))
      (mul_nonneg (sub_nonneg.mpr hcovered.le) (sub_nonneg.mpr hfee))
    unfold ammIn
    omega
  cases buyA
  · simp only [Bool.false_eq_true, if_false, returns_pure] at h hcovered hquotient
    obtain ⟨rfl, rfl⟩ := h
    exact ⟨⟨hcovered, ⟨_, rfl, rfl, hquotient⟩, rfl, hfee⟩, rfl⟩
  · simp only [if_true, returns_pure] at h hcovered hquotient
    obtain ⟨rfl, rfl⟩ := h
    exact ⟨⟨hcovered, ⟨_, rfl, rfl, hquotient⟩, rfl, hfee⟩, rfl⟩

/-- The token that the taker of a swap gets. -/
def PoolState.tokenOut (pool : PoolState Address) (buyA : Bool) : Address :=
  if buyA then pool.tokenA else pool.tokenB

/-- The token that the taker of a swap pays with. -/
def PoolState.tokenIn (pool : PoolState Address) (buyA : Bool) : Address :=
  if buyA then pool.tokenB else pool.tokenA

/-- The orders that a swap walks. -/
def State.book (s : State Address Tokens) (buyA : Bool) : List (Order Address) :=
  if buyA then s.asks else s.bids

/-- The storage with other orders in the book that a swap walks. -/
def State.withBook (s : State Address Tokens) (buyA : Bool) (orders : List (Order Address)) :
    State Address Tokens :=
  if buyA then { s with asks := orders } else { s with bids := orders }

/-- What a swap has done: the walk over the book, the leg through the pool where the taker was not
given everything, and the two transfers at the end. -/
structure Swapped (host : Host Address Tokens) (taker : Address) (buyA : Bool) (out : ℤ)
    (s t : State Address Tokens) (pool pool' : PoolState Address) (f : Fill)
    (orders : List (Order Address)) (totalIn : ℤ) (k₁ k₂ : Tokens) : Prop where
  pool_eq : s.pool = some pool
  walk : Walk host (pool.tokenOut buyA) (pool.tokenIn buyA) taker
    (if buyA then askTrade pool else bidTrade) (s.book buyA) ⟨out, 0, 0⟩ s.tokens orders f k₁
  leg : f.remainingOut ≤ 0 ∧ pool' = pool ∧ totalIn = f.totalIn ∨
    0 < f.remainingOut ∧ AmmLeg buyA pool pool' f totalIn
  paid : host.transfer (pool.tokenIn buyA) taker host.currentContractAddress totalIn k₁ = some k₂
  given : f.remainingOut ≤ 0 ∧ t.tokens = k₂ ∨ 0 < f.remainingOut ∧
    host.transfer (pool.tokenOut buyA) host.currentContractAddress taker f.remainingOut k₂ =
      some t.tokens
  stored : t = { s.withBook buyA orders with pool := some pool', tokens := t.tokens }

omit [DecidableEq Address] in
theorem fillOrders_spec {taker : Address} {buyA : Bool} {f f' : Fill}
    (h : Returns (fillOrders host taker buyA pool f) s f' t) :
    ∃ orders, Walk host (pool.tokenOut buyA) (pool.tokenIn buyA) taker
        (if buyA then askTrade pool else bidTrade) (s.book buyA) f s.tokens orders f' t.tokens ∧
      t = { s.withBook buyA orders with tokens := t.tokens } := by
  rw [fillOrders, returns_get_bind] at h
  cases buyA
  · simp only [Bool.false_eq_true, if_false] at h
    obtain ⟨⟨orders, g⟩, u, hfill, h⟩ := returns_bind.mp h
    simp only [saveBids, bind_assoc, returns_get_bind, returns_set_bind, returns_pure] at h
    obtain ⟨rfl, rfl⟩ := h
    obtain ⟨hwalk, heq⟩ := walk_of_fillBids hfill
    refine ⟨orders, hwalk, ?_⟩
    rw [heq]
    rfl
  · simp only [if_true] at h
    obtain ⟨⟨orders, g⟩, u, hfill, h⟩ := returns_bind.mp h
    simp only [saveAsks, bind_assoc, returns_get_bind, returns_set_bind, returns_pure] at h
    obtain ⟨rfl, rfl⟩ := h
    obtain ⟨hwalk, heq⟩ := walk_of_fillAsks hfill
    refine ⟨orders, hwalk, ?_⟩
    rw [heq]
    rfl

omit [DecidableEq Address] in
/-- What a swap that returns has done. -/
theorem swap_spec {taker : Address} {buyA : Bool} {out inMax : ℤ} {result : SwapResult}
    (h : Returns (swap env taker buyA out inMax) s result t) :
    env.auth taker = true ∧ 0 < out ∧ ∃ pool pool' f orders totalIn k₁ k₂,
      Swapped host taker buyA out s t pool pool' f orders totalIn k₁ k₂ ∧
        result.amountIn = totalIn := by
  simp only [swap, returns_require_bind, returns_requireAuth_bind, returns_loadPool_bind] at h
  obtain ⟨hout, hauth, pool, hpool, h⟩ := h
  obtain ⟨f, u, hfill, h⟩ := returns_bind.mp h
  obtain ⟨orders, hwalk, hu⟩ := fillOrders_spec hfill
  obtain ⟨⟨pool', totalIn⟩, w, hleg, h⟩ := returns_bind.mp h
  -- the pool stays as it is where the taker has got everything
  have hpart : (f.remainingOut ≤ 0 ∧ pool' = pool ∧ totalIn = f.totalIn ∨
      0 < f.remainingOut ∧ AmmLeg buyA pool pool' f totalIn) ∧ u = w := by
    unfold fillRemainder at hleg
    split at hleg
    next hremaining =>
      obtain ⟨hleg, hw⟩ := ammFill_spec hleg
      exact ⟨.inr ⟨hremaining, hleg⟩, hw⟩
    next hremaining =>
      simp only [returns_pure, Prod.mk.injEq] at hleg
      obtain ⟨⟨rfl, rfl⟩, rfl⟩ := hleg
      exact ⟨.inl ⟨not_lt.mp hremaining, rfl, rfl⟩, rfl⟩
  obtain ⟨hpart, rfl⟩ := hpart
  -- the tokens of the pool are not changed by the leg
  have htokens : pool'.tokenIn buyA = pool.tokenIn buyA ∧
      pool'.tokenOut buyA = pool.tokenOut buyA := by
    rcases hpart with ⟨-, rfl, -⟩ | ⟨-, hleg⟩
    · exact ⟨rfl, rfl⟩
    · obtain ⟨ammIn, -, rfl, -⟩ := hleg.exchange
      cases buyA <;> exact ⟨rfl, rfl⟩
  simp only [returns_savePool_bind, returns_require_bind, returns_transfer_bind] at h
  obtain ⟨-, k₂, hpaid, h⟩ := h
  refine ⟨hauth, not_le.mp hout, pool, pool', f, orders, totalIn, u.tokens, k₂, ?_⟩
  have hpaid' : host.transfer (pool.tokenIn buyA) taker host.currentContractAddress totalIn
      u.tokens = some k₂ := by
    rw [← htokens.1]
    exact hpaid
  rcases lt_or_ge 0 f.remainingOut with hremaining | hremaining
  · rw [if_pos hremaining, if_pos hremaining] at h
    simp only [returns_transfer_bind, returns_pure] at h
    obtain ⟨k₃, hgiven, rfl, rfl⟩ := h
    refine ⟨⟨hpool, hwalk, hpart, hpaid', .inr ⟨hremaining, ?_⟩, ?_⟩, rfl⟩
    · rw [← htokens.2]
      exact hgiven
    · rw [hu]
  · rw [if_neg (not_lt.mpr hremaining)] at h
    simp only [gt_iff_lt, lt_self_iff_false, if_false, returns_pure] at h
    obtain ⟨rfl, rfl⟩ := h
    refine ⟨⟨hpool, hwalk, hpart, hpaid', .inl ⟨hremaining, rfl⟩, ?_⟩, rfl⟩
    rw [hu]

omit [DecidableEq Address] in
/-- A swap changes nothing of the pool but its reserves. -/
theorem Swapped.reserves {taker : Address} {buyA : Bool} {out totalIn : ℤ}
    {pool' : PoolState Address} {f : Fill} {orders : List (Order Address)} {k₁ k₂ : Tokens}
    (h : Swapped host taker buyA out s t pool pool' f orders totalIn k₁ k₂) :
    ∃ reserveA reserveB, pool' = { pool with reserveA, reserveB } := by
  rcases h.leg with ⟨-, rfl, -⟩ | ⟨-, hleg⟩
  · exact ⟨_, _, rfl⟩
  · obtain ⟨ammIn, -, rfl, -⟩ := hleg.exchange
    cases buyA <;> exact ⟨_, _, rfl⟩

/-- A call that returns has done so from the storage with the tokens as they were by then. -/
theorem returns_entryPoint {call : Call Address} {v : Response} :
    Returns (entryPoint env call) s v t ↔
      Returns (body env call) { s with tokens := env.outside s.tokens } v t := by
  simp only [entryPoint, returns_get_bind, returns_set_bind]

end Returns

end HybridAmmLob
