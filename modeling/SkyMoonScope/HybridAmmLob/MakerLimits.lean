import SkyMoonScope.HybridAmmLob.Solvency

/-!
# Whether the makers get their price

The price of a bid is the most that its maker pays, and the price of an ask the least that it
accepts. A fill of a bid pays the maker the token A that the token B is worth, rounded down, so that
the maker pays more than its price unless nothing is rounded off, and where less than one unit is
due it pays for nothing. A fill of an ask rounds its cost down as well, and the fee of the maker
makes up for that where it comes to one unit.

## Main definitions

* `fills`, `settle`: what a swap does with the orders that it walks, and the transfers for that
* `LimitKept`: a fill that is not worse for the maker than its price
* `LimitMet`, `LimitsMet`: what is rounded off is made up for

## Main results

* `Walk.settled`: a walk makes the transfers of its fills
* `forall_fills_iff`: which orders are filled, and how far
* `limitsKept_iff`: a swap keeps the limits of the makers if and only if the roundings meet the
  condition
* `limits_broken`: a bid that is filled for nothing
-/

namespace HybridAmmLob

open Soroban Machine

variable {Address Tokens : Type}

/-! ## The fills of a walk -/

/-- The orders from the first one on until the taker has got everything, with what each contributes
to the swap. -/
def fills (trades : ℤ → Order Address → Trade) :
    ℤ → List (Order Address) → List (Order Address × Trade)
  | _, [] => []
  | out, order :: orders =>
    if 0 < out then
      (order, trades out order) :: fills trades (out - (trades out order).out) orders
    else []

/-- The transfers of the fills: each gives to the taker and pays the maker. -/
def settle (host : Host Address Tokens) (tokenOut tokenIn taker : Address) :
    List (Order Address × Trade) → Tokens → Option Tokens
  | [], k => some k
  | (order, trade) :: rest, k =>
    (host.transfer tokenOut host.currentContractAddress taker trade.out k).bind fun k₁ =>
      (host.transfer tokenIn host.currentContractAddress order.maker trade.paid k₁).bind
        (settle host tokenOut tokenIn taker rest)

section Fills

variable {host : Host Address Tokens} {tokenOut tokenIn taker : Address}
  {trades : ℤ → Order Address → Trade} {orders orders' : List (Order Address)} {f f' : Fill}
  {k k' : Tokens} {out : ℤ}

theorem fills_of_nonpos (h : out ≤ 0) : fills trades out orders = [] := by
  cases orders with
  | nil => rfl
  | cons order orders => exact if_neg (not_lt.mpr h)

/-- **A walk** makes the transfers of its fills, and brings the swap forward by them. -/
theorem Walk.settled (h : Walk host tokenOut tokenIn taker trades orders f k orders' f' k') :
    settle host tokenOut tokenIn taker (fills trades f.remainingOut orders) k = some k' ∧
      f'.remainingOut =
        f.remainingOut - ((fills trades f.remainingOut orders).map fun x => x.2.out).sum ∧
      f'.totalIn =
        f.totalIn + ((fills trades f.remainingOut orders).map fun x => x.2.paid).sum := by
  induction h with
  | @done orders f k h =>
    have hnone : fills trades f.remainingOut orders = [] := by
      rcases h with rfl | h
      · rfl
      · exact fills_of_nonpos h
    rw [hnone]
    simp [settle]
  | trade hremaining htrade hout hpaid hrest ih =>
    obtain rfl := htrade
    obtain ⟨hsettle, hremaining', htotal⟩ := ih
    rw [fills, if_pos hremaining, settle, hout, Option.bind_some, hpaid, Option.bind_some]
    refine ⟨hsettle, ?_, ?_⟩
    · rw [hremaining', List.map_cons, List.sum_cons, sub_sub]
    · rw [htotal, List.map_cons, List.sum_cons, add_assoc]

theorem sum_offered_nonneg {offered : Order Address → ℤ} (hoffered : ∀ o ∈ orders, 0 ≤ offered o) :
    0 ≤ (orders.map offered).sum := by
  refine List.sum_nonneg fun y hy => ?_
  obtain ⟨o, ho, rfl⟩ := List.mem_map.mp hy
  exact hoffered o ho

/-- The orders before another one offer nothing negative. -/
theorem sum_front_nonneg {offered : Order Address → ℤ} {order : Order Address}
    {front back : List (Order Address)} (hoffered : ∀ o ∈ orders, 0 ≤ offered o)
    (hsplit : orders = front ++ order :: back) : 0 ≤ (front.map offered).sum :=
  sum_offered_nonneg fun o ho => hoffered o (hsplit ▸ List.mem_append_left _ ho)

/-- **Which orders are filled**: those that are reached before the taker has got everything, each
out of what those before it have left. -/
theorem forall_fills_iff {offered : Order Address → ℤ} {P : Order Address → Trade → Prop}
    (hout : ∀ r o, (trades r o).out = min r (offered o)) (hoffered : ∀ o ∈ orders, 0 ≤ offered o) :
    (∀ x ∈ fills trades out orders, P x.1 x.2) ↔
      ∀ front order back, orders = front ++ order :: back → (front.map offered).sum < out →
        P order (trades (out - (front.map offered).sum) order) := by
  induction orders generalizing out with
  | nil => simp [fills]
  | cons o orders ih =>
    have hrest : ∀ x ∈ orders, 0 ≤ offered x := fun x hx => hoffered x (List.mem_cons_of_mem o hx)
    rw [fills]
    by_cases hpos : 0 < out
    · rw [if_pos hpos, List.forall_mem_cons, ih hrest, hout]
      constructor
      · rintro ⟨hP, hothers⟩ front order back hsplit hlt
        cases front with
        | nil =>
          -- nothing is before the first order
          obtain ⟨rfl, rfl⟩ := List.cons.inj hsplit
          simpa using hP
        | cons o' front =>
          obtain ⟨rfl, hsplit'⟩ := List.cons.inj hsplit
          rw [List.map_cons, List.sum_cons] at hlt ⊢
          have hbehind := sum_front_nonneg hrest hsplit'
          -- the first order was filled whole, as a later one is reached
          have hwhole : min out (offered o) = offered o := min_eq_right (by linarith)
          have hlater := hothers front order back hsplit' (by rw [hwhole]; linarith)
          rwa [hwhole, sub_sub] at hlater
      · intro h
        refine ⟨by simpa using h [] o orders rfl (by simpa using hpos), ?_⟩
        intro front order back hsplit hlt
        have hbehind := sum_front_nonneg hrest hsplit
        have hwhole : min out (offered o) = offered o := by
          rcases min_choice out (offered o) with hmin | hmin
          · rw [hmin] at hlt
            linarith
          · exact hmin
        rw [hwhole] at hlt ⊢
        have hlater := h (o :: front) order back (by rw [hsplit]; rfl)
          (by rw [List.map_cons, List.sum_cons]; linarith)
        rwa [List.map_cons, List.sum_cons, ← sub_sub] at hlater
    · -- the taker has got everything, so that no order is reached and none is filled
      rw [if_neg hpos]
      constructor
      · intro _ front order back hsplit hlt
        exact absurd ((sum_front_nonneg hoffered hsplit).trans_lt hlt) hpos
      · simp

end Fills

/-! ## One fill -/

/-- A fill that is not worse for the maker than its price: a bid does not pay more token B than the
token A that it gets is worth, and an ask does not get less. Neither gives anything for nothing. -/
structure LimitKept (buyA : Bool) (order : Order Address) (trade : Trade) : Prop where
  limit : if buyA then trade.out * order.price ≤ trade.paid * priceScale
    else trade.out * priceScale ≤ trade.paid * order.price
  both : 0 < trade.out ↔ 0 < trade.paid

/-- What an order offers of the token that the taker gets. -/
def offered (buyA : Bool) (order : Order Address) : ℤ :=
  if buyA then order.amount else escrow order

/-- Nothing is rounded off what the maker of a bid is paid for an amount of token B. Nothing is
rounded off the cost of an amount of token A of an ask, or the fee of the maker makes up for it. -/
def LimitMet (pool : PoolState Address) (buyA : Bool) (order : Order Address) (amount : ℤ) :
    Prop :=
  if buyA then priceScale ∣ amount * order.price ∨
    10000 ≤ amount * order.price / priceScale * pool.makerFeeBps
  else order.price ∣ amount * priceScale

section Limits

variable {pool : PoolState Address} {order : Order Address} {r : ℤ}

/-- **A fill of a bid** keeps the limit where nothing is rounded off. -/
theorem bidTrade_kept_iff (hr : 0 < r) (hamount : 0 < order.amount) (hprice : 0 < order.price) :
    LimitKept false order (bidTrade r order) ↔
      LimitMet pool false order (min r (offered false order)) := by
  have hscale : (0 : ℤ) < priceScale := by decide
  have hout : 0 ≤ min r (escrow order) := le_min hr.le (escrow_nonneg hamount hprice)
  have hpaid : (bidTrade r order).paid = min r (escrow order) * priceScale / order.price :=
    Int.tdiv_eq_ediv_of_nonneg (mul_nonneg hout hscale.le)
  have hle := Int.ediv_mul_le (min r (escrow order) * priceScale) hprice.ne'
  show _ ↔ order.price ∣ min r (escrow order) * priceScale
  constructor
  · intro h
    have hlimit : min r (escrow order) * priceScale ≤ (bidTrade r order).paid * order.price :=
      h.limit
    rw [hpaid] at hlimit
    exact ⟨_, (mul_comm _ _).trans (le_antisymm hle hlimit) |>.symm⟩
  · intro hdvd
    have hexact := Int.ediv_mul_cancel hdvd
    refine ⟨?_, ?_⟩
    · show min r (escrow order) * priceScale ≤ (bidTrade r order).paid * order.price
      rw [hpaid, hexact]
    · -- both sides are positive together, as they are worth the same
      show 0 < min r (escrow order) ↔ _
      rw [← hpaid] at hexact
      rw [← mul_pos_iff_of_pos_right hscale, ← hexact, mul_pos_iff_of_pos_right hprice]

/-- **A fill of an ask** keeps the limit where nothing is rounded off, or the fee makes up for
it. -/
theorem askTrade_kept_iff (hr : 0 < r) (hamount : 0 < order.amount) (hprice : 0 < order.price)
    (hfee : 0 ≤ pool.makerFeeBps) :
    LimitKept true order (askTrade pool r order) ↔
      LimitMet pool true order (min r (offered true order)) := by
  have hscale : (0 : ℤ) < priceScale := by decide
  have hproduct : 0 < min r order.amount * order.price := mul_pos (lt_min hr hamount) hprice
  show _ ↔ priceScale ∣ min r order.amount * order.price ∨
    10000 ≤ min r order.amount * order.price / priceScale * pool.makerFeeBps
  have hlimit : LimitKept true order (askTrade pool r order) ↔
      min r order.amount * order.price ≤ (askTrade pool r order).paid * priceScale := by
    refine ⟨LimitKept.limit, fun h => ⟨h, ?_⟩⟩
    exact iff_of_true (lt_min hr hamount) (pos_of_mul_pos_left (hproduct.trans_le h) hscale.le)
  rw [hlimit]
  -- the cost without the fee, and the fee
  have hbase : 0 ≤ min r order.amount * order.price / priceScale :=
    Int.ediv_nonneg hproduct.le hscale.le
  have hpaid : (askTrade pool r order).paid = min r order.amount * order.price / priceScale +
      min r order.amount * order.price / priceScale * pool.makerFeeBps / 10000 := by
    show (min r order.amount * order.price).tdiv priceScale +
      ((min r order.amount * order.price).tdiv priceScale * pool.makerFeeBps).tdiv 10000 = _
    rw [Int.tdiv_eq_ediv_of_nonneg hproduct.le, Int.tdiv_eq_ediv_of_nonneg (mul_nonneg hbase hfee)]
  have hunit : 1 ≤ min r order.amount * order.price / priceScale * pool.makerFeeBps / 10000 ↔
      10000 ≤ min r order.amount * order.price / priceScale * pool.makerFeeBps := by
    rw [Int.le_ediv_iff_mul_le (by decide), one_mul]
  rw [hpaid, ← hunit]
  generalize min r order.amount * order.price = product at hproduct hbase ⊢
  have hbonus : 0 ≤ product / priceScale * pool.makerFeeBps / 10000 :=
    Int.ediv_nonneg (mul_nonneg hbase hfee) (by decide)
  generalize product / priceScale * pool.makerFeeBps / 10000 = bonus at hbonus ⊢
  have hsplit := Int.ediv_mul_add_emod product priceScale
  have hround := Int.emod_lt_of_pos product hscale
  rw [add_mul]
  constructor
  · intro hle
    -- without a bonus nothing is rounded off
    by_cases hone : 1 ≤ bonus
    · exact .inr hone
    · obtain rfl : bonus = 0 := by omega
      refine .inl (Int.dvd_of_emod_eq_zero (le_antisymm ?_ (Int.emod_nonneg _ hscale.ne')))
      linarith
  · rintro (hdvd | hone)
    · -- the cost is exact, and the fee only adds to it
      rw [Int.ediv_mul_cancel hdvd]
      exact le_add_of_nonneg_right (mul_nonneg hbonus hscale.le)
    · -- one unit of the fee is more than what is rounded off
      have hworth : priceScale ≤ bonus * priceScale := le_mul_of_one_le_left hscale.le hone
      linarith

end Limits

/-! ## Swaps -/

/-- The fills of a swap that is still to be given `out`. -/
def State.fills (s : State Address Tokens) (pool : PoolState Address) (buyA : Bool) (out : ℤ) :
    List (Order Address × Trade) :=
  HybridAmmLob.fills (if buyA then askTrade pool else bidTrade) out (s.book buyA)

/-- Every order that is reached, after those before it, meets the condition of its fill. -/
def LimitsMet (pool : PoolState Address) (buyA : Bool) (out : ℤ) (orders : List (Order Address)) :
    Prop :=
  ∀ front order back, orders = front ++ order :: back → (front.map (offered buyA)).sum < out →
    LimitMet pool buyA order (min (out - (front.map (offered buyA)).sum) (offered buyA order))

/-- No fee is negative. -/
def FeesNonneg (s : State Address Tokens) : Prop :=
  ∀ pool, s.pool = some pool → 0 ≤ pool.lpFeeBps ∧ 0 ≤ pool.makerFeeBps

section Swaps

variable {s t : State Address Tokens} {pool pool' : PoolState Address} {buyA : Bool} {out : ℤ}

theorem fills_offered (r : ℤ) (o : Order Address) :
    ((if buyA then askTrade pool else bidTrade) r o).out = min r (offered buyA o) := by
  cases buyA <;> rfl

theorem offered_nonneg (hs : BookOrdered s) : ∀ o ∈ s.book buyA, 0 ≤ offered buyA o := by
  intro o ho
  cases buyA
  · exact escrow_nonneg (hs.amounts_pos o (List.mem_append_left _ ho))
      (hs.prices_pos o (List.mem_append_left _ ho))
  · exact (hs.amounts_pos o (List.mem_append_right _ ho)).le

/-- In an ordered book the fills keep the limits if and only if the roundings meet the
condition. -/
theorem forall_limitKept_iff (hs : BookOrdered s) (hfee : 0 ≤ pool.makerFeeBps) :
    (∀ x ∈ s.fills pool buyA out, LimitKept buyA x.1 x.2) ↔
      LimitsMet pool buyA out (s.book buyA) := by
  rw [State.fills, forall_fills_iff (P := LimitKept buyA) fills_offered (offered_nonneg hs)]
  -- order by order
  refine forall_congr' fun front => forall_congr' fun order => forall_congr' fun back =>
    forall_congr' fun hsplit => forall_congr' fun hlt => ?_
  have hmem : order ∈ s.book buyA := by
    rw [hsplit]
    simp
  cases buyA
  · exact bidTrade_kept_iff (sub_pos.mpr hlt) (hs.amounts_pos order (List.mem_append_left _ hmem))
      (hs.prices_pos order (List.mem_append_left _ hmem))
  · exact askTrade_kept_iff (sub_pos.mpr hlt) (hs.amounts_pos order (List.mem_append_right _ hmem))
      (hs.prices_pos order (List.mem_append_right _ hmem)) hfee

/-- Whole prices of asks, and prices of bids that divide the scale, round nothing off. -/
theorem limitsMet_of_dvd {orders : List (Order Address)}
    (h : ∀ o ∈ orders, if buyA then priceScale ∣ o.price else o.price ∣ priceScale) :
    LimitsMet pool buyA out orders := by
  rintro front o back rfl -
  have hdvd := h o (by simp)
  cases buyA
  · exact Dvd.dvd.mul_left hdvd _
  · exact .inl (Dvd.dvd.mul_left hdvd _)

theorem FeesNonneg.congr (hs : FeesNonneg s) (hpool : s.pool = some pool)
    (hpool' : t.pool = some pool') (hlp : pool'.lpFeeBps = pool.lpFeeBps)
    (hmaker : pool'.makerFeeBps = pool.makerFeeBps) : FeesNonneg t := by
  intro p hp
  obtain rfl := Option.some.inj (hpool'.symm.trans hp)
  rw [hlp, hmaker]
  exact hs pool hpool

variable [DecidableEq Address] {host : Host Address Tokens} {env : Env host}

/-- No call makes a fee negative. -/
theorem FeesNonneg.of_returns {call : Call Address} {v : Response} (hs : FeesNonneg s)
    (h : Returns (entryPoint env call) s v t) : FeesNonneg t := by
  rw [returns_entryPoint] at h
  replace hs : FeesNonneg { s with tokens := env.outside s.tokens } := hs
  generalize ({ s with tokens := env.outside s.tokens } : State Address Tokens) = s at hs h
  cases call with
  | initializePool admin tokenA tokenB lpFeeBps makerFeeBps =>
    obtain ⟨_, h, -⟩ := returns_map.mp h
    obtain ⟨-, hfees, rfl⟩ := initializePool_spec h
    intro pool hpool
    obtain rfl := Option.some.inj hpool
    exact hfees
  | deposit recipient amountA amountB =>
    obtain ⟨_, h, -⟩ := returns_map.mp h
    obtain ⟨-, -, pool, k₁, k₂, hpool, -, -, -, rfl⟩ := deposit_spec h
    exact hs.congr hpool rfl rfl rfl
  | withdraw recipient shares =>
    obtain ⟨_, h, -⟩ := returns_map.mp h
    obtain ⟨-, -, pool, k₁, k₂, hpool, -, -, -, rfl⟩ := withdraw_spec h
    exact hs.congr hpool rfl rfl rfl
  | placeOrder maker isBid price amount =>
    obtain ⟨_, h, -⟩ := returns_map.mp h
    obtain ⟨-, -, pool, k, hpool, -, -, rfl⟩ := placeOrder_spec h
    exact hs.congr hpool rfl rfl rfl
  | cancelOrder maker orderId =>
    obtain ⟨_, h, -⟩ := returns_map.mp h
    rcases cancelOrder_spec h with ⟨-, pool, o, k, hpool, -, ⟨-, -, rfl⟩ | ⟨-, -, rfl⟩⟩
    · exact hs
    · exact hs
  | swap taker buyA out inMax =>
    obtain ⟨_, h, -⟩ := returns_map.mp h
    obtain ⟨-, -, pool, pool', f, orders, totalIn, k₁, k₂, hswap, -⟩ := swap_spec h
    obtain ⟨reserveA, reserveB, rfl⟩ := hswap.reserves
    rw [hswap.stored]
    exact hs.congr hswap.pool_eq rfl rfl rfl

theorem fees_nonneg {tokens : Tokens} {ls : List (Event host)}
    (h : Run (Step entryPoint) (State.initial tokens) ls s) : FeesNonneg s :=
  invariant_of_returns (P := fun _ _ _ => True) (fun hs hreturns _ => hs.of_returns hreturns)
    (run_unconditional h) (fun _ hpool => by cases hpool)

/-- **A swap keeps the limits of the makers** if and only if the roundings of its fills meet the
condition, in every storage that a run reaches, whatever the token contracts do. -/
theorem limitsKept_iff {tokens : Tokens} {ls : List (Event host)} {taker : Address} {inMax : ℤ}
    {v : Response} (h : Run (Step entryPoint) (State.initial tokens) ls s)
    (hswap : Returns (entryPoint env (.swap taker buyA out inMax)) s v t) :
    ∃ pool pool' f orders totalIn k₁ k₂,
      Swapped host taker buyA out { s with tokens := env.outside s.tokens } t pool pool' f orders
        totalIn k₁ k₂ ∧
      settle host (pool.tokenOut buyA) (pool.tokenIn buyA) taker (s.fills pool buyA out)
        (env.outside s.tokens) = some k₁ ∧
      ((∀ x ∈ s.fills pool buyA out, LimitKept buyA x.1 x.2) ↔
        LimitsMet pool buyA out (s.book buyA)) := by
  rw [returns_entryPoint] at hswap
  obtain ⟨_, hswap, -⟩ := returns_map.mp hswap
  obtain ⟨-, -, pool, pool', f, orders, totalIn, k₁, k₂, hswapped, -⟩ := swap_spec hswap
  obtain ⟨hsettle, -, -⟩ := hswapped.walk.settled
  refine ⟨pool, pool', f, orders, totalIn, k₁, k₂, hswapped, ?_, ?_⟩
  · cases buyA
    · exact hsettle
    · exact hsettle
  · exact forall_limitKept_iff (book_ordered h) (fees_nonneg h pool hswapped.pool_eq).2

end Swaps

/-! ## Bids of the sample -/

/-- Both bids are at half a unit of token B, which rounds nothing off. -/
theorem limitsKept_iff_sample :
    ∃ (ls : List (Event sampleHost)) (s t : State ℕ (Balances ℕ)) (v : Response),
      Run (Step entryPoint) (State.initial sampleTokens) ls s ∧
      Returns (entryPoint sampleEnv (.swap 6 false 30 100)) s v t ∧
      ∃ pool, s.pool = some pool ∧
        (s.fills pool false 30).map (fun x => (x.2.out, x.2.paid)) = [(20, 40), (10, 20)] ∧
        ∀ x ∈ s.fills pool false 30, LimitKept false x.1 x.2 := by
  have hrun := run_execute entryPoint (State.initial sampleTokens) (sampleOrders.take 5)
  obtain ⟨v, hv⟩ := exists_returns_of_isOk (show (invoke (entryPoint sampleEnv
    (.swap 6 false 30 100)) (execute entryPoint (State.initial sampleTokens)
      (sampleOrders.take 5)).2).1.isOk = true by decide +kernel)
  have hfills : (execute entryPoint (State.initial sampleTokens) (sampleOrders.take 5)).2.pool.map
      (fun pool => ((execute entryPoint (State.initial sampleTokens)
        (sampleOrders.take 5)).2.fills pool false 30).map fun x => (x.2.out, x.2.paid)) =
      some [(20, 40), (10, 20)] := by decide +kernel
  obtain ⟨pool, pool', f, orders, totalIn, k₁, k₂, hswapped, -, hiff⟩ := limitsKept_iff hrun hv
  obtain ⟨pool₀, hpool₀, hmap⟩ := Option.map_eq_some_iff.mp hfills
  obtain rfl : pool = pool₀ := Option.some.inj (hswapped.pool_eq.symm.trans hpool₀)
  refine ⟨_, _, _, v, hrun, hv, pool, hpool₀, hmap, hiff.mpr (limitsMet_of_dvd ?_)⟩
  decide +kernel

/-- **A bid is filled for nothing**: two of the three units of token B that its maker pays for one
of token A are worth less than that one. -/
theorem limits_broken :
    ¬ ∀ (ls : List (Event sampleHost)) (s t : State ℕ (Balances ℕ)) (env : Env sampleHost)
      (taker : ℕ) (buyA : Bool) (out inMax : ℤ) (v : Response),
      Run (Step entryPoint) (State.initial sampleTokens) ls s →
      Returns (entryPoint env (.swap taker buyA out inMax)) s v t →
      ∀ pool, s.pool = some pool → ∀ x ∈ s.fills pool buyA out, LimitKept buyA x.1 x.2 := by
  intro h
  let calls : List (Env sampleHost × Call ℕ) :=
    [(sampleEnv, .initializePool 1 100 200 30 10), (sampleEnv, .placeOrder 3 true 3000000 10)]
  have hrun := run_execute entryPoint (State.initial sampleTokens) calls
  obtain ⟨v, hv⟩ := exists_returns_of_isOk (show (invoke (entryPoint sampleEnv
    (.swap 6 false 2 0)) (execute entryPoint (State.initial sampleTokens) calls).2).1.isOk = true
      by decide +kernel)
  have hfails : (execute entryPoint (State.initial sampleTokens) calls).2.pool.map
      (fun pool => ((execute entryPoint (State.initial sampleTokens) calls).2.fills pool false
        2).map fun x => decide (0 < x.2.out ↔ 0 < x.2.paid)) = some [false] := by decide +kernel
  obtain ⟨pool, hpool, hmap⟩ := Option.map_eq_some_iff.mp hfails
  have hmem : false ∈ ((execute entryPoint (State.initial sampleTokens) calls).2.fills pool false
      2).map fun x => decide (0 < x.2.out ↔ 0 < x.2.paid) := by
    rw [hmap]
    exact List.mem_singleton_self _
  obtain ⟨x, hx, hneither⟩ := List.mem_map.mp hmem
  exact of_decide_eq_false hneither (h _ _ _ sampleEnv 6 false 2 0 v hrun hv pool hpool x hx).both

end HybridAmmLob
