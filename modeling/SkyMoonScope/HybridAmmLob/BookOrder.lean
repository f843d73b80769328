import SkyMoonScope.HybridAmmLob.Effects

/-!
# The order of the book

Both lists are kept sorted by insertion, and a walk only shrinks orders or takes them out, so that
what is left stands in the order in which it stood before. A new order has the greatest id so far,
and comes after the orders of its price.

## Main definitions

* `BidBefore`, `AskBefore`: the order of two bids, or of two asks, in the book
* `BookOrdered`: both lists are in this order, with different ids and positive amounts

## Main results

* `pairwise_insertBefore`: an insertion keeps a list sorted
* `Walk.sublist`: a walk keeps the ids and prices of the orders it leaves, in their order
* `book_ordered`: the book is in order in every run
-/

namespace HybridAmmLob

open Soroban Machine

variable {Address Tokens : Type}

/-- The better price first, and the older order at the same price. -/
def BidBefore (o o' : Order Address) : Prop :=
  o'.price < o.price ∨ o.price = o'.price ∧ o.id < o'.id

def AskBefore (o o' : Order Address) : Prop :=
  o.price < o'.price ∨ o.price = o'.price ∧ o.id < o'.id

/-- Bids from the highest price on, asks from the lowest one on, both by id at the same price; the
ids are different and below the next one, and nothing is left of no order. -/
structure BookOrdered (s : State Address Tokens) : Prop where
  bids_sorted : s.bids.Pairwise BidBefore
  asks_sorted : s.asks.Pairwise AskBefore
  ids_nodup : ((s.bids ++ s.asks).map Order.id).Nodup
  ids_lt : ∀ o ∈ s.bids ++ s.asks, ∃ pool, s.pool = some pool ∧ o.id < pool.nextOrderId
  amounts_pos : ∀ o ∈ s.bids ++ s.asks, 0 < o.amount
  prices_pos : ∀ o ∈ s.bids ++ s.asks, 0 < o.price

/-! ## Insertion -/

section Insertion

variable {after : Order Address → Bool} {order : Order Address} {orders : List (Order Address)}

theorem perm_insertBefore : (insertBefore after order orders).Perm (order :: orders) := by
  induction orders with
  | nil => exact .refl _
  | cons o orders ih =>
    rw [insertBefore]
    split
    · exact .refl _
    · exact (ih.cons o).trans (.swap order o orders)

theorem mem_insertBefore {o : Order Address} :
    o ∈ insertBefore after order orders ↔ o = order ∨ o ∈ orders := by
  rw [perm_insertBefore.mem_iff, List.mem_cons]

/-- A sorted list stays so by an insertion before what comes after the order, where everything
else comes before it. -/
theorem pairwise_insertBefore {R : Order Address → Order Address → Prop}
    (htrans : ∀ {x y z}, R x y → R y z → R x z) (hafter : ∀ o ∈ orders, after o → R order o)
    (hbefore : ∀ o ∈ orders, ¬after o → R o order) (h : orders.Pairwise R) :
    (insertBefore after order orders).Pairwise R := by
  induction orders with
  | nil => exact List.pairwise_singleton R order
  | cons o orders ih =>
    obtain ⟨ho, hrest⟩ := List.pairwise_cons.mp h
    rw [insertBefore]
    split
    next hstop =>
      have hfirst := hafter o List.mem_cons_self hstop
      refine List.pairwise_cons.mpr ⟨fun x hx => ?_, h⟩
      rcases List.mem_cons.mp hx with rfl | hx
      · exact hfirst
      · exact htrans hfirst (ho x hx)
    next hgo =>
      refine List.pairwise_cons.mpr ⟨fun x hx => ?_, ?_⟩
      · rcases mem_insertBefore.mp hx with rfl | hx
        · exact hbefore o List.mem_cons_self hgo
        · exact ho x hx
      · exact ih (fun x hx => hafter x (List.mem_cons_of_mem o hx))
          (fun x hx => hbefore x (List.mem_cons_of_mem o hx)) hrest

theorem pairwise_insertBid (hid : ∀ o ∈ orders, o.id < order.id)
    (h : orders.Pairwise BidBefore) : (insertBid order orders).Pairwise BidBefore := by
  refine pairwise_insertBefore ?_ ?_ ?_ h
  · intro x y z hxy hyz
    unfold BidBefore at *
    omega
  · intro o _ hafter
    exact .inl (of_decide_eq_true hafter)
  · intro o ho hnot
    have hle : order.price ≤ o.price := not_lt.mp fun hlt => hnot (decide_eq_true hlt)
    rcases hle.lt_or_eq with hlt | heq
    · exact .inl hlt
    · exact .inr ⟨heq.symm, hid o ho⟩

theorem pairwise_insertAsk (hid : ∀ o ∈ orders, o.id < order.id)
    (h : orders.Pairwise AskBefore) : (insertAsk order orders).Pairwise AskBefore := by
  refine pairwise_insertBefore ?_ ?_ ?_ h
  · intro x y z hxy hyz
    unfold AskBefore at *
    omega
  · intro o _ hafter
    exact .inl (of_decide_eq_true hafter)
  · intro o ho hnot
    have hle : o.price ≤ order.price := not_lt.mp fun hlt => hnot (decide_eq_true hlt)
    rcases hle.lt_or_eq with hlt | heq
    · exact .inl hlt
    · exact .inr ⟨heq, hid o ho⟩

end Insertion

/-! ## Walks -/

/-- What a walk leaves of an order: its id and its price. -/
def Order.key (o : Order Address) : ℕ × ℤ := (o.id, o.price)

/-- Orders whose ids and prices stand in the same order as before are sorted as before. -/
theorem pairwise_of_sublist {R : ℕ × ℤ → ℕ × ℤ → Prop} {orders orders' : List (Order Address)}
    (hsub : (orders'.map Order.key).Sublist (orders.map Order.key))
    (h : orders.Pairwise fun o o' => R o.key o'.key) :
    orders'.Pairwise fun o o' => R o.key o'.key :=
  List.pairwise_map.mp ((List.pairwise_map.mpr h).sublist hsub)

theorem mem_of_sublist_key {orders orders' : List (Order Address)} {o' : Order Address}
    (hsub : (orders'.map Order.key).Sublist (orders.map Order.key)) (ho' : o' ∈ orders') :
    ∃ o ∈ orders, o.id = o'.id ∧ o.price = o'.price := by
  obtain ⟨o, ho, hkey⟩ := List.mem_map.mp (hsub.subset (List.mem_map_of_mem ho'))
  exact ⟨o, ho, congrArg Prod.fst hkey, congrArg Prod.snd hkey⟩

/-- A trade does not use more of an order than there is. -/
def Frugal (trades : ℤ → Order Address → Trade) : Prop :=
  ∀ remainingOut order, 0 < remainingOut → 0 < order.amount → 0 < order.price →
    (trades remainingOut order).used ≤ order.amount

theorem frugal_askTrade (pool : PoolState Address) : Frugal (askTrade pool) :=
  fun _ _ _ _ _ => min_le_right _ _

theorem frugal_bidTrade : Frugal (bidTrade : ℤ → Order Address → Trade) := by
  intro remainingOut order hremaining hamount hprice
  show (min remainingOut (escrow order) * priceScale).tdiv order.price ≤ order.amount
  have hproduct : 0 ≤ order.amount * order.price := (mul_pos hamount hprice).le
  have hescrow : 0 ≤ escrow order := Int.tdiv_nonneg hproduct (by decide)
  have hout : 0 ≤ min remainingOut (escrow order) * priceScale :=
    mul_nonneg (le_min hremaining.le hescrow) (by decide)
  -- the token B is at most the cost of the amount, rounded down
  have hcost : min remainingOut (escrow order) * priceScale ≤ order.amount * order.price :=
    (mul_le_mul_of_nonneg_right (min_le_right _ _) (by decide)).trans
      (IntType.tdiv_mul_le hproduct (by decide))
  rw [Int.tdiv_eq_ediv_of_nonneg hout]
  exact Int.ediv_le_of_le_mul hprice hcost

theorem Walk.sublist {host : Host Address Tokens} {tokenOut tokenIn taker : Address}
    {trades : ℤ → Order Address → Trade} (htrades : Frugal trades)
    {orders orders' : List (Order Address)} {f f' : Fill} {k k' : Tokens}
    (h : Walk host tokenOut tokenIn taker trades orders f k orders' f' k')
    (hamounts : ∀ o ∈ orders, 0 < o.amount) (hprices : ∀ o ∈ orders, 0 < o.price) :
    (orders'.map Order.key).Sublist (orders.map Order.key) ∧ ∀ o ∈ orders', 0 < o.amount := by
  induction h with
  | done h => exact ⟨.refl _, hamounts⟩
  | @trade order orders orders' f f' k k₁ k₂ k' trade hremaining htrade hout hpaid hrest ih =>
    obtain ⟨hamount, hamounts⟩ := List.forall_mem_cons.mp hamounts
    obtain ⟨hprice, hprices⟩ := List.forall_mem_cons.mp hprices
    obtain ⟨hsub, hpos⟩ := ih hamounts hprices
    have hused := htrade ▸ htrades f.remainingOut order hremaining hamount hprice
    unfold keep
    split
    · exact ⟨hsub.cons _, hpos⟩
    · next hleft =>
      refine ⟨hsub.cons_cons _, List.forall_mem_cons.mpr ⟨?_, hpos⟩⟩
      show 0 < order.amount - trade.used
      omega

/-! ## Calls -/

section Calls

variable {s t : State Address Tokens}

/-- The book stays in order where orders only shrink or leave it, and the next id does not fall. -/
theorem BookOrdered.shrink (h : BookOrdered s)
    (hbids : (t.bids.map Order.key).Sublist (s.bids.map Order.key))
    (hasks : (t.asks.map Order.key).Sublist (s.asks.map Order.key))
    (hamounts : ∀ o ∈ t.bids ++ t.asks, 0 < o.amount)
    (hnext : ∀ pool, s.pool = some pool →
      ∃ pool', t.pool = some pool' ∧ pool.nextOrderId ≤ pool'.nextOrderId) : BookOrdered t := by
  have hboth : ((t.bids ++ t.asks).map Order.key).Sublist ((s.bids ++ s.asks).map Order.key) := by
    rw [List.map_append, List.map_append]
    exact hbids.append hasks
  refine ⟨?_, ?_, ?_, ?_, hamounts, ?_⟩
  · exact pairwise_of_sublist (R := fun x y => y.2 < x.2 ∨ x.2 = y.2 ∧ x.1 < y.1) hbids
      h.bids_sorted
  · exact pairwise_of_sublist (R := fun x y => x.2 < y.2 ∨ x.2 = y.2 ∧ x.1 < y.1) hasks
      h.asks_sorted
  · have hids := hboth.map Prod.fst
    rw [List.map_map, List.map_map] at hids
    exact h.ids_nodup.sublist hids
  · intro o ho
    obtain ⟨o', ho', hid, -⟩ := mem_of_sublist_key hboth ho
    obtain ⟨pool, hpool, hlt⟩ := h.ids_lt o' ho'
    obtain ⟨pool', hpool', hle⟩ := hnext pool hpool
    exact ⟨pool', hpool', by omega⟩
  · intro o ho
    obtain ⟨o', ho', -, hprice⟩ := mem_of_sublist_key hboth ho
    rw [← hprice]
    exact h.prices_pos o' ho'

/-- What becomes of the tokens between two calls does not matter to the book. -/
theorem BookOrdered.withTokens (hs : BookOrdered s) (k : Tokens) :
    BookOrdered { s with tokens := k } :=
  hs.shrink (.refl _) (.refl _) hs.amounts_pos fun pool hpool => ⟨pool, hpool, le_rfl⟩

/-- The book stays in order with one more order, of the next id. -/
theorem BookOrdered.place (h : BookOrdered s) {pool pool' : PoolState Address}
    (order : Order Address) (hpool : s.pool = some pool) (hid : order.id = pool.nextOrderId)
    (hpool' : t.pool = some pool') (hnext : pool'.nextOrderId = pool.nextOrderId + 1)
    (hamount : 0 < order.amount) (hprice : 0 < order.price)
    (hbook : t.bids = insertBid order s.bids ∧ t.asks = s.asks ∨
      t.bids = s.bids ∧ t.asks = insertAsk order s.asks) : BookOrdered t := by
  have hlt : ∀ o ∈ s.bids ++ s.asks, o.id < order.id := by
    intro o ho
    obtain ⟨pool₀, hpool₀, hlt⟩ := h.ids_lt o ho
    obtain rfl := Option.some.inj (hpool.symm.trans hpool₀)
    omega
  -- wherever it is put, the order is one more
  have hperm : (t.bids ++ t.asks).Perm (order :: (s.bids ++ s.asks)) := by
    rcases hbook with ⟨hbids, hasks⟩ | ⟨hbids, hasks⟩
    · rw [hbids, hasks]
      exact perm_insertBefore.append_right s.asks
    · rw [hbids, hasks]
      exact (perm_insertBefore.append_left s.bids).trans List.perm_middle
  have hmem : ∀ {P : Order Address → Prop}, P order → (∀ o ∈ s.bids ++ s.asks, P o) →
      ∀ o ∈ t.bids ++ t.asks, P o := by
    intro P hP hrest o ho
    rcases List.mem_cons.mp (hperm.mem_iff.mp ho) with rfl | ho
    · exact hP
    · exact hrest o ho
  refine ⟨?_, ?_, ?_, ?_, hmem hamount h.amounts_pos, hmem hprice h.prices_pos⟩
  · rcases hbook with ⟨hbids, -⟩ | ⟨hbids, -⟩
    · rw [hbids]
      exact pairwise_insertBid (fun o ho => hlt o (List.mem_append_left _ ho)) h.bids_sorted
    · rw [hbids]
      exact h.bids_sorted
  · rcases hbook with ⟨-, hasks⟩ | ⟨-, hasks⟩
    · rw [hasks]
      exact h.asks_sorted
    · rw [hasks]
      exact pairwise_insertAsk (fun o ho => hlt o (List.mem_append_right _ ho)) h.asks_sorted
  · rw [(hperm.map Order.id).nodup_iff, List.map_cons, List.nodup_cons]
    refine ⟨fun hmem => ?_, h.ids_nodup⟩
    obtain ⟨o, ho, heq⟩ := List.mem_map.mp hmem
    exact absurd (hlt o ho) (by omega)
  · refine hmem ⟨pool', hpool', by omega⟩ fun o ho => ⟨pool', hpool', ?_⟩
    have ho' := hlt o ho
    omega

variable [DecidableEq Address] {host : Host Address Tokens} {env : Env host}
  {call : Call Address} {v : Response}

/-- Every call keeps the book in order. -/
theorem BookOrdered.of_returns (hs : BookOrdered s) (h : Returns (entryPoint env call) s v t) :
    BookOrdered t := by
  rw [returns_entryPoint] at h
  replace hs := hs.withTokens (env.outside s.tokens)
  generalize ({ s with tokens := env.outside s.tokens } : State Address Tokens) = s at hs h
  cases call with
  | initializePool admin tokenA tokenB lpFeeBps makerFeeBps =>
    obtain ⟨_, h, -⟩ := returns_map.mp h
    obtain ⟨hnone, -, rfl⟩ := initializePool_spec h
    exact hs.shrink (.refl _) (.refl _) hs.amounts_pos fun pool hpool => by
      cases hnone.symm.trans hpool
  | deposit recipient amountA amountB =>
    obtain ⟨_, h, -⟩ := returns_map.mp h
    obtain ⟨-, -, pool, k₁, k₂, hpool, -, -, -, rfl⟩ := deposit_spec h
    refine hs.shrink (.refl _) (.refl _) hs.amounts_pos fun pool' hpool' => ⟨_, rfl, ?_⟩
    obtain rfl := Option.some.inj (hpool.symm.trans hpool')
    exact le_rfl
  | withdraw recipient shares =>
    obtain ⟨_, h, -⟩ := returns_map.mp h
    obtain ⟨-, -, pool, k₁, k₂, hpool, -, -, -, rfl⟩ := withdraw_spec h
    refine hs.shrink (.refl _) (.refl _) hs.amounts_pos fun pool' hpool' => ⟨_, rfl, ?_⟩
    obtain rfl := Option.some.inj (hpool.symm.trans hpool')
    exact le_rfl
  | placeOrder maker isBid price amount =>
    obtain ⟨id, h, -⟩ := returns_map.mp h
    obtain ⟨-, ⟨hamount, hprice⟩, pool, k, hpool, hid, -, rfl⟩ := placeOrder_spec h
    refine hs.place ⟨id, maker, isBid, price, amount⟩ hpool hid rfl rfl hamount hprice
      ?_
    cases isBid
    · exact .inr ⟨rfl, rfl⟩
    · exact .inl ⟨rfl, rfl⟩
  | cancelOrder maker orderId =>
    obtain ⟨_, h, -⟩ := returns_map.mp h
    rcases cancelOrder_spec h with ⟨-, pool, o, k, hpool, -, ⟨-, -, rfl⟩ | ⟨-, -, rfl⟩⟩
    · refine hs.shrink (List.eraseP_sublist.map _) (.refl _) (fun o ho => ?_)
        fun pool hpool => ⟨pool, hpool, le_rfl⟩
      exact hs.amounts_pos o ((List.eraseP_sublist.append_right s.asks).subset ho)
    · refine hs.shrink (.refl _) (List.eraseP_sublist.map _) (fun o ho => ?_)
        fun pool hpool => ⟨pool, hpool, le_rfl⟩
      exact hs.amounts_pos o ((List.eraseP_sublist.append_left s.bids).subset ho)
  | swap taker buyA out inMax =>
    obtain ⟨_, h, -⟩ := returns_map.mp h
    obtain ⟨-, -, pool, pool', f, orders, totalIn, k₁, k₂, hswap, -⟩ := swap_spec h
    obtain ⟨reserveA, reserveB, rfl⟩ := hswap.reserves
    have hwalk := hswap.walk
    have hnext : ∀ p, s.pool = some p → p.nextOrderId ≤ pool.nextOrderId := by
      intro p hp
      obtain rfl := Option.some.inj (hswap.pool_eq.symm.trans hp)
      exact le_rfl
    rw [hswap.stored]
    cases buyA
    · -- the walk is over the bids, and the asks stay
      obtain ⟨hsub, hpos⟩ := hwalk.sublist frugal_bidTrade
        (fun o ho => hs.amounts_pos o (List.mem_append_left _ ho))
        (fun o ho => hs.prices_pos o (List.mem_append_left _ ho))
      refine hs.shrink hsub (.refl _) (fun o ho => ?_) fun p hp => ⟨_, rfl, hnext p hp⟩
      rcases List.mem_append.mp ho with ho | ho
      · exact hpos o ho
      · exact hs.amounts_pos o (List.mem_append_right _ ho)
    · obtain ⟨hsub, hpos⟩ := hwalk.sublist (frugal_askTrade pool)
        (fun o ho => hs.amounts_pos o (List.mem_append_right _ ho))
        (fun o ho => hs.prices_pos o (List.mem_append_right _ ho))
      refine hs.shrink (.refl _) hsub (fun o ho => ?_) fun p hp => ⟨_, rfl, hnext p hp⟩
      rcases List.mem_append.mp ho with ho | ho
      · exact hs.amounts_pos o (List.mem_append_left _ ho)
      · exact hpos o ho

/-! ## Runs -/

abbrev Event (host : Host Address Tokens) := Soroban.Event (Env host) (Call Address) Error Response

omit [DecidableEq Address] in
theorem bookOrdered_initial (tokens : Tokens) :
    BookOrdered (State.initial tokens : State Address Tokens) where
  bids_sorted := .nil
  asks_sorted := .nil
  ids_nodup := List.nodup_nil
  ids_lt := by simp [State.initial]
  amounts_pos := by simp [State.initial]
  prices_pos := by simp [State.initial]

/-- **The book is in order** in every run of any calls by anybody, whatever the token contracts
do. -/
theorem book_ordered {tokens : Tokens} {ls : List (Event host)}
    (h : Run (Step entryPoint) (State.initial tokens) ls s) : BookOrdered s :=
  invariant_of_returns (P := fun _ _ _ => True) (fun hs hreturns _ => hs.of_returns hreturns)
    (run_unconditional h) (bookOrdered_initial tokens)

end Calls

/-! ## A book of a few orders -/

/-- Everybody but the contract, which is at address `0`, has a million of every token. -/
def sampleTokens : Balances ℕ :=
  ⟨fun _ holder => if holder = 0 then 0 else 1000000, fun _ holder => by
    show (0 : ℤ) ≤ if holder = 0 then 0 else 1000000
    split <;> decide⟩

def sampleHost : Host ℕ (Balances ℕ) :=
  { Balances.interface ℕ with currentContractAddress := 0 }

/-- Everybody authorizes everything, and nothing happens between the calls. -/
def sampleEnv : Env sampleHost where
  auth := fun a => a ≠ 0
  auth_contract := rfl
  outside := id
  le_outside := fun _ _ => le_rfl

/-- Two bids at one price and an ask, of which a swap fills the first bid and a part of the
second. -/
def sampleOrders : List (Env sampleHost × Call ℕ) :=
  [(sampleEnv, .initializePool 1 100 200 30 10),
   (sampleEnv, .deposit 2 10 10),
   (sampleEnv, .placeOrder 3 true 500000 40),
   (sampleEnv, .placeOrder 4 true 500000 60),
   (sampleEnv, .placeOrder 5 false 2000000 70),
   (sampleEnv, .swap 6 false 30 100),
   (sampleEnv, .cancelOrder 5 3)]

theorem book_ordered_sample :
    ∃ (ls : List (Event sampleHost)) (s : State ℕ (Balances ℕ)),
      Run (Step entryPoint) (State.initial sampleTokens) ls s ∧
      s.bids.map (fun o => (o.id, o.amount)) = [(2, 40)] ∧ BookOrdered s := by
  have hrun := run_execute entryPoint (State.initial sampleTokens) sampleOrders
  exact ⟨_, _, hrun, by decide +kernel, book_ordered hrun⟩

end HybridAmmLob
