import SkyMoonScope.HybridAmmLob.BookOrder

/-!
# Whether the hybrid can pay what it owes

The contract owes the reserves to its liquidity providers and what was left with it to the makers.
A fill of a bid takes from the bid the token A that the token B is worth, rounded down, so that the
token B left with it may fall by less than what the taker is given. A swap whose fills come out even
leaves the contract solvent, as everything else does.

## Main definitions

* `Solvent`: the contract holds the reserves and what the open orders have left with it
* `ComesOut`: the roundings of a fill of a bid together stay below one unit of token B
* `Call.Meets`: the fills of a swap come out

## Main results

* `escrow_fill`: a fill that comes out takes as much from the bid as the taker is given
* `Walk.held`: what a walk takes from the contract in either token
* `escrow_solvent`: the contract is solvent in every run of calls that meet the condition
* `escrow_insolvent`: a fill that takes nothing from its bid
-/

namespace HybridAmmLob

open Soroban Machine Accounts Function

variable {Address Tokens : Type}

/-- The contract holds its reserves, the amounts of the asks and the token B of the bids. -/
def Solvent (host : Host Address Tokens) (s : State Address Tokens) : Prop :=
  ∀ pool, s.pool = some pool →
    pool.reserveA + (s.asks.map Order.amount).sum ≤
        host.balance pool.tokenA s.tokens host.currentContractAddress ∧
      pool.reserveB + (s.bids.map escrow).sum ≤
        host.balance pool.tokenB s.tokens host.currentContractAddress

/-- What is rounded off the cost of the bid, and what is rounded off the token A for an amount of
token B, together stay below one unit of token B. -/
def ComesOut (order : Order Address) (fillB : ℤ) : Prop :=
  order.amount * order.price % priceScale + fillB * priceScale % order.price < priceScale

/-- Every bid that is reached by an order of the taker, after those before it, comes out. -/
def BidsComeOut (out : ℤ) (bids : List (Order Address)) : Prop :=
  ∀ front order back, bids = front ++ order :: back → (front.map escrow).sum < out →
    ComesOut order (min (out - (front.map escrow).sum) (escrow order))

/-- The fills of a swap that sells token A come out, and a pool of one token alone does not have a
fee above everything. -/
def Call.Meets (s : State Address Tokens) : Call Address → Prop
  | .swap _ buyA out _ =>
    (buyA = false → BidsComeOut out s.bids) ∧
      ∀ pool, s.pool = some pool → pool.tokenA = pool.tokenB → pool.lpFeeBps ≤ 10000
  | _ => True

/-! ## Fills of bids -/

section Fills

variable {order : Order Address} {orders : List (Order Address)} {x : ℤ}

/-- **A fill that comes out** lowers what the bid has left with the contract by as much as the taker
is given. -/
theorem escrow_fill (hamount : 0 < order.amount) (hprice : 0 < order.price) (hx : 0 ≤ x)
    (hle : x ≤ escrow order) (h : ComesOut order x) :
    escrow { order with amount := order.amount - (x * priceScale).tdiv order.price } =
      escrow order - x := by
  have hscale : (0 : ℤ) < priceScale := by decide
  have hproduct : 0 ≤ order.amount * order.price := (mul_pos hamount hprice).le
  have hout : 0 ≤ x * priceScale := mul_nonneg hx hscale.le
  unfold escrow at hle ⊢
  rw [Int.tdiv_eq_ediv_of_nonneg hproduct] at hle ⊢
  rw [Int.tdiv_eq_ediv_of_nonneg hout]
  -- the rest of the cost is the cost less the token B, and what both divisions round off
  have hdivA := Int.mul_ediv_add_emod (x * priceScale) order.price
  have hdivB := Int.mul_ediv_add_emod (order.amount * order.price) priceScale
  have hrest : (order.amount - x * priceScale / order.price) * order.price =
      (order.amount * order.price % priceScale + x * priceScale % order.price) +
        priceScale * (order.amount * order.price / priceScale - x) := by
    linarith [mul_comm order.price (x * priceScale / order.price),
      mul_comm x priceScale,
      sub_mul order.amount (x * priceScale / order.price) order.price,
      mul_sub priceScale (order.amount * order.price / priceScale) x]
  have hround : 0 ≤ order.amount * order.price % priceScale + x * priceScale % order.price :=
    add_nonneg (Int.emod_nonneg _ hscale.ne') (Int.emod_nonneg _ hprice.ne')
  have hnonneg : 0 ≤ (order.amount - x * priceScale / order.price) * order.price := by
    rw [hrest]
    exact add_nonneg hround (mul_nonneg hscale.le (sub_nonneg.mpr hle))
  rw [Int.tdiv_eq_ediv_of_nonneg hnonneg, hrest, Int.add_mul_ediv_left _ _ hscale.ne',
    Int.ediv_eq_zero_of_lt hround h, zero_add]

/-- Where the price of every bid divides the scale, nothing is rounded off the token A. -/
theorem bidsComeOut_of_dvd {out : ℤ} (h : ∀ o ∈ orders, o.price ∣ priceScale) :
    BidsComeOut out orders := by
  rintro front o back rfl -
  have hdvd := (h o (by simp)).mul_left (min (out - (front.map escrow).sum) (escrow o))
  unfold ComesOut
  rw [Int.emod_eq_zero_of_dvd hdvd, add_zero]
  exact Int.emod_lt_of_pos _ (by decide)

theorem sum_amount_keep {amount : ℤ} :
    ((keep order amount orders).map Order.amount).sum =
      amount + (orders.map Order.amount).sum := by
  unfold keep
  split
  next hzero => rw [hzero, zero_add]
  next => rfl

theorem sum_escrow_keep {amount : ℤ} :
    ((keep order amount orders).map escrow).sum =
      escrow { order with amount } + (orders.map escrow).sum := by
  unfold keep
  split
  next hzero =>
    subst hzero
    simp [escrow]
  next => rfl

theorem escrow_nonneg (hamount : 0 < order.amount) (hprice : 0 < order.price) :
    0 ≤ escrow order :=
  Int.tdiv_nonneg (mul_pos hamount hprice).le (by decide)

theorem sum_escrow_nonneg (hamounts : ∀ o ∈ orders, 0 < o.amount)
    (hprices : ∀ o ∈ orders, 0 < o.price) : 0 ≤ (orders.map escrow).sum := by
  refine List.sum_nonneg fun y hy => ?_
  obtain ⟨o, ho, rfl⟩ := List.mem_map.mp hy
  exact escrow_nonneg (hamounts o ho) (hprices o ho)

end Fills

/-! ## What transfers do to the contract -/

/-- An amount of a token, in the token `x`. -/
def due [DecidableEq Address] (x token : Address) (amount : ℤ) : ℤ :=
  if x = token then amount else 0

section Held

variable [DecidableEq Address] {host : Host Address Tokens} {x token : Address} {a b : ℤ}

theorem due_zero : due x token 0 = 0 := ite_self 0

theorem due_add : due x token (a + b) = due x token a + due x token b := by
  unfold due
  split <;> simp

theorem due_sub : due x token (a - b) = due x token a - due x token b := by
  unfold due
  split <;> simp

/-- What the contract holds of the token `x`. -/
def held (host : Host Address Tokens) (x : Address) (k : Tokens) : ℤ :=
  host.balance x k host.currentContractAddress

variable {k k' : Tokens} {amount : ℤ} {other : Address}

/-- A transfer from the contract costs it at most the amount. -/
theorem held_outgoing (hhost : Conforming host.toTokenInterface)
    (h : host.transfer token host.currentContractAddress other amount k = some k') :
    held host x k - due x token amount ≤ held host x k' := by
  have hamount := hhost.transfer_nonneg h
  unfold held due
  split
  next hx =>
    subst hx
    rw [hhost.balance_transfer h]
    by_cases hself : host.currentContractAddress = other
    · rw [← hself, move_self]
      linarith
    · rw [move_source hself]
  next hx =>
    rw [hhost.balance_transfer_of_ne h hx, sub_zero]

/-- A transfer to the contract from somebody else brings it the amount. -/
theorem held_incoming (hhost : Conforming host.toTokenInterface)
    (hne : other ≠ host.currentContractAddress)
    (h : host.transfer token other host.currentContractAddress amount k = some k') :
    held host x k + due x token amount ≤ held host x k' := by
  unfold held due
  split
  next hx =>
    subst hx
    rw [hhost.balance_transfer h, move_destination hne]
  next hx =>
    rw [hhost.balance_transfer_of_ne h hx, add_zero]

/-- **A walk** costs the contract what the taker is given and what the makers are paid. -/
theorem Walk.held (hhost : Conforming host.toTokenInterface) {tokenOut tokenIn taker : Address}
    {trades : ℤ → Order Address → Trade} {orders orders' : List (Order Address)} {f f' : Fill}
    (h : Walk host tokenOut tokenIn taker trades orders f k orders' f' k') :
    held host x k - due x tokenOut (f.remainingOut - f'.remainingOut) -
      due x tokenIn (f'.totalIn - f.totalIn) ≤ held host x k' := by
  induction h with
  | done h => simp [due]
  | trade hremaining htrade hout hpaid hrest ih =>
    have hfirst := held_outgoing (x := x) hhost hout
    have hsecond := held_outgoing (x := x) hhost hpaid
    simp only [due_sub, due_add] at ih ⊢
    linarith

end Held

/-! ## What walks do to the orders -/

section Sums

variable {host : Host Address Tokens} {tokenOut tokenIn taker : Address}
  {order : Order Address} {orders orders' : List (Order Address)} {f f' : Fill} {k k' : Tokens}

/-- The asks give up what the taker is given. -/
theorem Walk.sum_amounts {pool : PoolState Address}
    (h : Walk host tokenOut tokenIn taker (askTrade pool) orders f k orders' f' k') :
    (orders'.map Order.amount).sum =
      (orders.map Order.amount).sum - (f.remainingOut - f'.remainingOut) := by
  induction h with
  | done h => simp
  | trade hremaining htrade hout hpaid hrest ih =>
    obtain rfl := htrade
    rw [sum_amount_keep, ih, List.map_cons, List.sum_cons]
    simp only [askTrade]
    ring

/-- Behind a bid that is filled, those come out that have come out of what is left to be given. -/
theorem BidsComeOut.tail {out : ℤ} (h : BidsComeOut out (order :: orders))
    (hamounts : ∀ o ∈ orders, 0 < o.amount) (hprices : ∀ o ∈ orders, 0 < o.price) :
    BidsComeOut (out - min out (escrow order)) orders := by
  rintro front o back rfl hlt
  have hfront : 0 ≤ (front.map escrow).sum :=
    sum_escrow_nonneg (fun o ho => hamounts o (List.mem_append_left _ ho))
      (fun o ho => hprices o (List.mem_append_left _ ho))
  -- the bid was filled whole, as something is left to be given
  have hmin : min out (escrow order) = escrow order := by
    rcases min_choice out (escrow order) with hmin | hmin
    · rw [hmin] at hlt
      linarith
    · exact hmin
  rw [hmin] at hlt ⊢
  have hcome := h (order :: front) o back rfl (by rw [List.map_cons, List.sum_cons]; linarith)
  rwa [List.map_cons, List.sum_cons, ← sub_sub] at hcome

/-- Bids that come out give up what the taker is given. -/
theorem Walk.sum_escrows
    (h : Walk host tokenOut tokenIn taker bidTrade orders f k orders' f' k')
    (hamounts : ∀ o ∈ orders, 0 < o.amount) (hprices : ∀ o ∈ orders, 0 < o.price)
    (hcome : BidsComeOut f.remainingOut orders) :
    (orders'.map escrow).sum =
      (orders.map escrow).sum - (f.remainingOut - f'.remainingOut) := by
  induction h with
  | done h => simp
  | @trade order orders orders' f f' k k₁ k₂ k' trade hremaining htrade hout hpaid hrest ih =>
    obtain rfl := htrade
    obtain ⟨hamount, hamounts⟩ := List.forall_mem_cons.mp hamounts
    obtain ⟨hprice, hprices⟩ := List.forall_mem_cons.mp hprices
    have hnonneg := escrow_nonneg hamount hprice
    have hfirst := hcome [] order orders rfl (by simpa using hremaining)
    simp only [List.map_nil, List.sum_nil, sub_zero] at hfirst
    have hfill := escrow_fill hamount hprice (le_min hremaining.le hnonneg) (min_le_right _ _)
      hfirst
    have hrest' := ih hamounts hprices (hcome.tail hamounts hprices)
    rw [sum_escrow_keep, hrest', List.map_cons, List.sum_cons]
    simp only [bidTrade] at hfill ⊢
    rw [hfill]
    ring

end Sums

/-! ## What the contract owes -/

section Owed

variable [DecidableEq Address] {host : Host Address Tokens} {s t : State Address Tokens}

/-- What the contract owes in the token `x`, where both tokens of the pool may be this one. -/
def owed (x : Address) (pool : PoolState Address) (s : State Address Tokens) : ℤ :=
  due x pool.tokenA (pool.reserveA + (s.asks.map Order.amount).sum) +
    due x pool.tokenB (pool.reserveB + (s.bids.map escrow).sum)

/-- The reserves are not negative, and the shares are those of the liquidity providers. -/
structure Provided (pool : PoolState Address) (balance : Address → ℤ) : Prop where
  reserveA_nonneg : 0 ≤ pool.reserveA
  reserveB_nonneg : 0 ≤ pool.reserveB
  finite : balance.HasFiniteSupport
  nonneg : ∀ a, 0 ≤ balance a
  total : ∑ᶠ a, balance a = pool.totalShares

/-- What holds of the contract as long as its swaps meet the condition. It needs to know about the
shares only where both tokens are one, so that one reserve could be used up for the other. -/
structure Backed (host : Host Address Tokens) (s : State Address Tokens) : Prop where
  book : BookOrdered s
  unshared : s.pool = none → s.balance = fun _ => 0
  covered : ∀ pool, s.pool = some pool → ∀ x, owed x pool s ≤ held host x s.tokens
  provided : ∀ pool, s.pool = some pool → pool.tokenA = pool.tokenB → Provided pool s.balance

/-- A backed contract is solvent. -/
theorem Backed.solvent (h : Backed host s) : Solvent host s := by
  intro pool hpool
  have hA := h.covered pool hpool pool.tokenA
  have hB := h.covered pool hpool pool.tokenB
  simp only [owed, due, held, if_true] at hA hB
  by_cases hsame : pool.tokenA = pool.tokenB
  · -- what is owed in the other token is not negative
    obtain ⟨hreserveA, hreserveB, -⟩ := h.provided pool hpool hsame
    have hasks : 0 ≤ (s.asks.map Order.amount).sum := by
      refine List.sum_nonneg fun y hy => ?_
      obtain ⟨o, ho, rfl⟩ := List.mem_map.mp hy
      exact (h.book.amounts_pos o (List.mem_append_right _ ho)).le
    have hbids : 0 ≤ (s.bids.map escrow).sum :=
      sum_escrow_nonneg (fun o ho => h.book.amounts_pos o (List.mem_append_left _ ho))
        (fun o ho => h.book.prices_pos o (List.mem_append_left _ ho))
    rw [if_pos hsame] at hA
    rw [if_pos hsame.symm] at hB
    constructor <;> linarith
  · rw [if_neg hsame] at hA
    rw [if_neg (Ne.symm hsame)] at hB
    constructor <;> linarith

variable {env : Env host} {x : Address} {pool : PoolState Address}

/-- Nobody else takes from the contract between two calls. -/
theorem Backed.outside (h : Backed host s) (env : Env host) :
    Backed host { s with tokens := env.outside s.tokens } where
  book := h.book.withTokens _
  unshared := h.unshared
  covered := fun pool hpool x => (h.covered pool hpool x).trans (env.le_outside x s.tokens)
  provided := h.provided

omit [DecidableEq Address] in
/-- The contract authorizes no call of its own. -/
theorem ne_contract {addr : Address} (h : env.auth addr = true) :
    addr ≠ host.currentContractAddress := by
  rintro rfl
  rw [env.auth_contract] at h
  cases h

/-! ## One call -/

omit [DecidableEq Address] in
theorem sum_eraseP {f : Order Address → ℤ} {p : Order Address → Bool} {o : Order Address}
    {orders : List (Order Address)} (h : orders.find? p = some o) :
    ((orders.eraseP p).map f).sum = (orders.map f).sum - f o := by
  induction orders with
  | nil => cases h
  | cons o' orders ih =>
    by_cases hp : p o'
    · rw [List.find?_cons_of_pos hp] at h
      obtain rfl := Option.some.inj h
      rw [List.eraseP_cons_of_pos hp, List.map_cons, List.sum_cons]
      ring
    · rw [List.find?_cons_of_neg hp] at h
      rw [List.eraseP_cons_of_neg hp, List.map_cons, List.sum_cons, ih h, List.map_cons,
        List.sum_cons]
      ring

omit [DecidableEq Address] in
theorem sum_insertBefore {f : Order Address → ℤ} {after : Order Address → Bool}
    {order : Order Address} {orders : List (Order Address)} :
    ((insertBefore after order orders).map f).sum = f order + (orders.map f).sum := by
  rw [(perm_insertBefore.map f).sum_eq, List.map_cons, List.sum_cons]

omit [DecidableEq Address] in
/-- A contract without a pool has no orders. -/
theorem BookOrdered.eq_nil (h : BookOrdered s) (hpool : s.pool = none) :
    s.bids = [] ∧ s.asks = [] := by
  rw [← List.append_eq_nil_iff, List.eq_nil_iff_forall_not_mem]
  intro o ho
  obtain ⟨pool, hsome, -⟩ := h.ids_lt o ho
  cases hpool.symm.trans hsome

omit [DecidableEq Address] in
theorem provided_initial {pool : PoolState Address} (hA : pool.reserveA = 0)
    (hB : pool.reserveB = 0) (hshares : pool.totalShares = 0) :
    Provided pool fun _ => 0 where
  reserveA_nonneg := hA.ge
  reserveB_nonneg := hB.ge
  finite := by simp [HasFiniteSupport]
  nonneg := fun _ => le_rfl
  total := by rw [finsum_zero, hshares]

/-- A deposit provides more. -/
theorem Provided.deposit {balance : Address → ℤ} (h : Provided pool balance)
    {recipient : Address} {amountA amountB shares : ℤ} (ha : 0 < amountA) (hb : 0 < amountB)
    (hshares : 0 ≤ pool.totalShares → 0 ≤ pool.reserveA → 0 ≤ pool.reserveB → 0 ≤ shares) :
    Provided { pool with
      reserveA := pool.reserveA + amountA
      reserveB := pool.reserveB + amountB
      totalShares := pool.totalShares + shares } (credit balance recipient shares) := by
  obtain ⟨hreserveA, hreserveB, hfinite, hnonneg, htotal⟩ := h
  have htotal0 : 0 ≤ pool.totalShares := htotal ▸ finsum_nonneg hnonneg
  refine ⟨by positivity, by positivity, hasFiniteSupport_credit hfinite, ?_, ?_⟩
  · exact (credit_nonneg_iff hnonneg).mpr
      (add_nonneg (hnonneg recipient) (hshares htotal0 hreserveA hreserveB))
  · rw [finsum_credit hfinite, htotal]

/-- A part of a reserve is at most the reserve. -/
theorem tdiv_le_reserve {shares reserve total : ℤ} (hshares : 0 < shares) (hle : shares ≤ total)
    (hreserve : 0 ≤ reserve) : (shares * reserve).tdiv total ≤ reserve := by
  rw [Int.tdiv_eq_ediv_of_nonneg (mul_nonneg hshares.le hreserve)]
  exact Int.ediv_le_of_le_mul (hshares.trans_le hle)
    (by rw [mul_comm reserve]; exact mul_le_mul_of_nonneg_right hle hreserve)

/-- A withdrawal takes no more than there is. -/
theorem Provided.withdraw {balance : Address → ℤ} (h : Provided pool balance)
    {recipient : Address} {shares : ℤ} (hpos : 0 < shares) (hle : shares ≤ balance recipient) :
    Provided { pool with
      reserveA := pool.reserveA - (shares * pool.reserveA).tdiv pool.totalShares
      reserveB := pool.reserveB - (shares * pool.reserveB).tdiv pool.totalShares
      totalShares := pool.totalShares - shares } (credit balance recipient (-shares)) := by
  obtain ⟨hreserveA, hreserveB, hfinite, hnonneg, htotal⟩ := h
  have hshares : shares ≤ pool.totalShares :=
    htotal ▸ hle.trans (single_le_finsum recipient hfinite hnonneg)
  refine ⟨sub_nonneg.mpr (tdiv_le_reserve hpos hshares hreserveA),
    sub_nonneg.mpr (tdiv_le_reserve hpos hshares hreserveB),
    hasFiniteSupport_credit hfinite, ?_, ?_⟩
  · exact (credit_nonneg_iff hnonneg).mpr (by linarith)
  · rw [finsum_credit hfinite, htotal]
    ring

/-- A swap is paid for in the one token and given in the other, and the book gives up what the pool
does not. -/
theorem Backed.swap (hhost : Conforming host.toTokenInterface) (hs : Backed host s)
    {taker : Address} {buyA : Bool} {out inMax totalIn : ℤ} {pool' : PoolState Address} {f : Fill}
    {orders : List (Order Address)} {k₁ k₂ : Tokens} (htaker : taker ≠ host.currentContractAddress)
    (h : Swapped host taker buyA out s t pool pool' f orders totalIn k₁ k₂)
    (hmeets : (Call.swap taker buyA out inMax).Meets s) (ht : BookOrdered t) : Backed host t := by
  have hbook : t.bids = (if buyA then s.bids else orders) ∧
      t.asks = (if buyA then orders else s.asks) ∧ t.balance = s.balance ∧
      t.pool = some pool' := by
    rw [h.stored]
    cases buyA <;> exact ⟨rfl, rfl, rfl, rfl⟩
  obtain ⟨hbids, hasks, hbalance, hpool'⟩ := hbook
  have hsums : (t.asks.map Order.amount).sum = (s.asks.map Order.amount).sum -
        (if buyA then out - f.remainingOut else 0) ∧
      (t.bids.map escrow).sum = (s.bids.map escrow).sum -
        (if buyA then 0 else out - f.remainingOut) := by
    rw [hbids, hasks]
    cases buyA
    · have hsum := h.walk.sum_escrows
        (fun o ho => hs.book.amounts_pos o (List.mem_append_left _ ho))
        (fun o ho => hs.book.prices_pos o (List.mem_append_left _ ho)) (hmeets.1 rfl)
      exact ⟨(sub_zero _).symm, hsum⟩
    · exact ⟨h.walk.sum_amounts, (sub_zero _).symm⟩
  have hfee := hmeets.2 pool h.pool_eq
  refine ⟨ht, (fun hnone => by cases hpool'.symm.trans hnone), fun p hp x => ?_,
    fun p hp hsame => ?_⟩
  · obtain rfl := Option.some.inj (hpool'.symm.trans hp)
    have hcovered := hs.covered pool h.pool_eq x
    have hwalk := h.walk.held (x := x) hhost
    have hpaid := held_incoming (x := x) hhost htaker h.paid
    rcases h.leg with ⟨hdone, rfl, rfl⟩ | ⟨hremaining, hleg⟩
    · -- the book has given everything
      have hgiven := (h.given.resolve_right fun hgiven => by linarith [hgiven.1]).2
      rw [hgiven]
      simp only [owed, hsums.1, hsums.2]
      cases buyA
      · simp only [PoolState.tokenOut, PoolState.tokenIn, owed, Bool.false_eq_true, if_false,
          due_zero, due_add, due_sub] at hcovered hwalk hpaid ⊢
        linarith
      · simp only [PoolState.tokenOut, PoolState.tokenIn, owed, if_true, due_zero, due_add, due_sub]
          at hcovered hwalk hpaid ⊢
        linarith
    · -- the pool has given the rest
      have hgiven := (h.given.resolve_left fun hgiven => by linarith [hgiven.1]).2
      have hout := held_outgoing (x := x) hhost hgiven
      obtain ⟨ammIn, rfl, rfl, -⟩ := hleg.exchange
      simp only [owed, hsums.1, hsums.2]
      cases buyA
      · simp only [PoolState.tokenOut, PoolState.tokenIn, owed, exchanged, Bool.false_eq_true,
          if_false, due_zero, due_add, due_sub] at hcovered hwalk hpaid hout ⊢
        linarith
      · simp only [PoolState.tokenOut, PoolState.tokenIn, owed, exchanged, if_true, due_zero,
          due_add, due_sub] at hcovered hwalk hpaid hout ⊢
        linarith
  · obtain rfl := Option.some.inj (hpool'.symm.trans hp)
    rw [hbalance]
    rcases h.leg with ⟨-, rfl, -⟩ | ⟨hremaining, hleg⟩
    · exact hs.provided _ h.pool_eq hsame
    · obtain ⟨ammIn, -, rfl, hpos⟩ := hleg.exchange
      have hcovered := hleg.covered
      have hsame' : pool.tokenA = pool.tokenB := by
        cases buyA <;> exact hsame
      obtain ⟨hreserveA, hreserveB, hfinite, hnonneg, htotal⟩ := hs.provided pool h.pool_eq hsame'
      cases buyA
      · have hin := hpos hremaining hreserveA (hfee hsame')
        exact ⟨(add_nonneg hreserveA hin.le : 0 ≤ pool.reserveA + ammIn),
          (sub_nonneg.mpr hcovered.le : 0 ≤ pool.reserveB - f.remainingOut), hfinite, hnonneg,
          htotal⟩
      · have hin := hpos hremaining hreserveB (hfee hsame')
        exact ⟨(sub_nonneg.mpr hcovered.le : 0 ≤ pool.reserveA - f.remainingOut),
          (add_nonneg hreserveB hin.le : 0 ≤ pool.reserveB + ammIn), hfinite, hnonneg, htotal⟩

/-- **One call**: what backs the contract is kept by every call that meets the condition. -/
theorem Backed.of_returns (hhost : Conforming host.toTokenInterface) {call : Call Address}
    {v : Response} (hs : Backed host s) (h : Returns (entryPoint env call) s v t)
    (hmeets : call.Meets s) : Backed host t := by
  have hbook := hs.book.of_returns h
  rw [returns_entryPoint] at h
  replace hs := hs.outside env
  replace hmeets : call.Meets { s with tokens := env.outside s.tokens } := hmeets
  generalize ({ s with tokens := env.outside s.tokens } : State Address Tokens) = s at hs h hmeets
  cases call with
  | initializePool admin tokenA tokenB lpFeeBps makerFeeBps =>
    obtain ⟨_, h, -⟩ := returns_map.mp h
    obtain ⟨hnone, -, rfl⟩ := initializePool_spec h
    obtain ⟨hbids, hasks⟩ := hs.book.eq_nil hnone
    refine ⟨hbook, (fun hsome => by cases hsome), fun pool hpool x => ?_, fun pool hpool _ => ?_⟩
    · obtain rfl := Option.some.inj hpool
      have hheld : 0 ≤ held host x s.tokens := hhost.balance_nonneg x s.tokens _
      simpa [owed, due, hbids, hasks] using hheld
    · obtain rfl := Option.some.inj hpool
      show Provided _ s.balance
      rw [hs.unshared hnone]
      exact provided_initial rfl rfl rfl
  | deposit recipient amountA amountB =>
    obtain ⟨_, h, -⟩ := returns_map.mp h
    obtain ⟨hauth, ⟨ha, hb⟩, pool, k₁, k₂, hpool, hA, hB, hshares, rfl⟩ := deposit_spec h
    refine ⟨hbook, (fun hsome => by cases hsome), fun pool' hpool' x => ?_,
      fun pool' hpool' hsame => ?_⟩
    · obtain rfl := Option.some.inj hpool'
      have hcovered := hs.covered pool hpool x
      have hfirst := held_incoming (x := x) hhost (ne_contract hauth) hA
      have hsecond := held_incoming (x := x) hhost (ne_contract hauth) hB
      simp only [owed, due_add] at hcovered ⊢
      linarith
    · obtain rfl := Option.some.inj hpool'
      exact (hs.provided pool hpool hsame).deposit ha hb hshares
  | withdraw recipient shares =>
    obtain ⟨_, h, -⟩ := returns_map.mp h
    obtain ⟨-, ⟨hpos, hle⟩, pool, k₁, k₂, hpool, rfl, hA, hB, rfl⟩ := withdraw_spec h
    refine ⟨hbook, (fun hsome => by cases hsome), fun pool' hpool' x => ?_,
      fun pool' hpool' hsame => ?_⟩
    · obtain rfl := Option.some.inj hpool'
      have hcovered := hs.covered pool hpool x
      have hfirst := held_outgoing (x := x) hhost hA
      have hsecond := held_outgoing (x := x) hhost hB
      simp only [owed, due_add, due_sub] at hcovered ⊢
      linarith
    · obtain rfl := Option.some.inj hpool'
      exact (hs.provided pool hpool hsame).withdraw hpos hle
  | placeOrder maker isBid price amount =>
    obtain ⟨id, h, -⟩ := returns_map.mp h
    obtain ⟨hauth, -, pool, k, hpool, -, hk, rfl⟩ := placeOrder_spec h
    refine ⟨hbook, (fun hsome => by cases hsome), fun pool' hpool' x => ?_,
      fun pool' hpool' hsame => ?_⟩
    · obtain rfl := Option.some.inj hpool'
      have hcovered := hs.covered pool hpool x
      have hin := held_incoming (x := x) hhost (ne_contract hauth) hk
      cases isBid
      · simp only [Bool.false_eq_true, if_false, owed, insertAsk, sum_insertBefore, due_add]
          at hcovered hin ⊢
        linarith
      · simp only [if_true, owed, insertBid, sum_insertBefore, due_add, escrow]
          at hcovered hin ⊢
        linarith
    · obtain rfl := Option.some.inj hpool'
      obtain ⟨hreserveA, hreserveB, hfinite, hnonneg, htotal⟩ := hs.provided pool hpool hsame
      exact ⟨hreserveA, hreserveB, hfinite, hnonneg, htotal⟩
  | cancelOrder maker orderId =>
    obtain ⟨_, h, -⟩ := returns_map.mp h
    rcases cancelOrder_spec h with ⟨-, pool, o, k, hpool, -, ⟨hfind, hk, rfl⟩ | ⟨hfind, hk, rfl⟩⟩
    · refine ⟨hbook, hs.unshared, fun pool' hpool' x => ?_, hs.provided⟩
      obtain rfl := Option.some.inj (hpool.symm.trans hpool')
      have hcovered := hs.covered pool hpool x
      have hout := held_outgoing (x := x) hhost hk
      simp only [owed, sum_eraseP hfind, due_add, due_sub] at hcovered ⊢
      linarith
    · refine ⟨hbook, hs.unshared, fun pool' hpool' x => ?_, hs.provided⟩
      obtain rfl := Option.some.inj (hpool.symm.trans hpool')
      have hcovered := hs.covered pool hpool x
      have hout := held_outgoing (x := x) hhost hk
      simp only [owed, sum_eraseP hfind, due_add, due_sub] at hcovered ⊢
      linarith
  | swap taker buyA out inMax =>
    obtain ⟨_, h, -⟩ := returns_map.mp h
    obtain ⟨hauth, -, pool, pool', f, orders, totalIn, k₁, k₂, hswap, -⟩ := swap_spec h
    exact hs.swap hhost (ne_contract hauth) hswap hmeets hbook

/-! ## Runs -/

theorem backed_initial (tokens : Tokens) : Backed host (State.initial tokens) where
  book := bookOrdered_initial tokens
  unshared := fun _ => rfl
  covered := fun _ hpool => by cases hpool
  provided := fun _ hpool => by cases hpool

/-- **The contract is solvent** in every run of calls by anybody, with tokens that keep to their
interface, whose swaps that sell token A fill bids only so that they come out. -/
theorem escrow_solvent (hhost : Conforming host.toTokenInterface) {tokens : Tokens}
    {ls : List (Event host)}
    (h : Run (fun u l w => Step entryPoint u l w ∧ ∀ v, l.result = .ok v → l.call.Meets u)
      (State.initial tokens) ls s) : Solvent host s :=
  (invariant_of_returns (P := fun u _ call => Call.Meets u call)
    (fun hs hreturns hmeets => hs.of_returns hhost hreturns hmeets) h
    (backed_initial tokens)).solvent

end Owed

/-- The bids of the sample have prices that divide the scale, so that all of them come out. -/
theorem escrow_solvent_sample :
    ∃ (ls : List (Event sampleHost)) (s : State ℕ (Balances ℕ)),
      Run (Step entryPoint) (State.initial sampleTokens) ls s ∧
      s.bids.map escrow = [20] ∧ Solvent sampleHost s := by
  have hmeets : CallsMeet entryPoint (fun u _ call => Call.Meets u call)
      (State.initial sampleTokens) sampleOrders := by
    refine ⟨fun _ _ => trivial, fun _ _ => trivial, fun _ _ => trivial, fun _ _ => trivial,
      fun _ _ => trivial, fun _ _ => ⟨fun _ => bidsComeOut_of_dvd ?_, fun pool hpool hsame => ?_⟩,
      fun _ _ => trivial, trivial⟩
    · decide +kernel
    · obtain rfl := Option.some.inj hpool
      exact absurd hsame (by decide +kernel)
  have hrun := run_execute_meeting hmeets
  exact ⟨_, _, run_execute entryPoint _ sampleOrders, by decide +kernel,
    escrow_solvent conforming_balances hrun⟩

/-- A bid of three units of token B for one of token A gives two of them for nothing, and stays as
it is. -/
theorem escrow_insolvent :
    ¬ ∀ (ls : List (Event sampleHost)) (s : State ℕ (Balances ℕ)),
      Run (Step entryPoint) (State.initial sampleTokens) ls s → Solvent sampleHost s := by
  intro h
  let s := (execute entryPoint (State.initial sampleTokens)
    [(sampleEnv, .initializePool 1 100 200 30 10),
     (sampleEnv, .placeOrder 3 true 3000000 10),
     (sampleEnv, .swap 6 false 2 0)]).2
  have hfails : s.pool.map (fun pool => decide (pool.reserveB + (s.bids.map escrow).sum ≤
      sampleHost.balance pool.tokenB s.tokens sampleHost.currentContractAddress)) =
      some false := by decide +kernel
  obtain ⟨pool, hpool, hlt⟩ := Option.map_eq_some_iff.mp hfails
  exact of_decide_eq_false hlt (h _ s (run_execute _ _ _) pool hpool).2

end HybridAmmLob
