import SkyMoonScope.HybridAmmLob.MakerLimits

/-!
# What a swap does to the reserves

What the book does not give to the taker comes from the pool, for a product of the reserves that
does not decrease: the taker pays the quotient rounded down, and one more. The fee is taken off the
scale of ten thousand basis points. `initialize` accepts every fee that is not negative, and a fee
above the scale turns the sign of the divisor, so that the taker is paid for what it is given.

## Main definitions

* `LegSound`: something is paid, no reserve is used up, and the product does not decrease
* `FeeMet`: the fee is not above the scale, or the reserves are so far apart that one unit pays

## Main results

* `legSound_iff`: the two conditions are the same
* `legs_sound_iff`: a run has only sound legs if and only if all its swaps meet the condition
* `leg_unsound`: a fee of twice everything
-/

namespace HybridAmmLob

open Soroban Machine Accounts

variable {Address Tokens : Type}

/-- The reserve that the taker pays into. -/
def PoolState.reserveIn (pool : PoolState Address) (buyA : Bool) : ℤ :=
  if buyA then pool.reserveB else pool.reserveA

/-- The reserve that the taker is given from. -/
def PoolState.reserveOut (pool : PoolState Address) (buyA : Bool) : ℤ :=
  if buyA then pool.reserveA else pool.reserveB

/-- **A sound leg** through the pool: something is paid for it, no reserve is used up, and the
product of the reserves does not decrease. -/
structure LegSound (pool pool' : PoolState Address) (paid : ℤ) : Prop where
  paid_pos : 0 < paid
  reserveA_pos : 0 < pool'.reserveA
  reserveB_pos : 0 < pool'.reserveB
  product_le : pool.reserveA * pool.reserveB ≤ pool'.reserveA * pool'.reserveB

/-- The fee is not above the scale. Otherwise the reserves have to be so far apart that the quotient
is zero and the one unit that is added to it pays for `out`. -/
def FeeMet (pool : PoolState Address) (buyA : Bool) (out : ℤ) : Prop :=
  pool.lpFeeBps ≤ 10000 ∨
    pool.reserveIn buyA * out * 10000 <
        (pool.reserveOut buyA - out) * (pool.lpFeeBps - 10000) ∧
      pool.reserveIn buyA * out ≤ pool.reserveOut buyA - out

section Leg

variable {x y out fee paid : ℤ} {pool : PoolState Address} {buyA : Bool}

/-- Up to the scale of the fee, what is paid makes up for what is given. -/
theorem lt_charge (hx : 0 ≤ x) (hout : 0 < out) (hlt : out < y) (hfee : 0 ≤ fee)
    (hscale : fee < 10000) :
    x * out < ((x * out * 10000).tdiv ((y - out) * (10000 - fee)) + 1) * (y - out) := by
  have hleft : 0 < y - out := sub_pos.mpr hlt
  have hdivisor : 0 < (y - out) * (10000 - fee) := mul_pos hleft (sub_pos.mpr hscale)
  have hdividend : 0 ≤ x * out * 10000 := mul_nonneg (mul_nonneg hx hout.le) (by decide)
  rw [Int.tdiv_eq_ediv_of_nonneg hdividend]
  set quotient := x * out * 10000 / ((y - out) * (10000 - fee)) with hquotient
  have hnonneg : 0 ≤ quotient := Int.ediv_nonneg hdividend hdivisor.le
  have hceil : x * out * 10000 < (quotient + 1) * ((y - out) * (10000 - fee)) :=
    Int.lt_ediv_add_one_mul_self _ hdivisor
  -- without the fee still more is paid
  have hgross : (quotient + 1) * ((y - out) * (10000 - fee)) ≤
      (quotient + 1) * ((y - out) * 10000) := by
    apply mul_le_mul_of_nonneg_left _ (by omega)
    exact mul_le_mul_of_nonneg_left (by omega) hleft.le
  linarith

/-- Above the scale the quotient is taken off the one unit. -/
theorem charge_eq (hx : 0 ≤ x) (hout : 0 < out) :
    (x * out * 10000).tdiv ((y - out) * (10000 - fee)) + 1 =
      1 - x * out * 10000 / ((y - out) * (fee - 10000)) := by
  have hdividend : 0 ≤ x * out * 10000 := mul_nonneg (mul_nonneg hx hout.le) (by decide)
  have hdivisor : (y - out) * (10000 - fee) = -((y - out) * (fee - 10000)) := by ring
  rw [hdivisor, Int.tdiv_neg, Int.tdiv_eq_ediv_of_nonneg hdividend]
  ring

/-- What is charged is positive and makes up for what is given if and only if the fee is not above
the scale, or one unit is enough. -/
theorem charge_iff (hx : 0 ≤ x) (hout : 0 < out) (hlt : out < y) (hfee : 0 ≤ fee)
    (hne : fee ≠ 10000) (hpaid : paid = (x * out * 10000).tdiv ((y - out) * (10000 - fee)) + 1) :
    (0 < paid ∧ x * out ≤ paid * (y - out)) ↔
      fee ≤ 10000 ∨ x * out * 10000 < (y - out) * (fee - 10000) ∧ x * out ≤ y - out := by
  have hleft : 0 < y - out := sub_pos.mpr hlt
  have hproduct : 0 ≤ x * out := mul_nonneg hx hout.le
  rcases lt_or_gt_of_ne hne with hscale | hscale
  · -- below the scale more is charged than is due
    have hcharge := lt_charge hx hout hlt hfee hscale
    rw [← hpaid] at hcharge
    refine iff_of_true ⟨?_, hcharge.le⟩ (.inl hscale.le)
    exact pos_of_mul_pos_left (hproduct.trans_lt hcharge) hleft.le
  · -- above it the charge is one unit less the quotient, which has to be zero
    have hdivisor : 0 < (y - out) * (fee - 10000) := mul_pos hleft (sub_pos.mpr hscale)
    have hquotient : 0 ≤ x * out * 10000 / ((y - out) * (fee - 10000)) :=
      Int.ediv_nonneg (mul_nonneg hproduct (by decide)) hdivisor.le
    rw [charge_eq hx hout] at hpaid
    have hzero : 0 < paid ↔ x * out * 10000 < (y - out) * (fee - 10000) := by
      rw [hpaid, sub_pos, Int.ediv_lt_iff_lt_mul hdivisor, one_mul]
    rw [← hzero, or_iff_right (not_le.mpr hscale)]
    refine and_congr_right fun hpos => ?_
    -- one unit is all that is paid
    obtain rfl : paid = 1 := by omega
    rw [one_mul]

/-- The product of the reserves grows by what is paid beyond what is due. -/
theorem exchanged_product :
    (exchanged buyA pool out paid).reserveA * (exchanged buyA pool out paid).reserveB =
      pool.reserveA * pool.reserveB +
        (paid * (pool.reserveOut buyA - out) - pool.reserveIn buyA * out) := by
  cases buyA
  · show (pool.reserveA + paid) * (pool.reserveB - out) =
      pool.reserveA * pool.reserveB + (paid * (pool.reserveB - out) - pool.reserveA * out)
    ring
  · show (pool.reserveA - out) * (pool.reserveB + paid) =
      pool.reserveA * pool.reserveB + (paid * (pool.reserveA - out) - pool.reserveB * out)
    ring

/-- **A leg is sound** if and only if the fee meets the condition. -/
theorem legSound_iff {pool' : PoolState Address} {f : Fill} {totalIn : ℤ}
    (h : AmmLeg buyA pool pool' f totalIn) (hremaining : 0 < f.remainingOut)
    (hreserveA : 0 ≤ pool.reserveA) (hreserveB : 0 ≤ pool.reserveB) (hfee : 0 ≤ pool.lpFeeBps) :
    LegSound pool pool' (totalIn - f.totalIn) ↔ FeeMet pool buyA f.remainingOut := by
  obtain ⟨paid, htotal, rfl, -⟩ := h.exchange
  have hpaid : paid = ammIn buyA pool f.remainingOut := by linarith [h.charged]
  have hcovered : f.remainingOut < pool.reserveOut buyA := h.covered
  have hin : 0 ≤ pool.reserveIn buyA := by
    cases buyA
    · exact hreserveA
    · exact hreserveB
  rw [htotal, add_sub_cancel_left, FeeMet,
    ← charge_iff hin hremaining hcovered hfee h.fee_ne hpaid]
  constructor
  · rintro ⟨hpos, -, -, hle⟩
    rw [exchanged_product] at hle
    exact ⟨hpos, by linarith⟩
  · rintro ⟨hpos, hle⟩
    -- the one reserve is paid into, and the other is not used up
    have hpositive : 0 < (exchanged buyA pool f.remainingOut paid).reserveA ∧
        0 < (exchanged buyA pool f.remainingOut paid).reserveB := by
      cases buyA
      · exact ⟨add_pos_of_nonneg_of_pos hreserveA hpos, sub_pos.mpr hcovered⟩
      · exact ⟨sub_pos.mpr hcovered, add_pos_of_nonneg_of_pos hreserveB hpos⟩
    refine ⟨hpos, hpositive.1, hpositive.2, ?_⟩
    rw [exchanged_product]
    linarith

end Leg

/-! ## One call -/

/-- What the orders of the book do not give of an amount. -/
def State.leftover (s : State Address Tokens) (buyA : Bool) (out : ℤ) : ℤ :=
  out - ((s.book buyA).map (offered buyA)).sum

/-- The leg of a swap through the pool is sound, where the book leaves something to it: what is paid
for it is what the taker pays beyond the fills. -/
def Call.LegSound (s : State Address Tokens) (v : Response) (t : State Address Tokens) :
    Call Address → Prop
  | .swap _ buyA out _ => ∀ pool pool' result, s.pool = some pool → t.pool = some pool' →
      v = .swapped result → 0 < s.leftover buyA out →
        HybridAmmLob.LegSound pool pool'
          (result.amountIn - ((s.fills pool buyA out).map fun x => x.2.paid).sum)
  | _ => True

/-- The fee meets the condition for what the book leaves to the pool. -/
def Call.FeeMeets (s : State Address Tokens) : Call Address → Prop
  | .swap _ buyA out _ => ∀ pool, s.pool = some pool → 0 < s.leftover buyA out →
      FeeMet pool buyA (s.leftover buyA out)
  | _ => True

/-- What holds as long as the legs are sound. -/
structure Reserved [DecidableEq Address] (s : State Address Tokens) : Prop where
  book : BookOrdered s
  fees : FeesNonneg s
  unshared : s.pool = none → s.balance = fun _ => 0
  provided : ∀ pool, s.pool = some pool → Provided pool s.balance

section Calls

variable {host : Host Address Tokens} {s t : State Address Tokens} {buyA : Bool} {out : ℤ}
  {pool pool' : PoolState Address} {f f' : Fill} {orders orders' : List (Order Address)}
  {totalIn : ℤ} {k k' k₁ k₂ : Tokens} {taker : Address}

/-- A walk leaves what its orders do not offer. -/
theorem Walk.remaining {tokenOut tokenIn : Address} {trades : ℤ → Order Address → Trade}
    {offered : Order Address → ℤ}
    (h : Walk host tokenOut tokenIn taker trades orders f k orders' f' k')
    (hout : ∀ r o, (trades r o).out = min r (offered o))
    (hoffered : ∀ o ∈ orders, 0 ≤ offered o) (hf : 0 ≤ f.remainingOut) :
    f'.remainingOut = max (f.remainingOut - (orders.map offered).sum) 0 := by
  induction h with
  | @done orders f k hdone =>
    have hsum := sum_offered_nonneg hoffered
    -- the walk ends with its orders, or with nothing left to fill
    rcases hdone with rfl | hdone
    · rw [List.map_nil, List.sum_nil, sub_zero, max_eq_left hf]
    · rw [max_eq_right (by linarith)]
      exact le_antisymm hdone hf
  | @trade order orders orders' f f' k k₁ k₂ k' trade hremaining htrade _ _ hrest ih =>
    obtain rfl := htrade
    obtain ⟨hfirst, hothers⟩ := List.forall_mem_cons.mp hoffered
    have hsum := sum_offered_nonneg hothers
    have hgiven := hout f.remainingOut order
    have hleft : 0 ≤ f.remainingOut - (trades f.remainingOut order).out := by
      rw [hgiven]
      exact sub_nonneg.mpr (min_le_left _ _)
    have hbehind : f'.remainingOut = max (f.remainingOut - (trades f.remainingOut order).out -
        (orders.map offered).sum) 0 := ih hothers hleft
    rw [hbehind, hgiven, List.map_cons, List.sum_cons]
    -- an order that offers enough leaves nothing, like those behind it
    omega

/-- The pool gives what the book leaves. -/
theorem Swapped.remaining (h : Swapped host taker buyA out s t pool pool' f orders totalIn k₁ k₂)
    (hs : BookOrdered s) (hout : 0 < out) : f.remainingOut = max (s.leftover buyA out) 0 :=
  h.walk.remaining fills_offered (offered_nonneg hs) hout.le

variable [DecidableEq Address] {env : Env host} {call : Call Address} {v : Response}

/-- **One call** has a sound leg if and only if its fee meets the condition. -/
theorem Call.legSound_iff (hs : Reserved s) (h : Returns (entryPoint env call) s v t) :
    call.LegSound s v t ↔ call.FeeMeets s := by
  cases call with
  | swap taker buyA out inMax =>
    rw [returns_entryPoint] at h
    obtain ⟨result, hresult, rfl⟩ := returns_map.mp h
    obtain ⟨-, hout, pool, pool', f, orders, totalIn, k₁, k₂, hswap, hamount⟩ := swap_spec hresult
    have hpool : s.pool = some pool := hswap.pool_eq
    have hpool' : t.pool = some pool' := by rw [hswap.stored]
    have hremaining : f.remainingOut = max (s.leftover buyA out) 0 :=
      hswap.remaining (hs.book.withTokens _) hout
    have htotal : f.totalIn = ((s.fills pool buyA out).map fun x => x.2.paid).sum := by
      rw [hswap.walk.settled.2.2, zero_add]
      cases buyA <;> rfl
    -- both speak about the one pool and its leg
    have hleft : 0 < s.leftover buyA out →
        (HybridAmmLob.LegSound pool pool' (totalIn - f.totalIn) ↔
          FeeMet pool buyA (s.leftover buyA out)) := by
      intro hpos
      rw [max_eq_left hpos.le] at hremaining
      rw [← hremaining] at hpos ⊢
      obtain ⟨hreserveA, hreserveB, -⟩ := hs.provided pool hpool
      exact HybridAmmLob.legSound_iff
        (hswap.leg.resolve_left fun hdone => absurd hdone.1 (not_le.mpr hpos)).2 hpos hreserveA
        hreserveB (hs.fees pool hpool).1
    constructor
    · intro hsound p hp hpos
      obtain rfl := Option.some.inj (hpool.symm.trans hp)
      have hleg := hsound pool pool' result hpool hpool' rfl hpos
      rw [hamount, ← htotal] at hleg
      exact (hleft hpos).mp hleg
    · intro hmeets p p' result' hp hp' hresult hpos
      obtain rfl := Option.some.inj (hpool.symm.trans hp)
      obtain rfl := Option.some.inj (hpool'.symm.trans hp')
      obtain rfl : result = result' := Response.swapped.inj hresult
      rw [hamount, ← htotal]
      exact (hleft hpos).mpr (hmeets pool hpool hpos)
  -- no other call goes through the pool
  | _ => exact Iff.rfl

/-- What holds of the reserves is kept by every call whose leg is sound. -/
theorem Reserved.of_returns (hs : Reserved s) (h : Returns (entryPoint env call) s v t)
    (hsound : call.LegSound s v t) : Reserved t := by
  have hbook := hs.book.of_returns h
  have hfees := hs.fees.of_returns h
  rw [returns_entryPoint] at h
  cases call with
  | initializePool admin tokenA tokenB lpFeeBps makerFeeBps =>
    obtain ⟨_, h, -⟩ := returns_map.mp h
    obtain ⟨hnone, -, rfl⟩ := initializePool_spec h
    refine ⟨hbook, hfees, (fun hnew => by cases hnew), fun pool hpool => ?_⟩
    obtain rfl := Option.some.inj hpool
    show Provided _ s.balance
    -- before the first call nobody has shares
    rw [hs.unshared hnone]
    exact provided_initial rfl rfl rfl
  | deposit recipient amountA amountB =>
    obtain ⟨_, h, -⟩ := returns_map.mp h
    obtain ⟨-, ⟨ha, hb⟩, pool, k₁, k₂, hpool, -, -, hshares, rfl⟩ := deposit_spec h
    refine ⟨hbook, hfees, (fun hnew => by cases hnew), fun pool' hpool' => ?_⟩
    obtain rfl := Option.some.inj hpool'
    exact (hs.provided pool hpool).deposit ha hb hshares
  | withdraw recipient shares =>
    obtain ⟨_, h, -⟩ := returns_map.mp h
    obtain ⟨-, ⟨hpos, hle⟩, pool, k₁, k₂, hpool, rfl, -, -, rfl⟩ := withdraw_spec h
    refine ⟨hbook, hfees, (fun hnew => by cases hnew), fun pool' hpool' => ?_⟩
    obtain rfl := Option.some.inj hpool'
    exact (hs.provided pool hpool).withdraw hpos hle
  | placeOrder maker isBid price amount =>
    obtain ⟨_, h, -⟩ := returns_map.mp h
    obtain ⟨-, -, pool, k, hpool, -, -, rfl⟩ := placeOrder_spec h
    refine ⟨hbook, hfees, (fun hnew => by cases hnew), fun pool' hpool' => ?_⟩
    obtain rfl := Option.some.inj hpool'
    obtain ⟨hreserveA, hreserveB, hfinite, hnonneg, htotal⟩ := hs.provided pool hpool
    exact ⟨hreserveA, hreserveB, hfinite, hnonneg, htotal⟩
  | cancelOrder maker orderId =>
    obtain ⟨_, h, -⟩ := returns_map.mp h
    rcases cancelOrder_spec h with ⟨-, pool, o, k, -, -, ⟨-, -, rfl⟩ | ⟨-, -, rfl⟩⟩
    · exact ⟨hbook, hfees, hs.unshared, hs.provided⟩
    · exact ⟨hbook, hfees, hs.unshared, hs.provided⟩
  | swap taker buyA out inMax =>
    obtain ⟨result, hresult, rfl⟩ := returns_map.mp h
    obtain ⟨-, hout, pool, pool', f, orders, totalIn, k₁, k₂, hswap, hamount⟩ := swap_spec hresult
    have hpool : s.pool = some pool := hswap.pool_eq
    have hpool' : t.pool = some pool' := by rw [hswap.stored]
    have hbalance : t.balance = s.balance := by
      rw [hswap.stored]
      cases buyA <;> rfl
    refine ⟨hbook, hfees, (fun hnone => by cases hpool'.symm.trans hnone), fun p hp => ?_⟩
    obtain rfl := Option.some.inj (hpool'.symm.trans hp)
    have hremaining : f.remainingOut = max (s.leftover buyA out) 0 :=
      hswap.remaining (hs.book.withTokens _) hout
    rw [hbalance]
    obtain ⟨-, -, hfinite, hnonneg, htotal⟩ := hs.provided pool hpool
    rcases hswap.leg with ⟨-, rfl, -⟩ | ⟨hpos, -⟩
    · exact hs.provided _ hpool
    · -- the leg is sound, and the shares stay
      have hleft : 0 < s.leftover buyA out := by
        rw [hremaining] at hpos
        exact (lt_max_iff.mp hpos).resolve_right (lt_irrefl 0)
      have hleg := hsound pool _ result hpool hpool' rfl hleft
      obtain ⟨reserveA, reserveB, rfl⟩ := hswap.reserves
      exact ⟨hleg.reserveA_pos.le, hleg.reserveB_pos.le, hfinite, hnonneg, htotal⟩

/-! ## Runs -/

theorem reserved_initial (tokens : Tokens) :
    Reserved (State.initial tokens : State Address Tokens) where
  book := bookOrdered_initial tokens
  fees := fun _ hpool => by cases hpool
  unshared := fun _ => rfl
  provided := fun _ hpool => by cases hpool

/-- **Every leg of a run is sound** if and only if the fee meets the condition in every swap of the
run, whoever calls and whatever the token contracts do. -/
theorem legs_sound_iff {tokens : Tokens} {ls : List (Event host)} :
    Run (fun u l w => Step entryPoint u l w ∧ ∀ v, l.result = .ok v → l.call.LegSound u v w)
        (State.initial tokens) ls s ↔
      Run (fun u l w => Step entryPoint u l w ∧ ∀ v, l.result = .ok v → l.call.FeeMeets u)
        (State.initial tokens) ls s := by
  refine Run.and_iff_of_invariant (I := Reserved) (fun u l w hu hl hsound => ?_)
    (fun u l w hu hl => ?_) (reserved_initial tokens)
  · rcases hl.cases with ⟨v, hv, hreturns⟩ | ⟨-, rfl⟩
    · exact hu.of_returns hreturns (hsound v hv)
    · exact hu
  · rcases hl.cases with ⟨v, hv, hreturns⟩ | ⟨⟨fault, hfault⟩, rfl⟩
    · have hiff := Call.legSound_iff hu hreturns
      constructor
      · exact fun hsound _ _ => hiff.mp (hsound v hv)
      · intro hmeets v' hv'
        obtain rfl : v = v' := Except.ok.inj (hv.symm.trans hv')
        exact hiff.mpr (hmeets v hv)
    · -- a call that fails has no leg
      have hfailed : ∀ {P : Prop} (v : Response), l.result = .ok v → P := by
        intro P v hv
        cases hfault.symm.trans hv
      exact iff_of_true (fun v hv => hfailed v hv) fun v hv => hfailed v hv

end Calls

/-- **A fee of twice everything** gives half of a reserve for nothing. -/
theorem leg_unsound :
    ¬ ∀ (ls : List (Event sampleHost)) (s t : State ℕ (Balances ℕ)) (env : Env sampleHost)
      (call : Call ℕ) (v : Response), Run (Step entryPoint) (State.initial sampleTokens) ls s →
      Returns (entryPoint env call) s v t → call.LegSound s v t := by
  intro h
  let calls : List (Env sampleHost × Call ℕ) :=
    [(sampleEnv, .initializePool 1 100 200 20000 10), (sampleEnv, .deposit 2 1 10)]
  let s := (execute entryPoint (State.initial sampleTokens) calls).2
  let t := (invoke (entryPoint sampleEnv (.swap 6 false 5 0)) s).2
  have hrun : Run (Step entryPoint) (State.initial sampleTokens) _ s := run_execute _ _ calls
  obtain ⟨v, hv⟩ := exists_returns_of_isOk (show (invoke (entryPoint sampleEnv
    (.swap 6 false 5 0)) s).1.isOk = true by decide +kernel)
  obtain ⟨result, -, hresult⟩ := returns_map.mp (returns_entryPoint.mp hv)
  have hbefore : s.pool.map (fun p => p.reserveA * p.reserveB) = some 10 := by decide +kernel
  have hafter : t.pool.map (fun p => p.reserveA * p.reserveB) = some 5 := by decide +kernel
  obtain ⟨pool, hpool, hproduct⟩ := Option.map_eq_some_iff.mp hbefore
  obtain ⟨pool', hpool', hproduct'⟩ := Option.map_eq_some_iff.mp hafter
  have hleft : 0 < s.leftover false 5 := by decide +kernel
  have hle := (h _ s t sampleEnv _ v hrun hv pool pool' result hpool hpool' hresult.symm
    hleft).product_le
  rw [hproduct, hproduct'] at hle
  exact absurd hle (by decide)

end HybridAmmLob
