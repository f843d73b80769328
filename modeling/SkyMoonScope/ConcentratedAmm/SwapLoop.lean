import Mathlib.Logic.Relation
import SkyMoonScope.ConcentratedAmm.PriceTicks

/-!
# The loop of a swap

A round that does not cross a tick takes all that remains of the input, and is the last. A round
that crosses one leaves the tick further on in the direction of the swap, as long as the spacing is
positive, and only ticks in the range are crossed. So there are at most as many rounds as there are
ticks ahead, and one more. What a round takes it takes from what remains, with the fee, which is
rounded down. With a negative spacing the numbers of the ticks run against the ticks, the search
down finds the tick that was just left, and the loop does not end.

## Main definitions

* `SwapRounds pool zeroForOne`: the rounds of a swap that do not end it
* `Ahead zeroForOne tick tick'`: a tick further on in the direction of the swap
* `ticksLeft zeroForOne tick`: the ticks ahead of a tick
* `SwapsEnd host s`: every swap ends, makes progress, and charges at most the specified amount

## Main results

* `taken_le`: a round takes at most what remains
* `advances_swapRound`: what a round does to the amounts and the tick
* `swapsEnd`: the swaps of a pool whose spacing is not negative
* `not_swapsEnd`: a pool with a negative spacing
-/

namespace ConcentratedAmm

open Soroban Machine Relation

variable {Address Tokens : Type}

/-! ## The rounds -/

/-- The rounds of a swap that do not end it. -/
abbrev SwapRounds (pool : Pool Address) (zeroForOne : Bool) :
    SwapState × Session Address Tokens → SwapState × Session Address Tokens → Prop :=
  NextRound InputLeft (swapRound pool.feeBps pool.tickSpacing zeroForOne)

section Faults

variable {feeBps : ℕ} {tickSpacing : ℤ} {zeroForOne : Bool} {l : SwapState}

theorem avoids_math {α : Type} {o : Option α} :
    Avoids .exhausted (math o : Body Address Tokens α) := .orFault nofun

theorem avoids_plainU128 {x : ℤ} : Avoids .exhausted (plainU128 x : Body Address Tokens ℕ) :=
  (Avoids.require (by simp [Fault.exhausted])).bind fun _ => .pure _

theorem avoids_plainI128 {x : ℤ} : Avoids .exhausted (plainI128 x : Body Address Tokens ℤ) :=
  .orFault (by simp [Fault.exhausted])

theorem avoids_plainI32 {x : ℤ} : Avoids .exhausted (plainI32 x : Body Address Tokens ℤ) :=
  (Avoids.require (by simp [Fault.exhausted])).bind fun _ => .pure _

theorem avoids_storage : Avoids .exhausted (storage : Body Address Tokens (State Address)) :=
  Avoids.get.bind fun _ => .pure _

theorem avoids_nextInitializedTick {tick : ℤ} :
    Avoids .exhausted (nextInitializedTickWithinOneWord tick tickSpacing zeroForOne :
      Body Address Tokens (ℤ × Bool)) := by
  unfold nextInitializedTickWithinOneWord
  refine (Avoids.require (by simp [Fault.exhausted])).bind fun _ => avoids_storage.bind fun s => ?_
  dsimp only
  split <;> split <;> exact avoids_plainI32.bind fun _ => .pure _

theorem avoids_crossTick {tick : ℤ} {info : TickInfo} {fg0 fg1 liquidity : ℕ} :
    Avoids .exhausted (crossTick tick info fg0 fg1 liquidity zeroForOne :
      Body Address Tokens ℕ) := by
  have happly : Avoids .exhausted (applyNet liquidity info.liquidityNet zeroForOne :
      Body Address Tokens ℕ) :=
    avoids_plainI128.bind fun _ => .ite (avoids_plainI128.bind fun _ => .pure _) (.pure _)
  exact (Avoids.get.bind fun _ => .set _).bind fun _ => happly

/-- A round fails for other reasons only. -/
theorem avoids_swapRound :
    Avoids .exhausted (swapRound feeBps tickSpacing zeroForOne l :
      Body Address Tokens (Option SwapState)) := by
  apply Avoids.ite
  · refine avoids_nextInitializedTick.bind fun p => ?_
    refine Avoids.ite (avoids_storage.bind fun s => ?_) (.pure _)
    dsimp only
    split
    · exact avoids_crossTick.bind fun _ => avoids_math.bind fun _ => .pure _
    · exact (Avoids.pure _).bind fun _ => avoids_math.bind fun _ => .pure _
  · refine avoids_nextInitializedTick.bind fun p => ?_
    refine avoids_math.bind fun _ => (Avoids.require (by simp [Fault.exhausted])).bind fun _ =>
      avoids_math.bind fun step => ?_
    have hbook : Avoids .exhausted (bookStep zeroForOne l step : Body Address Tokens SwapState) :=
      avoids_math.bind fun _ => avoids_plainU128.bind fun _ => avoids_plainU128.bind fun _ =>
        avoids_plainU128.bind fun _ => .pure _
    refine hbook.bind fun booked => .ite (avoids_storage.bind fun s => ?_) (.pure _)
    exact (Avoids.orFault (by simp [Fault.exhausted])).bind fun _ =>
      avoids_crossTick.bind fun _ => .pure _

end Faults

/-! ## The amounts and the tick -/

section Amounts

variable {zeroForOne : Bool} {feeBps : ℕ} {tickSpacing : ℤ} {l l' : SwapState}
  {c c' : Session Address Tokens} {step : StepAmounts}

/-- **What a round takes** is at most what remains, with the fee. A round that does not cross a tick
takes all of it. -/
theorem taken_le {sqrtPrice sqrtPriceNext liquidity amountRemaining : ℕ} {initialized : Bool}
    (hfee : feeBps ≤ 10000)
    (h : computeStep sqrtPrice sqrtPriceNext liquidity amountRemaining feeBps zeroForOne
      initialized = some step) :
    step.amountIn + step.feeAmount ≤ amountRemaining ∧
      (step.crossed = false → step.amountIn + step.feeAmount = amountRemaining) := by
  simp only [computeStep, Option.bind_eq_bind, Option.bind_eq_some_iff] at h
  obtain ⟨lessFee, hlessFee, h⟩ := h
  have hless := mul_le_of_mulDivU128 (by decide) hlessFee
  generalize (amountDelta zeroForOne sqrtPrice sqrtPriceNext liquidity).getD u128Max = maxIn at h
  have hrest : 10000 = feeBps + (10000 - feeBps) := by omega
  generalize 10000 - feeBps = rest at hless hrest h
  split at h
  next hcrossed =>
    simp only [Option.bind_eq_some_iff, Option.some.injEq] at h
    obtain ⟨amountOut, -, feeAmount, hfeeAmount, rfl⟩ := h
    refine ⟨?_, fun h => Bool.noConfusion h⟩
    have hpos : 0 < rest := pos_of_mulDivU128 hfeeAmount
    have hround := mul_le_of_mulDivU128 (by omega) hfeeAmount
    -- the fee is on top of the amount, and at most its share
    have htotal : (maxIn + feeAmount) * rest ≤ amountRemaining * rest :=
      calc (maxIn + feeAmount) * rest = maxIn * rest + feeAmount * rest := by ring
        _ ≤ maxIn * rest + maxIn * feeBps := Nat.add_le_add_left hround _
        _ = maxIn * 10000 := by rw [hrest]; ring
        _ ≤ lessFee * 10000 := Nat.mul_le_mul_right _ hcrossed.1
        _ ≤ amountRemaining * rest := hless
    exact Nat.le_of_mul_le_mul_right htotal hpos
  next hcrossed =>
    simp only [Option.bind_eq_some_iff, Option.some.injEq] at h
    obtain ⟨nextPrice, -, amountOut, -, rfl⟩ := h
    have hle : lessFee ≤ amountRemaining := by
      have hmul : amountRemaining * rest ≤ amountRemaining * 10000 :=
        Nat.mul_le_mul_left _ (by omega)
      omega
    -- the fee is what the rest leaves, so that all of it is taken
    show lessFee + (amountRemaining - lessFee) ≤ amountRemaining ∧ _
    rw [Nat.add_sub_cancel' hle]
    exact ⟨le_rfl, fun _ => rfl⟩

/-- What a round that goes on does: what is charged and what remains are the specified amount
together, and it leaves nothing, or the tick beyond one that is found. -/
structure Advances (tickSpacing : ℤ) (zeroForOne : Bool) (c : Session Address Tokens)
    (l l' : SwapState) : Prop where
  total_eq : l'.amountInTotal + l'.amountRemaining = l.amountInTotal + l.amountRemaining
  moved : l'.amountRemaining = 0 ∨ ∃ next,
    Returns (nextInitializedTickWithinOneWord l.currentTick tickSpacing zeroForOne) c (next, true)
      c ∧ l'.currentTick = tickBeyond next zeroForOne

theorem advances_emptyRound (h : Returns (emptyRound tickSpacing zeroForOne l) c (some l') c') :
    Advances tickSpacing zeroForOne c l l' := by
  rcases returns_emptyRound h with ⟨⟨⟩, -⟩ | ⟨next, liquidity, price, hnext, -, -, ⟨⟩⟩
  exact ⟨rfl, .inr ⟨next, hnext, rfl⟩⟩

theorem advances_liquidRound
    (h : Returns (liquidRound feeBps tickSpacing zeroForOne l) c (some l') c') :
    Advances tickSpacing zeroForOne c l l' := by
  obtain ⟨next, initialized, sqrtPriceNext, step, booked, hnext, -, hfee, hstep, hbooked, hrest⟩ :=
    returns_liquidRound h
  obtain ⟨hle, htakes⟩ := taken_le hfee hstep
  have htotal := hbooked.amountInTotal_eq
  have hremaining := hbooked.amountRemaining_eq
  have hsum : booked.amountInTotal + booked.amountRemaining =
      l.amountInTotal + l.amountRemaining := by omega
  rcases hrest with ⟨hstays, ⟨⟩, -⟩ | ⟨-, rfl, info, liquidity, -, -, ⟨⟩⟩
  · -- the price stays before the next tick, and everything is taken
    have hall := htakes hstays
    exact ⟨hsum, .inl (by omega)⟩
  · exact ⟨hsum, .inr ⟨next, hnext, rfl⟩⟩

/-- **A round that goes on** leaves nothing, or the tick beyond one that is found. -/
theorem advances_swapRound
    (h : Returns (swapRound feeBps tickSpacing zeroForOne l) c (some l') c') :
    Advances tickSpacing zeroForOne c l l' := by
  unfold swapRound at h
  split at h
  · exact advances_emptyRound h
  · exact advances_liquidRound h

end Amounts

/-! ## The ticks ahead -/

/-- A tick further on in the direction of the swap. -/
def Ahead (zeroForOne : Bool) (tick tick' : ℤ) : Prop :=
  if zeroForOne then tick' < tick else tick < tick'

/-- The ticks of the range that are ahead of a tick. -/
def ticksLeft (zeroForOne : Bool) (tick : ℤ) : ℕ :=
  if zeroForOne then (tick + 1 - minTick).toNat else (maxTick - tick).toNat

section Ticks

variable {zeroForOne : Bool} {tick tickSpacing next : ℤ} {c c' : Session Address Tokens}

/-- The tick beyond one that is found is further on. -/
theorem ahead_tickBeyond (hspacing : 0 ≤ tickSpacing)
    (h : Returns (nextInitializedTickWithinOneWord tick tickSpacing zeroForOne) c (next, true) c') :
    Ahead zeroForOne tick (tickBeyond next zeroForOne) := by
  -- the search divides by the spacing
  have hpos : 0 < tickSpacing := lt_of_le_of_ne hspacing (spacing_ne_zero h).symm
  cases zeroForOne with
  | true =>
    obtain ⟨-, hle, -, -⟩ := returns_next_down hpos h
    show next - 1 < tick
    omega
  | false =>
    obtain ⟨-, hlt, -, -⟩ := returns_next_up hpos h
    exact hlt

/-- Beyond a tick of the range there are fewer ticks ahead. -/
theorem ticksLeft_lt (hahead : Ahead zeroForOne tick (tickBeyond next zeroForOne))
    (hlower : minTick ≤ next) (hupper : next ≤ maxTick) :
    ticksLeft zeroForOne (tickBeyond next zeroForOne) < ticksLeft zeroForOne tick := by
  cases zeroForOne with
  | true =>
    change next - 1 < tick at hahead
    show (next - 1 + 1 - minTick).toNat < (tick + 1 - minTick).toNat
    omega
  | false =>
    change tick < next at hahead
    show (maxTick - next).toNat < (maxTick - tick).toNat
    omega

end Ticks

/-! ## Swaps -/

/-- Every swap ends, whatever the budget beyond some number of rounds. Each of its rounds leaves
less of the input, or a tick further on. What is charged is at most the specified amount. -/
structure SwapsEnd (host : Host Address Tokens) (s : State Address) : Prop where
  ends : ∀ pool, s.pool = some pool → ∀ zeroForOne amountSpecified tokens,
    ∃ rounds result, result ≠ .error .exhausted ∧ ∀ budget, rounds ≤ budget →
      (swapLoop pool.feeBps pool.tickSpacing zeroForOne budget
        (.start pool amountSpecified)).run (⟨s, tokens⟩ : Session Address Tokens) = result
  progress : ∀ pool, s.pool = some pool → ∀ zeroForOne amountSpecified tokens p q,
    ReflTransGen (SwapRounds pool zeroForOne)
      (.start pool amountSpecified, (⟨s, tokens⟩ : Session Address Tokens)) p →
    SwapRounds pool zeroForOne p q →
      q.1.amountRemaining < p.1.amountRemaining ∨
        Ahead zeroForOne p.1.currentTick q.1.currentTick
  charged : ∀ env trader zeroForOne amountSpecified tokens r c',
    Returns (swap host env trader zeroForOne amountSpecified) ⟨s, tokens⟩ r c' →
      r.1 ≤ amountSpecified

section Swaps

variable {host : Host Address Tokens} {env : Env Address Tokens} {pool : Pool Address}
  {s : State Address} {tokens : Tokens} {zeroForOne : Bool} {amountSpecified : ℕ}
  {p q : SwapState × Session Address Tokens}

/-- **A round makes progress**, at a spacing that is not negative. -/
theorem progress_round (hspacing : 0 ≤ pool.tickSpacing) (h : SwapRounds pool zeroForOne p q) :
    q.1.amountRemaining < p.1.amountRemaining ∨
      Ahead zeroForOne p.1.currentTick q.1.currentTick := by
  obtain ⟨hgoes, hround⟩ := h
  -- what is left, or the tick, is what changes
  rcases advances_swapRound hround with ⟨-, hzero | ⟨next, hnext, htick⟩⟩
  · rw [hzero]
    exact .inl hgoes
  · rw [htick]
    exact .inr (ahead_tickBeyond hspacing hnext)

/-- The ticks in use stay in the range, and there are fewer ticks ahead after a round that leaves
something of the input. -/
theorem ticksLeft_round (hspacing : 0 ≤ pool.tickSpacing)
    (hbits : BitsRanged pool.tickSpacing p.2.storage.tickBitmap)
    (h : SwapRounds pool zeroForOne p q) :
    BitsRanged pool.tickSpacing q.2.storage.tickBitmap ∧ (InputLeft q.1 →
      ticksLeft zeroForOne q.1.currentTick < ticksLeft zeroForOne p.1.currentTick) := by
  obtain ⟨-, hround⟩ := h
  obtain ⟨-, -, hbitmap⟩ := (moves_swapRound hbits hround).same
  refine ⟨by rwa [hbitmap], fun hleft => ?_⟩
  rcases advances_swapRound hround with ⟨-, hzero | ⟨next, hnext, htick⟩⟩
  · exact absurd hzero (Nat.ne_of_gt hleft)
  · obtain ⟨hlower, hupper⟩ := next_ranged hbits hnext
    rw [htick]
    exact ticksLeft_lt (ahead_tickBeyond hspacing hnext) hlower hupper

/-- **The loop ends** within as many rounds as there are ticks ahead, and one more. -/
theorem swapLoop_ends (hspacing : 0 ≤ pool.tickSpacing)
    (hbits : BitsRanged pool.tickSpacing s.tickBitmap) :
    ∃ result, result ≠ .error .exhausted ∧
      ∀ budget, ticksLeft zeroForOne pool.currentTick < budget →
        (swapLoop pool.feeBps pool.tickSpacing zeroForOne budget
          (.start pool amountSpecified)).run (⟨s, tokens⟩ : Session Address Tokens) = result := by
  simp only [swapLoop_eq]
  exact loop_ends
    (I := fun p : SwapState × Session Address Tokens =>
      BitsRanged pool.tickSpacing p.2.storage.tickBitmap)
    (μ := fun p : SwapState × Session Address Tokens => ticksLeft zeroForOne p.1.currentTick)
    (.start pool amountSpecified) ⟨s, tokens⟩ (fun _ => avoids_swapRound)
    (fun hbits h => ticksLeft_round hspacing hbits h) hbits

/-- **What is charged** is at most the specified amount, at every spacing. -/
theorem charged_le {trader : Address} {r : ℕ × ℕ} {c' : Session Address Tokens}
    (h : Returns (swap host env trader zeroForOne amountSpecified) ⟨s, tokens⟩ r c') :
    r.1 ≤ amountSpecified := by
  obtain ⟨pool, l, c₁, tokens₁, tokens₂, -, hloop, rfl, -⟩ := returns_swap h
  rw [swapLoop_eq] at hloop
  have htotal : l.amountInTotal + l.amountRemaining = amountSpecified := by
    refine loop_invariant (I := fun p : SwapState × Session Address Tokens =>
      p.1.amountInTotal + p.1.amountRemaining = amountSpecified) ?_ hloop
      (Nat.zero_add amountSpecified)
    intro l c out c' hl _ hround
    cases out with
    | none => exact hl
    | some l' => exact (advances_swapRound hround).total_eq.trans hl
  exact (Nat.le_add_right l.amountInTotal l.amountRemaining).trans_eq htotal

variable [DecidableEq Address]

/-- **Swaps end.** In every state that is reached by any calls, where the spacing of the pool is not
negative, every swap ends, makes progress, and charges at most the specified amount. -/
theorem swapsEnd {events : List (Event (Env Address Tokens) (Call Address) Error Response)}
    (hrun : Run (Step (entryPoint host)) State.initial events s)
    (hspacing : ∀ pool, s.pool = some pool → 0 ≤ pool.tickSpacing) : SwapsEnd host s where
  ends := by
    intro pool hpool zeroForOne amountSpecified tokens
    obtain ⟨result, hresult, hends⟩ := swapLoop_ends (hspacing pool hpool)
      ((ranged_of_run hrun).bits pool hpool)
    exact ⟨_, result, hresult, hends⟩
  progress := by
    intro pool hpool zeroForOne amountSpecified tokens p q _ hround
    exact progress_round (hspacing pool hpool) hround
  charged := fun _ _ _ _ _ _ _ h => charged_le h

end Swaps

/-! ## A run whose swaps end, and one with a negative spacing -/

theorem swapsEnd_sample :
    ∃ events s, Run (Step (entryPoint sampleHost)) State.initial events s ∧
      (s.pool.map fun pool => (pool.currentTick, pool.tickSpacing)) = some (20, 10) ∧
      SwapsEnd sampleHost s := by
  have hrun := run_execute (entryPoint sampleHost) State.initial sampleCalls
  have hfields : ((execute (entryPoint sampleHost) State.initial sampleCalls).2.pool.map
      fun pool => (pool.currentTick, pool.tickSpacing)) = some (20, 10) := by decide +kernel
  refine ⟨_, _, hrun, hfields, swapsEnd hrun fun pool hpool => ?_⟩
  rw [hpool] at hfields
  obtain ⟨-, hspacing⟩ := Prod.mk.inj (Option.some.inj hfields)
  rw [hspacing]
  decide

/-- A pool with the spacing -1 at the tick -1, and a position above it. -/
def backwardCalls : List (Env ℕ (Balances ℕ) × Call ℕ) :=
  [(sampleEnv, .initializePool 100 101 30 (-1) 18445818375030173900 (-1)),
   (sampleEnv, .mint 1 0 1 1000000 0)]

/-- A swap down that is below the tick 0 without liquidity, and finds this tick. -/
structure Circles (p : SwapState × Session ℕ (Balances ℕ)) : Prop where
  left : InputLeft p.1
  liquidity_eq : p.1.liquidity = 0
  tick_eq : p.1.currentTick = -1
  bits_eq : p.2.storage.tickBitmap 0 = 1
  net_eq : (p.2.storage.tick 0).map TickInfo.liquidityNet = some 19927370619

/-- The number of the tick -1 is 1, and the last one in use up to it is that of the tick 0. -/
theorem next_of_circles {p : SwapState × Session ℕ (Balances ℕ)} (h : Circles p) :
    Returns (nextInitializedTickWithinOneWord p.1.currentTick (-1) true) p.2 (0, true) p.2 := by
  have hcompress : compress p.1.currentTick (-1) = 1 := by rw [h.tick_eq]; decide
  have hfound : Bitmap.lastUpTo p.2.storage.tickBitmap 1 = some 0 := by
    rw [Bitmap.lastUpTo, show (1 : ℤ) / 64 = 0 from rfl, h.bits_eq]
    decide
  simp only [nextInitializedTickWithinOneWord, returns_require_bind, returns_storage_bind,
    if_true, hcompress, hfound, returns_plainI32_bind, returns_pure]
  decide

/-- Without liquidity, a tick with a positive net liquidity is crossed downward for nothing. -/
theorem crossTick_empty (tick : ℤ) {info : TickInfo} (fg0 fg1 : ℕ) (c : Session Address Tokens)
    (hpos : 0 < info.liquidityNet) (hlt : info.liquidityNet < 2 ^ 127) :
    ∃ c', Returns (crossTick tick info fg0 fg1 0 true) c 0 c' ∧
      c'.storage.tickBitmap = c.storage.tickBitmap ∧
      (c'.storage.tick tick).map TickInfo.liquidityNet = some info.liquidityNet := by
  refine ⟨{ c with storage := { c.storage with
    tick := Function.update c.storage.tick tick (some { info with
      feeGrowthOutside0 := wrappingSub fg0 info.feeGrowthOutside0
      feeGrowthOutside1 := wrappingSub fg1 info.feeGrowthOutside1 }) } }, ?_, rfl, ?_⟩
  · have hlo : IntType.i128.lo = -2 ^ 127 := by decide
    have hhi : IntType.i128.hi = 2 ^ 127 - 1 := by decide
    rw [crossTick, saveTick, returns_save_bind, applyNet, if_pos rfl, returns_plainI128_bind,
      if_pos (neg_lt_zero.mpr hpos), neg_neg, returns_plainI128_bind, returns_pure, Nat.zero_sub]
    exact ⟨⟨by omega, by omega⟩, ⟨by omega, by omega⟩, rfl, rfl⟩
  · show (Function.update c.storage.tick tick _ tick).map _ = _
    rw [Function.update_self]
    rfl

/-- A round crosses the tick 0 again, which changes nothing but the growth outside of it. -/
theorem circles_round {p : SwapState × Session ℕ (Balances ℕ)} (h : Circles p) :
    ∃ q, NextRound InputLeft (swapRound 30 (-1) true) p q ∧ Circles q := by
  obtain ⟨info, hinfo, hnet⟩ := Option.map_eq_some_iff.mp h.net_eq
  obtain ⟨c, hcross, hbits, hnet'⟩ := crossTick_empty 0 p.1.fg0 p.1.fg1 p.2
    (by rw [hnet]; decide) (by rw [hnet]; decide)
  have hprice : getSqrtRatioAtTick (tickBeyond 0 true) = some 18445818375030173900 := by
    decide +kernel
  refine ⟨({ p.1 with
      liquidity := 0
      currentTick := tickBeyond 0 true
      currentSqrtPrice := 18445818375030173900 }, c), ⟨h.left, ?_⟩, h.left, rfl, rfl, ?_, ?_⟩
  · rw [swapRound, if_pos h.liquidity_eq, emptyRound, returns_bind]
    refine ⟨_, _, next_of_circles h, ?_⟩
    simp only [if_true, returns_storage_bind, hinfo, h.liquidity_eq]
    exact returns_bind.mpr ⟨0, c, hcross, returns_math_bind.mpr ⟨_, hprice, returns_pure.mpr
      ⟨rfl, rfl⟩⟩⟩
  · show c.storage.tickBitmap 0 = 1
    rw [hbits, h.bits_eq]
  · rw [← hnet]
    exact hnet'

/-- **A swap that does not end**, with a negative spacing: it uses up every budget. -/
theorem not_swapsEnd :
    ¬∀ events s, Run (Step (entryPoint sampleHost)) State.initial events s →
      SwapsEnd sampleHost s := by
  intro h
  have hends := (h _ _ (run_execute (entryPoint sampleHost) State.initial backwardCalls)).ends
  generalize hs : (execute (entryPoint sampleHost) State.initial backwardCalls).2 = s at hends
  have hpool : (s.pool.map fun pool => (pool.feeBps, pool.tickSpacing, pool.currentTick,
      pool.liquidity)) = some (30, -1, -1, 0) := by
    rw [← hs]
    decide +kernel
  have hbits : s.tickBitmap 0 = 1 := by
    rw [← hs]
    decide +kernel
  have hnet : (s.tick 0).map TickInfo.liquidityNet = some 19927370619 := by
    rw [← hs]
    decide +kernel
  obtain ⟨pool, hpool, hfields⟩ := Option.map_eq_some_iff.mp hpool
  obtain ⟨hfee, hspacing, htick, hliquidity⟩ : pool.feeBps = 30 ∧ pool.tickSpacing = -1 ∧
      pool.currentTick = -1 ∧ pool.liquidity = 0 := by simpa using hfields
  obtain ⟨rounds, result, hresult, hbudget⟩ := hends pool hpool true 1000 sampleEnv.tokens
  apply hresult
  rw [← hbudget rounds le_rfl, hfee, hspacing, swapLoop_eq]
  -- the swap starts below the tick 0, with the pool's liquidity of zero
  have hstart : Circles (.start pool 1000, ⟨s, sampleEnv.tokens⟩) :=
    ⟨Nat.zero_lt_succ 999, hliquidity, htick, hbits, hnet⟩
  exact loop_exhausted circles_round hstart rounds

end ConcentratedAmm
