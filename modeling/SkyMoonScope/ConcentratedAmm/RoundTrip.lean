import SkyMoonScope.ConcentratedAmm.PriceTicks
import SkyMoonScope.ConcentratedAmm.TickRatios

/-!
# What a mint and a burn after it cost

A mint charges by the side of the range that the price is on, and a burn pays by the side that the
tick is on. Where the price and the tick are on the same side of both bounds, what is burned pays at
most what the mint has charged, as every division rounds down and the liquidity is bought with the
rest. A price at a bound may be on either side: the amount that the one formula has and the other
does not have is that between two equal prices. A swap that ends within its liquidity moves the
price and leaves the tick, so that the two can be on different sides.

## Main definitions

* `Sided`: the price and the tick are on the same side of a bound
* `MintsSided`: the calls that mint where they are for both bounds

## Main results

* `burnAmounts_le`: a burn pays at most what the mint of its liquidity charged
* `sided_of_inTick`: a price that lies in its tick is on the same side of every bound
* `round_trips_cost`: no round trip of a run pays, if its mints meet the condition
* `round_trip_pays`: a round trip after a swap that has left its tick
-/

namespace ConcentratedAmm

open Soroban Machine

/-! ## The amounts -/

section Amounts

variable {a b d liquidity sqrtRatioA sqrtRatioB : ℕ}

theorem mulDivU128_zero (hd : 0 < d) : mulDivU128 a 0 d = some 0 := by
  rw [mulDivU128, if_neg hd.ne', if_pos (by simp), Nat.mul_zero, Nat.zero_div]

/-- **The first token**: liquidity that is bought with an amount is worth at most this amount. -/
theorem amount0_le {num1 num2 amount : ℕ} (hA : 0 < sqrtRatioA) (hlt : sqrtRatioA < sqrtRatioB)
    (hB : sqrtRatioB ≤ 2 ^ 127) (h1 : mulDivU128 a sqrtRatioB q64 = some num1)
    (h2 : mulDivU128 num1 sqrtRatioA q64 = some num2)
    (hliquidity : mulDivU128 num2 q64 (sqrtRatioB - sqrtRatioA) = some liquidity)
    (hamount : getAmount0Delta sqrtRatioA sqrtRatioB liquidity = some amount) : amount ≤ a := by
  simp only [getAmount0Delta, min_eq_left hlt.le, max_eq_right hlt.le, Option.bind_eq_bind,
    Option.bind_eq_some_iff] at hamount
  obtain ⟨value, hvalue, hamount⟩ := hamount
  have hq64 : q64 ≤ 2 ^ 127 := by decide
  have hpaid := mul_le_of_mulDivU128 (hlt.le.trans hB) hamount
  have hworth := mul_le_of_mulDivU128 hB hvalue
  have hbought := mul_le_of_mulDivU128 ((Nat.sub_le _ _).trans hB) hliquidity
  have hscaled := mul_le_of_mulDivU128 hq64 h2
  have hgiven := mul_le_of_mulDivU128 hq64 h1
  generalize sqrtRatioB - sqrtRatioA = width at hpaid hbought
  have hB' : 0 < sqrtRatioB := hA.trans hlt
  -- the roundings of the mint and of the burn one after the other
  have hchain : amount * (sqrtRatioA * sqrtRatioB) ≤ a * (sqrtRatioA * sqrtRatioB) :=
    calc amount * (sqrtRatioA * sqrtRatioB)
        = amount * sqrtRatioA * sqrtRatioB := by ring
      _ ≤ value * width * sqrtRatioB := Nat.mul_le_mul_right _ hpaid
      _ = value * sqrtRatioB * width := by ring
      _ ≤ liquidity * q64 * width := Nat.mul_le_mul_right _ hworth
      _ = liquidity * width * q64 := by ring
      _ ≤ num2 * q64 * q64 := Nat.mul_le_mul_right _ hbought
      _ ≤ num1 * sqrtRatioA * q64 := Nat.mul_le_mul_right _ hscaled
      _ = num1 * q64 * sqrtRatioA := by ring
      _ ≤ a * sqrtRatioB * sqrtRatioA := Nat.mul_le_mul_right _ hgiven
      _ = a * (sqrtRatioA * sqrtRatioB) := by ring
  exact Nat.le_of_mul_le_mul_right hchain (Nat.mul_pos hA hB')

/-- **The second token** likewise. -/
theorem amount1_le {amount : ℕ} (hlt : sqrtRatioA < sqrtRatioB) (hB : sqrtRatioB ≤ 2 ^ 127)
    (hliquidity : mulDivU128 b q64 (sqrtRatioB - sqrtRatioA) = some liquidity)
    (hamount : getAmount1Delta sqrtRatioA sqrtRatioB liquidity = some amount) : amount ≤ b := by
  simp only [getAmount1Delta, min_eq_left hlt.le, max_eq_right hlt.le] at hamount
  have hpaid := mul_le_of_mulDivU128 (by decide) hamount
  have hbought := mul_le_of_mulDivU128 ((Nat.sub_le _ _).trans hB) hliquidity
  exact Nat.le_of_mul_le_mul_right (hpaid.trans hbought) q64_pos

/-- Between two equal prices there is nothing of the first token. -/
theorem getAmount0Delta_self {amount : ℕ} (hA : 0 < sqrtRatioA)
    (h : getAmount0Delta sqrtRatioA sqrtRatioA liquidity = some amount) : amount = 0 := by
  simp only [getAmount0Delta, min_self, max_self, Nat.sub_self, mulDivU128_zero hA,
    Option.bind_eq_bind, Option.bind_eq_some_iff, Option.some.injEq] at h
  obtain ⟨-, -, rfl⟩ := h
  rfl

/-- Nor of the second. -/
theorem getAmount1Delta_self :
    getAmount1Delta sqrtRatioA sqrtRatioA liquidity = some 0 := by
  simp only [getAmount1Delta, min_self, max_self, Nat.sub_self]
  exact mulDivU128_zero q64_pos

end Amounts

/-! ## The sides of a bound -/

/-- The price and the tick are on the same side of a bound, where the price at the bound counts for
both. -/
def Sided (tick : ℤ) (sqrtPrice : ℕ) (bound : ℤ) : Prop :=
  ∀ ratio, getSqrtRatioAtTick bound = some ratio →
    (tick < bound → sqrtPrice ≤ ratio) ∧ (bound ≤ tick → ratio ≤ sqrtPrice)

section Sides

variable {tick tickLower tickUpper : ℤ} {sqrtPrice sqrtRatioA sqrtRatioB a b : ℕ}

/-- **What a burn pays** is at most what the mint of its liquidity charged, at a price and a tick
that are on the same side of both bounds. -/
theorem burnAmounts_le {r : ℕ × ℕ × ℕ} {paid : ℕ × ℕ} (hlower : Sided tick sqrtPrice tickLower)
    (hupper : Sided tick sqrtPrice tickUpper)
    (hratioA : getSqrtRatioAtTick tickLower = some sqrtRatioA)
    (hratioB : getSqrtRatioAtTick tickUpper = some sqrtRatioB) (hlt : sqrtRatioA < sqrtRatioB)
    (hA : 0 < sqrtRatioA) (hB : sqrtRatioB ≤ 2 ^ 127)
    (hmint : liquidityFor sqrtPrice sqrtRatioA sqrtRatioB a b = some r)
    (hburn : burnAmounts tick sqrtPrice tickLower tickUpper sqrtRatioA sqrtRatioB r.1 =
      some paid) : paid.1 ≤ r.2.1 ∧ paid.2 ≤ r.2.2 := by
  obtain ⟨hbelow, habove⟩ := hlower sqrtRatioA hratioA
  obtain ⟨hbelow', habove'⟩ := hupper sqrtRatioB hratioB
  unfold liquidityFor at hmint
  unfold burnAmounts at hburn
  split at hmint
  next hle =>
    -- the price is at or below the range, and only the first token was charged
    simp only [if_pos hlt.le, Option.bind_eq_bind, Option.bind_eq_some_iff, Option.some.injEq,
      Option.bind_some] at hmint
    obtain ⟨num1, h1, num2, h2, liquidity, hliquidity, rfl⟩ := hmint
    split at hburn
    next htick =>
      simp only [Option.bind_eq_bind, Option.bind_eq_some_iff, Option.some.injEq] at hburn
      obtain ⟨amount, hamount, rfl⟩ := hburn
      exact ⟨amount0_le hA hlt hB h1 h2 hliquidity hamount, le_rfl⟩
    next htick =>
      rw [if_neg fun hge => absurd ((habove' hge).trans hle) (not_le.mpr hlt)] at hburn
      obtain rfl : sqrtPrice = sqrtRatioA := le_antisymm hle (habove (not_lt.mp htick))
      simp only [getAmount1Delta_self, Option.bind_eq_bind, Option.bind_some,
        Option.bind_eq_some_iff, Option.some.injEq] at hburn
      obtain ⟨amount, hamount, rfl⟩ := hburn
      exact ⟨amount0_le hA hlt hB h1 h2 hliquidity hamount, le_rfl⟩
  next hgt =>
    rw [if_neg fun htick => absurd (hbelow htick) hgt] at hburn
    split at hmint
    next hge =>
      -- the price is at or above the range, and only the second token was charged
      simp only [if_pos hlt.le, Option.bind_eq_bind, Option.bind_eq_some_iff, Option.some.injEq,
        Option.bind_some] at hmint
      obtain ⟨liquidity, hliquidity, rfl⟩ := hmint
      split at hburn
      next htick =>
        simp only [Option.bind_eq_bind, Option.bind_eq_some_iff, Option.some.injEq] at hburn
        obtain ⟨amount, hamount, rfl⟩ := hburn
        exact ⟨le_rfl, amount1_le hlt hB hliquidity hamount⟩
      next htick =>
        obtain rfl : sqrtPrice = sqrtRatioB := le_antisymm (hbelow' (not_le.mp htick)) hge
        simp only [Option.bind_eq_bind, Option.bind_eq_some_iff, Option.some.injEq] at hburn
        obtain ⟨amount0, hamount0, amount1, hamount1, rfl⟩ := hburn
        exact ⟨(getAmount0Delta_self (hA.trans hlt) hamount0).le,
          amount1_le hlt hB hliquidity hamount1⟩
    next hless =>
      -- both are within the range, and the two formulas are the same
      rw [if_neg fun htick => absurd (habove' htick) hless] at hburn
      simp only [Option.bind_eq_bind, Option.bind_eq_some_iff, Option.some.injEq] at hmint hburn
      obtain ⟨_, -, _, -, _, -, _, -, amount0, hamount0, amount1, hamount1, rfl⟩ := hmint
      obtain ⟨_, hpaid0, _, hpaid1, rfl⟩ := hburn
      rw [hamount0] at hpaid0
      rw [hamount1] at hpaid1
      exact ⟨(Option.some.inj hpaid0).ge, (Option.some.inj hpaid1).ge⟩

/-- The price at a tick in the range is positive, and at most half of the type. -/
theorem ratio_bounds {r : ℕ} (hmin : minTick ≤ tick) (hmax : tick ≤ maxTick)
    (h : getSqrtRatioAtTick tick = some r) : 0 < r ∧ r ≤ 2 ^ 127 := by
  rw [getSqrtRatioAtTick_eq (natAbs_lt_of_range hmin hmax)] at h
  obtain rfl := Option.some.inj h
  have hpos : 0 < ratioAt tick.natAbs := q64_pos.trans_le q64_le_ratioAt
  have hlt : ratioAt tick.natAbs < 2 ^ 103 := ratioAt_lt
  unfold sqrtRatio
  split
  · -- the inverse of a price that is at least one
    refine ⟨Nat.div_pos (hlt.le.trans (by decide)) hpos, ?_⟩
    calc 2 ^ 128 / ratioAt tick.natAbs ≤ 2 ^ 128 / q64 := Nat.div_le_div_left q64_le_ratioAt q64_pos
      _ ≤ 2 ^ 127 := by decide
  · exact ⟨hpos, hlt.le.trans (by decide)⟩

/-- A price that lies in its tick is on the same side of every bound. -/
theorem sided_of_inTick {bound : ℤ} (hlower : -2 ^ 19 < tick) (hupper : tick + 1 < 2 ^ 19)
    (hmin : minTick ≤ bound) (hmax : bound ≤ maxTick) (h : InTick tick sqrtPrice) :
    Sided tick sqrtPrice bound := by
  obtain ⟨hle, hlt⟩ := (inTick_iff hlower hupper).mp h
  intro ratio hratio
  rw [getSqrtRatioAtTick_eq (natAbs_lt_of_range hmin hmax)] at hratio
  obtain rfl := Option.some.inj hratio
  unfold minTick at hmin
  unfold maxTick at hmax
  constructor
  · -- the price is less than that at the next tick, which is at most the bound
    intro htick
    rcases (Int.add_one_le_iff.mpr htick).eq_or_lt with rfl | hnext
    · exact hlt.le
    · exact (hlt.trans (sqrtRatio_lt_of_lt (by omega) hnext (by omega))).le
  · intro htick
    rcases htick.eq_or_lt with rfl | hbelow
    · exact hle
    · exact (sqrtRatio_lt_of_lt (by omega) hbelow (by omega)).le.trans hle

end Sides

/-! ## Round trips -/

section Trips

variable {Address Tokens : Type} [DecidableEq Address] {host : Host Address Tokens}
  {env env' : Env Address Tokens} {owner : Address} {tickLower tickUpper : ℤ}

/-- A mint at a price and a tick that are on the same side of both bounds. -/
def MintsSided (s : State Address) : Call Address → Prop
  | .mint _ tickLower tickUpper _ _ => ∀ pool, s.pool = some pool →
      Sided pool.currentTick pool.currentSqrtPrice tickLower ∧
        Sided pool.currentTick pool.currentSqrtPrice tickUpper
  | _ => True

/-- **A round trip**: a burn that finds the storage as the mint has left it. -/
theorem roundTrip_le {a b : ℕ} {c c₁ c₂ c' : Session Address Tokens} {r : ℕ × ℕ × ℕ}
    {paid : ℕ × ℕ} (hmint : Returns (mint host env owner tickLower tickUpper a b) c r c₁)
    (hburn : Returns (burn host env' owner tickLower tickUpper r.1) c₂ paid c')
    (hstorage : c₂.storage = c₁.storage)
    (hsided : MintsSided c.storage (.mint owner tickLower tickUpper a b)) :
    paid.1 ≤ r.2.1 ∧ paid.2 ≤ r.2.2 := by
  obtain ⟨pool, sqrtRatioA, sqrtRatioB, tokens₁, tokens₂, cticks, hpool, hlt, -, -, hmin, hmax,
    hratioA, hratioB, hfor, -, -, -, -, inside, -, pos, -, -, rfl⟩ := returns_mint hmint
  obtain ⟨pool', pos', sqrtRatioA', sqrtRatioB', settled, rest, c₃, tokens₃, tokens₄, hpool', -, -,
    -, -, -, hratioA', hratioB', hamounts, -⟩ := returns_burn hburn
  -- the mint has changed nothing but the active liquidity of the pool
  rw [hstorage] at hpool'
  obtain rfl := Option.some.inj hpool'
  rw [adjust_currentTick, adjust_currentSqrtPrice] at hamounts
  obtain rfl := Option.some.inj (hratioA.symm.trans hratioA')
  obtain rfl := Option.some.inj (hratioB.symm.trans hratioB')
  obtain ⟨hlower, hupper⟩ := hsided pool hpool
  exact burnAmounts_le hlower hupper hratioA hratioB
    (getSqrtRatioAtTick_lt hmin hlt hmax hratioA hratioB)
    (ratio_bounds hmin (hlt.le.trans hmax) hratioA).1
    (ratio_bounds (hmin.trans hlt.le) hmax hratioB).2 hfor hamounts

/-- **No round trip pays.** In every run of any calls in which each mint finds the price and the
tick on the same side of both bounds of its range, a burn of what the call before has minted pays at
most what that has charged, of either token. -/
theorem round_trips_cost {s : State Address}
    {events front back : List (Event (Env Address Tokens) (Call Address) Error Response)}
    (hrun : Run (fun u l w => Step (entryPoint host) u l w ∧
      ∀ v, l.result = .ok v → MintsSided u l.call) State.initial events s)
    {a b liquidity amountA amountB paidA paidB : ℕ}
    (hevents : events = front ++
      ⟨env, .mint owner tickLower tickUpper a b, .ok (.minted liquidity amountA amountB)⟩ ::
      ⟨env', .burn owner tickLower tickUpper liquidity, .ok (.amounts paidA paidB)⟩ :: back) :
    paidA ≤ amountA ∧ paidB ≤ amountB := by
  rw [hevents] at hrun
  obtain ⟨u, -, hrest⟩ := hrun.of_append
  obtain ⟨v, ⟨hmint, hsided⟩, hrest⟩ := hrest.of_cons
  obtain ⟨w, ⟨hburn, -⟩, -⟩ := hrest.of_cons
  -- both calls have returned
  obtain ⟨c₁, hmint, hv⟩ := returns_zoom.mp (invoke_eq_ok.mp hmint)
  obtain ⟨r, hmint, hminted⟩ := returns_map.mp hmint
  obtain ⟨hliquidity, rfl, rfl⟩ := Response.minted.inj hminted
  obtain ⟨c₂, hburn, -⟩ := returns_zoom.mp (invoke_eq_ok.mp hburn)
  obtain ⟨paid, hburn, hpaid⟩ := returns_map.mp hburn
  obtain ⟨rfl, rfl⟩ := Response.amounts.inj hpaid
  rw [← hliquidity] at hburn
  exact roundTrip_le hmint hburn hv.symm (hsided _ rfl)

end Trips

/-! ## A round trip that costs, and one that pays -/

/-- A storage after the first call. -/
def sampleStart : State ℕ :=
  (invoke (entryPoint sampleHost sampleEnv sampleInitialize) State.initial).2

/-- A storage after a call of the sample. -/
def State.after (s : State ℕ) (call : Call ℕ) : State ℕ :=
  (invoke (entryPoint sampleHost sampleEnv call) s).2

/-- A call of the sample as a step, by what it returns. -/
theorem sample_step {s : State ℕ} {call : Call ℕ} {result : Except (Fault Error) Response}
    (h : (invoke (entryPoint sampleHost sampleEnv call) s).1 = result) :
    Step (entryPoint sampleHost) s ⟨sampleEnv, call, result⟩ (s.after call) :=
  Prod.ext h rfl

/-- The price and the tick of the first call are on the same side of every bound. -/
theorem mintsSided_sampleStart {owner a b : ℕ} {tickLower tickUpper : ℤ}
    (hlower : minTick ≤ tickLower ∧ tickLower ≤ maxTick)
    (hupper : minTick ≤ tickUpper ∧ tickUpper ≤ maxTick) :
    MintsSided sampleStart (.mint owner tickLower tickUpper a b) := by
  intro pool hpool
  have htick : 0 = pool.currentTick :=
    Option.some.inj (congrArg (Option.map Pool.currentTick) hpool)
  have hprice : q64 = pool.currentSqrtPrice :=
    Option.some.inj (congrArg (Option.map Pool.currentSqrtPrice) hpool)
  rw [← htick, ← hprice]
  have hin : InTick 0 q64 := inTick_zero le_rfl (by decide)
  exact ⟨sided_of_inTick (by decide) (by decide) hlower.1 hlower.2 hin,
    sided_of_inTick (by decide) (by decide) hupper.1 hupper.2 hin⟩

theorem round_trips_cost_sample :
    ∃ events s, Run (fun u l w => Step (entryPoint sampleHost) u l w ∧
        ∀ v, l.result = .ok v → MintsSided u l.call) State.initial events s ∧
      events = [⟨sampleEnv, sampleInitialize, .ok .unit⟩] ++
        [⟨sampleEnv, .mint 1 (-20) 20 1000000 1000000, .ok (.minted 996843625 999999 999999)⟩,
         ⟨sampleEnv, .burn 1 (-20) 20 996843625, .ok (.amounts 999999 999999)⟩] ∧
      999999 ≤ 999999 ∧ 999999 ≤ 999999 := by
  let t := sampleStart.after (.mint 1 (-20) 20 1000000 1000000)
  have hrun : Run (fun u l w => Step (entryPoint sampleHost) u l w ∧
        ∀ v, l.result = .ok v → MintsSided u l.call) State.initial
      ([⟨sampleEnv, sampleInitialize, .ok .unit⟩] ++
        [⟨sampleEnv, .mint 1 (-20) 20 1000000 1000000, .ok (.minted 996843625 999999 999999)⟩,
         ⟨sampleEnv, .burn 1 (-20) 20 996843625, .ok (.amounts 999999 999999)⟩])
      (t.after (.burn 1 (-20) 20 996843625)) :=
    .cons ⟨sample_step (by decide +kernel), fun _ _ => trivial⟩ <|
    .cons ⟨sample_step (by decide +kernel), fun _ _ =>
      mintsSided_sampleStart (by decide) (by decide)⟩ <|
    .cons ⟨sample_step (by decide +kernel), fun _ _ => trivial⟩ (.nil _)
  exact ⟨_, _, hrun, rfl, round_trips_cost hrun rfl⟩

/-- **A round trip pays** after a swap that has moved the price by more than ten ticks without
crossing a tick in use: the mint finds the price above its range, and the burn the tick within
it. -/
theorem round_trip_pays :
    ¬∀ (events front back : List (Event (Env ℕ (Balances ℕ)) (Call ℕ) Error Response)) (s : State ℕ)
      (env env' : Env ℕ (Balances ℕ)) (owner : ℕ) (tickLower tickUpper : ℤ)
      (a b liquidity amountA amountB paidA paidB : ℕ),
      Run (Step (entryPoint sampleHost)) State.initial events s →
      events = front ++
        ⟨env, .mint owner tickLower tickUpper a b, .ok (.minted liquidity amountA amountB)⟩ ::
        ⟨env', .burn owner tickLower tickUpper liquidity, .ok (.amounts paidA paidB)⟩ :: back →
      paidA ≤ amountA ∧ paidB ≤ amountB := by
  intro h
  have hrun : Run (Step (entryPoint sampleHost)) State.initial
      ([⟨sampleEnv, sampleInitialize, .ok .unit⟩,
        ⟨sampleEnv, .mint 1 (-20) 20 1000000 1000000, .ok (.minted 996843625 999999 999999)⟩,
        ⟨sampleEnv, .swap 3 false 700000, .ok (.amounts 700000 697411)⟩] ++
        [⟨sampleEnv, .mint 2 (-10) 10 0 1000000, .ok (.minted 996343673 0 1000000)⟩,
         ⟨sampleEnv, .burn 2 (-10) 10 996343673, .ok (.amounts 197187 1197424)⟩]) _ :=
    .cons (sample_step (by decide +kernel)) <| .cons (sample_step (by decide +kernel)) <|
    .cons (sample_step (by decide +kernel)) <| .cons (sample_step (by decide +kernel)) <|
    .cons (sample_step (by decide +kernel)) (.nil _)
  have hcosts := h _ _ [] _ _ _ _ _ _ _ _ _ _ _ _ _ hrun rfl
  exact absurd hcosts.1 (by decide)

end ConcentratedAmm
