import SkyMoonScope.ConcentratedAmm.Entrypoints
import SkyMoonScope.Soroban.Loops

/-!
# What the entry points of the concentrated AMM do to the storage

A call that returns has passed its checks, and what it did is read off statement by statement.
Transfers leave the storage as it is.

## Main definitions

* `State.tickAt`: a tick, which has no liquidity where it is not stored
* `TickInfo.kept`: what is stored of a tick, nothing once its liquidity is gone

## Main results

* `returns_updateTicks`: the two ticks and the bitmap after a change of liquidity
* `returns_next_down`, `returns_next_up`: what the search of the next tick finds
* `returns_emptyRound`, `returns_liquidRound`: the rounds of a swap
* `returns_mint`, `returns_burn`, `returns_collectFees`, `returns_swap`: the entry points
-/

namespace ConcentratedAmm

open Soroban

variable {Address Tokens : Type} {host : Host Address Tokens} {c c' : Session Address Tokens}

/-! ## Reading off the helpers -/

section Helpers

variable {α : Type} {v : α} {x : ℤ}

theorem returns_math_bind {o : Option α} {β : Type} {f : α → Body Address Tokens β} {v : β} :
    Returns (math o >>= f) c v c' ↔ ∃ a, o = some a ∧ Returns (f a) c v c' := by
  rw [math, returns_orFault_bind]

theorem returns_plainU128_bind {f : ℕ → Body Address Tokens α} :
    Returns (plainU128 x >>= f) c v c' ↔
      (0 ≤ x ∧ x < 2 ^ 128) ∧ Returns (f x.toNat) c v c' := by
  simp only [plainU128, bind_assoc, returns_require_bind, pure_bind]

theorem returns_plainI128_bind {f : ℤ → Body Address Tokens α} :
    Returns (plainI128 x >>= f) c v c' ↔ IntType.i128.Fits x ∧ Returns (f x) c v c' := by
  rw [plainI128, returns_orFault_bind]
  simp

theorem returns_plainI32_bind {f : ℤ → Body Address Tokens α} :
    Returns (plainI32 x >>= f) c v c' ↔
      (-2 ^ 31 ≤ x ∧ x < 2 ^ 31) ∧ Returns (f x) c v c' := by
  simp only [plainI32, bind_assoc, returns_require_bind, pure_bind]

theorem returns_storage_bind {f : State Address → Body Address Tokens α} :
    Returns (storage >>= f) c v c' ↔ Returns (f c.storage) c v c' := by
  simp only [storage, bind_assoc, returns_get_bind, pure_bind]

theorem returns_save_bind {g : State Address → State Address}
    {f : Unit → Body Address Tokens α} :
    Returns (save g >>= f) c v c' ↔ Returns (f ()) { c with storage := g c.storage } v c' := by
  simp only [save, bind_assoc, returns_get_bind, returns_set_bind]

theorem returns_save {g : State Address → State Address} {r : Unit} :
    Returns (save g : Body Address Tokens Unit) c r c' ↔
      { c with storage := g c.storage } = c' := by
  simp only [save, returns_get_bind, returns_set]

theorem returns_requireAuth_bind {auth : Address → Bool} {addr : Address}
    {f : Unit → Body Address Tokens α} :
    Returns (requireAuth auth addr >>= f) c v c' ↔ auth addr = true ∧ Returns (f ()) c v c' := by
  rw [requireAuth, returns_require_bind]

theorem returns_loadPool_bind {f : Pool Address → Body Address Tokens α} :
    Returns (loadPool >>= f) c v c' ↔
      ∃ pool, c.storage.pool = some pool ∧ Returns (f pool) c v c' := by
  simp only [loadPool, bind_assoc, returns_storage_bind, returns_orFault_bind]

theorem returns_unwrapPool_bind {f : Pool Address → Body Address Tokens α} :
    Returns (unwrapPool >>= f) c v c' ↔
      ∃ pool, c.storage.pool = some pool ∧ Returns (f pool) c v c' := by
  simp only [unwrapPool, bind_assoc, returns_storage_bind, returns_orFault_bind]

theorem returns_remainder_bind {y : ℤ} {f : ℤ → Body Address Tokens α} :
    Returns (remainder x y >>= f) c v c' ↔
      ¬(y = 0 ∨ x = -2 ^ 31 ∧ y = -1) ∧ Returns (f (x.tmod y)) c v c' := by
  simp only [remainder, bind_assoc, returns_require_bind, pure_bind]

theorem keeps_transfer (token source destination : Address) (amount : ℤ) :
    Keeps Session.storage (transfer host token source destination amount) := by
  intro c a c' h
  simp only [transfer, returns_get_bind, returns_orFault_bind, returns_set] at h
  obtain ⟨tokens, -, rfl⟩ := h
  rfl

theorem keeps_transferSome (token source destination : Address) (amount : ℕ) :
    Keeps Session.storage (transferSome host token source destination amount) :=
  Keeps.ite (keeps_transfer token source destination (asI128 amount)) (Keeps.pure ())

/-- A part of a body that keeps the storage, followed by the rest. -/
theorem returns_bind_of_keeps {β : Type} {x : Body Address Tokens α}
    {f : α → Body Address Tokens β} {v : β} (hx : Keeps Session.storage x)
    (h : Returns (x >>= f) c v c') :
    ∃ a tokens, Returns x c a ⟨c.storage, tokens⟩ ∧
      Returns (f a) ⟨c.storage, tokens⟩ v c' := by
  obtain ⟨a, u, ha, hv⟩ := returns_bind.mp h
  have hu : u = ⟨c.storage, u.tokens⟩ := by
    rw [← hx c a u ha]
  rw [hu] at ha hv
  exact ⟨a, u.tokens, ha, hv⟩

end Helpers

/-! ## Ticks -/

/-- A tick, which has no liquidity where it is not stored. -/
def State.tickAt (s : State Address) (tick : ℤ) : TickInfo := (s.tick tick).getD TickInfo.new

/-- What is stored of a tick, nothing once its liquidity is gone. -/
def TickInfo.kept (info : TickInfo) : Option TickInfo :=
  if info.liquidityGross = 0 then none else some info

/-- A tick whose liquidity changed. One that comes into use at or below the current tick has all the
growth outside. -/
structure TickInfo.Changed (info after : TickInfo) (tick currentTick delta : ℤ) (fg0 fg1 : ℕ)
    (isUpper : Bool) : Prop where
  gross_eq : after.liquidityGross = grossAfter info.liquidityGross delta
  net_eq : after.liquidityNet = info.liquidityNet + if isUpper then -delta else delta
  outside0_eq : after.feeGrowthOutside0 =
    if info.liquidityGross = 0 ∧ tick ≤ currentTick then fg0 else info.feeGrowthOutside0
  outside1_eq : after.feeGrowthOutside1 =
    if info.liquidityGross = 0 ∧ tick ≤ currentTick then fg1 else info.feeGrowthOutside1

section Ticks

variable {tick currentTick delta : ℤ} {fg0 fg1 : ℕ} {isUpper flipped : Bool}

/-- A tick after a change of its liquidity, and whether it came into use or fell out of it. -/
theorem returns_updateTick
    (h : Returns (updateTick tick currentTick delta fg0 fg1 isUpper) c flipped c') :
    ∃ after, (c.storage.tickAt tick).Changed after tick currentTick delta fg0 fg1 isUpper ∧
      c' = { c with storage := { c.storage with
        tick := Function.update c.storage.tick tick after.kept } } ∧
      (flipped = true ↔
        ((c.storage.tickAt tick).liquidityGross = 0 ↔ after.liquidityGross ≠ 0)) := by
  simp only [updateTick, returns_storage_bind, returns_require_bind, returns_plainI128_bind] at h
  obtain ⟨-, -, h⟩ := h
  refine ⟨{ if (c.storage.tickAt tick).liquidityGross = 0 ∧ tick ≤ currentTick then
      { c.storage.tickAt tick with feeGrowthOutside0 := fg0, feeGrowthOutside1 := fg1 }
    else c.storage.tickAt tick with
      liquidityGross := grossAfter (c.storage.tickAt tick).liquidityGross delta
      liquidityNet := (c.storage.tickAt tick).liquidityNet +
        if isUpper then -delta else delta }, ⟨rfl, rfl, ?_, ?_⟩, ?_⟩
  · split <;> rfl
  · split <;> rfl
  split at h
  next hzero =>
    -- the tick fell out of use
    rw [returns_save_bind, returns_pure] at h
    obtain ⟨rfl, rfl⟩ := h
    change grossAfter (c.storage.tickAt tick).liquidityGross delta = 0 at hzero
    refine ⟨?_, ?_⟩
    · rw [TickInfo.kept, if_pos hzero]
    · rw [hzero]
      show decide ((c.storage.tickAt tick).liquidityGross > 0) = true ↔ _
      simp [Nat.pos_iff_ne_zero]
  next hzero =>
    rw [saveTick, returns_save_bind, returns_pure] at h
    obtain ⟨rfl, rfl⟩ := h
    change ¬grossAfter (c.storage.tickAt tick).liquidityGross delta = 0 at hzero
    refine ⟨?_, ?_⟩
    · rw [TickInfo.kept, if_neg hzero]
      rfl
    · show decide ((c.storage.tickAt tick).liquidityGross = 0) = true ↔ _
      simp [hzero]

/-- The bitmap after the bit of a tick was flipped, if it was. -/
def flipIf (flipped : Bool) (tick tickSpacing : ℤ) (w : ℤ → ℕ) : ℤ → ℕ :=
  if flipped then Bitmap.flip w (tick.tdiv tickSpacing) else w

/-- The two ticks of a position and the bitmap after a change of its liquidity. -/
theorem returns_updateTicks {pool : Pool Address} {key : PositionKey Address} {r : Unit}
    (hne : key.tickLower ≠ key.tickUpper) (h : Returns (updateTicks pool key delta) c r c') :
    ∃ lower upper flippedLower flippedUpper,
      (c.storage.tickAt key.tickLower).Changed lower key.tickLower pool.currentTick delta
        pool.feeGrowthGlobal0 pool.feeGrowthGlobal1 false ∧
      (c.storage.tickAt key.tickUpper).Changed upper key.tickUpper pool.currentTick delta
        pool.feeGrowthGlobal0 pool.feeGrowthGlobal1 true ∧
      (flippedLower = true ↔
        ((c.storage.tickAt key.tickLower).liquidityGross = 0 ↔ lower.liquidityGross ≠ 0)) ∧
      (flippedUpper = true ↔
        ((c.storage.tickAt key.tickUpper).liquidityGross = 0 ↔ upper.liquidityGross ≠ 0)) ∧
      c' = { c with storage := { c.storage with
        tick := Function.update (Function.update c.storage.tick key.tickLower lower.kept)
          key.tickUpper upper.kept
        tickBitmap := flipIf flippedUpper key.tickUpper pool.tickSpacing
          (flipIf flippedLower key.tickLower pool.tickSpacing c.storage.tickBitmap) } } := by
  rw [updateTicks, returns_bind] at h
  obtain ⟨flippedLower, c₁, hc₁, h⟩ := h
  obtain ⟨flippedUpper, c₂, hc₂, h⟩ := returns_bind.mp h
  obtain ⟨lower, hlower, rfl, hflippedLower⟩ := returns_updateTick hc₁
  obtain ⟨upper, hupper, rfl, hflippedUpper⟩ := returns_updateTick hc₂
  have hat : ({ c.storage with
      tick := Function.update c.storage.tick key.tickLower lower.kept } : State Address).tickAt
      key.tickUpper = c.storage.tickAt key.tickUpper := by
    show (Function.update c.storage.tick key.tickLower lower.kept key.tickUpper).getD _ = _
    rw [Function.update_of_ne hne.symm]
    rfl
  rw [hat] at hupper hflippedUpper
  refine ⟨lower, upper, flippedLower, flippedUpper, hlower, hupper, hflippedLower,
    hflippedUpper, ?_⟩
  cases flippedLower <;> cases flippedUpper <;>
    simp [flipTickBitmap, returns_save, flipIf] at h ⊢ <;> exact h.symm

/-- A change of the ticks leaves the rest of the storage as it is. -/
theorem frame_updateTicks {pool : Pool Address} {key : PositionKey Address} {r : Unit}
    (hne : key.tickLower ≠ key.tickUpper) (h : Returns (updateTicks pool key delta) c r c') :
    c'.storage.pool = c.storage.pool ∧ c'.storage.position = c.storage.position ∧
      c'.tokens = c.tokens := by
  obtain ⟨lower, upper, flippedLower, flippedUpper, -, -, -, -, rfl⟩ := returns_updateTicks hne h
  exact ⟨rfl, rfl, rfl⟩

end Ticks

/-! ## The search of the next tick -/

section Search

variable {tick tickSpacing next : ℤ} {lte initialized : Bool}

/-- The number of a tick is its quotient rounded down. -/
theorem compress_eq (hspacing : 0 < tickSpacing) :
    compress tick tickSpacing = tick / tickSpacing := by
  unfold compress
  rw [Int.tdiv_eq_ediv, Int.sign_eq_one_of_pos hspacing]
  have hdvd : tick.tmod tickSpacing ≠ 0 ↔ ¬tickSpacing ∣ tick :=
    not_congr Int.dvd_iff_tmod_eq_zero.symm
  simp only [hdvd]
  by_cases hneg : tick < 0
  · by_cases hmultiple : tickSpacing ∣ tick
    · simp [hmultiple]
    · simp [hmultiple, hneg, not_le.mpr hneg]
  · simp [hneg, not_lt.mp hneg]

theorem readOnly_nextInitializedTick :
    ReadOnly (nextInitializedTickWithinOneWord tick tickSpacing lte :
      Body Address Tokens (ℤ × Bool)) := by
  intro s a t h
  simp only [nextInitializedTickWithinOneWord, returns_require_bind, returns_storage_bind] at h
  obtain ⟨-, h⟩ := h
  split at h <;> split at h <;> rw [returns_plainI32_bind, returns_pure] at h <;> exact h.2.2

/-- The search divides by the spacing. -/
theorem spacing_ne_zero {p : ℤ × Bool}
    (h : Returns (nextInitializedTickWithinOneWord tick tickSpacing lte) c p c') :
    tickSpacing ≠ 0 := by
  rw [nextInitializedTickWithinOneWord, returns_require_bind] at h
  exact h.1

/-- **The search down.** The tick that is found is in use, and none between it and the start is. -/
theorem returns_next_down (hspacing : 0 < tickSpacing)
    (h : Returns (nextInitializedTickWithinOneWord tick tickSpacing true) c (next, true) c') :
    tickSpacing ∣ next ∧ next ≤ tick ∧
      Bitmap.mem c.storage.tickBitmap (next.tdiv tickSpacing) = true ∧
      ∀ t, tickSpacing ∣ t → next < t → t ≤ tick →
        Bitmap.mem c.storage.tickBitmap (t.tdiv tickSpacing) = false := by
  simp only [nextInitializedTickWithinOneWord, returns_require_bind, returns_storage_bind,
    if_true] at h
  obtain ⟨-, h⟩ := h
  split at h
  next found hfound =>
    rw [returns_plainI32_bind, returns_pure, Prod.mk.injEq] at h
    obtain ⟨-, ⟨rfl, -⟩, rfl⟩ := h
    rw [compress_eq hspacing] at hfound
    obtain ⟨hmem, hle, hnone⟩ := Bitmap.lastUpTo_eq_some hfound
    refine ⟨Dvd.intro_left found rfl, (Int.le_ediv_iff_mul_le hspacing).mp hle, ?_, ?_⟩
    · rwa [Int.mul_tdiv_cancel found hspacing.ne']
    · rintro t ⟨k, rfl⟩ hlt hle
      rw [mul_comm tickSpacing k] at hlt hle ⊢
      rw [Int.mul_tdiv_cancel k hspacing.ne']
      exact hnone k (lt_of_mul_lt_mul_right hlt hspacing.le)
        ((Int.le_ediv_iff_mul_le hspacing).mpr hle)
  next hnone =>
    rw [returns_plainI32_bind, returns_pure] at h
    cases h.2.1

/-- **The search up.** The tick that is found is in use, and none between the start and it is. -/
theorem returns_next_up (hspacing : 0 < tickSpacing)
    (h : Returns (nextInitializedTickWithinOneWord tick tickSpacing false) c (next, true) c') :
    tickSpacing ∣ next ∧ tick < next ∧
      Bitmap.mem c.storage.tickBitmap (next.tdiv tickSpacing) = true ∧
      ∀ t, tickSpacing ∣ t → tick < t → t < next →
        Bitmap.mem c.storage.tickBitmap (t.tdiv tickSpacing) = false := by
  simp only [nextInitializedTickWithinOneWord, returns_require_bind, returns_storage_bind,
    Bool.false_eq_true, if_false] at h
  obtain ⟨-, h⟩ := h
  split at h
  next found hfound =>
    rw [returns_plainI32_bind, returns_pure, Prod.mk.injEq] at h
    obtain ⟨-, ⟨rfl, -⟩, rfl⟩ := h
    rw [compress_eq hspacing] at hfound
    obtain ⟨hmem, hle, hnone⟩ := Bitmap.firstFrom_eq_some hfound
    refine ⟨Dvd.intro_left found rfl, (Int.ediv_lt_iff_lt_mul hspacing).mp (by omega), ?_, ?_⟩
    · rwa [Int.mul_tdiv_cancel found hspacing.ne']
    · rintro t ⟨k, rfl⟩ hlt hle
      rw [mul_comm tickSpacing k] at hlt hle ⊢
      rw [Int.mul_tdiv_cancel k hspacing.ne']
      exact hnone k ((Int.ediv_lt_iff_lt_mul hspacing).mpr hlt)
        (lt_of_mul_lt_mul_right hle hspacing.le)
  next hnone =>
    rw [returns_plainI32_bind, returns_pure] at h
    cases h.2.1

end Search

/-! ## The entry points -/

/-- A position with what it is owed up to now. -/
def PositionInfo.settled (pos : PositionInfo) (inside : ℕ × ℕ) : PositionInfo where
  liquidity := pos.liquidity
  feeGrowthInside0Last := inside.1
  feeGrowthInside1Last := inside.2
  tokensOwed0 := pos.tokensOwed0 + owedFor pos.liquidity inside.1 pos.feeGrowthInside0Last
  tokensOwed1 := pos.tokensOwed1 + owedFor pos.liquidity inside.2 pos.feeGrowthInside1Last

@[simp] theorem settled_liquidity {pos : PositionInfo} {inside : ℕ × ℕ} :
    (pos.settled inside).liquidity = pos.liquidity := rfl

/-- A position without liquidity, which has its share in the growth from now on. -/
def PositionInfo.fresh (inside : ℕ × ℕ) : PositionInfo where
  liquidity := 0
  feeGrowthInside0Last := inside.1
  feeGrowthInside1Last := inside.2
  tokensOwed0 := 0
  tokensOwed1 := 0

/-- The pool after a change of a position, which counts where the position is around the current
tick. -/
def Pool.adjust (pool : Pool Address) (key : PositionKey Address) (delta : ℤ) : Pool Address :=
  if pool.currentTick ≥ key.tickLower ∧ pool.currentTick < key.tickUpper then
    { pool with liquidity := (pool.liquidity + delta).toNat }
  else pool

section Positions

variable {α : Type} {v : α} {pos : PositionInfo} {inside : ℕ × ℕ}

theorem toNat_add (m n : ℕ) : ((m : ℤ) + n).toNat = m + n := by omega

theorem returns_settleFees_bind {f : PositionInfo → Body Address Tokens α} :
    Returns (settleFees pos inside >>= f) c v c' ↔
      (pos.settled inside).tokensOwed0 < 2 ^ 128 ∧ (pos.settled inside).tokensOwed1 < 2 ^ 128 ∧
        Returns (f (pos.settled inside)) c v c' := by
  simp only [settleFees, bind_assoc, pure_bind, returns_plainU128_bind, toNat_add]
  constructor
  · rintro ⟨⟨-, h0⟩, ⟨-, h1⟩, h⟩
    exact ⟨by exact_mod_cast h0, by exact_mod_cast h1, h⟩
  · rintro ⟨h0, h1, h⟩
    exact ⟨⟨by positivity, by exact_mod_cast h0⟩, ⟨by positivity, by exact_mod_cast h1⟩, h⟩

theorem returns_updateLiquidity {pool : Pool Address} {key : PositionKey Address} {delta : ℤ}
    {r : Unit} (hpool : c.storage.pool = some pool)
    (h : Returns (updateLiquidity key delta) c r c') :
    c' = { c with storage := { c.storage with pool := some (pool.adjust key delta) } } ∧
      (pool.currentTick ≥ key.tickLower ∧ pool.currentTick < key.tickUpper →
        0 ≤ pool.liquidity + delta ∧ pool.liquidity + delta < 2 ^ 128) := by
  simp only [updateLiquidity, returns_unwrapPool_bind, hpool, Option.some.injEq] at h
  obtain ⟨_, rfl, h⟩ := h
  unfold Pool.adjust
  split at h
  next haround =>
    rw [returns_plainU128_bind, savePool, returns_save] at h
    obtain ⟨hfit, rfl⟩ := h
    exact ⟨by rw [if_pos haround], fun _ => hfit⟩
  next haround =>
    obtain ⟨-, rfl⟩ := returns_pure.mp h
    exact ⟨by rw [if_neg haround, ← hpool], fun h => absurd h haround⟩

variable [DecidableEq Address] {env : Env Address Tokens} {owner : Address}
  {tickLower tickUpper : ℤ}

theorem returns_mint {amountADesired amountBDesired : ℕ} {r : ℕ × ℕ × ℕ}
    (h : Returns (mint host env owner tickLower tickUpper amountADesired amountBDesired) c r c') :
    ∃ pool sqrtRatioA sqrtRatioB tokens₁ tokens₂ c₂,
      c.storage.pool = some pool ∧ tickLower < tickUpper ∧
      pool.tickSpacing ∣ tickLower ∧ pool.tickSpacing ∣ tickUpper ∧
      minTick ≤ tickLower ∧ tickUpper ≤ maxTick ∧
      getSqrtRatioAtTick tickLower = some sqrtRatioA ∧
      getSqrtRatioAtTick tickUpper = some sqrtRatioB ∧
      liquidityFor pool.currentSqrtPrice sqrtRatioA sqrtRatioB amountADesired amountBDesired =
        some r ∧ r.1 ≠ 0 ∧
      Returns (transferSome host pool.tokenA owner host.currentContractAddress r.2.1) c ()
        ⟨c.storage, tokens₁⟩ ∧
      Returns (transferSome host pool.tokenB owner host.currentContractAddress r.2.2)
        ⟨c.storage, tokens₁⟩ () ⟨c.storage, tokens₂⟩ ∧
      Returns (updateTicks pool ⟨owner, tickLower, tickUpper⟩ (asI128 r.1)) ⟨c.storage, tokens₂⟩
        () c₂ ∧
      ∃ inside, inside = getFeeGrowthInside c₂.storage tickLower tickUpper pool.currentTick
          pool.feeGrowthGlobal0 pool.feeGrowthGlobal1 ∧
      ∃ pos, pos = ((c.storage.position ⟨owner, tickLower, tickUpper⟩).getD
          (.fresh inside)).settled inside ∧
      pos.liquidity + r.1 < 2 ^ 128 ∧
      c' = { c₂ with storage := { c₂.storage with
        position := Function.update c.storage.position ⟨owner, tickLower, tickUpper⟩
          (some { pos with liquidity := pos.liquidity + r.1 })
        pool := some (pool.adjust ⟨owner, tickLower, tickUpper⟩ r.1) } } := by
  simp only [mint, returns_requireAuth_bind, returns_loadPool_bind, returns_require_bind,
    returns_remainder_bind, returns_math_bind] at h
  obtain ⟨-, pool, hpool, hlt, -, hlower, -, hupper, hrange, sqrtRatioA, hratioA, sqrtRatioB,
    hratioB, ⟨liquidity, amountA, amountB⟩, hfor, hne, h⟩ := h
  obtain ⟨_, tokens₁, htransferA, h⟩ := returns_bind_of_keeps (keeps_transferSome _ _ _ _) h
  obtain ⟨_, tokens₂, htransferB, h⟩ := returns_bind_of_keeps (keeps_transferSome _ _ _ _) h
  obtain ⟨_, c₂, hticks, h⟩ := returns_bind.mp h
  obtain ⟨hpool₂, hposition₂, -⟩ := frame_updateTicks (not_le.mp hlt).ne hticks
  rw [returns_storage_bind, hposition₂] at h
  simp only [returns_settleFees_bind, returns_plainU128_bind, savePosition, returns_save_bind,
    toNat_add] at h
  obtain ⟨-, -, ⟨-, hsum⟩, h⟩ := h
  obtain ⟨_, c₃, hliquidity, h⟩ := returns_bind.mp h
  obtain ⟨rfl, rfl⟩ := returns_pure.mp h
  refine ⟨pool, sqrtRatioA, sqrtRatioB, tokens₁, tokens₂, c₂, hpool, not_le.mp hlt,
    Int.dvd_of_tmod_eq_zero (not_not.mp hlower), Int.dvd_of_tmod_eq_zero (not_not.mp hupper),
    by omega, by omega, hratioA, hratioB, hfor, hne, htransferA, htransferB, hticks,
    _, rfl, _, rfl, by exact_mod_cast hsum, ?_⟩
  obtain ⟨hc', -⟩ := returns_updateLiquidity (by exact hpool₂.trans hpool) hliquidity
  simp only [hposition₂] at hc'
  exact hc'

theorem returns_burn {liquidity : ℕ} {r : ℕ × ℕ}
    (h : Returns (burn host env owner tickLower tickUpper liquidity) c r c') :
    ∃ pool pos sqrtRatioA sqrtRatioB settled rest c₂ tokens₁ tokens₂,
      c.storage.pool = some pool ∧ tickLower < tickUpper ∧
      minTick ≤ tickLower ∧ tickUpper ≤ maxTick ∧
      c.storage.position ⟨owner, tickLower, tickUpper⟩ = some pos ∧ liquidity ≤ pos.liquidity ∧
      getSqrtRatioAtTick tickLower = some sqrtRatioA ∧
      getSqrtRatioAtTick tickUpper = some sqrtRatioB ∧
      burnAmounts pool.currentTick pool.currentSqrtPrice tickLower tickUpper sqrtRatioA sqrtRatioB
        liquidity = some r ∧
      settled = pos.settled (getFeeGrowthInside c.storage tickLower tickUpper pool.currentTick
        pool.feeGrowthGlobal0 pool.feeGrowthGlobal1) ∧
      rest = { settled with liquidity := settled.liquidity - liquidity } ∧
      Returns (updateTicks pool ⟨owner, tickLower, tickUpper⟩ (-asI128 liquidity))
        { c with storage := { c.storage with
          position := Function.update c.storage.position ⟨owner, tickLower, tickUpper⟩
            (if rest.liquidity = 0 ∧ rest.tokensOwed0 = 0 ∧ rest.tokensOwed1 = 0 then none
              else some rest) } } () c₂ ∧
      c'.storage = { c₂.storage with
        pool := some (pool.adjust ⟨owner, tickLower, tickUpper⟩ (-liquidity)) } ∧
      Returns (transferSome host pool.tokenA host.currentContractAddress owner r.1)
        ⟨c'.storage, c.tokens⟩ () ⟨c'.storage, tokens₁⟩ ∧
      Returns (transferSome host pool.tokenB host.currentContractAddress owner r.2)
        ⟨c'.storage, tokens₁⟩ () ⟨c'.storage, tokens₂⟩ ∧ c'.tokens = tokens₂ := by
  simp only [burn, returns_requireAuth_bind, returns_require_bind, returns_storage_bind,
    returns_orFault_bind, returns_unwrapPool_bind, returns_math_bind, returns_settleFees_bind,
    savePosition, returns_save_bind, returns_plainI128_bind] at h
  obtain ⟨-, hrange, pos, hpos, hle, pool, hpool, sqrtRatioA, hratioA, sqrtRatioB, hratioB,
    ⟨amountA, amountB⟩, hfor, -, -, -, h⟩ := h
  have hlt : tickLower < tickUpper := by omega
  obtain ⟨_, c₂, hticks, h⟩ := returns_bind.mp h
  obtain ⟨hpool₂, -, htokens₂⟩ := frame_updateTicks hlt.ne hticks
  obtain ⟨_, c₃, hliquidity, h⟩ := returns_bind.mp h
  obtain ⟨rfl, -⟩ := returns_updateLiquidity (by exact hpool₂.trans hpool) hliquidity
  obtain ⟨_, tokens₁, htransferA, h⟩ := returns_bind_of_keeps (keeps_transferSome _ _ _ _) h
  obtain ⟨_, tokens₂, htransferB, h⟩ := returns_bind_of_keeps (keeps_transferSome _ _ _ _) h
  obtain ⟨rfl, rfl⟩ := returns_pure.mp h
  rw [htokens₂] at htransferA
  exact ⟨pool, pos, sqrtRatioA, sqrtRatioB, _, _, c₂, tokens₁, tokens₂, hpool, hlt, by omega,
    by omega, hpos, not_lt.mp hle, hratioA, hratioB, hfor, rfl, rfl, hticks, rfl, htransferA,
    htransferB, rfl⟩

theorem returns_collectFees {r : ℕ × ℕ}
    (h : Returns (collectFees host env owner tickLower tickUpper) c r c') :
    ∃ pool pos settled tokens₁ tokens₂,
      c.storage.pool = some pool ∧ tickLower < tickUpper ∧
      c.storage.position ⟨owner, tickLower, tickUpper⟩ = some pos ∧
      settled = pos.settled (getFeeGrowthInside c.storage tickLower tickUpper pool.currentTick
          pool.feeGrowthGlobal0 pool.feeGrowthGlobal1) ∧
      r = (settled.tokensOwed0, settled.tokensOwed1) ∧
      c'.storage = { c.storage with
        position := Function.update c.storage.position ⟨owner, tickLower, tickUpper⟩
          (if settled.liquidity = 0 then none
            else some { settled with tokensOwed0 := 0, tokensOwed1 := 0 }) } ∧
      Returns (transferSome host pool.tokenA host.currentContractAddress owner r.1)
        ⟨c'.storage, c.tokens⟩ () ⟨c'.storage, tokens₁⟩ ∧
      Returns (transferSome host pool.tokenB host.currentContractAddress owner r.2)
        ⟨c'.storage, tokens₁⟩ () ⟨c'.storage, tokens₂⟩ ∧ c'.tokens = tokens₂ := by
  simp only [collectFees, returns_requireAuth_bind, returns_require_bind, returns_storage_bind,
    returns_orFault_bind, returns_unwrapPool_bind, returns_settleFees_bind, savePosition,
    returns_save_bind] at h
  obtain ⟨-, hrange, pos, hpos, pool, hpool, -, -, h⟩ := h
  obtain ⟨_, tokens₁, htransferA, h⟩ := returns_bind_of_keeps (keeps_transferSome _ _ _ _) h
  obtain ⟨_, tokens₂, htransferB, h⟩ := returns_bind_of_keeps (keeps_transferSome _ _ _ _) h
  obtain ⟨rfl, rfl⟩ := returns_pure.mp h
  exact ⟨pool, pos, _, tokens₁, tokens₂, hpool, by omega, hpos, rfl, rfl, rfl, htransferA,
    htransferB, rfl⟩

end Positions

/-! ## The rounds of a swap -/

/-- Some of the input is left. -/
abbrev InputLeft (l : SwapState) : Prop := l.amountRemaining > 0

/-- A round is booked on the amounts and the price. -/
structure Booked (l : SwapState) (step : StepAmounts) (booked : SwapState) : Prop where
  liquidity_eq : booked.liquidity = l.liquidity
  currentTick_eq : booked.currentTick = l.currentTick
  price_eq : booked.currentSqrtPrice = step.nextPrice
  amountInTotal_eq : booked.amountInTotal = l.amountInTotal + (step.amountIn + step.feeAmount)
  amountRemaining_eq :
    booked.amountRemaining = l.amountRemaining - (step.amountIn + step.feeAmount)

section Swap

variable {feeBps : ℕ} {tickSpacing : ℤ} {zeroForOne : Bool} {l booked : SwapState}
  {out : Option SwapState} {step : StepAmounts}

/-- The loop of a swap is a loop of rounds, while some of the input is left. -/
theorem swapLoop_eq {budget : ℕ} :
    (swapLoop feeBps tickSpacing zeroForOne budget l : Body Address Tokens SwapState) =
      loop InputLeft (swapRound feeBps tickSpacing zeroForOne) budget l := by
  induction budget generalizing l with
  | zero => rfl
  | succ budget ih =>
    rw [swapLoop, loop]
    refine ite_congr rfl (fun _ => bind_congr ?_) fun _ => rfl
    rintro (_ | l')
    · rfl
    · exact ih

theorem returns_bookStep (h : Returns (bookStep zeroForOne l step) c booked c') :
    Booked l step booked ∧ c = c' := by
  simp only [bookStep, returns_math_bind, returns_plainU128_bind, returns_pure] at h
  obtain ⟨feeGrowth, -, ⟨-, -⟩, ⟨-, -⟩, ⟨-, -⟩, rfl, rfl⟩ := h
  refine ⟨⟨rfl, rfl, rfl, ?_, ?_⟩, rfl⟩
  · show ((l.amountInTotal : ℤ) + ((step.amountIn + step.feeAmount : ℤ).toNat : ℕ)).toNat = _
    omega
  · show l.amountRemaining - (step.amountIn + step.feeAmount : ℤ).toNat = _
    omega

/-- A round crosses the next tick only if it is in use. -/
theorem initialized_of_crossed {sqrtPrice sqrtPriceNext liquidity amountRemaining : ℕ}
    {initialized : Bool}
    (h : computeStep sqrtPrice sqrtPriceNext liquidity amountRemaining feeBps zeroForOne
      initialized = some step) (hcrossed : step.crossed = true) : initialized = true := by
  simp only [computeStep, Option.bind_eq_bind, Option.bind_eq_some_iff] at h
  obtain ⟨lessFee, -, h⟩ := h
  split at h
  next hreached => exact hreached.2
  next hreached =>
    simp only [Option.bind_eq_some_iff, Option.some.injEq] at h
    obtain ⟨_, -, _, -, rfl⟩ := h
    cases hcrossed

/-- **A round without liquidity** ends the swap, or crosses the next tick in use and reads the price
there. -/
theorem returns_emptyRound (h : Returns (emptyRound tickSpacing zeroForOne l) c out c') :
    (out = none ∧ c = c') ∨ ∃ next liquidity price,
      Returns (nextInitializedTickWithinOneWord l.currentTick tickSpacing zeroForOne) c
        (next, true) c ∧
      (c.storage.tick next = none ∧ liquidity = l.liquidity ∧ c = c' ∨
        ∃ info, c.storage.tick next = some info ∧
          Returns (crossTick next info l.fg0 l.fg1 l.liquidity zeroForOne) c liquidity c') ∧
      getSqrtRatioAtTick (tickBeyond next zeroForOne) = some price ∧
      out = some { l with
        liquidity
        currentTick := tickBeyond next zeroForOne
        currentSqrtPrice := price } := by
  unfold emptyRound at h
  rw [returns_bind_of_readOnly readOnly_nextInitializedTick] at h
  obtain ⟨⟨next, initialized⟩, hnext, h⟩ := h
  dsimp only at h
  cases initialized with
  | false =>
    obtain ⟨rfl, rfl⟩ := returns_pure.mp h
    exact .inl ⟨rfl, rfl⟩
  | true =>
    rw [if_pos rfl, returns_storage_bind] at h
    refine .inr ?_
    cases hinfo : c.storage.tick next with
    | none =>
      -- the liquidity stays as it is
      simp only [hinfo, pure_bind, returns_math_bind] at h
      obtain ⟨price, hprice, h⟩ := h
      obtain ⟨rfl, rfl⟩ := returns_pure.mp h
      exact ⟨next, l.liquidity, price, hnext, .inl ⟨hinfo, rfl, rfl⟩, hprice, rfl⟩
    | some info =>
      simp only [hinfo] at h
      obtain ⟨liquidity, c₁, hcross, h⟩ := returns_bind.mp h
      rw [returns_math_bind] at h
      obtain ⟨price, hprice, h⟩ := h
      obtain ⟨rfl, rfl⟩ := returns_pure.mp h
      exact ⟨next, liquidity, price, hnext, .inr ⟨info, hinfo, hcross⟩, hprice, rfl⟩

/-- **A round with liquidity** computes a step and books it, and then crosses the next tick or
stays at its tick. -/
theorem returns_liquidRound
    (h : Returns (liquidRound feeBps tickSpacing zeroForOne l) c out c') :
    ∃ next initialized sqrtPriceNext step booked,
      Returns (nextInitializedTickWithinOneWord l.currentTick tickSpacing zeroForOne) c
        (next, initialized) c ∧
      getSqrtRatioAtTick next = some sqrtPriceNext ∧ feeBps ≤ 10000 ∧
      computeStep l.currentSqrtPrice sqrtPriceNext l.liquidity l.amountRemaining feeBps zeroForOne
        initialized = some step ∧
      Booked l step booked ∧
      (step.crossed = false ∧ out = some booked ∧ c = c' ∨
        step.crossed = true ∧ initialized = true ∧ ∃ info liquidity,
          c.storage.tick next = some info ∧
          Returns (crossTick next info booked.fg0 booked.fg1 l.liquidity zeroForOne) c liquidity
            c' ∧
          out = some { booked with liquidity, currentTick := tickBeyond next zeroForOne }) := by
  unfold liquidRound at h
  rw [returns_bind_of_readOnly readOnly_nextInitializedTick] at h
  obtain ⟨⟨next, initialized⟩, hnext, h⟩ := h
  simp only [returns_math_bind, returns_require_bind] at h
  obtain ⟨sqrtPriceNext, hratio, hfee, step, hstep, h⟩ := h
  obtain ⟨booked, c₁, hbook, h⟩ := returns_bind.mp h
  obtain ⟨hbooked, rfl⟩ := returns_bookStep hbook
  refine ⟨next, initialized, sqrtPriceNext, step, booked, hnext, hratio, hfee, hstep, hbooked, ?_⟩
  split at h
  next hcrossed =>
    rw [returns_storage_bind, returns_orFault_bind] at h
    obtain ⟨info, hinfo, h⟩ := h
    obtain ⟨liquidity, c₂, hcross, h⟩ := returns_bind.mp h
    obtain ⟨rfl, rfl⟩ := returns_pure.mp h
    rw [hbooked.liquidity_eq] at hcross
    exact .inr ⟨hcrossed, initialized_of_crossed hstep hcrossed, info, liquidity, hinfo, hcross,
      rfl⟩
  next hcrossed =>
    obtain ⟨rfl, rfl⟩ := returns_pure.mp h
    exact .inl ⟨Bool.eq_false_of_not_eq_true hcrossed, rfl, rfl⟩

variable {env : Env Address Tokens} {trader : Address} {amountSpecified : ℕ} {r : ℕ × ℕ}

theorem returns_swap (h : Returns (swap host env trader zeroForOne amountSpecified) c r c') :
    ∃ pool l c₁ tokens₁ tokens₂,
      c.storage.pool = some pool ∧
      Returns (swapLoop pool.feeBps pool.tickSpacing zeroForOne env.budget
        (.start pool amountSpecified)) c l c₁ ∧
      r = (l.amountInTotal, l.amountOutTotal) ∧
      c'.storage = { c₁.storage with pool := some (l.finish pool) } ∧
      Returns (transfer host (if zeroForOne then pool.tokenA else pool.tokenB) trader
        host.currentContractAddress (asI128 l.amountInTotal)) ⟨c'.storage, c₁.tokens⟩ ()
        ⟨c'.storage, tokens₁⟩ ∧
      Returns (transfer host (if zeroForOne then pool.tokenB else pool.tokenA)
        host.currentContractAddress trader (asI128 l.amountOutTotal)) ⟨c'.storage, tokens₁⟩ ()
        ⟨c'.storage, tokens₂⟩ ∧ c'.tokens = tokens₂ := by
  simp only [swap, returns_requireAuth_bind, returns_loadPool_bind] at h
  obtain ⟨-, pool, hpool, h⟩ := h
  obtain ⟨l, c₁, hloop, h⟩ := returns_bind.mp h
  rw [savePool, returns_save_bind] at h
  obtain ⟨_, tokens₁, hin, h⟩ := returns_bind_of_keeps (keeps_transfer _ _ _ _) h
  obtain ⟨_, tokens₂, hout, h⟩ := returns_bind_of_keeps (keeps_transfer _ _ _ _) h
  obtain ⟨rfl, rfl⟩ := returns_pure.mp h
  exact ⟨pool, l, c₁, tokens₁, tokens₂, hpool, hloop, rfl, rfl, hin, hout, rfl⟩

end Swap

end ConcentratedAmm
