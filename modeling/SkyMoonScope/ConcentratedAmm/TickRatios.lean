import SkyMoonScope.ConcentratedAmm.Ratios
import Mathlib.Algebra.Order.Field.Power
import Mathlib.Data.Nat.Cast.Order.Field
import Mathlib.Tactic.FieldSimp
import Mathlib.Tactic.Positivity

/-!
# How far the prices are from those of the ticks

A tick stands for a price of `1.0001` to its power, and the contract computes the square root. Its
base is written down as `1.00005`, of which the square would be `1.0001`. But the number in the
source is `1.0000501847`, and so every tick is too wide by one part in 269. After 269 ticks the
error is a tick, on both sides of zero. The order of the prices does not suffer.

The products are rounded down, so that a price is not above the power of the base. And it is not
below the power of a base that is smaller by two units: a base keeps the two units through the
squarings, which pay for the rounding of the products.

## Main definitions

* `tickPrice tick`: the price that a tick stands for
* `TickSound tick`: what the price at a tick should be

## Main results

* `le_ratioAt`, `ratioAt_le`: the price is between two powers
* `sqrtRatio_lt_of_lt`: the prices keep the order of the ticks
* `tickSound_iff`: the ticks at which the price is right
-/

namespace ConcentratedAmm

/-- The price that a tick stands for. -/
def tickPrice (tick : ℤ) : ℚ := (10001 / 10000) ^ tick

/-- The square of the price is between the prices that the neighbours of the tick stand for, and
the price is greater than at all smaller ticks of the range. -/
structure TickSound (tick : ℤ) : Prop where
  between : ∃ r, getSqrtRatioAtTick tick = some r ∧
    tickPrice (tick - 1) < (r / 2 ^ 64) ^ 2 ∧ ((r : ℚ) / 2 ^ 64) ^ 2 < tickPrice (tick + 1)
  increasing : ∀ t, minTick ≤ t → t < tick → ∀ r r', getSqrtRatioAtTick t = some r →
    getSqrtRatioAtTick tick = some r' → r < r'

/-- The base as a ratio. -/
def baseRatio : ℚ := ratioBase / q64

/-- The base without the two units that pay for the rounding. -/
def lowRatio : ℚ := ratioBase / (q64 + 2)

/-! ## The powers around a price -/

section Powers

variable {i k n t x y ratio : ℕ}

theorem q64_cast : (q64 : ℚ) = 2 ^ 64 := by
  norm_num [q64, Nat.shiftLeft_eq]

theorem q64_cast_pos : (0 : ℚ) < q64 := by
  rw [q64_cast]
  norm_num

theorem one_le_lowRatio : 1 ≤ lowRatio := by
  rw [lowRatio, q64_cast, ratioBase]
  norm_num

theorem one_le_lowRatio_pow : 1 ≤ lowRatio ^ n := one_le_pow₀ one_le_lowRatio

theorem baseRatio_pos : 0 < baseRatio := by
  rw [baseRatio, q64_cast, ratioBase]
  norm_num

theorem scaled_cast_le : (scaled x y : ℚ) ≤ x * y / q64 := by
  rw [scaled, ← Nat.cast_mul]
  exact Nat.cast_div_le

theorem lt_scaled_cast : (x * y : ℚ) / q64 < scaled x y + 1 := by
  have hlt : x * y < q64 * (x * y / q64 + 1) := Nat.lt_mul_div_succ _ q64_pos
  rw [div_lt_iff₀ q64_cast_pos, mul_comm _ (q64 : ℚ), scaled]
  exact_mod_cast hlt

theorem baseAt_le : (baseAt i : ℚ) ≤ q64 * baseRatio ^ 2 ^ i := by
  induction i with
  | zero =>
    rw [pow_zero, pow_one, baseRatio, mul_div_cancel₀ _ q64_cast_pos.ne']
    rfl
  | succ i ih =>
    calc (baseAt (i + 1) : ℚ) ≤ baseAt i * baseAt i / q64 := scaled_cast_le
      _ ≤ (q64 * baseRatio ^ 2 ^ i) * (q64 * baseRatio ^ 2 ^ i) / q64 :=
        div_le_div_of_nonneg_right (mul_self_le_mul_self (Nat.cast_nonneg _) ih) q64_cast_pos.le
      _ = q64 * (baseRatio ^ 2 ^ i) ^ 2 := by
        field_simp
      _ = q64 * baseRatio ^ 2 ^ (i + 1) := by rw [← pow_mul, pow_succ]

/-- **A base keeps its two units**: the squaring doubles them, and the rounding takes one. -/
theorem le_baseAt : (q64 + 2 : ℚ) * lowRatio ^ 2 ^ i ≤ baseAt i := by
  induction i with
  | zero =>
    have hne : (q64 + 2 : ℚ) ≠ 0 := by linarith [q64_cast_pos]
    rw [pow_zero, pow_one, lowRatio, mul_div_cancel₀ _ hne]
    rfl
  | succ i ih =>
    have hone : 1 ≤ lowRatio ^ 2 ^ (i + 1) := one_le_lowRatio_pow
    have hsquare : (q64 + 2 : ℚ) * lowRatio ^ 2 ^ (i + 1) + 1 ≤ baseAt i * baseAt i / q64 := by
      rw [le_div_iff₀ q64_cast_pos]
      calc ((q64 + 2 : ℚ) * lowRatio ^ 2 ^ (i + 1) + 1) * q64
          ≤ (q64 + 2) * (q64 + 2) * lowRatio ^ 2 ^ (i + 1) := by
            nlinarith [q64_cast_pos]
        _ = ((q64 + 2) * lowRatio ^ 2 ^ i) * ((q64 + 2) * lowRatio ^ 2 ^ i) := by
            rw [pow_succ 2 i, pow_mul]
            ring
        _ ≤ baseAt i * baseAt i :=
            mul_self_le_mul_self (mul_nonneg (by linarith [q64_cast_pos])
              (zero_le_one.trans one_le_lowRatio_pow)) ih
    have hround : (baseAt i * baseAt i : ℚ) / q64 < baseAt (i + 1) + 1 := lt_scaled_cast
    linarith

/-- The rounds for the bits of `t` do not exceed the power. -/
theorem ratioFrom_cast_le (ht : t < 2 ^ k) :
    (ratioFrom i k t ratio : ℚ) ≤ ratio * baseRatio ^ (2 ^ i * t) := by
  induction k generalizing i t ratio with
  | zero =>
    -- no bit is left
    obtain rfl : t = 0 := by omega
    rw [Nat.mul_zero, pow_zero, mul_one, ratioFrom]
  | succ k ih =>
    rw [ratioFrom]
    generalize hround : (if t % 2 = 1 then scaled ratio (baseAt i) else ratio) = ratio'
    have hnext : (ratioFrom (i + 1) k (t / 2) ratio' : ℚ) ≤
        ratio' * baseRatio ^ (2 ^ (i + 1) * (t / 2)) := ih (by omega)
    rw [← hround] at hnext ⊢
    refine hnext.trans ?_
    have hpow := pow_pos baseRatio_pos (2 ^ (i + 1) * (t / 2))
    split
    next hodd =>
      -- the factor of the lowest bit
      have hfactor : (scaled ratio (baseAt i) : ℚ) ≤ ratio * baseRatio ^ 2 ^ i := by
        refine scaled_cast_le.trans ?_
        rw [div_le_iff₀ q64_cast_pos, mul_assoc, mul_comm _ (q64 : ℚ)]
        exact mul_le_mul_of_nonneg_left baseAt_le (Nat.cast_nonneg _)
      have hexp : 2 ^ i * t = 2 ^ i + 2 ^ (i + 1) * (t / 2) := by
        conv_lhs => rw [← Nat.div_add_mod t 2, hodd]
        ring
      rw [hexp, pow_add baseRatio, ← mul_assoc]
      exact mul_le_mul_of_nonneg_right hfactor hpow.le
    next heven =>
      -- an even rest has no factor in this round
      have hexp : 2 ^ i * t = 2 ^ (i + 1) * (t / 2) := by
        conv_lhs => rw [← Nat.div_add_mod t 2, show t % 2 = 0 by omega]
        ring
      rw [hexp]

/-- The rounds for the bits of `t` reach the power of the lower base. -/
theorem le_ratioFrom_cast {v : ℚ} (ht : t < 2 ^ k) (hv : 1 ≤ v) (hratio : q64 * v ≤ ratio) :
    q64 * (v * lowRatio ^ (2 ^ i * t)) ≤ ratioFrom i k t ratio := by
  induction k generalizing i t ratio v with
  | zero =>
    obtain rfl : t = 0 := by omega
    rwa [Nat.mul_zero, pow_zero, mul_one, ratioFrom]
  | succ k ih =>
    rw [ratioFrom]
    split
    next hodd =>
      have hexp : 2 ^ i * t = 2 ^ i + 2 ^ (i + 1) * (t / 2) := by
        conv_lhs => rw [← Nat.div_add_mod t 2, hodd]
        ring
      have hone : 1 ≤ v * lowRatio ^ 2 ^ i := one_le_mul_of_one_le_of_one_le hv one_le_lowRatio_pow
      rw [hexp, pow_add lowRatio, ← mul_assoc v]
      refine ih (by omega) hone ?_
      -- the two units of the base pay for the rounding
      have hproduct : q64 * (v * lowRatio ^ 2 ^ i) + 1 ≤ (ratio * baseAt i : ℚ) / q64 := by
        rw [le_div_iff₀ q64_cast_pos]
        calc (q64 * (v * lowRatio ^ 2 ^ i) + 1 : ℚ) * q64
            ≤ (q64 * v) * ((q64 + 2) * lowRatio ^ 2 ^ i) := by
              nlinarith [q64_cast_pos]
          _ ≤ ratio * baseAt i := by
              refine mul_le_mul hratio le_baseAt ?_ (Nat.cast_nonneg _)
              exact mul_nonneg (by linarith [q64_cast_pos]) (zero_le_one.trans one_le_lowRatio_pow)
      have hround : (ratio * baseAt i : ℚ) / q64 < scaled ratio (baseAt i) + 1 := lt_scaled_cast
      linarith
    next heven =>
      have hexp : 2 ^ i * t = 2 ^ (i + 1) * (t / 2) := by
        conv_lhs => rw [← Nat.div_add_mod t 2, show t % 2 = 0 by omega]
        ring
      rw [hexp]
      exact ih (by omega) hv hratio

theorem ratioAt_le (ht : t < 2 ^ 19) : (ratioAt t : ℚ) ≤ q64 * baseRatio ^ t := by
  have h : (ratioFrom 0 19 t q64 : ℚ) ≤ q64 * baseRatio ^ (2 ^ 0 * t) := ratioFrom_cast_le ht
  rwa [pow_zero, one_mul] at h

theorem le_ratioAt (ht : t < 2 ^ 19) : (q64 : ℚ) * lowRatio ^ t ≤ ratioAt t := by
  have h : (q64 : ℚ) * (1 * lowRatio ^ (2 ^ 0 * t)) ≤ ratioFrom 0 19 t q64 :=
    le_ratioFrom_cast ht le_rfl (mul_one _).le
  rwa [pow_zero, one_mul, one_mul] at h

end Powers

/-! ## The order of the prices -/

section Order

variable {t tick : ℤ} {r r' : ℕ}

/-- **The prices keep the order of the ticks**, over the whole range. -/
theorem sqrtRatio_lt_of_lt (hlower : -2 ^ 19 < t) (hlt : t < tick) (hupper : tick < 2 ^ 19) :
    sqrtRatio t < sqrtRatio tick := by
  obtain ⟨n, rfl⟩ : ∃ n : ℕ, tick = t + 1 + n := ⟨(tick - t - 1).toNat, by omega⟩
  induction n with
  | zero =>
    rw [Nat.cast_zero, add_zero]
    exact sqrtRatio_lt hlower (by omega)
  | succ n ih =>
    push_cast at hupper ⊢
    rw [← add_assoc]
    exact (ih (by omega) (by omega)).trans (sqrtRatio_lt (by omega) (by omega))

theorem natAbs_lt_of_range (hlower : minTick ≤ tick) (hupper : tick ≤ maxTick) :
    tick.natAbs < 2 ^ 19 := by
  unfold minTick at hlower
  unfold maxTick at hupper
  omega

theorem getSqrtRatioAtTick_lt (hlower : minTick ≤ t) (hlt : t < tick) (hupper : tick ≤ maxTick)
    (hr : getSqrtRatioAtTick t = some r) (hr' : getSqrtRatioAtTick tick = some r') : r < r' := by
  rw [getSqrtRatioAtTick_eq (natAbs_lt_of_range hlower (by omega))] at hr
  rw [getSqrtRatioAtTick_eq (natAbs_lt_of_range (by omega) hupper)] at hr'
  obtain rfl := Option.some.inj hr
  obtain rfl := Option.some.inj hr'
  unfold minTick at hlower
  unfold maxTick at hupper
  exact sqrtRatio_lt_of_lt (by omega) hlt (by omega)

end Order

/-! ## The ticks at which the price is right -/

section Ticks

variable {n : ℕ} {tick : ℤ}

theorem one_lt_tick : (1 : ℚ) < 10001 / 10000 := by norm_num

theorem lowRatio_eq : lowRatio = 18447669818844880896 / 18446744073709551618 := by
  rw [lowRatio, q64_cast, ratioBase]
  norm_num

theorem baseRatio_eq : baseRatio = 18447669818844880896 / 18446744073709551616 := by
  rw [baseRatio, q64_cast, ratioBase]
  norm_num

/-- Powers of ratios, compared by their products of numerators and denominators. -/
theorem div_pow_le {a b c d m p : ℕ} (hb : 0 < b) (hd : 0 < d)
    (h : a ^ m * d ^ p ≤ c ^ p * b ^ m) : ((a : ℚ) / b) ^ m ≤ (c / d) ^ p := by
  have hb' : (0 : ℚ) < b := Nat.cast_pos.mpr hb
  have hd' : (0 : ℚ) < d := Nat.cast_pos.mpr hd
  rw [div_pow, div_pow, div_le_div_iff₀ (pow_pos hb' _) (pow_pos hd' _)]
  exact_mod_cast h

theorem tick_le_sq_lowRatio : 10001 / 10000 ≤ lowRatio ^ 2 := by
  rw [lowRatio_eq]
  norm_num

theorem tick_le_sq_baseRatio : 10001 / 10000 ≤ baseRatio ^ 2 := by
  rw [baseRatio_eq]
  norm_num

/-- The powers of the lower base are not below the ticks. -/
theorem tick_pow_le : (10001 / 10000 : ℚ) ^ n ≤ (lowRatio ^ n) ^ 2 := by
  rw [← pow_mul, mul_comm, pow_mul]
  exact pow_le_pow_left₀ (by norm_num) tick_le_sq_lowRatio n

/-- **From 269 ticks on** the powers of the lower base are a tick ahead. -/
theorem tick_pow_succ_le (hn : 269 ≤ n) : (10001 / 10000 : ℚ) ^ (n + 1) ≤ (lowRatio ^ n) ^ 2 := by
  induction n, hn using Nat.le_induction with
  | base =>
    -- two integers of about 38000 bits are compared
    have hnat : 10001 ^ 270 * 18446744073709551618 ^ 538 ≤
        18447669818844880896 ^ 538 * 10000 ^ 270 := by decide +kernel
    have hle := div_pow_le (by decide) (by decide) hnat
    push_cast at hle
    rw [lowRatio_eq, ← pow_mul]
    exact hle
  | succ n hn ih =>
    calc (10001 / 10000 : ℚ) ^ (n + 1 + 1) = (10001 / 10000) ^ (n + 1) * (10001 / 10000) :=
          pow_succ _ _
      _ ≤ (lowRatio ^ n) ^ 2 * lowRatio ^ 2 :=
          mul_le_mul ih tick_le_sq_lowRatio (by norm_num) (sq_nonneg _)
      _ = (lowRatio ^ (n + 1)) ^ 2 := by
          rw [pow_succ lowRatio n, mul_pow]

/-- **Up to 268 ticks** the powers of the base are less than a tick ahead, by more than the rounding
of an inverse. -/
theorem baseRatio_pow_lt (hn : n ≤ 268) :
    (baseRatio ^ n) ^ 2 < (10001 / 10000) ^ (n + 1) * ((2 ^ 64 - 2) / 2 ^ 64) ^ 2 := by
  induction hn using Nat.decreasingInduction with
  | self =>
    have hbase := div_pow_le (a := 18447669818844880896) (b := 18446744073709551616)
      (c := 10272634) (d := 10000000) (m := 536) (p := 1) (by decide) (by decide)
      (by decide +kernel)
    have htick := div_pow_le (a := 10272636) (b := 10000000) (c := 10001) (d := 10000) (m := 1)
      (p := 269) (by decide) (by decide) (by decide +kernel)
    push_cast at hbase htick
    rw [baseRatio_eq, ← pow_mul]
    -- the two sides are apart by more than the rounding takes
    calc (18447669818844880896 / 18446744073709551616 : ℚ) ^ 536
        ≤ (10272634 / 10000000) ^ 1 := hbase
      _ < (10272636 / 10000000) ^ 1 * ((2 ^ 64 - 2) / 2 ^ 64) ^ 2 := by norm_num
      _ ≤ (10001 / 10000) ^ 269 * ((2 ^ 64 - 2) / 2 ^ 64) ^ 2 :=
        mul_le_mul_of_nonneg_right htick (sq_nonneg _)
  | of_succ n hn ih =>
    -- a step back takes at least a tick away
    have hsquare : 0 < (baseRatio ^ n) ^ 2 := by have := baseRatio_pos; positivity
    have hstep : (baseRatio ^ n) ^ 2 * (10001 / 10000) <
        (10001 / 10000) ^ (n + 1) * ((2 ^ 64 - 2) / 2 ^ 64) ^ 2 * (10001 / 10000) := by
      calc (baseRatio ^ n) ^ 2 * (10001 / 10000)
          ≤ (baseRatio ^ n) ^ 2 * baseRatio ^ 2 :=
            mul_le_mul_of_nonneg_left tick_le_sq_baseRatio hsquare.le
        _ = (baseRatio ^ (n + 1)) ^ 2 := by rw [pow_succ baseRatio n, mul_pow]
        _ < (10001 / 10000) ^ (n + 1 + 1) * ((2 ^ 64 - 2) / 2 ^ 64) ^ 2 := ih
        _ = (10001 / 10000) ^ (n + 1) * ((2 ^ 64 - 2) / 2 ^ 64) ^ 2 * (10001 / 10000) := by
            rw [pow_succ _ (n + 1)]
            ring
    exact lt_of_mul_lt_mul_right hstep (by norm_num)

theorem tickPrice_natCast : tickPrice n = (10001 / 10000) ^ n := zpow_natCast _ n

theorem tickPrice_neg_natCast : tickPrice (-n) = ((10001 / 10000) ^ n)⁻¹ := by
  rw [tickPrice, zpow_neg, zpow_natCast]

theorem tickPrice_lt {t tick : ℤ} : tickPrice t < tickPrice tick ↔ t < tick :=
  zpow_lt_zpow_iff_right₀ one_lt_tick

/-- The price at a tick as a ratio. -/
def priceRatio (tick : ℤ) : ℚ := sqrtRatio tick / 2 ^ 64

theorem lowRatio_pow_le (ht : n < 2 ^ 19) : lowRatio ^ n ≤ priceRatio n := by
  have h := le_ratioAt ht
  rw [priceRatio, sqrtRatio, if_neg (by omega), Int.natAbs_natCast, ← q64_cast,
    le_div_iff₀ q64_cast_pos, mul_comm]
  exact h

theorem priceRatio_le (ht : n < 2 ^ 19) : priceRatio n ≤ baseRatio ^ n := by
  have h := ratioAt_le ht
  rw [priceRatio, sqrtRatio, if_neg (by omega), Int.natAbs_natCast, ← q64_cast,
    div_le_iff₀ q64_cast_pos, mul_comm]
  exact h

theorem priceRatio_neg_le (hn : 0 < n) (ht : n < 2 ^ 19) :
    priceRatio (-n) ≤ (lowRatio ^ n)⁻¹ := by
  have hlow : 0 < lowRatio ^ n := zero_lt_one.trans_le one_le_lowRatio_pow
  have hratio : (0 : ℚ) < ratioAt n := Nat.cast_pos.mpr (q64_pos.trans_le q64_le_ratioAt)
  have hinverse : ((2 ^ 128 / ratioAt n : ℕ) : ℚ) ≤ 2 ^ 128 / ratioAt n := by
    have h := Nat.cast_div_le (α := ℚ) (m := 2 ^ 128) (n := ratioAt n)
    push_cast at h
    exact h
  rw [priceRatio, sqrtRatio, if_pos (by omega), Int.natAbs_neg, Int.natAbs_natCast,
    div_le_iff₀ (by norm_num)]
  refine hinverse.trans ?_
  rw [div_le_iff₀ hratio, mul_assoc, ← div_eq_inv_mul, le_div_iff₀ hlow]
  have h := le_ratioAt ht
  rw [q64_cast] at h
  nlinarith

/-- The inverse of a price that is not above two is rounded by at most two units of it. -/
theorem le_priceRatio_neg (hn : 0 < n) (ht : n < 2 ^ 19) (htwo : baseRatio ^ n ≤ 2) :
    (baseRatio ^ n)⁻¹ * ((2 ^ 64 - 2) / 2 ^ 64) ≤ priceRatio (-n) := by
  have hbase : 0 < baseRatio ^ n := pow_pos baseRatio_pos n
  have hratio : (0 : ℚ) < ratioAt n := Nat.cast_pos.mpr (q64_pos.trans_le q64_le_ratioAt)
  have hround : (2 : ℚ) ^ 128 / ratioAt n < (2 ^ 128 / ratioAt n : ℕ) + 1 := by
    have h : 2 ^ 128 < ratioAt n * (2 ^ 128 / ratioAt n + 1) :=
      Nat.lt_mul_div_succ _ (q64_pos.trans_le q64_le_ratioAt)
    rw [div_lt_iff₀ hratio, mul_comm _ (ratioAt n : ℚ)]
    exact_mod_cast h
  -- the inverse before the rounding
  have hexact : (baseRatio ^ n)⁻¹ * 2 ^ 64 ≤ 2 ^ 128 / ratioAt n := by
    have h := ratioAt_le ht
    rw [q64_cast] at h
    rw [le_div_iff₀ hratio, mul_assoc, ← div_eq_inv_mul, div_le_iff₀ hbase]
    nlinarith
  -- one unit is at most two units by a price up to two
  have hunit : 1 ≤ (baseRatio ^ n)⁻¹ * 2 := by
    rw [← div_eq_inv_mul, le_div_iff₀ hbase, one_mul]
    exact htwo
  rw [priceRatio, sqrtRatio, if_pos (by omega), Int.natAbs_neg, Int.natAbs_natCast,
    le_div_iff₀ (by norm_num), mul_assoc, div_mul_cancel₀ _ (by norm_num)]
  linarith

/-! ## The price at a tick and its neighbours -/

/-- A price that is at least one, up to 268 ticks. -/
theorem between_natCast (hn : n ≤ 268) :
    tickPrice (n - 1) < priceRatio n ^ 2 ∧ priceRatio n ^ 2 < tickPrice (n + 1) := by
  have hlow := lowRatio_pow_le (n := n) (by omega)
  have hhigh := priceRatio_le (n := n) (by omega)
  have hlow0 : 0 ≤ lowRatio ^ n := zero_le_one.trans one_le_lowRatio_pow
  constructor
  · calc tickPrice (n - 1) < tickPrice n := tickPrice_lt.mpr (sub_one_lt _)
      _ = (10001 / 10000) ^ n := tickPrice_natCast
      _ ≤ (lowRatio ^ n) ^ 2 := tick_pow_le
      _ ≤ priceRatio n ^ 2 := pow_le_pow_left₀ hlow0 hlow 2
  · have hround : ((2 ^ 64 - 2) / 2 ^ 64 : ℚ) ^ 2 ≤ 1 := by norm_num
    calc priceRatio n ^ 2 ≤ (baseRatio ^ n) ^ 2 := pow_le_pow_left₀ (hlow0.trans hlow) hhigh 2
      _ < (10001 / 10000) ^ (n + 1) * ((2 ^ 64 - 2) / 2 ^ 64) ^ 2 := baseRatio_pow_lt hn
      _ ≤ (10001 / 10000) ^ (n + 1) := mul_le_of_le_one_right (by positivity) hround
      _ = tickPrice (n + 1) := (tickPrice_natCast (n := n + 1)).symm

/-- The inverse of such a price. -/
theorem between_neg_natCast (hpos : 0 < n) (hn : n ≤ 268) :
    tickPrice (-n - 1) < priceRatio (-n) ^ 2 ∧ priceRatio (-n) ^ 2 < tickPrice (-n + 1) := by
  have hbase : 0 < baseRatio ^ n := pow_pos baseRatio_pos n
  have hlow : 0 < lowRatio ^ n := zero_lt_one.trans_le one_le_lowRatio_pow
  have hahead := baseRatio_pow_lt hn
  have htwo : baseRatio ^ n ≤ 2 := by
    have hpow : (10001 / 10000 : ℚ) ^ (n + 1) ≤ (10001 / 10000) ^ 269 :=
      pow_le_pow_right₀ one_lt_tick.le (by omega)
    have hlast := div_pow_le (a := 10001) (b := 10000) (c := 2) (d := 1) (m := 269) (p := 1)
      (by decide) (by decide) (by decide +kernel)
    push_cast at hlast
    have hround : ((2 ^ 64 - 2) / 2 ^ 64 : ℚ) ^ 2 ≤ 1 := by norm_num
    have hsquare : (baseRatio ^ n) ^ 2 < 2 := by
      calc (baseRatio ^ n) ^ 2 < (10001 / 10000) ^ (n + 1) * ((2 ^ 64 - 2) / 2 ^ 64) ^ 2 := hahead
        _ ≤ (10001 / 10000) ^ (n + 1) := mul_le_of_le_one_right (by positivity) hround
        _ ≤ (2 / 1) ^ 1 := hpow.trans hlast
        _ = 2 := by norm_num
    nlinarith
  have hhigh := le_priceRatio_neg hpos (by omega) htwo
  have hfactor : (0 : ℚ) < (2 ^ 64 - 2) / 2 ^ 64 := by norm_num
  constructor
  · have htick : (0 : ℚ) < (10001 / 10000) ^ (n + 1) := by positivity
    calc tickPrice (-n - 1) = ((10001 / 10000) ^ (n + 1))⁻¹ := by
          rw [← tickPrice_neg_natCast, Nat.cast_succ, neg_add']
      _ < ((baseRatio ^ n)⁻¹ * ((2 ^ 64 - 2) / 2 ^ 64)) ^ 2 := by
          rw [inv_lt_iff_one_lt_mul₀ htick, mul_pow, inv_pow, mul_assoc, ← div_eq_inv_mul,
            one_lt_div (pow_pos hbase 2), mul_comm]
          exact hahead
      _ ≤ priceRatio (-n) ^ 2 :=
          pow_le_pow_left₀ (mul_nonneg (inv_nonneg.mpr hbase.le) hfactor.le) hhigh 2
  · have hprice : 0 ≤ priceRatio (-n) :=
      (mul_nonneg (inv_nonneg.mpr hbase.le) hfactor.le).trans hhigh
    calc priceRatio (-n) ^ 2 ≤ ((lowRatio ^ n)⁻¹) ^ 2 :=
          pow_le_pow_left₀ hprice (priceRatio_neg_le hpos (by omega)) 2
      _ = ((lowRatio ^ n) ^ 2)⁻¹ := inv_pow _ 2
      _ ≤ ((10001 / 10000) ^ n)⁻¹ := inv_anti₀ (by positivity) tick_pow_le
      _ = tickPrice (-n) := tickPrice_neg_natCast.symm
      _ < tickPrice (-n + 1) := tickPrice_lt.mpr (lt_add_one _)

/-- From 269 ticks on a price is a tick ahead. -/
theorem tickPrice_succ_le (hn : 269 ≤ n) (ht : n < 2 ^ 19) :
    tickPrice (n + 1) ≤ priceRatio n ^ 2 := by
  calc tickPrice (n + 1) = (10001 / 10000) ^ (n + 1) := tickPrice_natCast (n := n + 1)
    _ ≤ (lowRatio ^ n) ^ 2 := tick_pow_succ_le hn
    _ ≤ priceRatio n ^ 2 :=
      pow_le_pow_left₀ (zero_le_one.trans one_le_lowRatio_pow) (lowRatio_pow_le ht) 2

theorem le_tickPrice_neg (hn : 269 ≤ n) (ht : n < 2 ^ 19) :
    priceRatio (-n) ^ 2 ≤ tickPrice (-n - 1) := by
  have hprice : 0 ≤ priceRatio (-n) := div_nonneg (Nat.cast_nonneg _) (by norm_num)
  calc priceRatio (-n) ^ 2 ≤ ((lowRatio ^ n)⁻¹) ^ 2 :=
        pow_le_pow_left₀ hprice (priceRatio_neg_le (by omega) ht) 2
    _ = ((lowRatio ^ n) ^ 2)⁻¹ := inv_pow _ 2
    _ ≤ ((10001 / 10000) ^ (n + 1))⁻¹ := inv_anti₀ (by positivity) (tick_pow_succ_le hn)
    _ = tickPrice (-n - 1) := by rw [← tickPrice_neg_natCast, Nat.cast_succ, neg_add']

/-- **The ticks at which the price is right**: those up to 268 on both sides of zero. -/
theorem tickSound_iff (hlower : minTick ≤ tick) (hupper : tick ≤ maxTick) :
    TickSound tick ↔ |tick| ≤ 268 := by
  have hrange : tick.natAbs < 2 ^ 19 := natAbs_lt_of_range hlower hupper
  have hprice := getSqrtRatioAtTick_eq hrange
  constructor
  · rintro ⟨⟨r, hr, hbelow, habove⟩, -⟩
    obtain rfl : sqrtRatio tick = r := Option.some.inj (hprice.symm.trans hr)
    by_contra hfar
    rcases le_or_gt 0 tick with hnonneg | hneg
    · obtain ⟨n, rfl⟩ := Int.eq_ofNat_of_zero_le hnonneg
      rw [Nat.abs_cast] at hfar
      exact habove.not_ge (tickPrice_succ_le (by omega) (by omega))
    · obtain ⟨n, rfl⟩ : ∃ n : ℕ, tick = -n := ⟨tick.natAbs, by omega⟩
      rw [abs_neg, Nat.abs_cast] at hfar
      exact hbelow.not_ge (le_tickPrice_neg (by omega) (by omega))
  · intro hnear
    refine ⟨⟨sqrtRatio tick, hprice, ?_⟩, fun t hmin hlt r r' =>
      getSqrtRatioAtTick_lt hmin hlt hupper⟩
    rcases le_or_gt 0 tick with hnonneg | hneg
    · obtain ⟨n, rfl⟩ := Int.eq_ofNat_of_zero_le hnonneg
      rw [Nat.abs_cast] at hnear
      exact between_natCast (by omega)
    · obtain ⟨n, rfl⟩ : ∃ n : ℕ, tick = -n := ⟨tick.natAbs, by omega⟩
      rw [abs_neg, Nat.abs_cast] at hnear
      exact between_neg_natCast (by omega) (by omega)

/-- A tick of the default spacing. -/
theorem tickSound_iff_sixty : TickSound 60 ↔ |(60 : ℤ)| ≤ 268 :=
  tickSound_iff (by decide) (by decide)

/-- The price at the tick 269 is not below the price that the next tick stands for. -/
theorem price_ahead :
    getSqrtRatioAtTick 269 = some 18697451655070165250 ∧
      ¬((18697451655070165250 : ℕ) / 2 ^ 64 : ℚ) ^ 2 < tickPrice (269 + 1) := by
  refine ⟨by decide +kernel, not_lt.mpr ?_⟩
  have hle := div_pow_le (a := 10001) (b := 10000) (c := 18697451655070165250)
    (d := 18446744073709551616) (m := 270) (p := 2) (by decide) (by decide) (by decide +kernel)
  calc tickPrice (269 + 1) = (10001 / 10000) ^ 270 := tickPrice_natCast (n := 270)
    _ ≤ (18697451655070165250 / 18446744073709551616) ^ 2 := by exact_mod_cast hle
    _ = ((18697451655070165250 : ℕ) / 2 ^ 64 : ℚ) ^ 2 := by norm_num

end Ticks

end ConcentratedAmm
