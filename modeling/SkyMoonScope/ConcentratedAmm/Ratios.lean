import SkyMoonScope.ConcentratedAmm.Math
import SkyMoonScope.Lib.LongDivision

/-!
# The prices at the ticks

The price at a tick is a power of the ratio of one tick, put together from the squarings for the
bits of the tick. Every product is rounded down. A tick and its successor differ in the lowest bit
that is not set and in the set bits below it. So up to that bit the one has the product of all
bases so far and the other just the next base, and from there on they have the same factors. The
next base is greater by almost a tick, and the rounding of the few factors left does not close a gap
of that size.

## Main definitions

* `baseAt i`: the base for the bit `i`
* `ratioBelow i`: the product of the bases below it
* `Apart n x y`: a gap that is left after `n` more products
* `sqrtRatio tick`: the price at a tick of less than 19 bits

## Main results

* `mulDivU128_eq`: the quotient is exact
* `getSqrtRatioAtTick_eq`: the price at a tick of less than 19 bits
* `sqrtRatio_lt`: the price at the next tick is greater
-/

namespace ConcentratedAmm

/-! ## The quotient -/

theorem divLoop_eq {low d n r q : ℕ} :
    divLoop low d n r q = LongDivision.divLoop 128 low d n r q := by
  induction n generalizing r q with
  | zero => rfl
  | succ i ih =>
    simp only [divLoop, LongDivision.divLoop, ih]

/-- **The quotient is exact**, and has no value just when it is no `u128`. -/
theorem mulDivU128_eq {a b d : ℕ} (hd : 0 < d) (hd' : d ≤ 2 ^ 127) :
    mulDivU128 a b d = if a * b / d < 2 ^ 128 then some (a * b / d) else none := by
  unfold mulDivU128
  rw [if_neg hd.ne']
  split
  next hprod => rw [if_pos ((Nat.div_le_self _ _).trans_lt hprod)]
  next hprod =>
    obtain ⟨hwords, hlow⟩ := LongDivision.words_of_mul a b 64
    simp only [divLoop_eq]
    exact LongDivision.div_words some none hwords hlow hd (by omega)

theorem pos_of_mulDivU128 {a b d q : ℕ} (h : mulDivU128 a b d = some q) : 0 < d := by
  by_contra hzero
  rw [mulDivU128, if_pos (Nat.eq_zero_of_not_pos hzero)] at h
  cases h

/-- A quotient is rounded down. -/
theorem mul_le_of_mulDivU128 {a b d q : ℕ} (hd : d ≤ 2 ^ 127) (h : mulDivU128 a b d = some q) :
    q * d ≤ a * b := by
  rw [mulDivU128_eq (pos_of_mulDivU128 h) hd] at h
  split at h
  · obtain rfl := Option.some.inj h
    exact Nat.div_mul_le_self _ _
  · cases h

/-! ## Products of prices -/

/-- The product of two values in Q64. -/
def scaled (x y : ℕ) : ℕ := x * y / q64

section Scaled

variable {x y b n : ℕ}

theorem q64_pos : 0 < q64 := by decide

theorem le_scaled (hb : q64 ≤ b) : x ≤ scaled x b :=
  (Nat.le_div_iff_mul_le q64_pos).mpr (Nat.mul_le_mul_left x hb)

theorem scaled_mono {x' b' : ℕ} (hx : x ≤ x') (hb : b ≤ b') : scaled x b ≤ scaled x' b' :=
  Nat.div_le_div_right (Nat.mul_le_mul hx hb)

@[simp] theorem scaled_one : scaled q64 b = b := by
  rw [scaled, Nat.mul_div_cancel_left b q64_pos]

theorem mulDivU128_q64 (h : scaled x y < 2 ^ 128) : mulDivU128 x y q64 = some (scaled x y) := by
  rw [mulDivU128_eq q64_pos (by decide)]
  exact if_pos h

/-- Two values with a gap of more than half a tick, and with room for the rounding of `n` more
products. -/
def Apart (n x y : ℕ) : Prop := (2 ^ 15 + 1) * x + n * 2 ^ 15 ≤ 2 ^ 15 * y

instance : Decidable (Apart n x y) := inferInstanceAs (Decidable (_ ≤ _))

theorem Apart.weaken {m : ℕ} (h : Apart n x y) (hm : m ≤ n) : Apart m x y := by
  unfold Apart at h ⊢
  exact (Nat.add_le_add_left (Nat.mul_le_mul_right _ hm) _).trans h

/-- **A product keeps the gap**, as its factor is not less than one. -/
theorem Apart.scaled (h : Apart (n + 1) x y) (hb : q64 ≤ b) :
    Apart n (scaled x b) (scaled y b) := by
  unfold Apart at h ⊢
  have hx : ConcentratedAmm.scaled x b * q64 ≤ x * b := Nat.div_mul_le_self _ _
  have hy : y * b < (ConcentratedAmm.scaled y b + 1) * q64 := by
    rw [mul_comm (_ + 1)]
    exact Nat.lt_mul_div_succ _ q64_pos
  generalize ConcentratedAmm.scaled x b = x' at hx ⊢
  generalize ConcentratedAmm.scaled y b = y' at hy ⊢
  -- the gap times the factor, of which the rounding takes at most one unit
  have hgap : ((2 ^ 15 + 1) * x' + (n + 1) * 2 ^ 15) * q64 < (2 ^ 15 * (y' + 1)) * q64 := by
    calc ((2 ^ 15 + 1) * x' + (n + 1) * 2 ^ 15) * q64
        = (2 ^ 15 + 1) * (x' * q64) + (n + 1) * 2 ^ 15 * q64 := by ring
      _ ≤ (2 ^ 15 + 1) * (x * b) + (n + 1) * 2 ^ 15 * b :=
        Nat.add_le_add (Nat.mul_le_mul_left _ hx) (Nat.mul_le_mul_left _ hb)
      _ = ((2 ^ 15 + 1) * x + (n + 1) * 2 ^ 15) * b := by ring
      _ ≤ (2 ^ 15 * y) * b := Nat.mul_le_mul_right _ h
      _ = 2 ^ 15 * (y * b) := by ring
      _ < 2 ^ 15 * ((y' + 1) * q64) := Nat.mul_lt_mul_of_pos_left hy (by decide)
      _ = (2 ^ 15 * (y' + 1)) * q64 := by ring
  have hlt := Nat.lt_of_mul_lt_mul_right hgap
  linarith

end Scaled

/-! ## The bases -/

/-- The base for the bit `i`, by repeated squaring. -/
def baseAt : ℕ → ℕ
  | 0 => ratioBase
  | i + 1 => scaled (baseAt i) (baseAt i)

/-- The product of the bases for the bits below `i`. -/
def ratioBelow : ℕ → ℕ
  | 0 => q64
  | i + 1 => scaled (ratioBelow i) (baseAt i)

section Bases

variable {i j : ℕ}

theorem q64_le_baseAt : q64 ≤ baseAt i := by
  induction i with
  | zero => decide
  | succ i ih => exact ih.trans (le_scaled ih)

theorem baseAt_mono (h : i ≤ j) : baseAt i ≤ baseAt j := by
  induction h with
  | refl => exact le_rfl
  | step _ ih => exact ih.trans (le_scaled q64_le_baseAt)

/-- The bases for the bits of the ticks in the range, and the next one, are less than half of the
type. -/
theorem baseAt_lt (h : i ≤ 19) : baseAt i < 2 ^ 103 :=
  (baseAt_mono h).trans_lt (by decide +kernel)

/-- A base is greater than the product of all the bases below it by almost a tick. -/
theorem apart_baseAt : ∀ i < 19, Apart 19 (ratioBelow i) (baseAt i) := by decide +kernel

end Bases

/-! ## The rounds -/

/-- The rounds from the bit `i` on, for `k` bits. -/
def ratioFrom : ℕ → ℕ → ℕ → ℕ → ℕ
  | _, 0, _, ratio => ratio
  | i, k + 1, t, ratio =>
    ratioFrom (i + 1) k (t / 2) (if t % 2 = 1 then scaled ratio (baseAt i) else ratio)

section Rounds

variable {i k rounds t x y ratio : ℕ}

/-- A ratio that is not greater than the base is not greater than the next one after the round. -/
theorem round_le_baseAt (h : ratio ≤ baseAt i) :
    (if t % 2 = 1 then scaled ratio (baseAt i) else ratio) ≤ baseAt (i + 1) := by
  split
  · exact scaled_mono h le_rfl
  · exact h.trans (baseAt_mono (Nat.le_succ i))

theorem ratioFrom_le (h : ratio ≤ baseAt i) : ratioFrom i k t ratio ≤ baseAt (i + k) := by
  induction k generalizing i t ratio with
  | zero => exact h
  | succ k ih =>
    have hnext := ih (t := t / 2) (round_le_baseAt (t := t) h)
    rw [show i + (k + 1) = i + 1 + k by ring]
    exact hnext

theorem le_ratioFrom : ratio ≤ ratioFrom i k t ratio := by
  induction k generalizing i t ratio with
  | zero => exact le_rfl
  | succ k ih =>
    refine le_trans ?_ ih
    split
    · exact le_scaled q64_le_baseAt
    · exact le_rfl

theorem ratioFrom_zero : ratioFrom i k 0 ratio = ratio := by
  induction k generalizing i with
  | zero => rfl
  | succ k ih => exact ih

/-- **The rounds** have a value for less than 19 bits. -/
theorem ratioLoop_eq (ht : t < 2 ^ k) (hk : k ≤ rounds) (hi : i + k ≤ 19)
    (hratio : ratio ≤ baseAt i) :
    ratioLoop rounds t ratio (baseAt i) = some (ratioFrom i k t ratio) := by
  induction k generalizing i t ratio rounds with
  | zero =>
    obtain rfl : t = 0 := by omega
    cases rounds <;> rfl
  | succ k ih =>
    obtain ⟨rounds, rfl⟩ := Nat.exists_eq_add_of_le' (Nat.one_le_of_lt hk)
    by_cases hzero : t = 0
    · subst hzero
      rw [ratioLoop, if_pos rfl, ratioFrom_zero]
    rw [ratioLoop, if_neg hzero, Nat.and_one_is_mod, Nat.shiftRight_eq_div_pow, pow_one]
    -- neither the product nor the next base leaves the type
    have hfits : ∀ v, v ≤ baseAt i → mulDivU128 v (baseAt i) q64 = some (scaled v (baseAt i)) := by
      intro v hv
      apply mulDivU128_q64
      calc scaled v (baseAt i) ≤ baseAt (i + 1) := scaled_mono hv le_rfl
        _ < 2 ^ 103 := baseAt_lt (by omega)
        _ < 2 ^ 128 := by decide
    simp only [hfits ratio hratio, hfits _ le_rfl, Option.bind_eq_bind, Option.bind_some]
    rw [ratioFrom]
    have hnext := round_le_baseAt (t := t) hratio
    split at hnext
    next hbit =>
      rw [if_pos hbit, if_pos hbit]
      exact ih (i := i + 1) (by omega) (by omega) (by omega) hnext
    next hbit =>
      rw [if_neg hbit, if_neg hbit]
      exact ih (i := i + 1) (by omega) (by omega) (by omega) hnext

/-- The same rounds keep a gap. -/
theorem Apart.ratioFrom (h : Apart k x y) :
    Apart 0 (ratioFrom i k t x) (ratioFrom i k t y) := by
  induction k generalizing i t x y with
  | zero => exact h
  | succ k ih =>
    apply ih
    split
    · exact h.scaled q64_le_baseAt
    · exact h.weaken (Nat.le_succ k)

/-- **A tick and its successor.** The induction is on the bits that are set in the one from the
lowest on, which are not set in the other. -/
theorem apart_succ (ht : t + 1 < 2 ^ k) (hi : i + k ≤ 19) :
    Apart 0 (ratioFrom i k t (ratioBelow i)) (ratioFrom i k (t + 1) q64) := by
  induction k generalizing i t with
  | zero => omega
  | succ k ih =>
    simp only [ConcentratedAmm.ratioFrom]
    rcases Nat.mod_two_eq_zero_or_one t with heven | hodd
    · -- the bit that differs; the other ones are the same
      have hsucc : (t + 1) % 2 = 1 := by omega
      have hrest : (t + 1) / 2 = t / 2 := by omega
      rw [if_neg (by omega), if_pos hsucc, hrest, scaled_one]
      exact ((apart_baseAt i (by omega)).weaken (by omega)).ratioFrom
    · have hsucc : (t + 1) % 2 ≠ 1 := by omega
      have hrest : (t + 1) / 2 = t / 2 + 1 := by omega
      rw [if_pos hodd, if_neg hsucc, hrest]
      exact ih (by omega) (by omega)

end Rounds

/-! ## The price at a tick -/

/-- The price at a tick that is not negative. -/
def ratioAt (t : ℕ) : ℕ := ratioFrom 0 19 t q64

/-- The price at a tick. -/
def sqrtRatio (tick : ℤ) : ℕ :=
  if tick < 0 then 2 ^ 128 / ratioAt tick.natAbs else ratioAt tick.natAbs

section Price

variable {t : ℕ} {tick : ℤ}

theorem q64_le_ratioAt : q64 ≤ ratioAt t := le_ratioFrom

theorem ratioAt_lt : ratioAt t < 2 ^ 103 :=
  (ratioFrom_le (by decide)).trans_lt (baseAt_lt le_rfl)

theorem apart_ratioAt (ht : t + 1 < 2 ^ 19) : Apart 0 (ratioAt t) (ratioAt (t + 1)) :=
  apart_succ (i := 0) ht le_rfl

/-- **The price at a tick** of less than 19 bits. -/
theorem getSqrtRatioAtTick_eq (h : tick.natAbs < 2 ^ 19) :
    getSqrtRatioAtTick tick = some (sqrtRatio tick) := by
  have hloop : ratioLoop 32 tick.natAbs q64 ratioBase = some (ratioAt tick.natAbs) :=
    ratioLoop_eq (i := 0) h (by decide) le_rfl (by decide)
  rw [getSqrtRatioAtTick, hloop]
  simp only [Option.bind_eq_bind, Option.bind_some, sqrtRatio]
  split
  · -- the inverse of a price that is at least one
    have hpos : 0 < ratioAt tick.natAbs := q64_pos.trans_le q64_le_ratioAt
    have hle : q64 * q64 / ratioAt tick.natAbs ≤ q64 :=
      Nat.div_le_of_le_mul (Nat.mul_le_mul_right _ q64_le_ratioAt)
    rw [mulDivU128_eq hpos (ratioAt_lt.le.trans (by decide)),
      if_pos (hle.trans_lt (by decide))]
    rfl
  · rfl

/-- The inverses of two prices with a gap. -/
theorem inverse_lt {x y : ℕ} (h : Apart 0 x y) (hx : 0 < x) (hx' : x < 2 ^ 103) :
    2 ^ 128 / y < 2 ^ 128 / x := by
  unfold Apart at h
  have hy : 0 < y := by omega
  have hquotient : 2 ^ 128 / y * y ≤ 2 ^ 128 := Nat.div_mul_le_self _ _
  generalize 2 ^ 128 / y = q at hquotient ⊢
  -- one more than the quotient by `y` still goes into the product with `x`
  apply (Nat.le_div_iff_mul_le hx).mpr
  have hgap : (2 ^ 15 + 1) * (q * x) ≤ 2 ^ 15 * 2 ^ 128 := by
    calc (2 ^ 15 + 1) * (q * x) = q * ((2 ^ 15 + 1) * x + 0 * 2 ^ 15) := by ring
      _ ≤ q * (2 ^ 15 * y) := Nat.mul_le_mul_left _ h
      _ = 2 ^ 15 * (q * y) := by ring
      _ ≤ 2 ^ 15 * 2 ^ 128 := Nat.mul_le_mul_left _ hquotient
  have hsucc : q.succ * x = q * x + x := Nat.succ_mul q x
  omega

/-- **The price at the next tick is greater.** -/
theorem sqrtRatio_lt (hlower : -2 ^ 19 < tick) (hupper : tick + 1 < 2 ^ 19) :
    sqrtRatio tick < sqrtRatio (tick + 1) := by
  unfold sqrtRatio
  rcases lt_or_ge tick 0 with hneg | hnonneg
  · -- the absolute value of the next tick is less
    obtain ⟨t, rfl⟩ : ∃ t : ℕ, tick = -(t + 1) := ⟨(-tick - 1).toNat, by omega⟩
    have hapart : Apart 0 (ratioAt t) (ratioAt (t + 1)) := apart_ratioAt (by omega)
    have hlt := inverse_lt hapart (q64_pos.trans_le q64_le_ratioAt) ratioAt_lt
    rw [if_pos hneg, show (-((t : ℤ) + 1)).natAbs = t + 1 by omega,
      show (-((t : ℤ) + 1) + 1).natAbs = t by omega]
    split
    · exact hlt
    · -- the price at the tick zero is its own inverse
      obtain rfl : t = 0 := by omega
      exact hlt
  · rw [if_neg (by omega), if_neg (by omega), show (tick + 1).natAbs = tick.natAbs + 1 by omega]
    have hapart : Apart 0 (ratioAt tick.natAbs) (ratioAt (tick.natAbs + 1)) :=
      apart_ratioAt (by omega)
    have hpos : 0 < ratioAt tick.natAbs := q64_pos.trans_le q64_le_ratioAt
    unfold Apart at hapart
    omega

end Price

end ConcentratedAmm
