import SkyMoonScope.Math.Fixed

/-!
# The product divided, step by step

`mul_div` multiplies absolute values as `u128`, in halves where the product does not fit, and
divides the two words bit by bit. Here every operator on the way is checked: a sum or a product that
is no `u128`, a remainder that loses a bit when it is shifted, and the negation of the result. None
of the checks fails, as no absolute value of an `i128` is above `2 ^ 127`.

## Main definitions

* `mulDivU128Checked`, `mulDivChecked`: the functions with every operator checked

## Main results

* `mulDivChecked_eq`: no check fails
* `mulDiv_exact`: the quotient is exact for all values
-/

namespace Math

/-- An operator on `u128` values, which panics on overflow. -/
def u128 (x : ℕ) : Option ℕ := if x < 2 ^ 128 then some x else none

/-- `mul_div_u128` with every operator checked. The upper half of `mid` is part of the high word,
so that `low` may drop it. -/
def mulDivU128Checked (a b d : ℕ) : Option (ℕ × Bool) :=
  if a * b < 2 ^ 128 then some (a * b / d, false)
  else do
    let aLow := a &&& 0xFFFFFFFFFFFFFFFF
    let aHigh := a >>> 64
    let bLow := b &&& 0xFFFFFFFFFFFFFFFF
    let bHigh := b >>> 64
    let p0 ← u128 (aLow * bLow)
    let p1 ← u128 (aLow * bHigh)
    let p2 ← u128 (aHigh * bLow)
    let p3 ← u128 (aHigh * bHigh)
    let sum ← u128 ((p1 &&& 0xFFFFFFFFFFFFFFFF) + (p2 &&& 0xFFFFFFFFFFFFFFFF))
    let mid ← u128 (sum + p0 >>> 64)
    let high ← u128 (p3 + p1 >>> 64)
    let high ← u128 (high + p2 >>> 64)
    let high ← u128 (high + mid >>> 64)
    let low := (mid <<< 64) % 2 ^ 128 ||| (p0 &&& 0xFFFFFFFFFFFFFFFF)
    if high ≥ d then some (0, true)
    else do
      let quotient ← LongDivision.divLoopChecked 128 low d 128 high 0
      some (quotient, false)

/-- `mul_div` with every operator checked. -/
def mulDivChecked (a b d : ℤ) : Option (Option ℤ) :=
  if d = 0 then some none
  else do
    let (resAbs, overflow) ← mulDivU128Checked a.natAbs b.natAbs d.natAbs
    if overflow ∨ resAbs > 2 ^ 127 - 1 then some none
    else if xor (xor (a < 0) (b < 0)) (d < 0) then do
      let res ← IntType.i128.checked (-resAbs)
      some (some res)
    else some (some resAbs)

section Words

variable {a b d x y : ℕ}

theorem u128_eq (h : x < 2 ^ 128) : u128 x = some x := if_pos h

/-- The product of two halves fits. -/
theorem half_mul_half_lt (hx : x < 2 ^ 64) (hy : y < 2 ^ 64) : x * y < 2 ^ 128 := by
  calc x * y < 2 ^ 64 * 2 ^ 64 := Nat.mul_lt_mul'' hx hy
    _ = 2 ^ 128 := by norm_num

theorem low_half_lt (x : ℕ) : x &&& 0xFFFFFFFFFFFFFFFF < 2 ^ 64 :=
  Nat.and_lt_two_pow x (by decide)

theorem high_half_lt (hx : x < 2 ^ 128) : x >>> 64 < 2 ^ 64 := by
  rw [Nat.shiftRight_eq_div_pow]
  omega

/-- **No operator overflows and no round loses a bit.** -/
theorem mulDivU128Checked_eq (ha : a ≤ 2 ^ 127) (hb : b ≤ 2 ^ 127) (hd : d ≤ 2 ^ 127) :
    mulDivU128Checked a b d = some (mulDivU128 a b d) := by
  unfold mulDivU128Checked mulDivU128
  split
  · rfl
  have haHigh : a >>> 64 < 2 ^ 64 := high_half_lt (by omega)
  have hbHigh : b >>> 64 < 2 ^ 64 := high_half_lt (by omega)
  have h0 := half_mul_half_lt (low_half_lt a) (low_half_lt b)
  have h1 := half_mul_half_lt (low_half_lt a) hbHigh
  have h2 := half_mul_half_lt haHigh (low_half_lt b)
  have h3 := half_mul_half_lt haHigh hbHigh
  have hlow1 := low_half_lt ((a &&& 0xFFFFFFFFFFFFFFFF) * b >>> 64)
  have hlow2 := low_half_lt (a >>> 64 * (b &&& 0xFFFFFFFFFFFFFFFF))
  have hhigh0 := high_half_lt h0
  -- the high word is at most the product by the weight of its lowest bit
  have hproduct : a * b ≤ 2 ^ 127 * 2 ^ 127 := Nat.mul_le_mul ha hb
  have hhigh : (a >>> 64 * b >>> 64) + ((a &&& 0xFFFFFFFFFFFFFFFF) * b >>> 64) >>> 64 +
      (a >>> 64 * (b &&& 0xFFFFFFFFFFFFFFFF)) >>> 64 +
      (((a &&& 0xFFFFFFFFFFFFFFFF) * b >>> 64 &&& 0xFFFFFFFFFFFFFFFF) +
        (a >>> 64 * (b &&& 0xFFFFFFFFFFFFFFFF) &&& 0xFFFFFFFFFFFFFFFF) +
        ((a &&& 0xFFFFFFFFFFFFFFFF) * (b &&& 0xFFFFFFFFFFFFFFFF)) >>> 64) >>> 64 < 2 ^ 128 := by
    obtain ⟨hwords, -⟩ := LongDivision.words_of_mul a b 64
    simp only [Nat.reducePow, Nat.reduceSub, Nat.reduceMul] at hwords hproduct ⊢
    omega
  dsimp only
  -- the products of the halves fit, and then the sums, of which only the last needs the bound
  simp only [u128_eq h0, u128_eq h1, u128_eq h2, u128_eq h3, Option.bind_eq_bind,
    Option.bind_some]
  generalize (a &&& 0xFFFFFFFFFFFFFFFF) * (b &&& 0xFFFFFFFFFFFFFFFF) = p0 at *
  generalize (a &&& 0xFFFFFFFFFFFFFFFF) * b >>> 64 = p1 at *
  generalize a >>> 64 * (b &&& 0xFFFFFFFFFFFFFFFF) = p2 at *
  generalize a >>> 64 * b >>> 64 = p3 at *
  rw [u128_eq (by omega), Option.bind_some, u128_eq (by omega), Option.bind_some,
    u128_eq (by omega), Option.bind_some, u128_eq (by omega), Option.bind_some,
    u128_eq hhigh, Option.bind_some]
  split
  · rfl
  · rw [LongDivision.divLoopChecked_eq (by omega) (by omega), Option.bind_some]

end Words

section Exact

variable {a b d : ℤ}

theorem natAbs_le_of_fits {x : ℤ} (hx : IntType.i128.Fits x) : x.natAbs ≤ 2 ^ 127 := by
  obtain ⟨hlo, hhi⟩ : -2 ^ 127 ≤ x ∧ x ≤ 2 ^ 127 - 1 := hx
  omega

/-- **No check fails**, and the result is that of `mul_div`. -/
theorem mulDivChecked_eq (ha : IntType.i128.Fits a) (hb : IntType.i128.Fits b)
    (hd : IntType.i128.Fits d) : mulDivChecked a b d = some (mulDiv a b d) := by
  unfold mulDivChecked mulDiv
  split
  · rfl
  rw [mulDivU128Checked_eq (natAbs_le_of_fits ha) (natAbs_le_of_fits hb) (natAbs_le_of_fits hd)]
  generalize mulDivU128 a.natAbs b.natAbs d.natAbs = result
  obtain ⟨resAbs, overflow⟩ := result
  rw [Option.bind_eq_bind, Option.bind_some]
  dsimp only
  split
  · rfl
  next hfits =>
    -- the negation of a result that fits does too
    have hneg : IntType.i128.checked (-resAbs) = some (-(resAbs : ℤ)) := by
      rw [IntType.checked_eq_some]
      refine ⟨?_, rfl⟩
      show -2 ^ 127 ≤ -(resAbs : ℤ) ∧ -(resAbs : ℤ) ≤ 2 ^ 127 - 1
      omega
    rw [hneg]
    split <;> rfl

/-- **The quotient is exact.** For all values of the type, `mul_div` returns the product divided
and truncated toward zero where its absolute value fits, and nothing otherwise, and no operator on
the way overflows or loses a bit. -/
theorem mulDiv_exact (ha : IntType.i128.Fits a) (hb : IntType.i128.Fits b)
    (hd : IntType.i128.Fits d) (hd0 : d ≠ 0) :
    mulDivChecked a b d = some (mulDiv a b d) ∧
      mulDiv a b d =
        if |(a * b).tdiv d| ≤ IntType.i128.hi then some ((a * b).tdiv d) else none := by
  have habs : |d| ≤ 2 ^ 127 := by
    have := natAbs_le_of_fits hd
    rw [Int.abs_eq_natAbs]
    exact_mod_cast this
  exact ⟨mulDivChecked_eq ha hb hd, mulDiv_eq hd0 habs⟩

/-- The least value of the type, squared and divided by its negation, which does not fit. -/
theorem mulDiv_exact_least :
    mulDivChecked (-2 ^ 127) (-2 ^ 127) (-2 ^ 127 + 1) =
        some (mulDiv (-2 ^ 127) (-2 ^ 127) (-2 ^ 127 + 1)) ∧
      mulDiv (-2 ^ 127) (-2 ^ 127) (-2 ^ 127 + 1) =
        if |(-2 ^ 127 * -2 ^ 127 : ℤ).tdiv (-2 ^ 127 + 1)| ≤ IntType.i128.hi then
          some ((-2 ^ 127 * -2 ^ 127 : ℤ).tdiv (-2 ^ 127 + 1)) else none :=
  mulDiv_exact (by decide) (by decide) (by decide) (by decide)

end Exact

end Math
