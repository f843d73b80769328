import SkyMoonScope.ConcentratedAmm.Ratios
import SkyMoonScope.Math.MulDiv
import SkyMoonScope.Soroban.Contract

/-!
# The product divided, for all values

`mul_div_u128` of `contracts/concentrated_amm/src/math.rs` with every operator checked and with its
errors. No sum and no product on the way overflows. But the remainder is shifted with `<<`, which
drops the highest bit of the value without a panic. A remainder is less than the divisor, and so it
has that bit only where the divisor is above `2 ^ 127`. A round that drops the bit leaves out a bit
of the quotient.

## Main definitions

* `mulDivU128Checked`: the function with every operator checked
* `KeepsBits a b d`: no remainder of the long division has the highest bit

## Main results

* `mulDivU128Checked_eq`: no operator on the way traps
* `mulDivU128_exact_iff`: the quotient is exact just when no shift drops a bit
* `keepsBits_of_le`: none does for a divisor up to `2 ^ 127`
-/

open Soroban

namespace ConcentratedAmm

inductive MathError
  | overflow
  | divisionByZero
  | invalidPrice
deriving DecidableEq

/-- An operator on `u128` values, which panics on overflow. -/
def plainOrTrap (x : ℕ) : Except (Fault MathError) ℕ :=
  if x < 2 ^ 128 then .ok x else .error (.trap "arithmetic operation with overflow")

/-- `mul_div_u128` with every operator checked. The shifts are none of them: a shift only panics
where it is as wide as the type. -/
def mulDivU128Checked (a b d : ℕ) : Except (Fault MathError) ℕ :=
  if d = 0 then .error (.error .divisionByZero)
  else if a * b < 2 ^ 128 then .ok (a * b / d)
  else do
    let aLow := a &&& 0xFFFFFFFFFFFFFFFF
    let aHigh := a >>> 64
    let bLow := b &&& 0xFFFFFFFFFFFFFFFF
    let bHigh := b >>> 64
    let p0 ← plainOrTrap (aLow * bLow)
    let p1 ← plainOrTrap (aLow * bHigh)
    let p2 ← plainOrTrap (aHigh * bLow)
    let p3 ← plainOrTrap (aHigh * bHigh)
    let sum ← plainOrTrap ((p1 &&& 0xFFFFFFFFFFFFFFFF) + (p2 &&& 0xFFFFFFFFFFFFFFFF))
    let mid ← plainOrTrap (sum + p0 >>> 64)
    let high ← plainOrTrap (p3 + p1 >>> 64)
    let high ← plainOrTrap (high + p2 >>> 64)
    let high ← plainOrTrap (high + mid >>> 64)
    let low := (mid <<< 64) % 2 ^ 128 ||| (p0 &&& 0xFFFFFFFFFFFFFFFF)
    if high ≥ d then .error (.error .overflow)
    else .ok (divLoop low d 128 high 0)

/-- The product is no value of two words to be divided, or its quotient does not fit, or no
remainder of the long division has the highest bit, which the next round would drop. -/
def KeepsBits (a b d : ℕ) : Prop :=
  a * b < 2 ^ 128 ∨ 2 ^ 128 * d ≤ a * b ∨ ∀ i < 128, a * b / 2 ^ (i + 1) % d < 2 ^ 127

instance (a b d : ℕ) : Decidable (KeepsBits a b d) := inferInstanceAs (Decidable (_ ∨ _ ∨ _))

variable {a b d x : ℕ}

theorem plainOrTrap_eq (h : x < 2 ^ 128) : plainOrTrap x = .ok x := if_pos h

/-- **No operator on the way traps.** The products are those of halves, and the high word is a part
of the product. -/
theorem mulDivU128Checked_eq (ha : a < 2 ^ 128) (hb : b < 2 ^ 128) (hd : 0 < d) :
    mulDivU128Checked a b d = (mulDivU128 a b d).elim (.error (.error .overflow)) .ok := by
  unfold mulDivU128Checked mulDivU128
  rw [if_neg hd.ne', if_neg hd.ne']
  split
  · rfl
  have haHigh : a >>> 64 < 2 ^ 64 := Math.high_half_lt ha
  have hbHigh : b >>> 64 < 2 ^ 64 := Math.high_half_lt hb
  have h0 := Math.half_mul_half_lt (Math.low_half_lt a) (Math.low_half_lt b)
  have h1 := Math.half_mul_half_lt (Math.low_half_lt a) hbHigh
  have h2 := Math.half_mul_half_lt haHigh (Math.low_half_lt b)
  have h3 := Math.half_mul_half_lt haHigh hbHigh
  have hlow1 := Math.low_half_lt ((a &&& 0xFFFFFFFFFFFFFFFF) * b >>> 64)
  have hlow2 := Math.low_half_lt (a >>> 64 * (b &&& 0xFFFFFFFFFFFFFFFF))
  have hhigh0 := Math.high_half_lt h0
  have hproduct : a * b < 2 ^ 128 * 2 ^ 128 := Nat.mul_lt_mul'' ha hb
  have hhigh : (a >>> 64 * b >>> 64) + ((a &&& 0xFFFFFFFFFFFFFFFF) * b >>> 64) >>> 64 +
      (a >>> 64 * (b &&& 0xFFFFFFFFFFFFFFFF)) >>> 64 +
      (((a &&& 0xFFFFFFFFFFFFFFFF) * b >>> 64 &&& 0xFFFFFFFFFFFFFFFF) +
        (a >>> 64 * (b &&& 0xFFFFFFFFFFFFFFFF) &&& 0xFFFFFFFFFFFFFFFF) +
        ((a &&& 0xFFFFFFFFFFFFFFFF) * (b &&& 0xFFFFFFFFFFFFFFFF)) >>> 64) >>> 64 < 2 ^ 128 := by
    obtain ⟨hwords, -⟩ := LongDivision.words_of_mul a b 64
    simp only [Nat.reducePow, Nat.reduceSub, Nat.reduceMul] at hwords hproduct ⊢
    omega
  dsimp only
  -- the products of the halves fit, and then the sums, of which only the last needs the bound
  simp only [plainOrTrap_eq h0, plainOrTrap_eq h1, plainOrTrap_eq h2, plainOrTrap_eq h3, bind,
    Except.bind]
  generalize (a &&& 0xFFFFFFFFFFFFFFFF) * (b &&& 0xFFFFFFFFFFFFFFFF) = p0 at *
  generalize (a &&& 0xFFFFFFFFFFFFFFFF) * b >>> 64 = p1 at *
  generalize a >>> 64 * (b &&& 0xFFFFFFFFFFFFFFFF) = p2 at *
  generalize a >>> 64 * b >>> 64 = p3 at *
  rw [plainOrTrap_eq (by omega)]
  dsimp only
  rw [plainOrTrap_eq (by omega)]
  dsimp only
  rw [plainOrTrap_eq (by omega)]
  dsimp only
  rw [plainOrTrap_eq (by omega)]
  dsimp only
  rw [plainOrTrap_eq hhigh]
  dsimp only
  split
  · rfl
  · rfl

/-- A product of one word is divided as it is. -/
theorem mulDivU128_of_lt (hd : 0 < d) (h : a * b < 2 ^ 128) :
    mulDivU128 a b d = some (a * b / d) := by
  unfold mulDivU128
  rw [if_neg hd.ne', if_pos h]

/-- **The quotient is exact** just when no shift drops a bit: for all values of the type and every
positive divisor, the function returns the quotient where it fits and the error otherwise. -/
theorem mulDivU128_exact_iff (ha : a < 2 ^ 128) (hb : b < 2 ^ 128) (hd : 0 < d)
    (hd' : d < 2 ^ 128) :
    mulDivU128Checked a b d =
        (if a * b / d < 2 ^ 128 then .ok (a * b / d) else .error (.error .overflow)) ↔
      KeepsBits a b d := by
  rw [mulDivU128Checked_eq ha hb hd]
  unfold KeepsBits
  rcases lt_or_ge (a * b) (2 ^ 128) with hprod | hprod
  · rw [mulDivU128_of_lt hd hprod, if_pos ((Nat.div_le_self _ _).trans_lt hprod)]
    exact iff_of_true rfl (.inl hprod)
  · obtain ⟨hwords, hlow⟩ := LongDivision.words_of_mul a b 64
    have hdiv := LongDivision.div_words_iff
      (Except.ok : ℕ → Except (Fault MathError) ℕ) (fun _ _ => Except.ok.inj)
      (.error (.error .overflow)) hwords hlow hd hd'.le
    have hbit : ∀ m : ℕ, 2 * m < 2 ^ (2 * 64) ↔ m < 2 ^ 127 := fun m => by omega
    simp only [hbit] at hdiv
    rw [or_iff_right (not_lt.mpr hprod)]
    unfold mulDivU128
    rw [if_neg hd.ne', if_neg (not_lt.mpr hprod)]
    simp only [divLoop_eq]
    rw [apply_ite fun quotient : Option ℕ => quotient.elim _ _]
    exact hdiv

/-- A product of two words by a divisor of 100 bits. -/
theorem mulDivU128_exact_iff_wide :
    mulDivU128Checked (2 ^ 127) (2 ^ 90) (2 ^ 100) =
        (if 2 ^ 127 * 2 ^ 90 / 2 ^ 100 < 2 ^ 128 then .ok (2 ^ 127 * 2 ^ 90 / 2 ^ 100)
        else .error (.error .overflow)) ↔
      KeepsBits (2 ^ 127) (2 ^ 90) (2 ^ 100) :=
  mulDivU128_exact_iff (by decide) (by decide) (by decide) (by decide)

/-- The greatest value, squared and divided by itself: the first remainder is one less than the
divisor, and its highest bit is dropped in every round. -/
theorem mulDivU128_greatest :
    mulDivU128Checked (2 ^ 128 - 1) (2 ^ 128 - 1) (2 ^ 128 - 1) = .ok 0 ∧
      (2 ^ 128 - 1) * (2 ^ 128 - 1) / (2 ^ 128 - 1) = 2 ^ 128 - 1 := by
  decide +kernel

/-- For a divisor up to `2 ^ 127` no shift drops a bit. -/
theorem keepsBits_of_le (hd : 0 < d) (hd' : d ≤ 2 ^ 127) : KeepsBits a b d :=
  .inr (.inr fun _ _ => (Nat.mod_lt _ hd).trans_le hd')

end ConcentratedAmm
