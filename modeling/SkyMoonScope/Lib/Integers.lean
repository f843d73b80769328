import Mathlib.Order.Defs.LinearOrder
import Mathlib.Algebra.Order.Ring.Int
import Mathlib.Tactic.Linarith

/-!
# Machine integers

A machine integer type is the interval of integers it represents. The value of an expression is
computed over the integers and then checked against the interval, so the overflow of an operation
is visible as `none`. Division truncates toward zero.

## Main definitions

* `IntType`: the bounds of a machine integer type, and the types of the program
* `IntType.checked`: the value of an expression, when the type represents it
* `IntType.checkedDiv`: truncating division, `none` on a zero divisor and on overflow
* `IntType.saturate`: the value of an expression, moved to the nearest bound where it overflows
* `newton x y`: the estimate of the square root of `x` that follows the estimate `y`

## Main results

* `le_tdiv_iff`, `tdiv_up_le_iff`: quotients that are rounded down and up
* `lt_newton_add_one_sq`: an estimate is at least the square root, rounded down
* `sq_le_of_le_newton`: an estimate that the next one does not improve is at most the square root
* `newton_sub_le`: an estimate has at most half the error of the one before
-/

/-- The least and the greatest value of a machine integer type. -/
structure IntType where
  lo : ℤ
  hi : ℤ

namespace IntType

def i64 : IntType := ⟨-2 ^ 63, 2 ^ 63 - 1⟩
def i128 : IntType := ⟨-2 ^ 127, 2 ^ 127 - 1⟩
def u32 : IntType := ⟨0, 2 ^ 32 - 1⟩
def u64 : IntType := ⟨0, 2 ^ 64 - 1⟩

/-- The type represents the integer `x`. -/
def Fits (t : IntType) (x : ℤ) : Prop := t.lo ≤ x ∧ x ≤ t.hi

instance (t : IntType) (x : ℤ) : Decidable (t.Fits x) :=
  inferInstanceAs (Decidable (_ ∧ _))

/-- The value `x` of an expression, when the type represents it. -/
def checked (t : IntType) (x : ℤ) : Option ℤ := if t.Fits x then some x else none

@[simp] theorem checked_eq_some {t : IntType} {x y : ℤ} :
    t.checked x = some y ↔ t.Fits x ∧ x = y := by
  unfold checked
  split <;> simp_all

@[simp] theorem checked_eq_none {t : IntType} {x : ℤ} : t.checked x = none ↔ ¬ t.Fits x := by
  unfold checked
  split <;> simp_all

/-- The quotient truncated toward zero. The quotient of the least value by `-1` does not fit. -/
def checkedDiv (t : IntType) (x y : ℤ) : Option ℤ :=
  if y = 0 then none else t.checked (x.tdiv y)

@[simp] theorem checkedDiv_eq_some {t : IntType} {x y q : ℤ} :
    t.checkedDiv x y = some q ↔ y ≠ 0 ∧ t.Fits (x.tdiv y) ∧ x.tdiv y = q := by
  unfold checkedDiv
  split <;> simp_all

/-- The value `x` of an expression, or the bound of the type that it is beyond. -/
def saturate (t : IntType) (x : ℤ) : ℤ := max t.lo (min x t.hi)

/-- Saturation does not raise a value above the least of the type. -/
theorem saturate_le {t : IntType} {x : ℤ} (h : t.lo ≤ x) : t.saturate x ≤ x :=
  max_le h (min_le_left x t.hi)

/-- Two values saturate to the same when they are equal or beyond the same bound. -/
theorem saturate_eq_saturate_iff {t : IntType} {x y : ℤ} (h : t.lo < t.hi) :
    t.saturate x = t.saturate y ↔
      x = y ∨ t.hi ≤ x ∧ t.hi ≤ y ∨ x ≤ t.lo ∧ y ≤ t.lo := by
  simp only [saturate, max_def, min_def]
  split_ifs <;> omega

/-! ## Truncating division of nonnegative values -/

/-- On nonnegative values truncation rounds down: the quotient times the divisor is at most the
dividend. -/
theorem tdiv_mul_le {a b : ℤ} (ha : 0 ≤ a) (hb : 0 ≤ b) : a.tdiv b * b ≤ a := by
  rw [Int.tdiv_eq_ediv_of_nonneg ha]
  rcases hb.eq_or_lt with rfl | hb
  · simpa using ha
  · exact Int.ediv_mul_le a hb.ne'

/-- The quotient plus one, times the divisor, exceeds the dividend. -/
theorem lt_tdiv_add_one_mul {a b : ℤ} (ha : 0 ≤ a) (hb : 0 < b) :
    a < (a.tdiv b + 1) * b := by
  rw [Int.tdiv_eq_ediv_of_nonneg ha]
  exact Int.lt_ediv_add_one_mul_self a hb

/-- The quotient is the greatest number whose multiple of the divisor is at most the dividend. -/
theorem le_tdiv_iff {a b z : ℤ} (ha : 0 ≤ a) (hb : 0 < b) : z ≤ a.tdiv b ↔ z * b ≤ a := by
  rw [Int.tdiv_eq_ediv_of_nonneg ha]
  exact Int.le_ediv_iff_mul_le hb

/-- The quotient, with one added where there is a remainder, is the least number whose multiple of
the divisor is at least the dividend. -/
theorem tdiv_up_le_iff {a b y : ℤ} (ha : 0 ≤ a) (hb : 0 < b) :
    (if a.tmod b = 0 then a.tdiv b else a.tdiv b + 1) ≤ y ↔ a ≤ y * b := by
  have hsplit := Int.tmod_add_tdiv_mul a b
  have hrem := Int.tmod_nonneg b ha
  have hlt := lt_tdiv_add_one_mul ha hb
  split
  next hzero =>
    rw [hzero, zero_add] at hsplit
    rw [← mul_le_mul_iff_left₀ hb, hsplit]
  next hne =>
    -- the dividend is between the two multiples, and is not the smaller one
    constructor
    · intro hle
      exact hlt.le.trans (mul_le_mul_of_nonneg_right hle hb.le)
    · intro hle
      by_contra hy
      have hy' : y ≤ a.tdiv b := by linarith
      have hmul := mul_le_mul_of_nonneg_right hy' hb.le
      exact hne (by linarith)

end IntType

/-! ## Newton's iteration for the square root -/

/-- The estimate of the square root of `x` that follows the estimate `y`, with truncating
division. -/
def newton (x y : ℤ) : ℤ :=
  (x.tdiv y + y).tdiv 2

section Newton

variable {x y : ℤ}

/-- An estimate is at least the square root, rounded down. -/
theorem lt_newton_add_one_sq (hx : 0 ≤ x) (hy : 0 < y) :
    x < (newton x y + 1) * (newton x y + 1) := by
  have hq : 0 ≤ x.tdiv y := Int.tdiv_nonneg hx hy.le
  have hxq : x < (x.tdiv y + 1) * y := IntType.lt_tdiv_add_one_mul hx hy
  have hz : x.tdiv y + y < (newton x y + 1) * 2 :=
    IntType.lt_tdiv_add_one_mul (by linarith) (by decide)
  -- the mean of two factors of a product is at least its square root
  nlinarith [sq_nonneg (x.tdiv y + 1 - y)]

/-- An estimate that the next one does not improve is at most the square root. -/
theorem sq_le_of_le_newton (hx : 0 ≤ x) (hy : 0 < y) (h : y ≤ newton x y) : y * y ≤ x := by
  have hq : 0 ≤ x.tdiv y := Int.tdiv_nonneg hx hy.le
  have hz : newton x y * 2 ≤ x.tdiv y + y := IntType.tdiv_mul_le (by linarith) (by decide)
  have hle : y ≤ x.tdiv y := by linarith
  calc y * y ≤ x.tdiv y * y := mul_le_mul_of_nonneg_right hle hy.le
    _ ≤ x := IntType.tdiv_mul_le hx hy.le

/-- The error of an estimate above the square root is halved, at least. -/
theorem newton_sub_le {s : ℤ} (hx : 0 ≤ x) (hs : 0 ≤ s) (hsq : x < (s + 1) * (s + 1))
    (hsy : s < y) : (newton x y - s) * 2 ≤ y - s := by
  have hy : 0 < y := by linarith
  -- the quotient is at most the square root
  have hle : x.tdiv y ≤ s := by
    by_contra hlt
    have hmul : (s + 1) * y ≤ x.tdiv y * y := mul_le_mul_of_nonneg_right (not_le.mp hlt) hy.le
    have hroot : (s + 1) * (s + 1) ≤ (s + 1) * y := mul_le_mul_of_nonneg_left hsy (by linarith)
    linarith [IntType.tdiv_mul_le hx hy.le]
  have hq : 0 ≤ x.tdiv y := Int.tdiv_nonneg hx hy.le
  have hz : newton x y * 2 ≤ x.tdiv y + y := IntType.tdiv_mul_le (by linarith) (by decide)
  linarith

/-- An estimate between `1` and `x` and its quotient add up to at most `x + 1`. -/
theorem tdiv_add_le (hy : 1 ≤ y) (hyx : y ≤ x) : x.tdiv y + y ≤ x + 1 := by
  have hq : x.tdiv y * y ≤ x := IntType.tdiv_mul_le (by linarith) (by linarith)
  have hq0 : 1 ≤ x.tdiv y := by
    by_contra hlt
    have hx : x < (x.tdiv y + 1) * y := IntType.lt_tdiv_add_one_mul (by linarith) (by linarith)
    nlinarith
  nlinarith [mul_nonneg (sub_nonneg.mpr hq0) (sub_nonneg.mpr hy)]

end Newton
