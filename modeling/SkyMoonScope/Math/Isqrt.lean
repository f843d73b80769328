import SkyMoonScope.Lib.Integers
import SkyMoonScope.Soroban.Contract
import Mathlib.Data.Nat.Sqrt
import Mathlib.Tactic.Ring

/-!
# The integer square root

`isqrt` starts Newton's iteration at its argument, which is above the root, on `u128` values. Every
step halves the error, which is less than `2 ^ 127` at first, so that at most 127 steps lower the
estimate. One more, and the iteration would end with an error. Where it ends, the estimate is the
root, and the steps back that follow have nothing to do.

## Main definitions

* `isqrtLoop`: the iteration, with the number of the steps that are left
* `isqrt`: the integer square root

## Main results

* `isqrtLoop_eq`: as many steps as the error has bits are enough
* `isqrt_eq`: `isqrt` returns the integer square root of every value
-/

namespace Math

open Soroban

inductive MathError
  | invalidInput
  | overflow
deriving DecidableEq

def sqrtMaxIterations : ℕ := 128

/-- A sum of `u128` values, which panics on overflow. -/
def addU128 (x y : ℕ) : Except (Fault MathError) ℕ :=
  if x + y < 2 ^ 128 then .ok (x + y) else .error (.trap "attempt to add with overflow")

/-- A quotient of `u128` values, which panics on a zero divisor. -/
def divU128 (x y : ℕ) : Except (Fault MathError) ℕ :=
  if y = 0 then .error (.trap "attempt to divide by zero") else .ok (x / y)

/-- The iteration. With `steps` of them left, the last one that lowers the estimate is an error. -/
def isqrtLoop (ux : ℕ) : ℕ → ℕ → Except (Fault MathError) ℕ
  | 0, _ => .error (.error .overflow)
  | steps + 1, r => do
    let quotient ← divU128 ux r
    let sum ← addU128 r quotient
    let next := sum / 2
    if next ≥ r then pure r else isqrtLoop ux steps next

/-- The steps back, of which there are at most as many as the estimate is large. -/
def stepBack (x : ℤ) : ℕ → ℤ → ℤ
  | 0, root => root
  | steps + 1, root =>
    if root > 0 ∧ root > x.tdiv root then stepBack x steps (root - 1) else root

/-- The largest number with at most the square `x`. The cast of an estimate takes it modulo the
width. -/
def isqrt (x : ℤ) : Except (Fault MathError) ℤ :=
  if x < 0 then .error (.error .invalidInput)
  else if x = 0 then pure 0
  else do
    let r ← isqrtLoop x.toNat sqrtMaxIterations x.toNat
    let root := (r : ℤ).bmod (2 ^ 128)
    pure (stepBack x root.toNat root)

section Loop

variable {ux r steps : ℕ}

/-- The next estimate, over the integers. -/
theorem next_eq_newton : (((r + ux / r) / 2 : ℕ) : ℤ) = newton ux r := by
  rw [newton, Nat.add_comm]
  norm_cast

/-- An estimate is at least the root. -/
theorem sqrt_le_next (hr : 0 < r) : ux.sqrt ≤ (r + ux / r) / 2 := by
  have hlt := lt_newton_add_one_sq (Int.natCast_nonneg ux) (Int.natCast_pos.mpr hr)
  rw [← next_eq_newton] at hlt
  apply Nat.le_of_lt_succ
  rw [Nat.sqrt_lt]
  exact_mod_cast hlt

/-- An estimate that the next one does not improve is at most the root. -/
theorem le_sqrt_of_le_next (hr : 0 < r) (h : r ≤ (r + ux / r) / 2) : r ≤ ux.sqrt := by
  have hsq : (r : ℤ) * r ≤ ux := by
    apply sq_le_of_le_newton (Int.natCast_nonneg ux) (Int.natCast_pos.mpr hr)
    rw [← next_eq_newton]
    exact_mod_cast h
  exact Nat.le_sqrt.mpr (by exact_mod_cast hsq)

/-- The next estimate has at most half the error. -/
theorem next_sub_le (h : ux.sqrt < r) : ((r + ux / r) / 2 - ux.sqrt) * 2 ≤ r - ux.sqrt := by
  have hsq : (ux : ℤ) < (ux.sqrt + 1) * (ux.sqrt + 1) := by exact_mod_cast Nat.lt_succ_sqrt ux
  have hle := newton_sub_le (Int.natCast_nonneg ux) (Int.natCast_nonneg ux.sqrt) hsq
    (Int.ofNat_lt.mpr h)
  rw [← next_eq_newton] at hle
  omega

/-- A step from an estimate between one and the argument overflows nothing. -/
theorem isqrtLoop_step (hux : ux < 2 ^ 127) (hr : 0 < r) (hle : r ≤ ux) :
    isqrtLoop ux (steps + 1) r =
      if (r + ux / r) / 2 ≥ r then .ok r else isqrtLoop ux steps ((r + ux / r) / 2) := by
  have hquotient : ux / r ≤ ux := Nat.div_le_self ux r
  have hsum : r + ux / r < 2 ^ 128 := by omega
  have hdiv : divU128 ux r = .ok (ux / r) := if_neg hr.ne'
  have hadd : addU128 r (ux / r) = .ok (r + ux / r) := if_pos hsum
  rw [isqrtLoop, hdiv]
  show (addU128 r (ux / r) >>= _) = _
  rw [hadd]
  rfl

/-- **The iteration** ends at the root. Each step that is left stands for a bit of the error. -/
theorem isqrtLoop_eq (hux : ux < 2 ^ 127) (hr : 0 < r) (hle : r ≤ ux) (hroot : ux.sqrt ≤ r)
    (herror : r - ux.sqrt < 2 ^ steps) : isqrtLoop ux (steps + 1) r = .ok ux.sqrt := by
  have hnext : ux.sqrt ≤ (r + ux / r) / 2 := sqrt_le_next hr
  induction steps generalizing r with
  | zero =>
    -- no error is left, so that the estimate is the root
    obtain rfl : ux.sqrt = r := by omega
    rw [isqrtLoop_step hux hr hle, if_pos hnext]
  | succ steps ih =>
    rw [isqrtLoop_step hux hr hle]
    split
    next hge => rw [le_antisymm hroot (le_sqrt_of_le_next hr hge)]
    next hlt =>
      -- the next estimate has a bit of the error less
      have hhalf := next_sub_le (hnext.trans_lt (not_le.mp hlt))
      have hpos : 0 < (r + ux / r) / 2 := (Nat.sqrt_pos.mpr (hr.trans_le hle)).trans_le hnext
      rw [pow_succ] at herror
      exact ih hpos (by omega) hnext (by omega) (sqrt_le_next hpos)

end Loop

/-- At the root there is no step back. -/
theorem stepBack_sqrt (n steps : ℕ) : stepBack n steps n.sqrt = n.sqrt := by
  have hsq : (n.sqrt : ℤ) * n.sqrt ≤ n := by exact_mod_cast Nat.sqrt_le n
  cases steps with
  | zero => rfl
  | succ steps =>
    rw [stepBack, if_neg]
    rintro ⟨hpos, hgt⟩
    exact absurd ((IntType.le_tdiv_iff (Int.natCast_nonneg n) hpos).mpr hsq) (not_le.mpr hgt)

/-- **The integer square root** of every value of the type. -/
theorem isqrt_eq {n : ℕ} (hn : n < 2 ^ 127) : isqrt n = .ok (n.sqrt : ℤ) := by
  unfold isqrt
  rw [if_neg (by omega)]
  split
  next hzero =>
    obtain rfl : n = 0 := by exact_mod_cast hzero
    rfl
  next hne =>
    have hpos : 0 < n := Nat.pos_of_ne_zero (by exact_mod_cast hne)
    have hle : n.sqrt ≤ n := Nat.sqrt_le_self n
    -- 127 steps for the bits of the first error, and one to see that the estimate is the root
    have herror : n - n.sqrt < 2 ^ 127 := by omega
    have hloop : isqrtLoop n (127 + 1) n = .ok n.sqrt := isqrtLoop_eq hn hpos le_rfl hle herror
    rw [Int.toNat_natCast, sqrtMaxIterations, hloop]
    show Except.ok (stepBack n _ _) = _
    rw [Int.bmod_eq_of_le (by omega) (by omega), stepBack_sqrt]

/-- **The root is exact.** For every value that is not negative, `isqrt` returns the largest number
with at most that square. No operator overflows, and the bound on the iterations is not reached. -/
theorem isqrt_exact {x : ℤ} (hx : 0 ≤ x) (hfits : IntType.i128.Fits x) :
    ∃ r, isqrt x = .ok r ∧ 0 ≤ r ∧ r * r ≤ x ∧ x < (r + 1) * (r + 1) := by
  obtain ⟨n, rfl⟩ := Int.eq_ofNat_of_zero_le hx
  have hn : n < 2 ^ 127 := by
    have hmax : (n : ℤ) ≤ 2 ^ 127 - 1 := hfits.2
    omega
  refine ⟨n.sqrt, isqrt_eq hn, Int.natCast_nonneg _, ?_, ?_⟩
  · exact_mod_cast Nat.sqrt_le n
  · exact_mod_cast Nat.lt_succ_sqrt n

/-- The greatest value. -/
theorem isqrt_exact_greatest :
    ∃ r, isqrt IntType.i128.hi = .ok r ∧ 0 ≤ r ∧ r * r ≤ IntType.i128.hi ∧
      IntType.i128.hi < (r + 1) * (r + 1) :=
  isqrt_exact (by decide) (by decide)

example : isqrt 99 = .ok 9 := by decide

end Math
