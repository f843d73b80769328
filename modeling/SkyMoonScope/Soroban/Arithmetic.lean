import SkyMoonScope.Lib.Integers
import SkyMoonScope.Soroban.Contract
import Mathlib.Data.Nat.Sqrt

/-!
# Arithmetic of contracts

The operators that contracts share: a plain operator and a division on `i128` values, which trap
where their value leaves the type, and Newton's iteration for the square root, which several
contracts repeat word for word. Its estimates fall from above, so that the loop ends, and stay at
least the square root, so that it ends with the square root rounded down.

## Main definitions

* `plainI128`, `divideI128`: an operator and a division that trap
* `newtonLoop`, `newtonSqrt`: the square root of a positive value

## Main results

* `newtonLoop_returns`: the loop ends, with an estimate between its square and the next one
* `returns_newtonSqrt`: the iteration returns just the integer square root
-/

namespace Soroban

variable {σ ε α : Type}

/-- A plain operator on `i128` values, which traps on overflow. -/
def plainI128 (x : ℤ) : Contract σ ε ℤ :=
  orFault (IntType.i128.checked x) (.trap "arithmetic operation with overflow")

/-- The number of a ledger, cut to its type. -/
theorem ledger_lt (n : ℕ) : n % 2 ^ 32 < 2 ^ 32 := Nat.mod_lt n (Nat.two_pow_pos 32)

/-- A small amount is an `i128`. -/
theorem fits_mod (n : ℕ) : IntType.i128.Fits (n % 1000 : ℕ) := by
  have hlt : n % 1000 < 1000 := Nat.mod_lt n (by decide)
  constructor <;> simp only [IntType.i128] <;> omega

/-- Division of `i128` values, which traps on a zero divisor. -/
def divideI128 (x y : ℤ) : Contract σ ε ℤ :=
  orFault (IntType.i128.checkedDiv x y) (.trap "attempt to divide by zero")

/-- The loop of the square root, for at most `n` rounds. The estimate `y` falls in every round, so
that `x` rounds are enough. -/
def newtonLoop (x : ℤ) : ℕ → ℤ → ℤ → Contract σ ε ℤ
  | 0, _, _ => throw (.trap "no result")
  | n + 1, z, y =>
    if z < y then do
      let quotient ← divideI128 x z
      let sum ← plainI128 (quotient + z)
      let next ← divideI128 sum 2
      newtonLoop x n next z
    else pure y

/-- The integer square root of a positive value, by Newton's method. -/
def newtonSqrt (x : ℤ) : Contract σ ε ℤ := do
  let sum ← plainI128 (x + 1)
  let z ← divideI128 sum 2
  newtonLoop x (x.toNat + 1) z x

section

variable {s t : σ} {x y z : ℤ} {v : α} {f : ℤ → Contract σ ε α}

@[simp] theorem returns_plainI128 :
    Returns (plainI128 x : Contract σ ε ℤ) s z t ↔ IntType.i128.Fits x ∧ x = z ∧ s = t := by
  simp [plainI128, and_assoc]

@[simp] theorem returns_divideI128 :
    Returns (divideI128 x y : Contract σ ε ℤ) s z t ↔
      y ≠ 0 ∧ IntType.i128.Fits (x.tdiv y) ∧ x.tdiv y = z ∧ s = t := by
  simp [divideI128, and_assoc]

theorem returns_plainI128_bind :
    Returns (plainI128 x >>= f) s v t ↔ IntType.i128.Fits x ∧ Returns (f x) s v t := by
  rw [returns_bind_of_reads (p := fun z => IntType.i128.Fits x ∧ x = z) fun z t => by
    simp [and_assoc]]
  simp

theorem returns_divideI128_bind :
    Returns (divideI128 x y >>= f) s v t ↔
      y ≠ 0 ∧ IntType.i128.Fits (x.tdiv y) ∧ Returns (f (x.tdiv y)) s v t := by
  rw [returns_bind_of_reads (p := fun z => y ≠ 0 ∧ IntType.i128.Fits (x.tdiv y) ∧ x.tdiv y = z)
    fun z t => by simp [and_assoc]]
  simp [and_assoc]

/-- A quotient of values that are not negative is not greater than the dividend. -/
theorem fits_tdiv (hx : 0 ≤ x) (hfits : IntType.i128.Fits x) (hy : 0 < y) :
    IntType.i128.Fits (x.tdiv y) := by
  refine ⟨le_trans (by decide) (Int.tdiv_nonneg hx hy.le), ?_⟩
  rw [Int.tdiv_eq_ediv_of_nonneg hx]
  exact (Int.ediv_le_self y hx).trans hfits.2

/-- **The loop ends with the square root rounded down**, from an estimate that is not below it. -/
theorem newtonLoop_returns (hx : 0 < x) (hfits : IntType.i128.Fits (x + 1)) {n : ℕ}
    (hy : 1 ≤ y) (hyn : y < n) (hyx : y ≤ x) (hlt : x < (y + 1) * (y + 1)) :
    ∃ r, Returns (newtonLoop x n (newton x y) y : Contract σ ε ℤ) s r s ∧
      0 ≤ r ∧ r * r ≤ x ∧ x < (r + 1) * (r + 1) := by
  have hfits' : IntType.i128.Fits x := ⟨le_trans (by decide) hx.le, by linarith [hfits.2]⟩
  -- the estimate falls in every round, and the rounds left exceed it
  induction n generalizing y with
  | zero => exact absurd hyn (by push_cast; linarith)
  | succ n ih =>
    rw [newtonLoop]
    split
    · next hzy =>
      have hlt' := lt_newton_add_one_sq hx.le (by linarith : 0 < y)
      have hz0 : 0 ≤ newton x y :=
        Int.tdiv_nonneg (by linarith [Int.tdiv_nonneg hx.le (by linarith : (0 : ℤ) ≤ y)])
          (by decide)
      have hz : 1 ≤ newton x y := by
        by_contra hz
        obtain hz' : newton x y = 0 := by omega
        rw [hz'] at hlt'
        linarith
      push_cast at hyn
      obtain ⟨r, hr, hroot⟩ := ih hz (by linarith) (by linarith) hlt'
      refine ⟨r, ?_, hroot⟩
      have hq : 0 ≤ x.tdiv (newton x y) := Int.tdiv_nonneg hx.le hz0
      have hsum : IntType.i128.Fits (x.tdiv (newton x y) + newton x y) :=
        ⟨le_trans (by decide) (by linarith : (0 : ℤ) ≤ x.tdiv (newton x y) + newton x y),
          (tdiv_add_le hz (by linarith)).trans hfits.2⟩
      rw [returns_divideI128_bind, returns_plainI128_bind, returns_divideI128_bind]
      exact ⟨by linarith, fits_tdiv hx.le hfits' (by linarith), hsum, by decide,
        fits_tdiv (by linarith) hsum (by decide), hr⟩
    · next hzy =>
      refine ⟨y, returns_pure.mpr ⟨rfl, rfl⟩, by linarith, ?_, hlt⟩
      exact sq_le_of_le_newton hx.le (by linarith) (not_lt.mp hzy)

/-- **The iteration returns the integer square root** of every positive value but the greatest, on
which it traps. -/
theorem returns_newtonSqrt (hx : 0 < x) :
    Returns (newtonSqrt x : Contract σ ε ℤ) s z t ↔
      IntType.i128.Fits (x + 1) ∧ (Nat.sqrt x.toNat : ℤ) = z ∧ s = t := by
  rw [newtonSqrt, returns_plainI128_bind]
  refine and_congr_right fun hfits => ?_
  have hfirst : newton x x = (x + 1).tdiv 2 := by
    rw [newton, Int.tdiv_self hx.ne', add_comm]
  obtain ⟨r, hr, hr0, hle, hlt⟩ := newtonLoop_returns (ε := ε) (s := s) hx hfits
    (n := x.toNat + 1) (y := x) (by linarith) (by push_cast; omega) le_rfl (by nlinarith)
  have hroot : r = (Nat.sqrt x.toNat : ℤ) := by
    lift r to ℕ using hr0
    lift x to ℕ using hx.le
    norm_cast at hle hlt ⊢
    exact Nat.eq_sqrt.mpr ⟨hle, hlt⟩
  have hdivide : (2 : ℤ) ≠ 0 ∧ IntType.i128.Fits ((x + 1).tdiv 2) :=
    ⟨by decide, fits_tdiv (by linarith) hfits (by decide)⟩
  rw [hfirst, hroot] at hr
  rw [returns_divideI128_bind]
  constructor
  · rintro ⟨-, -, h⟩
    have heq := Except.ok.inj (hr.symm.trans h)
    exact ⟨congrArg Prod.fst heq, congrArg Prod.snd heq⟩
  · rintro ⟨rfl, rfl⟩
    exact ⟨hdivide.1, hdivide.2, hr⟩

end

end Soroban
