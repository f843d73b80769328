import SkyMoonScope.LiquidityPool.Operations
import SkyMoonScope.LiquidityPool.Pool
import SkyMoonScope.Soroban.Arithmetic

/-!
# The two swap formulas

`swap` asks for an output and computes the input, `swap_exact_in` takes an input and computes the
output. The input is rounded up and the output down. Both compare the input net of the fee, times
the output reserve that is left, with the input reserve times the output, so that the input for an
output is the least one that buys it.

## Main definitions

* `Pays amountIn amountOut reserveIn reserveOut feeBps`: the input pays for the output

## Main results

* `amountInForOut_le_iff`, `le_amountOutForIn_iff`: both formulas decide whether an input pays
* `quotes_inverse`: the input for an output is sufficient and minimal
-/

namespace LiquidityPool

open Soroban

variable {Address Tokens : Type}

/-- An input pays for an output: net of the fee it keeps the product of the reserves. -/
def Pays (amountIn amountOut reserveIn reserveOut feeBps : ℤ) : Prop :=
  reserveIn * amountOut * 10000 ≤ amountIn * ((reserveOut - amountOut) * (10000 - feeBps))

section Formulas

variable {s t : State Address Tokens} {x y z amountOut reserveIn reserveOut feeBps : ℤ}

/-- **The input for an output** is the least one that pays for it. -/
theorem amountInForOut_le_iff
    (h : Returns (amountInForOut amountOut reserveIn reserveOut feeBps : Body Address Tokens ℤ)
      s x t) (hfee : feeBps ≤ 100) : x ≤ y ↔ Pays y amountOut reserveIn reserveOut feeBps := by
  simp only [amountInForOut, returns_require_bind, returns_plain_bind, returns_checked_bind,
    returns_divide_bind] at h
  obtain ⟨hpos, -, -, -, -, -, -, -, h⟩ := h
  push Not at hpos
  obtain ⟨hout, hlt, hrin, -⟩ := hpos
  set numerator := reserveIn * amountOut * 10000 with hnum
  set denominator := (reserveOut - amountOut) * (10000 - feeBps) with hden
  have hn : 0 ≤ numerator := mul_nonneg (mul_nonneg hrin.le hout.le) (by decide)
  have hd : 0 < denominator := mul_pos (by linarith) (by linarith)
  -- the two branches together are the quotient rounded up
  have hx : x = if numerator.tmod denominator = 0 then numerator.tdiv denominator
      else numerator.tdiv denominator + 1 := by
    split at h
    next hzero =>
      obtain ⟨rfl, -⟩ := returns_pure.mp h
      rw [if_pos hzero]
    next hne =>
      simp only [returns_plain] at h
      rw [if_neg hne, h.2.1]
  rw [hx, Pays]
  exact IntType.tdiv_up_le_iff hn hd

/-- **The output for an input** is the greatest one that it pays for. -/
theorem le_amountOutForIn_iff
    (h : Returns (amountOutForIn y reserveIn reserveOut feeBps : Body Address Tokens ℤ) s z t)
    (hfee : feeBps ≤ 100) : amountOut ≤ z ↔ Pays y amountOut reserveIn reserveOut feeBps := by
  simp only [amountOutForIn, returns_require_bind, returns_plain_bind, returns_checked_bind,
    returns_divide] at h
  obtain ⟨hpos, -, -, -, -, -, -, -, rfl, -⟩ := h
  push Not at hpos
  obtain ⟨hy, hrin, hrout⟩ := hpos
  have hnet : 0 ≤ y * (10000 - feeBps) := mul_nonneg hy.le (by linarith)
  rw [IntType.le_tdiv_iff (mul_nonneg hnet hrout.le) (by linarith), Pays]
  -- the same terms on other sides
  constructor <;> intro h <;> linarith

end Formulas

/-- **The quotes are inverse.** Where an input is quoted for an output, this input buys at least
the output, and no smaller one does. -/
theorem quotes_inverse {s t : State Address Tokens} {x amountOut reserveIn reserveOut feeBps : ℤ}
    (hfee : feeBps ≤ 100)
    (h : Returns (amountInForOut amountOut reserveIn reserveOut feeBps : Body Address Tokens ℤ)
      s x t) :
    (∀ (u v : State Address Tokens) (z : ℤ),
      Returns (amountOutForIn x reserveIn reserveOut feeBps) u z v → amountOut ≤ z) ∧
    ∀ y, 0 < y → y < x → ∀ (u v : State Address Tokens) (z : ℤ),
      Returns (amountOutForIn y reserveIn reserveOut feeBps) u z v → z < amountOut := by
  constructor
  · intro u v z hz
    rw [le_amountOutForIn_iff hz hfee, ← amountInForOut_le_iff h hfee]
  · intro y _ hyx u v z hz
    by_contra hle
    rw [not_lt, le_amountOutForIn_iff hz hfee, ← amountInForOut_le_iff h hfee] at hle
    exact absurd hle (not_le.mpr hyx)

/-- A contract that has not been called. -/
def uncalled : State Unit Unit := ⟨none, none, fun _ => none, fun _ => none, none, ()⟩

/-- With reserves of a thousand each and a fee of 0.3 %, an output of 100 costs 112. -/
theorem quotes_inverse_sample :
    Returns (amountInForOut 100 1000 1000 30 : Body Unit Unit ℤ) uncalled 112 uncalled ∧
    Returns (amountOutForIn 112 1000 1000 30 : Body Unit Unit ℤ) uncalled 100 uncalled ∧
    (∀ (u v : State Unit Unit) (z : ℤ),
      Returns (amountOutForIn 112 1000 1000 30) u z v → 100 ≤ z) ∧
    ∀ y, 0 < y → y < 112 → ∀ (u v : State Unit Unit) (z : ℤ),
      Returns (amountOutForIn y 1000 1000 30) u z v → z < 100 := by
  have hquote : Returns (amountInForOut 100 1000 1000 30 : Body Unit Unit ℤ)
      uncalled 112 uncalled := rfl
  exact ⟨hquote, rfl, quotes_inverse (by decide) hquote⟩

end LiquidityPool

/-!
# The square root of the first deposit

`sqrt` is Newton's iteration from above, the one that other contracts have as well.

## Main results

* `sqrt_returns`: `sqrt` returns the integer square root
* `grossShares_of_empty`: the first deposit is worth the square root of the product it adds
-/

namespace LiquidityPool

open Soroban

variable {Address Tokens : Type} {s : State Address Tokens} {x : ℤ}

/-- The loop is the one that the contracts share. -/
theorem sqrtLoop_eq (n : ℕ) (z y : ℤ) :
    (sqrtLoop x n z y : Body Address Tokens ℤ) = newtonLoop x n z y := by
  induction n generalizing z y with
  | zero => rfl
  | succ n ih =>
    simp only [sqrtLoop, newtonLoop, ih]
    rfl

/-- **`sqrt` returns the integer square root** of every nonnegative value but the greatest. -/
theorem sqrt_returns (hx : 0 ≤ x) (hfits : IntType.i128.Fits (x + 1)) :
    Returns (sqrt x : Body Address Tokens ℤ) s (Nat.sqrt x.toNat) s := by
  unfold sqrt
  split
  · next h =>
    subst h
    simp
  · next h =>
    simp only [sqrtLoop_eq]
    exact (returns_newtonSqrt (lt_of_le_of_ne hx (Ne.symm h))).mpr ⟨hfits, rfl, rfl⟩

/-- **The first deposit** is worth the square root of the product of its amounts, rounded down. -/
theorem grossShares_of_empty {pool : PoolState Address} {amountA amountB : ℤ}
    (hempty : pool.totalShares = 0) (ha : 0 < amountA) (hb : 0 < amountB)
    (hfits : IntType.i128.Fits (amountA * amountB + 1)) :
    Returns (grossShares pool amountA amountB : Body Address Tokens ℤ) s
      (Nat.sqrt (amountA * amountB).toNat) s := by
  have hprod : 0 < amountA * amountB := mul_pos ha hb
  rw [grossShares, if_pos hempty, returns_bind]
  refine ⟨_, s, returns_checked.mpr ⟨⟨?_, by linarith [hfits.2]⟩, rfl, rfl⟩, ?_⟩
  · exact le_trans (by decide) hprod.le
  · exact sqrt_returns hprod.le hfits

end LiquidityPool
