import Mathlib.Algebra.Order.Ring.Defs
import Mathlib.Tactic.Linarith
import Mathlib.Tactic.Ring

/-!
# The value backing a share

A pool of two assets issues shares. With reserves `a` and `b` behind `s` shares, the geometric
value behind one share is the square root of `a * b / (s * s)`; backings are compared by it, cross
multiplied. The rules state what an operation has to respect for the value not to fall, as
inequalities between products, so that they hold whatever the operation rounds and in whichever
direction.

## Main definitions

* `Backing R`: positive reserves behind a positive number of shares
* the preorder on backings: the value behind one share

## Main results

* `Backing.le_deposit`: minting at most in proportion to what is added
* `Backing.le_withdraw`: redeeming for at most the proportion of what is burned
* `Backing.le_swap`: trading against the product of the reserves
-/

/-- Reserves of two assets behind a number of shares. -/
structure Backing (R : Type*) [Zero R] [LT R] where
  a : R
  b : R
  shares : R
  a_pos : 0 < a
  b_pos : 0 < b
  shares_pos : 0 < shares

namespace Backing

variable {R : Type*} [CommRing R] [LinearOrder R]

/-- The value behind one share of `x` is at most that behind one share of `y`. -/
instance : LE (Backing R) :=
  ⟨fun x y => x.a * x.b * y.shares * y.shares ≤ y.a * y.b * x.shares * x.shares⟩

theorem le_def {x y : Backing R} :
    x ≤ y ↔ x.a * x.b * y.shares * y.shares ≤ y.a * y.b * x.shares * x.shares := Iff.rfl

variable [IsStrictOrderedRing R]

instance : Preorder (Backing R) where
  le_refl x := le_def.mpr le_rfl
  le_trans x y z hxy hyz := by
    rw [le_def] at hxy hyz ⊢
    have hs : 0 < y.shares * y.shares := mul_pos y.shares_pos y.shares_pos
    have hx : 0 ≤ x.shares * x.shares := (mul_pos x.shares_pos x.shares_pos).le
    have hz : 0 ≤ z.shares * z.shares := (mul_pos z.shares_pos z.shares_pos).le
    -- both inequalities are scaled to the common factor `y.shares * y.shares`
    refine le_of_mul_le_mul_right ?_ hs
    calc x.a * x.b * z.shares * z.shares * (y.shares * y.shares)
        = x.a * x.b * y.shares * y.shares * (z.shares * z.shares) := by ring
      _ ≤ y.a * y.b * x.shares * x.shares * (z.shares * z.shares) :=
        mul_le_mul_of_nonneg_right hxy hz
      _ = y.a * y.b * z.shares * z.shares * (x.shares * x.shares) := by ring
      _ ≤ z.a * z.b * y.shares * y.shares * (x.shares * x.shares) :=
        mul_le_mul_of_nonneg_right hyz hx
      _ = z.a * z.b * x.shares * x.shares * (y.shares * y.shares) := by ring

/-- A backing is at most one whose reserves are each at least in proportion to the shares. -/
theorem le_of_proportional {x y : Backing R} (ha : x.a * y.shares ≤ y.a * x.shares)
    (hb : x.b * y.shares ≤ y.b * x.shares) : x ≤ y := by
  rw [le_def]
  calc x.a * x.b * y.shares * y.shares = x.a * y.shares * (x.b * y.shares) := by ring
    _ ≤ y.a * x.shares * (y.b * x.shares) :=
      mul_le_mul ha hb (mul_pos x.b_pos y.shares_pos).le (mul_pos y.a_pos x.shares_pos).le
    _ = y.a * y.b * x.shares * x.shares := by ring

/-- **Deposits.** The value does not fall when `minted` shares are issued for reserves `da` and
`db` of which `minted` is at most the proportional number. -/
theorem le_deposit {x y : Backing R} {da db minted : R} (hya : y.a = x.a + da)
    (hyb : y.b = x.b + db) (hys : y.shares = x.shares + minted)
    (ha : minted * x.a ≤ da * x.shares) (hb : minted * x.b ≤ db * x.shares) : x ≤ y := by
  refine le_of_proportional ?_ ?_
  · rw [hya, hys]
    linarith [mul_comm minted x.a]
  · rw [hyb, hys]
    linarith [mul_comm minted x.b]

/-- **Withdrawals.** The value does not fall when `burned` shares are redeemed for reserves `da`
and `db` that are at most proportional. -/
theorem le_withdraw {x y : Backing R} {da db burned : R} (hya : y.a = x.a - da)
    (hyb : y.b = x.b - db) (hys : y.shares = x.shares - burned)
    (ha : da * x.shares ≤ burned * x.a) (hb : db * x.shares ≤ burned * x.b) : x ≤ y := by
  refine le_of_proportional ?_ ?_
  · rw [hya, hys]
    linarith [mul_comm burned x.a]
  · rw [hyb, hys]
    linarith [mul_comm burned x.b]

/-- **Swaps.** The value does not fall when the shares stay and the product of the reserves does
not fall. -/
theorem le_swap {x y : Backing R} (hys : y.shares = x.shares) (hk : x.a * x.b ≤ y.a * y.b) :
    x ≤ y := by
  rw [le_def, hys, mul_assoc, mul_assoc (y.a * y.b)]
  exact mul_le_mul_of_nonneg_right hk (mul_pos x.shares_pos x.shares_pos).le

/-- Paying `out` of one reserve for `paid` into the other does not lower their product, when `out`
is worth at most `paid` at the price after the trade. -/
theorem mul_le_of_trade {reserveIn reserveOut paid out : R}
    (h : out * reserveIn ≤ paid * (reserveOut - out)) :
    reserveIn * reserveOut ≤ (reserveIn + paid) * (reserveOut - out) := by
  linarith [mul_comm out reserveIn, mul_sub reserveIn reserveOut out,
    add_mul reserveIn paid (reserveOut - out)]

end Backing
