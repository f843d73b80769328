import SkyMoonScope.Lib.Accounts
import Mathlib.Order.Interval.Finset.Basic

/-!
# Weights on intervals

Keys have weights, finitely many of which are not zero, and lie on half-open intervals of integers.
The coverage at a point is the weight of the intervals around it. Going from a point to the next one
it changes by the net weight of the bounds there, so that it stays the same where no interval with a
weight has a bound.

## Main definitions

* `weigh φ w`: the sum of the weights, each with a factor
* `coverage`, `netAt`, `grossAt`: the weight around a point, and of the bounds at it with and
  without sign

## Main results

* `weigh_credit`: what a change of one weight adds to a sum
* `coverage_sub_one`: the coverage on the two sides of a point
* `coverage_eq_of_gross_zero`: the coverage is constant between bounds
-/

namespace Intervals

open Accounts Function

variable {K : Type*}

/-- The sum of the weights, each with a factor. -/
noncomputable def weigh (φ : K → ℤ) (w : K → ℤ) : ℤ := ∑ᶠ k, φ k * w k

section Weigh

variable {φ ψ : K → ℤ} {w : K → ℤ} {a : K} {x : ℤ}

theorem hasFiniteSupport_mul (hw : w.HasFiniteSupport) :
    (fun k => φ k * w k).HasFiniteSupport := by
  apply hw.subset
  intro k hk hzero
  exact hk (by simp [hzero])

/-- What a change of one weight adds to a sum. -/
theorem weigh_credit [DecidableEq K] (hw : w.HasFiniteSupport) :
    weigh φ (credit w a x) = weigh φ w + φ a * x := by
  have hterms : (fun k => φ k * credit w a x k) = credit (fun k => φ k * w k) a (φ a * x) := by
    funext k
    by_cases hk : k = a
    · subst hk
      rw [credit_self, credit_self]
      ring
    · rw [credit_of_ne hk, credit_of_ne hk]
  unfold weigh
  rw [hterms, finsum_credit (hasFiniteSupport_mul hw)]

theorem weigh_sub (hw : w.HasFiniteSupport) :
    weigh (fun k => φ k - ψ k) w = weigh φ w - weigh ψ w := by
  unfold weigh
  rw [← finsum_sub_distrib (hasFiniteSupport_mul hw) (hasFiniteSupport_mul hw)]
  exact finsum_congr fun k => by ring

/-- Only the factors of weights that are not zero count. -/
theorem weigh_congr (h : ∀ k, w k ≠ 0 → φ k = ψ k) : weigh φ w = weigh ψ w := by
  apply finsum_congr
  intro k
  by_cases hk : w k = 0
  · rw [hk, mul_zero, mul_zero]
  · rw [h k hk]

theorem weigh_nonneg (hφ : ∀ k, 0 ≤ φ k) (hw : ∀ k, 0 ≤ w k) : 0 ≤ weigh φ w :=
  finsum_nonneg fun k => mul_nonneg (hφ k) (hw k)

theorem weigh_mono (hfinite : w.HasFiniteSupport) (hw : ∀ k, 0 ≤ w k) (h : ∀ k, φ k ≤ ψ k) :
    weigh φ w ≤ weigh ψ w :=
  finsum_le_finsum' (hasFiniteSupport_mul hfinite) (hasFiniteSupport_mul hfinite)
    fun k => mul_le_mul_of_nonneg_right (h k) (hw k)

/-- One term of a sum of terms that are not negative is at most the sum. -/
theorem le_weigh (hfinite : w.HasFiniteSupport) (hφ : ∀ k, 0 ≤ φ k) (hw : ∀ k, 0 ≤ w k) (k : K) :
    φ k * w k ≤ weigh φ w := by
  unfold weigh
  exact single_le_finsum k (hasFiniteSupport_mul hfinite) fun l => mul_nonneg (hφ l) (hw l)

end Weigh

/-! ## Bounds of intervals -/

section Bounds

variable (lower upper : K → ℤ)

/-- One for the intervals around a point. -/
def around (t : ℤ) (k : K) : ℤ := if lower k ≤ t ∧ t < upper k then 1 else 0

/-- One for the bounds at a point. -/
def boundAt (bound : K → ℤ) (t : ℤ) (k : K) : ℤ := if bound k = t then 1 else 0

/-- The weight around a point. -/
noncomputable def coverage (w : K → ℤ) (t : ℤ) : ℤ := weigh (around lower upper t) w

/-- The weight of the bounds at a point. -/
noncomputable def grossAt (w : K → ℤ) (t : ℤ) : ℤ :=
  weigh (fun k => boundAt lower t k + boundAt upper t k) w

/-- The weight of the bounds at a point, negative for the upper ones. -/
noncomputable def netAt (w : K → ℤ) (t : ℤ) : ℤ :=
  weigh (fun k => boundAt lower t k - boundAt upper t k) w

variable {lower upper} {w : K → ℤ} {t u : ℤ}

theorem around_nonneg (k : K) : 0 ≤ around lower upper t k := by
  unfold around
  split <;> decide

theorem boundAt_nonneg {bound : K → ℤ} (k : K) : 0 ≤ boundAt bound t k := by
  unfold boundAt
  split <;> decide

theorem coverage_nonneg (hw : ∀ k, 0 ≤ w k) : 0 ≤ coverage lower upper w t :=
  weigh_nonneg around_nonneg hw

/-- **The two sides of a point.** Below it the coverage is less by the net weight at it. -/
theorem coverage_sub_one (hfinite : w.HasFiniteSupport)
    (hle : ∀ k, w k ≠ 0 → lower k ≤ upper k) :
    coverage lower upper w (t - 1) = coverage lower upper w t - netAt lower upper w t := by
  unfold coverage netAt
  rw [← weigh_sub hfinite]
  apply weigh_congr
  intro k hk
  have hk := hle k hk
  unfold around boundAt
  grind

/-- Without weight of bounds at a point, there is no net weight either. -/
theorem netAt_eq_zero (hfinite : w.HasFiniteSupport) (hw : ∀ k, 0 ≤ w k)
    (hgross : grossAt lower upper w t = 0) : netAt lower upper w t = 0 := by
  apply le_antisymm
  · rw [← hgross]
    apply weigh_mono hfinite hw
    intro k
    have hupper : 0 ≤ boundAt upper t k := boundAt_nonneg k
    linarith
  · have hneg : -grossAt lower upper w t ≤ netAt lower upper w t := by
      unfold grossAt netAt weigh
      rw [← finsum_neg_distrib]
      apply finsum_le_finsum' (hasFiniteSupport_mul hfinite).neg (hasFiniteSupport_mul hfinite)
      intro k
      have hterm : 0 ≤ boundAt lower t k * w k := mul_nonneg (boundAt_nonneg k) (hw k)
      show -((boundAt lower t k + boundAt upper t k) * w k) ≤
        (boundAt lower t k - boundAt upper t k) * w k
      linarith
    rwa [hgross, neg_zero] at hneg

/-- **The coverage is constant between bounds.** -/
theorem coverage_eq_of_gross_zero (hfinite : w.HasFiniteSupport) (hw : ∀ k, 0 ≤ w k)
    (hle : ∀ k, w k ≠ 0 → lower k ≤ upper k) (htu : t ≤ u)
    (hgross : ∀ v, t < v → v ≤ u → grossAt lower upper w v = 0) :
    coverage lower upper w u = coverage lower upper w t := by
  induction u, htu using Int.leInduction with
  | base => rfl
  | succ u htu ih =>
    have hstep := coverage_sub_one (t := u + 1) hfinite hle
    rw [netAt_eq_zero hfinite hw (hgross (u + 1) (by linarith) le_rfl), add_sub_cancel_right,
      sub_zero] at hstep
    rw [← hstep]
    exact ih fun v hv hvu => hgross v hv (by linarith)

end Bounds

end Intervals

/-!
# Cells of a line

Boundaries that do not go down divide a line into cells, of which each has its upper bound and not
its lower one. A window shares a piece with every cell. The pieces of two cells have nothing in
common, and those of the cells from the one below the window to the one above it are the window.

## Main definitions

* `piece boundary a b k`: what the window from `a` to `b` shares with the cell of the number `k`

## Main results

* `disjoint_piece`: no place is in two pieces
* `exists_mem_piece_iff`: the pieces are the window
-/

namespace Tiling

variable {α : Type*} [LinearOrder α] [LocallyFiniteOrder α]

/-- What a window shares with a cell. -/
def piece (boundary : ℕ → α) (a b : α) (k : ℕ) : Finset α :=
  Finset.Ioc (max a (boundary k)) (min b (boundary (k + 1)))

variable {boundary : ℕ → α} {a b x : α} {j k m n : ℕ}

theorem piece_eq_inter : piece boundary a b k =
    Finset.Ioc a b ∩ Finset.Ioc (boundary k) (boundary (k + 1)) := Finset.Ioc_inter_Ioc.symm

theorem mem_piece : x ∈ piece boundary a b k ↔
    (a < x ∧ x ≤ b) ∧ boundary k < x ∧ x ≤ boundary (k + 1) := by
  rw [piece_eq_inter, Finset.mem_inter, Finset.mem_Ioc, Finset.mem_Ioc]

/-- **No place is in two pieces.** -/
theorem disjoint_piece (hmono : Monotone boundary) (hjk : j ≠ k) :
    Disjoint (piece boundary a b j) (piece boundary a b k) := by
  rw [Finset.disjoint_left]
  intro x hj hk
  obtain ⟨-, hj, hj'⟩ := mem_piece.mp hj
  obtain ⟨-, hk, hk'⟩ := mem_piece.mp hk
  -- the upper bound of the earlier cell is not above the lower bound of the later one
  rcases Nat.lt_or_gt_of_ne hjk with hlt | hlt
  · exact absurd (hj'.trans (hmono hlt)) (not_le.mpr hk)
  · exact absurd (hk'.trans (hmono hlt)) (not_le.mpr hj)

/-- **The pieces are the window**, from a cell that begins below it to one that ends above it. -/
theorem exists_mem_piece_iff (hmono : Monotone boundary) (ha : boundary m ≤ a)
    (hb : b ≤ boundary (n + 1)) :
    (∃ k, m ≤ k ∧ k ≤ n ∧ x ∈ piece boundary a b k) ↔ a < x ∧ x ≤ b := by
  constructor
  · rintro ⟨k, -, -, hx⟩
    exact (mem_piece.mp hx).1
  · rintro ⟨hax, hxb⟩
    -- the first cell that does not end below the place
    have hends : ∃ k, x ≤ boundary (k + 1) := ⟨n, hxb.trans hb⟩
    have hend := Nat.find_spec hends
    refine ⟨Nat.find hends, ?_, Nat.find_min' hends (hxb.trans hb), mem_piece.mpr
      ⟨⟨hax, hxb⟩, ?_, hend⟩⟩
    · by_contra hlt
      exact absurd (hend.trans (hmono (not_le.mp hlt))) (not_le.mpr (ha.trans_lt hax))
    · cases hfirst : Nat.find hends with
      | zero => exact (hmono (Nat.zero_le m)).trans_lt (ha.trans_lt hax)
      | succ k =>
        have hbefore : ¬x ≤ boundary (k + 1) := Nat.find_min hends (by omega)
        exact not_le.mp hbefore

end Tiling
