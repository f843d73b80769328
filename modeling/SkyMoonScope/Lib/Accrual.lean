import SkyMoonScope.Lib.Accounts
import Mathlib.Algebra.Order.BigOperators.Group.Finset

/-!
# Rewards by an accumulator

Rewards are shared among stakers in proportion to their stakes. An accumulator holds what one unit
of stake has earned since the beginning, times the scale `P`. A staker may claim until all its
claims make up its stake times the accumulator, which is more than it has earned where its stake was
smaller before. The claims of all stay within what was distributed as long as a stake is only
lowered, or raised to what the claims already make up.

## Main definitions

* `Accumulator A R`: the stakes, what was claimed, and the accumulator
* `advance`, `restake`, `claim`: the three things that happen to it
* `Funded P b budget`: what everyone may have claimed is covered by the budget

## Main results

* `Funded.advance`: a distribution adds to the budget what it adds to the accumulator
* `Funded.restake`: when a change of a stake needs no budget
* `Funded.claim`: a claim needs none
* `Funded.total_claimed_le`: all claims together are within the budget
-/

namespace Accrual

open Function Accounts

variable {A R : Type*}

/-- The stakes, what each staker has claimed since the beginning, and the accumulator. -/
structure Accumulator (A R : Type*) where
  stake : A → R
  claimed : A → R
  index : R

namespace Accumulator

/-- The accumulator is brought to `i`. -/
def advance (b : Accumulator A R) (i : R) : Accumulator A R := { b with index := i }

variable [DecidableEq A]

/-- The stake of `a` becomes `x`. -/
def restake (b : Accumulator A R) (a : A) (x : R) : Accumulator A R :=
  { b with stake := update b.stake a x }

/-- The claims of `a` become `x`. -/
def claim (b : Accumulator A R) (a : A) (x : R) : Accumulator A R :=
  { b with claimed := update b.claimed a x }

variable {b : Accumulator A R} {a : A} {x : R}

theorem restake_stake : (b.restake a x).stake = update b.stake a x := rfl

theorem claim_claimed : (b.claim a x).claimed = update b.claimed a x := rfl

end Accumulator

variable [CommRing R] [LinearOrder R]

/-- Everyone is entitled to what its stake is worth and to what it has claimed, and the budget
covers what all are entitled to. -/
structure Covers (P : R) (b : Accumulator A R) (entitled : A → R) (budget : R) : Prop where
  stake_nonneg : ∀ a, 0 ≤ b.stake a
  claimed_nonneg : ∀ a, 0 ≤ b.claimed a
  index_nonneg : 0 ≤ b.index
  earned_le : ∀ a, b.stake a * b.index ≤ entitled a
  claimed_le : ∀ a, b.claimed a * P ≤ entitled a
  finite : entitled.HasFiniteSupport
  total_le : ∑ᶠ a, entitled a ≤ budget

/-- What everyone may have claimed is covered by the budget. -/
def Funded (P : R) (b : Accumulator A R) (budget : R) : Prop :=
  ∃ entitled, Covers P b entitled budget

variable {P budget : R} {b : Accumulator A R} {entitled : A → R} {a : A} {i inc amount x : R}

/-- Without stakes and claims no budget is needed. -/
theorem funded_zero : Funded P (⟨fun _ : A => 0, fun _ => 0, 0⟩ : Accumulator A R) 0 := by
  refine ⟨fun _ => 0, fun _ => le_refl 0, fun _ => le_refl 0, le_refl 0, ?_, ?_, ?_, ?_⟩
  · intro a
    rw [zero_mul]
  · intro a
    rw [zero_mul]
  · simp [HasFiniteSupport]
  · simp

/-- **Claims.** What is claimed of the worth of a stake needs no budget. -/
theorem Funded.claim [DecidableEq A] (h : Funded P b budget) (hx : b.claimed a ≤ x)
    (hle : x * P ≤ b.stake a * b.index) : Funded P (b.claim a x) budget := by
  obtain ⟨entitled, h⟩ := h
  refine ⟨entitled, h.stake_nonneg, ?_, h.index_nonneg, h.earned_le, ?_, h.finite, h.total_le⟩
  · intro c
    rcases eq_or_ne c a with rfl | hc
    · rw [Accumulator.claim_claimed, update_self]
      exact (h.claimed_nonneg c).trans hx
    · rw [Accumulator.claim_claimed, update_of_ne hc]
      exact h.claimed_nonneg c
  · intro c
    rcases eq_or_ne c a with rfl | hc
    · rw [Accumulator.claim_claimed, update_self]
      exact hle.trans (h.earned_le c)
    · rw [Accumulator.claim_claimed, update_of_ne hc]
      exact h.claimed_le c

section

variable [IsStrictOrderedRing R]

/-- **Distributions.** The budget grows by what the accumulator adds to all stakes. -/
theorem Funded.advance (h : Funded P b budget) (hfinite : b.stake.HasFiniteSupport) (hi : 0 ≤ i)
    (hinc : 0 ≤ inc) (hle : i ≤ b.index + inc) (hamount : inc * ∑ᶠ a, b.stake a ≤ amount) :
    Funded P (b.advance i) (budget + amount) := by
  obtain ⟨entitled, h⟩ := h
  have hshare : (fun a => inc * b.stake a).HasFiniteSupport := by
    apply hfinite.subset
    intro a ha hzero
    exact ha (mul_eq_zero_of_right inc hzero)
  refine ⟨fun a => entitled a + inc * b.stake a, h.stake_nonneg, h.claimed_nonneg, hi, ?_, ?_,
    ?_, ?_⟩
  · intro a
    calc b.stake a * i ≤ b.stake a * (b.index + inc) :=
          mul_le_mul_of_nonneg_left hle (h.stake_nonneg a)
      _ = b.stake a * b.index + inc * b.stake a := by ring
      _ ≤ entitled a + inc * b.stake a := add_le_add_left (h.earned_le a) _
  · intro a
    exact (h.claimed_le a).trans
      (le_add_of_nonneg_right (mul_nonneg hinc (h.stake_nonneg a)))
  · exact h.finite.add hshare
  · rw [finsum_add_distrib h.finite hshare, ← mul_finsum]
    exact add_le_add h.total_le hamount

theorem Covers.finite_claimed (hP : 0 < P) (h : Covers P b entitled budget) :
    b.claimed.HasFiniteSupport := by
  apply h.finite.subset
  intro a ha hzero
  -- nothing was claimed by those who are entitled to nothing
  have hle := h.claimed_le a
  rw [hzero] at hle
  exact ha (le_antisymm (nonpos_of_mul_nonpos_left hle hP) (h.claimed_nonneg a))

theorem Funded.finite_claimed (hP : 0 < P) (h : Funded P b budget) :
    b.claimed.HasFiniteSupport := by
  obtain ⟨entitled, h⟩ := h
  exact h.finite_claimed hP

/-- **All claims together are within the budget.** -/
theorem Funded.total_claimed_le (hP : 0 < P) (h : Funded P b budget) :
    (∑ᶠ a, b.claimed a) * P ≤ budget := by
  obtain ⟨entitled, h⟩ := h
  have hfinite := h.finite_claimed hP
  have hscaled : (fun a => b.claimed a * P).HasFiniteSupport := by
    apply hfinite.subset
    intro a ha hzero
    exact ha (mul_eq_zero_of_left hzero P)
  rw [finsum_mul]
  exact (finsum_le_finsum' hscaled h.finite h.claimed_le).trans h.total_le

variable [DecidableEq A]

/-- **Changes of a stake.** A stake that is lowered needs no budget, nor does one that is raised to
no more than what its claims make up. -/
theorem Funded.restake (h : Funded P b budget) (hx : 0 ≤ x)
    (hle : x ≤ b.stake a ∨ x * b.index ≤ b.claimed a * P) :
    Funded P (b.restake a x) budget := by
  obtain ⟨entitled, h⟩ := h
  refine ⟨entitled, ?_, h.claimed_nonneg, h.index_nonneg, ?_, h.claimed_le, h.finite, h.total_le⟩
  · intro c
    rcases eq_or_ne c a with rfl | hc
    · rwa [Accumulator.restake_stake, update_self]
    · rw [Accumulator.restake_stake, update_of_ne hc]
      exact h.stake_nonneg c
  · intro c
    rcases eq_or_ne c a with rfl | hc
    · rw [Accumulator.restake_stake, update_self]
      rcases hle with hlower | hclaimed
      · exact (mul_le_mul_of_nonneg_right hlower h.index_nonneg).trans (h.earned_le c)
      · exact hclaimed.trans (h.claimed_le c)
    · rw [Accumulator.restake_stake, update_of_ne hc]
      exact h.earned_le c

/-- The total of the claims grows by what is claimed. -/
theorem Funded.total_claim (hP : 0 < P) (h : Funded P b budget) :
    ∑ᶠ c, (b.claim a x).claimed c = ∑ᶠ c, b.claimed c + (x - b.claimed a) := by
  have hcredit : (b.claim a x).claimed = credit b.claimed a (x - b.claimed a) := by
    rw [Accumulator.claim_claimed, credit, add_sub_cancel]
  rw [hcredit, finsum_credit (h.finite_claimed hP)]

end

end Accrual
