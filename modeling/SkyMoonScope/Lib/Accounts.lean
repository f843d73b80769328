import Mathlib.Algebra.BigOperators.Finprod
import Mathlib.Algebra.Order.Ring.Int
import Mathlib.Tactic.Linarith

/-!
# Accounts

Balances of accounts are a function with finite support into an additive group, and their total is
its finite sum. Whatever is posted to an account changes the total by as much, and what is moved
between two accounts does not change it, also where the two are one.

## Main definitions

* `credit f a x`: the balances after `x` was added to the account `a`
* `move f a b x`: the balances after `x` was taken from `a` and then given to `b`

## Main results

* `finsum_credit`: the total grows by what is credited
* `finsum_move`: the total is kept by what is moved
* `move_self`: a move within one account does nothing
* `credit_lt_iff`, `move_lt_iff`: the accounts that are debited
* `credit_nonneg_iff`, `move_nonneg_iff`: when no balance becomes negative
-/

namespace Accounts

open Function

variable {A M : Type*} [DecidableEq A] [AddCommGroup M]

/-- The balances after `x` was added to the account `a`. -/
def credit (f : A → M) (a : A) (x : M) : A → M := update f a (f a + x)

/-- The balances after `x` was taken from `a` and then given to `b`. -/
def move (f : A → M) (a b : A) (x : M) : A → M := credit (credit f a (-x)) b x

variable {f : A → M} {a b c : A} {x : M}

@[simp] theorem credit_self : credit f a x a = f a + x := update_self ..

@[simp] theorem credit_of_ne (h : b ≠ a) : credit f a x b = f b := update_of_ne h ..

theorem credit_eq_add : credit f a x = f + Pi.single a x := by
  ext b
  by_cases h : b = a
  · subst h
    simp
  · simp [h]

theorem hasFiniteSupport_credit (hf : f.HasFiniteSupport) :
    (credit f a x).HasFiniteSupport := by
  apply (hf.insert a).subset
  intro b hb
  by_cases h : b = a
  · exact .inl h
  · rw [mem_support, credit_of_ne h] at hb
    exact .inr hb

theorem hasFiniteSupport_move (hf : f.HasFiniteSupport) : (move f a b x).HasFiniteSupport :=
  hasFiniteSupport_credit (hasFiniteSupport_credit hf)

/-- **The total grows by what is credited.** -/
theorem finsum_credit (hf : f.HasFiniteSupport) :
    ∑ᶠ b, credit f a x b = ∑ᶠ b, f b + x := by
  have hsingle : ∑ᶠ b, (Pi.single a x : A → M) b = x := by
    rw [finsum_eq_single _ a fun b hb => by simp [hb], Pi.single_eq_same]
  have hfinite : (Pi.single a x : A → M).HasFiniteSupport :=
    (Set.finite_singleton a).subset Pi.support_single_subset
  rw [credit_eq_add]
  simp only [Pi.add_apply]
  rw [finsum_add_distrib hf hfinite, hsingle]

/-- **The total is kept by what is moved**, also from an account to itself. -/
theorem finsum_move (hf : f.HasFiniteSupport) : ∑ᶠ c, move f a b x c = ∑ᶠ c, f c := by
  rw [move, finsum_credit (hasFiniteSupport_credit hf), finsum_credit hf, neg_add_cancel_right]

@[simp] theorem move_self : move f a a x = f := by
  ext b
  rw [move, credit_eq_add, credit_eq_add, add_assoc, ← Pi.single_add, neg_add_cancel,
    Pi.single_zero, add_zero]

theorem move_source (h : a ≠ b) : move f a b x a = f a - x := by
  rw [move, credit_of_ne h, credit_self, sub_eq_add_neg]

theorem move_destination (h : a ≠ b) : move f a b x b = f b + x := by
  rw [move, credit_self, credit_of_ne h.symm]

theorem move_of_ne (ha : c ≠ a) (hb : c ≠ b) : move f a b x c = f c := by
  rw [move, credit_of_ne hb, credit_of_ne ha]

/-! ## Which accounts are debited -/

section Order

variable {f : A → ℤ} {x : ℤ}

/-- Crediting debits only the account itself, and only a negative amount does. -/
theorem credit_lt_iff : credit f a x c < f c ↔ c = a ∧ x < 0 := by
  by_cases h : c = a
  · subst h
    rw [credit_self]
    constructor
    · exact fun hlt => ⟨rfl, by linarith⟩
    · exact fun ⟨_, hlt⟩ => by linarith
  · rw [credit_of_ne h]
    exact ⟨fun hlt => absurd hlt (lt_irrefl _), fun ⟨ha, _⟩ => absurd ha h⟩

/-- Balances that are not negative stay so just when the credited one does. -/
theorem credit_nonneg_iff (hf : ∀ c, 0 ≤ f c) : (∀ c, 0 ≤ credit f a x c) ↔ 0 ≤ f a + x := by
  constructor
  · intro h
    have ha := h a
    rwa [credit_self] at ha
  · intro h c
    by_cases hc : c = a
    · subst hc
      rwa [credit_self]
    · rw [credit_of_ne hc]
      exact hf c

/-- A move debits its source, or its destination where the amount is negative. -/
theorem move_lt_iff (hab : a ≠ b) : move f a b x c < f c ↔ c = a ∧ 0 < x ∨ c = b ∧ x < 0 := by
  by_cases ha : c = a
  · subst ha
    rw [move_source hab]
    constructor
    · exact fun hlt => .inl ⟨rfl, by linarith⟩
    · rintro (⟨-, hx⟩ | ⟨hb, -⟩)
      · linarith
      · exact absurd hb hab
  · by_cases hb : c = b
    · subst hb
      rw [move_destination hab]
      constructor
      · exact fun hlt => .inr ⟨rfl, by linarith⟩
      · rintro (⟨hc, -⟩ | ⟨-, hx⟩)
        · exact absurd hc ha
        · linarith
    · rw [move_of_ne ha hb]
      constructor
      · exact fun hlt => absurd hlt (lt_irrefl _)
      · rintro (⟨hc, -⟩ | ⟨hc, -⟩)
        · exact absurd hc ha
        · exact absurd hc hb

/-- A move of an amount that is not negative lowers no account but its source. -/
theorem le_move (hc : c ≠ a) (hx : 0 ≤ x) : f c ≤ move f a b x c := by
  by_cases hcb : c = b
  · subst hcb
    rw [move_destination hc.symm]
    linarith
  · rw [move_of_ne hc hcb]

/-- Balances that are not negative stay so just when the two of the move do. -/
theorem move_nonneg_iff (hf : ∀ c, 0 ≤ f c) (hab : a ≠ b) :
    (∀ c, 0 ≤ move f a b x c) ↔ 0 ≤ f a - x ∧ 0 ≤ f b + x := by
  constructor
  · intro h
    have ha := h a
    have hb := h b
    rw [move_source hab] at ha
    rw [move_destination hab] at hb
    exact ⟨ha, hb⟩
  · rintro ⟨ha, hb⟩ c
    by_cases hca : c = a
    · subst hca
      rwa [move_source hab]
    · by_cases hcb : c = b
      · subst hcb
        rwa [move_destination hab]
      · rw [move_of_ne hca hcb]
        exact hf c

end Order

end Accounts
