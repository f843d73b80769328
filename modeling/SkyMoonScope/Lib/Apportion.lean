import Mathlib.Algebra.Order.BigOperators.Group.List
import Mathlib.Tactic.Linarith

/-!
# Splitting an amount by weights

An amount is split in proportion to weights, of which `total` would be all of it. Every part is
rounded down, and the last entry that has a weight takes what is left. The parts before it take no
more than their proportion, so that at least its own is left.

## Main definitions

* `parts amount total remaining weights`: the parts, where `remaining` is left of the amount
* `Last weights i`: no entry after the one at `i` has a weight

## Main results

* `sum_parts`: the parts are all that is left
* `parts_nonneg`: no part is negative
* `part_eq`: a part before the last is its proportion, rounded down
-/

namespace Apportion

/-- The parts for a list of weights, of which the last that is not zero takes what is left. -/
def parts (amount : ℤ) (total : ℕ) (remaining : ℤ) : List ℕ → List ℤ
  | [] => []
  | weight :: weights =>
    let part :=
      if weight = 0 then 0
      else if ∀ w ∈ weights, w = 0 then remaining
      else amount * weight / total
    part :: parts amount total (remaining - part) weights

/-- No entry after the one at `i` has a weight. -/
def Last (weights : List ℕ) (i : ℕ) : Prop := ∀ w ∈ weights.drop (i + 1), w = 0

variable {amount remaining part : ℤ} {total weight : ℕ} {weights : List ℕ} {i : ℕ}

@[simp] theorem length_parts : (parts amount total remaining weights).length = weights.length := by
  induction weights generalizing remaining with
  | nil => rfl
  | cons weight weights ih => rw [parts, List.length_cons, List.length_cons, ih]

/-- Where nothing has a weight, nothing is given. -/
theorem parts_of_zero (h : ∀ w ∈ weights, w = 0) :
    parts amount total remaining weights = List.replicate weights.length 0 := by
  induction weights generalizing remaining with
  | nil => rfl
  | cons weight weights ih =>
    have hweight := h weight List.mem_cons_self
    have hrest : parts amount total (remaining - 0) weights = List.replicate weights.length 0 :=
      ih fun w hw => h w (List.mem_cons_of_mem _ hw)
    simp only [parts, if_pos hweight, hrest, List.length_cons, List.replicate_succ]

/-- **The parts are all that is left**, where anything has a weight. -/
theorem sum_parts (h : ∃ w ∈ weights, w ≠ 0) :
    (parts amount total remaining weights).sum = remaining := by
  induction weights generalizing remaining with
  | nil =>
    obtain ⟨w, hw, -⟩ := h
    exact absurd hw List.not_mem_nil
  | cons weight weights ih =>
    rw [parts, List.sum_cons]
    by_cases hrest : ∀ w ∈ weights, w = 0
    · -- the head is the last one that has a weight
      have hweight : weight ≠ 0 := by
        obtain ⟨w, hw, hne⟩ := h
        rcases List.mem_cons.mp hw with rfl | hw
        · exact hne
        · exact absurd (hrest w hw) hne
      have hnothing : (List.replicate weights.length (0 : ℤ)).sum = 0 := by simp
      rw [parts_of_zero hrest, if_neg hweight, if_pos hrest, hnothing, add_zero]
    · have hexists : ∃ w ∈ weights, w ≠ 0 := by
        by_contra hnone
        exact hrest fun w hw => not_not.mp fun hne => hnone ⟨w, hw, hne⟩
      -- the rest gives all that the head has left
      rw [ih hexists, add_sub_cancel]

/-- The proportion of an entry leaves those of the others. -/
theorem le_sub_part (htotal : 0 < total)
    (h : amount * ((weight :: weights).sum : ℕ) ≤ remaining * total) :
    amount * (weights.sum : ℕ) ≤ (remaining - amount * weight / total) * total := by
  have hround : amount * weight / total * total ≤ amount * weight :=
    Int.ediv_mul_le _ (by omega)
  rw [List.sum_cons, Nat.cast_add, mul_add] at h
  rw [sub_mul]
  linarith

/-- **No part is negative**, where the proportions of all entries are left. -/
theorem parts_nonneg (htotal : 0 < total) (hamount : 0 ≤ amount)
    (h : amount * (weights.sum : ℕ) ≤ remaining * total) :
    ∀ part ∈ parts amount total remaining weights, 0 ≤ part := by
  induction weights generalizing remaining with
  | nil => exact fun _ hpart => absurd hpart List.not_mem_nil
  | cons weight weights ih =>
    have hremaining : 0 ≤ remaining := by
      have hsum : (0 : ℤ) ≤ amount * ((weight :: weights).sum : ℕ) :=
        mul_nonneg hamount (Int.natCast_nonneg _)
      -- what is left covers proportions, and these are not negative
      exact nonneg_of_mul_nonneg_left (hsum.trans h) (by exact_mod_cast htotal)
    intro part hpart
    rw [parts] at hpart
    rcases List.mem_cons.mp hpart with rfl | hpart
    · split
      · exact le_rfl
      · split
        · exact hremaining
        · exact Int.ediv_nonneg (mul_nonneg hamount (Int.natCast_nonneg _)) (Int.natCast_nonneg _)
    · split at hpart
      next hweight =>
        -- a head without a weight takes nothing
        refine ih ?_ part hpart
        rwa [hweight, List.sum_cons, Nat.zero_add, ← sub_zero remaining] at h
      next =>
        split at hpart
        next hrest =>
          -- behind the last one nothing is given
          rw [parts_of_zero hrest] at hpart
          exact (List.eq_of_mem_replicate hpart).ge
        -- the head took its proportion, which leaves those of the rest
        next => exact ih (le_sub_part htotal h) part hpart

/-- An entry without a weight is given nothing. -/
theorem part_eq_zero (hweight : weights[i]? = some 0)
    (hpart : (parts amount total remaining weights)[i]? = some part) : part = 0 := by
  induction weights generalizing remaining i with
  | nil => simp at hweight
  | cons weight weights ih =>
    rw [parts] at hpart
    cases i with
    | zero =>
      obtain rfl : weight = 0 := by simpa using hweight
      simpa using hpart.symm
    | succ i => exact ih (by simpa using hweight) (by simpa using hpart)

/-- **A part before the last** is its proportion, rounded down. -/
theorem part_eq (hweight : weights[i]? = some weight) (hlast : ¬Last weights i)
    (hpart : (parts amount total remaining weights)[i]? = some part) :
    part = amount * weight / total := by
  induction weights generalizing remaining i with
  | nil => simp at hweight
  | cons head weights ih =>
    rw [parts] at hpart
    cases i with
    | zero =>
      obtain rfl : head = weight := by simpa using hweight
      have hrest : ¬∀ w ∈ weights, w = 0 := hlast
      rw [if_neg hrest] at hpart
      have hpart : (if head = 0 then 0 else amount * head / total) = part := by simpa using hpart
      rw [← hpart]
      split
      next hzero => simp [hzero]
      next => rfl
    | succ i => exact ih (by simpa using hweight) hlast (by simpa using hpart)

end Apportion
