import Mathlib.Algebra.BigOperators.Group.List.Basic
import Mathlib.Algebra.Ring.Nat
import Mathlib.Data.List.Basic

/-!
# A list within a budget

Elements weigh something, and are dropped from the front of a list until the rest weighs no more
than a budget. What stays is known of each element for itself: it stays when the elements that do
not come before it, with itself, weigh no more than the budget.

## Main definitions

* `Budget.total w l`: what a list weighs
* `Budget.fit w budget l`: what stays of a list

## Main results

* `total_fit_le`: it is within the budget
* `mem_fit_iff`: which elements stay
-/

namespace Budget

variable {α : Type*} (w : α → ℕ) {budget : ℕ} {l : List α} {a : α}

/-- What a list weighs. -/
def total (l : List α) : ℕ := (l.map w).sum

/-- Drop elements from the front until the rest is within the budget. -/
def fit (budget : ℕ) : List α → List α
  | [] => []
  | a :: l => if total w (a :: l) ≤ budget then a :: l else fit budget l

@[simp] theorem total_nil : total w [] = 0 := rfl

@[simp] theorem total_cons : total w (a :: l) = w a + total w l := by simp [total]

theorem total_append (l m : List α) : total w (l ++ m) = total w l + total w m := by simp [total]

theorem total_perm {l m : List α} (h : l.Perm m) : total w l = total w m :=
  (h.map w).sum_eq

theorem total_filter_le (p : α → Bool) : total w (l.filter p) ≤ total w l := by
  induction l with
  | nil => simp
  | cons a l ih =>
    rw [List.filter_cons]
    split
    · simpa using ih
    · rw [total_cons]
      omega

theorem total_congr {w' : α → ℕ} (h : ∀ a ∈ l, w a = w' a) : total w l = total w' l := by
  rw [total, total, List.map_congr_left h]

theorem total_fit_le (budget : ℕ) (l : List α) : total w (fit w budget l) ≤ budget := by
  induction l with
  | nil => simp [fit]
  | cons a l ih =>
    unfold fit
    split
    · next h => exact h
    · exact ih

/-- What is dropped stood at the front. -/
theorem fit_suffix (budget : ℕ) (l : List α) : fit w budget l <:+ l := by
  induction l with
  | nil => exact List.suffix_refl _
  | cons a l ih =>
    unfold fit
    split
    · exact List.suffix_refl _
    · exact ih.trans (List.suffix_cons a l)

theorem fit_of_le (h : total w l ≤ budget) : fit w budget l = l := by
  cases l with
  | nil => rfl
  | cons a l => rw [fit, if_pos h]

/-- **Which elements stay**: those that are within the budget together with all that do not come
before them. -/
theorem mem_fit_iff {r : α → α → Prop} [DecidableRel r] [Std.Asymm r] (hsorted : l.Pairwise r) :
    a ∈ fit w budget l ↔ a ∈ l ∧ total w (l.filter fun x => ¬ r x a) ≤ budget := by
  induction l with
  | nil => simp [fit]
  | cons b l ih =>
    obtain ⟨hhead, htail⟩ := List.pairwise_cons.mp hsorted
    unfold fit
    split
    · next hle =>
      rw [iff_self_and]
      intro _
      exact Nat.le_trans (total_filter_le w _) hle
    · next hgt =>
      rw [ih htail, List.mem_cons]
      have hnot : ¬ r b b := fun h => Std.Asymm.asymm b b h h
      constructor
      · rintro ⟨ha, hle⟩
        -- the head comes before what stays
        rw [List.filter_cons_of_neg (by simpa using hhead a ha)]
        exact ⟨.inr ha, hle⟩
      · rintro ⟨rfl | ha, hle⟩
        · -- nothing comes before the head, so it would stay only if all did
          have hall : (a :: l).filter (fun x => ¬ r x a) = a :: l := by
            rw [List.filter_eq_self]
            rintro x (_ | ⟨_, hx⟩)
            · simpa using hnot
            · simpa using Std.Asymm.asymm a x (hhead x hx)
          rw [hall] at hle
          exact absurd hle hgt
        · rw [List.filter_cons_of_neg (by simpa using hhead a ha)] at hle
          exact ⟨ha, hle⟩

end Budget
