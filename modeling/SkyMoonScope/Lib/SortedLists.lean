import Mathlib.Data.List.Sort
import Mathlib.Order.Lattice

/-!
# Places in a sorted list

More than half of the elements of a sorted list are on the right side of a bound, so the elements in
its middle are as well, whatever the other elements are.

The first `n` elements of an order are those that fewer than `n` others come before. Which they are
does not depend on where they stand in a list. They stand at the front of a list that is sorted by
the order, and at the back of one that is sorted the other way round.

## Main definitions

* `Ranks.firsts r n l`: the elements that fewer than `n` others come before

## Main results

* `Median.le_middle_of_majority`, `Median.middle_le_of_majority`: the middle against a bound of the
  majority
* `Ranks.firsts_eq_take`, `Ranks.firsts_swap_eq_drop`: where the first elements stand
-/

namespace Median

variable {α : Type*} [LinearOrder α] {l : List α} {p : α → Bool} {b : α} {i : ℕ}

/-- **The middle is not below a bound** that more than half of the elements keep. -/
theorem le_middle_of_majority (hsorted : l.Pairwise (· ≤ ·)) (hp : ∀ x ∈ l, p x = true → b ≤ x)
    (hmajority : l.length < 2 * l.countP p) (hmiddle : l.length ≤ 2 * i + 2)
    (hlt : i < l.length) : b ≤ l[i] := by
  by_contra hbelow
  rw [not_le] at hbelow
  -- the elements up to the middle are below the bound, so they are not in the majority
  have hfirst : (l.take (i + 1)).countP p = 0 := by
    rw [List.countP_eq_zero]
    intro x hx hpx
    obtain ⟨j, hj, rfl⟩ := List.mem_iff_getElem.mp hx
    rw [List.length_take] at hj
    rw [List.getElem_take] at hpx
    have hle : l[j] ≤ l[i] := by
      rcases Nat.lt_or_eq_of_le (show j ≤ i by omega) with hji | rfl
      · exact List.pairwise_iff_getElem.mp hsorted j i (by omega) hlt hji
      · exact le_rfl
    exact absurd (hp _ (List.getElem_mem _) hpx) (not_le.mpr (hle.trans_lt hbelow))
  have hrest := List.countP_le_length (p := p) (l := l.drop (i + 1))
  rw [← List.take_append_drop (i + 1) l, List.countP_append, hfirst,
    List.take_append_drop] at hmajority
  rw [List.length_drop] at hrest
  omega

/-- **The middle is not above a bound** that more than half of the elements keep. -/
theorem middle_le_of_majority (hsorted : l.Pairwise (· ≤ ·)) (hp : ∀ x ∈ l, p x = true → x ≤ b)
    (hmajority : l.length < 2 * l.countP p) (hmiddle : 2 * i ≤ l.length)
    (hlt : i < l.length) : l[i] ≤ b := by
  by_contra habove
  rw [not_le] at habove
  have hlast : (l.drop i).countP p = 0 := by
    rw [List.countP_eq_zero]
    intro x hx hpx
    obtain ⟨j, hj, rfl⟩ := List.mem_iff_getElem.mp hx
    rw [List.length_drop] at hj
    rw [List.getElem_drop] at hpx
    have hle : l[i] ≤ l[i + j] := by
      rcases Nat.eq_zero_or_pos j with rfl | hj0
      · exact le_rfl
      · exact List.pairwise_iff_getElem.mp hsorted i (i + j) hlt (by omega) (by omega)
    exact absurd (hp _ (List.getElem_mem _) hpx) (not_le.mpr (habove.trans_le hle))
  have hfirst := List.countP_le_length (p := p) (l := l.take i)
  rw [← List.take_append_drop i l, List.countP_append, hlast, List.take_append_drop,
    Nat.add_zero] at hmajority
  rw [List.length_take] at hfirst
  omega

end Median

namespace Ranks

variable {α : Type*} {r : α → α → Prop} [DecidableRel r] {l : List α} {a : α}

/-- The elements of a list that fewer than `n` of its elements come before. -/
def firsts (r : α → α → Prop) [DecidableRel r] (n : ℕ) (l : List α) : List α :=
  l.filter fun a => l.countP (fun b => r b a) < n

variable [Std.Asymm r]

/-- Nothing comes before the head of a sorted list. -/
theorem countP_head (h : (a :: l).Pairwise r) : (a :: l).countP (fun b => r b a) = 0 := by
  rw [List.countP_eq_zero]
  rintro b (_ | ⟨_, hb⟩)
  · simpa using Std.Asymm.asymm a a
  · have hab := (List.pairwise_cons.mp h).1 b hb
    simpa using Std.Asymm.asymm a b hab

theorem firsts_eq_take (h : l.Pairwise r) (n : ℕ) : firsts r n l = l.take n := by
  induction l generalizing n with
  | nil => simp [firsts]
  | cons a l ih =>
    have hhead := (List.pairwise_cons.mp h).1
    cases n with
    | zero => simp [firsts]
    | succ n =>
      -- each of the others has the head before it, besides what it has in the tail
      have htail : l.filter (fun x => (a :: l).countP (fun b => r b x) < n + 1) = firsts r n l := by
        refine List.filter_congr fun x hx => ?_
        simp [hhead x hx]
      rw [firsts, List.filter_cons, countP_head h, htail, ih h.of_cons]
      simp

theorem firsts_swap_eq_drop (h : l.Pairwise r) (n : ℕ) :
    firsts (fun a b => r b a) n l = l.drop (l.length - n) := by
  have hrev : l.reverse.Pairwise fun a b => r b a := List.pairwise_reverse.mpr h
  have : Std.Asymm fun a b => r b a := ⟨fun a b hab => Std.Asymm.asymm b a hab⟩
  have hcount :
      (firsts (fun a b => r b a) n l).reverse = firsts (fun a b => r b a) n l.reverse := by
    simp only [firsts, List.countP_reverse, List.filter_reverse]
  rw [← List.reverse_inj, hcount, firsts_eq_take hrev, List.take_reverse]

end Ranks

/-!
# Sets as sorted lists

A list that is sorted, and of which repeated elements are dropped, depends on nothing but the set of
its elements.

## Main definitions

* `Canonical.dedup l`: the list without the elements that repeat the one before

## Main results

* `Canonical.sort_dedup_eq_iff`: two lists have the same elements exactly when they are equal after
  sorting and dropping
-/

namespace Canonical

variable {α : Type*} [LinearOrder α] {l m : List α} {a : α}

/-- Drop the elements that repeat the one before. -/
def dedup : List α → List α
  | [] => []
  | [a] => [a]
  | a :: b :: l => if a = b then dedup (b :: l) else a :: dedup (b :: l)

theorem mem_dedup : a ∈ dedup l ↔ a ∈ l := by
  induction l using dedup.induct with
  | case1 => rfl
  | case2 b => rfl
  | case3 b l ih =>
    rw [dedup, if_pos rfl, ih]
    simp
  | case4 b c l hne ih => rw [dedup, if_neg hne, List.mem_cons, ih, ← List.mem_cons]

theorem pairwise_dedup (h : l.Pairwise (· ≤ ·)) : (dedup l).Pairwise (· < ·) := by
  induction l using dedup.induct with
  | case1 => exact List.Pairwise.nil
  | case2 b => exact List.pairwise_singleton _ _
  | case3 b l ih =>
    rw [dedup, if_pos rfl]
    exact ih h.of_cons
  | case4 b c l hne ih =>
    obtain ⟨hhead, htail⟩ := List.pairwise_cons.mp h
    rw [dedup, if_neg hne]
    refine List.pairwise_cons.mpr ⟨fun x hx => ?_, ih htail⟩
    -- what follows is not below the second element, which is above the first
    have hbc : b < c := lt_of_le_of_ne (hhead c (List.mem_cons_self ..)) hne
    rcases List.mem_cons.mp (mem_dedup.mp hx) with rfl | hx
    · exact hbc
    · exact hbc.trans_le ((List.pairwise_cons.mp htail).1 x hx)

/-- Strictly sorted lists with the same elements are equal. -/
theorem eq_of_mem_iff (hl : l.Pairwise (· < ·)) (hm : m.Pairwise (· < ·))
    (h : ∀ a, a ∈ l ↔ a ∈ m) : l = m := by
  have hperm : l.Perm m :=
    (List.perm_ext_iff_of_nodup (hl.imp fun h => h.ne) (hm.imp fun h => h.ne)).mpr h
  exact hperm.eq_of_pairwise (fun a b _ _ hab hba => absurd hba (lt_asymm hab)) hl hm

theorem sort_dedup_eq_iff :
    dedup (l.insertionSort (· ≤ ·)) = dedup (m.insertionSort (· ≤ ·)) ↔ ∀ a, a ∈ l ↔ a ∈ m := by
  have hmem : ∀ (l : List α) a, a ∈ dedup (l.insertionSort (· ≤ ·)) ↔ a ∈ l := fun l a =>
    mem_dedup.trans (List.perm_insertionSort _ l).mem_iff
  constructor
  · intro h a
    rw [← hmem l, h, hmem m]
  · intro h
    refine eq_of_mem_iff (pairwise_dedup (List.pairwise_insertionSort _ l))
      (pairwise_dedup (List.pairwise_insertionSort _ m)) fun a => ?_
    rw [hmem l, hmem m, h]

end Canonical
