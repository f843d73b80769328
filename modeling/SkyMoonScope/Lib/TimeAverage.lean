import Mathlib.Algebra.Order.Ring.Nat
import Mathlib.Data.List.Chain
import Mathlib.Data.Nat.Basic
import Mathlib.Tactic.Linarith

/-!
# Averages over time

A value is observed now and then and holds until the next observation. Its integral is the sum, over
consecutive observations, of the value times the time up to the next one; divided by the time from
the first to the last observation it is the average, which lies between the values.

## Main definitions

* `integral xs`: the integral of the observations `xs`, each a value and its time
* `span xs`: the time from the first to the last observation

## Main results

* `integral_concat`, `span_concat`: one more observation
* `exists_le_average`, `exists_average_le`: the average lies between two of the values
-/

namespace TimeAverage

/-- The sum of the values, each times the time up to the next observation. -/
def integral : List (ℕ × ℕ) → ℕ
  | x :: y :: xs => x.1 * (y.2 - x.2) + integral (y :: xs)
  | _ => 0

/-- The time from the first to the last observation. -/
def span (xs : List (ℕ × ℕ)) : ℕ :=
  (xs.getLast?.map Prod.snd).getD 0 - (xs.head?.map Prod.snd).getD 0

/-- The times do not decrease. -/
def Ordered (xs : List (ℕ × ℕ)) : Prop := xs.Pairwise fun x y => x.2 ≤ y.2

variable {xs : List (ℕ × ℕ)} {x y : ℕ × ℕ} {v : ℕ}

/-- **One more observation** adds the value that held up to it. -/
theorem integral_concat (hx : xs.getLast? = some x) (y : ℕ × ℕ) :
    integral (xs ++ [y]) = integral xs + x.1 * (y.2 - x.2) := by
  induction xs using integral.induct with
  | case1 z w xs ih =>
    rw [List.getLast?_cons_cons] at hx
    have hrest := ih hx
    rw [List.cons_append] at hrest
    simp only [List.cons_append, integral, hrest, Nat.add_assoc]
  | case2 xs hxs =>
    -- at most one observation, which is the last one
    match xs, hxs, hx with
    | [], _, hx => cases hx
    | [z], _, hx =>
      obtain rfl := Option.some.inj hx
      simp [integral]
    | z :: w :: xs, hxs, _ => exact absurd rfl (hxs z w xs)

/-- No time passes from the first observation to the last of one. -/
theorem span_singleton (x : ℕ × ℕ) : span [x] = 0 := Nat.sub_self x.2

/-- The span up to one more observation. -/
theorem span_concat (hx : xs.getLast? = some x) (h : Ordered (xs ++ [y])) :
    span (xs ++ [y]) = span xs + (y.2 - x.2) := by
  obtain ⟨z, zs, rfl⟩ : ∃ z zs, xs = z :: zs := by
    cases xs with
    | nil => cases hx
    | cons z zs => exact ⟨z, zs, rfl⟩
  obtain ⟨hxs, -, hlast⟩ := List.pairwise_append.mp h
  have hxy : x.2 ≤ y.2 := hlast x (List.mem_of_getLast? hx) y (List.mem_singleton_self y)
  have hzx : z.2 ≤ x.2 := by
    rcases List.mem_cons.mp (List.mem_of_getLast? hx) with rfl | hmem
    · exact le_rfl
    · exact (List.pairwise_cons.mp hxs).1 x hmem
  have hy : (z :: zs ++ [y]).getLast? = some y := List.getLast?_concat
  have hz : (z :: zs ++ [y]).head? = some z := rfl
  simp only [span, hx, hy, hz, List.head?_cons, Option.map_some, Option.getD_some]
  omega

/-- The integral is at most the span times a bound of the values. -/
theorem integral_le (h : Ordered xs) (hv : ∀ x ∈ xs, x.1 ≤ v) : integral xs ≤ v * span xs := by
  induction xs using List.reverseRecOn with
  | nil => simp [integral]
  | append_singleton xs y ih =>
    obtain ⟨hxs, -, -⟩ := List.pairwise_append.mp h
    have ih := ih hxs fun x hx => hv x (List.mem_append_left [y] hx)
    cases hlast : xs.getLast? with
    | none =>
      obtain rfl := List.getLast?_eq_none_iff.mp hlast
      simp [integral]
    | some x =>
      have hx : x.1 ≤ v := hv x (List.mem_append_left [y] (List.mem_of_getLast? hlast))
      rw [integral_concat hlast, span_concat hlast h, Nat.mul_add]
      exact Nat.add_le_add ih (Nat.mul_le_mul_right _ hx)

/-- The integral is at least the span times a lower bound of the values. -/
theorem le_integral (h : Ordered xs) (hv : ∀ x ∈ xs, v ≤ x.1) : v * span xs ≤ integral xs := by
  induction xs using List.reverseRecOn with
  | nil => simp [span]
  | append_singleton xs y ih =>
    obtain ⟨hxs, -, -⟩ := List.pairwise_append.mp h
    have ih := ih hxs fun x hx => hv x (List.mem_append_left [y] hx)
    cases hlast : xs.getLast? with
    | none =>
      obtain rfl := List.getLast?_eq_none_iff.mp hlast
      simp [span]
    | some x =>
      have hx : v ≤ x.1 := hv x (List.mem_append_left [y] (List.mem_of_getLast? hlast))
      rw [integral_concat hlast, span_concat hlast h, Nat.mul_add]
      exact Nat.add_le_add ih (Nat.mul_le_mul_right _ hx)

/-- **The average is at most one of the values.** -/
theorem exists_average_le (h : Ordered xs) (hspan : 0 < span xs) :
    ∃ x ∈ xs, integral xs / span xs ≤ x.1 := by
  by_contra hnone
  push Not at hnone
  obtain ⟨x, hx⟩ : ∃ x, x ∈ xs := by
    cases xs with
    | nil => cases hspan
    | cons x xs => exact ⟨x, List.mem_cons_self⟩
  -- all values are at most one less than the quotient
  have hpos : 0 < integral xs / span xs := (Nat.zero_le x.1).trans_lt (hnone x hx)
  have hle := integral_le h fun x hx => Nat.le_sub_one_of_lt (hnone x hx)
  have hlt : (integral xs / span xs - 1) * span xs < integral xs / span xs * span xs :=
    Nat.mul_lt_mul_of_pos_right (Nat.sub_one_lt hpos.ne') hspan
  exact absurd (hle.trans_lt hlt) (not_lt.mpr (Nat.div_mul_le_self _ _))

/-- **The average is at least one of the values.** -/
theorem exists_le_average (h : Ordered xs) (hspan : 0 < span xs) :
    ∃ x ∈ xs, x.1 ≤ integral xs / span xs := by
  by_contra hnone
  push Not at hnone
  have hle := le_integral h fun x hx => Nat.succ_le_of_lt (hnone x hx)
  refine absurd hle (not_le.mpr ?_)
  rw [Nat.mul_comm]
  exact Nat.lt_mul_div_succ _ hspan

end TimeAverage
