import Mathlib.Data.List.Basic
import Mathlib.Data.List.Count
import Mathlib.Data.List.Rotate
import Mathlib.Data.Option.Basic

/-!
# Loops that use something up

A loop that goes on as long as something is left, each of whose rounds leaves less. It carries the
proof that it ends, so that its result and its rounds obey the equations of the loop, with no bound
on the number of rounds.

## Main definitions

* `Loop`: what is left, and a round
* `Loop.final`, `Loop.starts`: the state at the end, and the states at which the rounds begin

## Main results

* `Loop.left_final`: at the end nothing is left
* `Loop.final_of_pos`, `Loop.starts_of_pos`: one round, and then the loop again
-/

/-- A loop that goes on as long as something is left. -/
structure Loop (σ : Type*) where
  left : σ → ℕ
  round : σ → σ
  left_round_lt : ∀ s, 0 < left s → left (round s) < left s

namespace Loop

variable {σ : Type*} (L : Loop σ)

/-- The state after at most the given number of rounds. -/
def finalWithin : ℕ → σ → σ
  | 0, s => s
  | n + 1, s => if 0 < L.left s then finalWithin n (L.round s) else s

/-- The states at which the first rounds begin. -/
def startsWithin : ℕ → σ → List σ
  | 0, _ => []
  | n + 1, s => if 0 < L.left s then s :: startsWithin n (L.round s) else []

/-- The state at the end. -/
def final (s : σ) : σ := L.finalWithin (L.left s) s

/-- The states at which the rounds begin. -/
def starts (s : σ) : List σ := L.startsWithin (L.left s) s

variable {L} {s : σ}

theorem finalWithin_of_left_eq_zero (h : L.left s = 0) (n : ℕ) : L.finalWithin n s = s := by
  cases n with
  | zero => rfl
  | succ n => rw [finalWithin, if_neg (by omega)]

theorem startsWithin_of_left_eq_zero (h : L.left s = 0) (n : ℕ) : L.startsWithin n s = [] := by
  cases n with
  | zero => rfl
  | succ n => rw [startsWithin, if_neg (by omega)]

/-- Rounds beyond what is left change nothing. -/
theorem finalWithin_eq {m n : ℕ} (hm : L.left s ≤ m) (hn : L.left s ≤ n) :
    L.finalWithin m s = L.finalWithin n s := by
  induction m generalizing s n with
  | zero => rw [finalWithin, finalWithin_of_left_eq_zero (Nat.le_zero.mp hm)]
  | succ m ih =>
    rcases Nat.eq_zero_or_pos (L.left s) with h0 | hpos
    · rw [finalWithin_of_left_eq_zero h0, finalWithin_of_left_eq_zero h0]
    · have hlt := L.left_round_lt s hpos
      obtain ⟨k, rfl⟩ := Nat.exists_eq_succ_of_ne_zero (show n ≠ 0 by omega)
      rw [finalWithin, finalWithin, if_pos hpos, if_pos hpos]
      exact ih (by omega) (by omega)

theorem startsWithin_eq {m n : ℕ} (hm : L.left s ≤ m) (hn : L.left s ≤ n) :
    L.startsWithin m s = L.startsWithin n s := by
  induction m generalizing s n with
  | zero => rw [startsWithin, startsWithin_of_left_eq_zero (Nat.le_zero.mp hm)]
  | succ m ih =>
    rcases Nat.eq_zero_or_pos (L.left s) with h0 | hpos
    · rw [startsWithin_of_left_eq_zero h0, startsWithin_of_left_eq_zero h0]
    · have hlt := L.left_round_lt s hpos
      obtain ⟨k, rfl⟩ := Nat.exists_eq_succ_of_ne_zero (show n ≠ 0 by omega)
      rw [startsWithin, startsWithin, if_pos hpos, if_pos hpos]
      exact congrArg _ (ih (by omega) (by omega))

theorem final_of_left_eq_zero (h : L.left s = 0) : L.final s = s := finalWithin_of_left_eq_zero h _

theorem starts_of_left_eq_zero (h : L.left s = 0) : L.starts s = [] :=
  startsWithin_of_left_eq_zero h _

theorem final_of_pos (h : 0 < L.left s) : L.final s = L.final (L.round s) := by
  have hlt := L.left_round_lt s h
  -- after one round, as many rounds remain as there was left before, less one
  obtain ⟨k, hk⟩ := Nat.exists_eq_succ_of_ne_zero (Nat.ne_of_gt h)
  rw [final, hk, finalWithin, if_pos h]
  exact finalWithin_eq (by omega) (Nat.le_refl _)

theorem starts_of_pos (h : 0 < L.left s) : L.starts s = s :: L.starts (L.round s) := by
  have hlt := L.left_round_lt s h
  obtain ⟨k, hk⟩ := Nat.exists_eq_succ_of_ne_zero (Nat.ne_of_gt h)
  rw [starts, hk, startsWithin, if_pos h]
  exact congrArg _ (startsWithin_eq (by omega) (Nat.le_refl _))

/-- At the end nothing is left. -/
theorem left_final (s : σ) : L.left (L.final s) = 0 := by
  induction hk : L.left s using Nat.strongRecOn generalizing s with
  | _ k ih =>
    rcases Nat.eq_zero_or_pos (L.left s) with h0 | hpos
    · rw [final_of_left_eq_zero h0, h0]
    · -- less is left after the round
      rw [final_of_pos hpos]
      exact ih _ (hk ▸ L.left_round_lt s hpos) _ rfl

end Loop

/-!
# Turns

The elements of a list take turns: a counter goes up by one, and its remainder is the number of the
element whose turn it is.

## Main results

* `Turns.count_map_turn`: in `m` times as many turns as there are elements, each has `m` turns
-/

namespace Turns

variable {α : Type*} {l : List α} {c n m : ℕ}

/-- The element whose turn it is. -/
def turn (l : List α) (c : ℕ) : Option α := l[c % l.length]?

/-- One round, from wherever it starts. -/
theorem map_turn_range (l : List α) (c : ℕ) :
    (List.range l.length).map (fun k => turn l (c + k)) = (l.rotate c).map some := by
  refine List.ext_getElem (by simp) fun k hk hk' => ?_
  have hlength : k < l.length := by simpa using hk
  have hlt : (c + k) % l.length < l.length := Nat.mod_lt _ (by omega)
  simp only [List.getElem_map, List.getElem_range, List.getElem_rotate, turn]
  rw [List.getElem?_eq_getElem hlt]
  simp only [Nat.add_comm c k]

theorem count_map_turn [DecidableEq α] (l : List α) (c m : ℕ) (a : α) :
    ((List.range (m * l.length)).map fun k => turn l (c + k)).count (some a) = m * l.count a := by
  induction m with
  | zero => simp
  | succ m ih =>
    have hround : ((List.range l.length).map fun k => turn l (c + (m * l.length + k))).count
        (some a) = l.count a := by
      simp only [← Nat.add_assoc]
      rw [map_turn_range, List.count_map_of_injective _ _ (Option.some_injective α),
        (List.rotate_perm l _).count_eq]
    rw [Nat.succ_mul, List.range_add, List.map_append, List.map_map, List.count_append, ih,
      Nat.succ_mul]
    exact congrArg _ hround

end Turns
