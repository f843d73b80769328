import Mathlib.Data.List.Count
import Mathlib.Data.List.Perm.Basic

/-!
# Pools of tagged tasks

A pool is a list of tasks under way, each tagged with the key it works on. Several tasks may work on
one key. A task is addressed by its position; it is updated in place and leaves by being erased.

## Main definitions

* `Pool.running pool k`: the number of tasks on the key `k`

## Main results

* `Pool.running_set`, `Pool.running_eraseIdx`: an update keeps the numbers, a task that leaves
  lowers the number of its key by one
* `Pool.mem_set_or_eq`, `Pool.mem_eraseIdx_or_eq`: the other tasks remain
* `Pool.countP_set_add`, `Pool.countP_eraseIdx_add`: how an update and a task that leaves change the
  number of tasks that pass a test
* `Pool.not_of_countP_le_one`: when at most one task passes, the others do not
-/

namespace Pool

variable {κ τ α : Type*}

/-- Updating a position keeps all elements but the one that stood there. -/
theorem mem_set_or_eq {l : List α} {i : ℕ} {x y : α} (hy : l[i]? = some y) (hx : x ∈ l) (z : α) :
    x ∈ l.set i z ∨ x = y := by
  obtain ⟨j, hj⟩ := List.mem_iff_getElem?.mp hx
  rcases eq_or_ne i j with rfl | hij
  · exact .inr (Option.some.inj (hj.symm.trans hy))
  · exact .inl (List.mem_iff_getElem?.mpr ⟨j, by rw [List.getElem?_set_ne hij, hj]⟩)

/-- Erasing a position keeps all elements but the one that stood there. -/
theorem mem_eraseIdx_or_eq {l : List α} {i : ℕ} {x y : α} (hy : l[i]? = some y) (hx : x ∈ l) :
    x ∈ l.eraseIdx i ∨ x = y := by
  obtain ⟨j, hj⟩ := List.mem_iff_getElem?.mp hx
  rcases eq_or_ne j i with rfl | hij
  · exact .inr (Option.some.inj (hj.symm.trans hy))
  · exact .inl (List.mem_eraseIdx_iff_getElem?.mpr ⟨j, hij, hj⟩)

/-- An updated pool holds the new task and the other tasks. -/
theorem mem_set_iff {l : List α} {i : ℕ} {y : α} (hy : l[i]? = some y) (x z : α) :
    x ∈ l.set i z ↔ x = z ∨ x ∈ l.eraseIdx i := by
  obtain ⟨hi, -⟩ := List.getElem?_eq_some_iff.mp hy
  rw [(List.set_perm_cons_eraseIdx hi z).mem_iff, List.mem_cons]

section Counting

variable {l : List α} {i : ℕ} {x y : α} {P : α → Bool}

/-- A task that leaves lowers the number of those that pass a test, if it passes itself. -/
theorem countP_eraseIdx_add (hy : l[i]? = some y) :
    (l.eraseIdx i).countP P + (if P y then 1 else 0) = l.countP P := by
  obtain ⟨hi, hl⟩ := List.getElem?_eq_some_iff.mp hy
  rw [← (List.getElem_cons_eraseIdx_perm hi).countP_eq, List.countP_cons, hl]

/-- An update counts the new task in place of the old one. -/
theorem countP_set_add (hy : l[i]? = some y) (z : α) :
    (l.set i z).countP P + (if P y then 1 else 0) = l.countP P + (if P z then 1 else 0) := by
  obtain ⟨hi, -⟩ := List.getElem?_eq_some_iff.mp hy
  rw [(List.set_perm_cons_eraseIdx hi z).countP_eq, List.countP_cons, ← countP_eraseIdx_add hy]
  omega

/-- When at most one task passes a test and this one does, the others do not. -/
theorem not_of_countP_le_one (hl : l.countP P ≤ 1) (hy : l[i]? = some y) (hP : P y = true)
    (hx : x ∈ l.eraseIdx i) : P x = false := by
  have hcount := countP_eraseIdx_add (P := P) hy
  rw [if_pos hP] at hcount
  have hzero : (l.eraseIdx i).countP P = 0 := by omega
  simpa using List.countP_eq_zero.mp hzero x hx

end Counting

variable [DecidableEq κ]

/-- The number of tasks of the pool on a key. -/
def running (pool : List (κ × τ)) (k : κ) : ℕ :=
  (pool.map Prod.fst).count k

variable {pool : List (κ × τ)} {i : ℕ} {k : κ} {p : τ}

/-- A new task raises the number of its key. -/
theorem running_concat (pool : List (κ × τ)) (k m : κ) (p : τ) :
    running (pool ++ [(k, p)]) m = running pool m + if k = m then 1 else 0 := by
  simp [running, List.count_singleton]

/-- A task that is updated in place keeps its key. -/
theorem running_set (h : pool[i]? = some (k, p)) (q : τ) :
    running (pool.set i (k, q)) = running pool := by
  have hmap : (pool.map Prod.fst)[i]? = some k := by simp [h]
  funext m
  obtain ⟨hi, hk⟩ := List.getElem?_eq_some_iff.mp hmap
  rw [running, running, List.map_set, ← hk, List.set_getElem_self]

/-- A task that leaves lowers the number of its key. -/
theorem running_eraseIdx (h : pool[i]? = some (k, p)) (m : κ) :
    running (pool.eraseIdx i) m + (if k = m then 1 else 0) = running pool m := by
  obtain ⟨hi, hp⟩ := List.getElem?_eq_some_iff.mp h
  have hperm := (List.getElem_cons_eraseIdx_perm hi).map Prod.fst
  rw [hp] at hperm
  rw [running, running, ← hperm.count_eq, List.map_cons, List.count_cons]
  simp

theorem running_pos_of_mem (h : (k, p) ∈ pool) : 0 < running pool k :=
  List.count_pos_iff.mpr (List.mem_map_of_mem (f := Prod.fst) h)

end Pool
