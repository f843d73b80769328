import Mathlib.Data.List.Perm.Basic
import Mathlib.Order.Lattice

/-!
# Bubble sort

A pass compares neighbours from the left and exchanges those that are in the wrong order, so it
moves the greatest of the elements that it compares behind the others. Every pass compares one pair
less than the one before, since the elements behind are sorted already.

## Main definitions

* `pass k l`: a pass over the first `k` pairs of neighbours
* `bubbleSort l`: the passes one after another

## Main results

* `bubbleSort_perm`, `bubbleSort_sorted`: the elements are the same, and in order
-/

namespace BubbleSort

variable {α : Type*} [LinearOrder α]

/-- A pass over the first `k` pairs of neighbours. -/
def pass : ℕ → List α → List α
  | k + 1, x :: y :: l => if x > y then y :: pass k (x :: l) else x :: pass k (y :: l)
  | _, l => l

/-- As many passes as there are elements. -/
def bubbleSort (l : List α) : List α :=
  (List.range l.length).foldl (fun l' i => pass (l.length - i - 1) l') l

variable {k : ℕ} {l front back : List α}

theorem pass_perm (k : ℕ) (l : List α) : (pass k l).Perm l := by
  induction k, l using pass.induct with
  | case1 k x y l hxy ih =>
    rw [pass, if_pos hxy]
    exact (ih.cons y).trans (.swap x y l)
  | case2 k x y l hxy ih =>
    rw [pass, if_neg hxy]
    exact ih.cons x
  | case3 k l hl =>
    match k, l, hl with
    | 0, _, _ => exact .refl _
    | _ + 1, [], _ => exact .refl _
    | _ + 1, [x], _ => exact .refl _
    | k + 1, x :: y :: l, hl => exact absurd rfl (hl k x y l rfl)

theorem bubbleSort_perm (l : List α) : (bubbleSort l).Perm l := by
  have hfold : ∀ (is : List ℕ) (l' : List α),
      (is.foldl (fun l' i => pass (l.length - i - 1) l') l').Perm l' := by
    intro is
    induction is with
    | nil => exact fun l' => .refl l'
    | cons i is ih => exact fun l' => (ih _).trans (pass_perm _ l')
  exact hfold _ l

/-- A pass leaves the elements behind those that it compares. -/
theorem pass_append (h : k < front.length) : pass k (front ++ back) = pass k front ++ back := by
  induction k generalizing front with
  | zero => rw [pass, pass] <;> simp
  | succ k ih =>
    match front, h with
    | x :: y :: front, h =>
      rw [List.length_cons, List.length_cons] at h
      have hx : pass k (x :: front ++ back) = pass k (x :: front) ++ back :=
        ih (by rw [List.length_cons]; omega)
      have hy : pass k (y :: front ++ back) = pass k (y :: front) ++ back :=
        ih (by rw [List.length_cons]; omega)
      simp only [List.cons_append] at hx hy ⊢
      rw [pass, pass, hx, hy]
      split <;> rfl

/-- **A pass over all elements** moves the greatest one behind the others. -/
theorem exists_pass_eq (h : l.length = k + 1) :
    ∃ l' m, pass k l = l' ++ [m] ∧ ∀ x ∈ l', x ≤ m := by
  induction k generalizing l with
  | zero =>
    obtain ⟨x, rfl⟩ := List.length_eq_one_iff.mp h
    exact ⟨[], x, by simp [pass], by simp⟩
  | succ k ih =>
    -- the greater one of the first two elements goes on
    have hstep : ∀ {w z : α} {l : List α}, (z :: l).length = k + 1 → w ≤ z →
        ∃ l' m, w :: pass k (z :: l) = l' ++ [m] ∧ ∀ x ∈ l', x ≤ m := by
      intro w z l hlength hwz
      obtain ⟨l', m, hpass, hle⟩ := ih hlength
      have hz : z ∈ l' ++ [m] := by
        rw [← hpass]
        exact (pass_perm k (z :: l)).mem_iff.mpr List.mem_cons_self
      have hzm : z ≤ m := by
        rcases List.mem_append.mp hz with hz | hz
        · exact hle z hz
        · exact (List.mem_singleton.mp hz).le
      refine ⟨w :: l', m, by rw [hpass, List.cons_append], ?_⟩
      exact List.forall_mem_cons.mpr ⟨hwz.trans hzm, hle⟩
    match l, h with
    | x :: y :: l, h =>
      rw [List.length_cons] at h
      rw [pass]
      split
      next hxy => exact hstep (by simpa using h) hxy.le
      next hxy => exact hstep (by simpa using h) (not_lt.mp hxy)

/-- Behind the first `n` elements the list is sorted, and these are not greater. -/
def SortedBehind (n : ℕ) (l : List α) : Prop :=
  ∃ front back, l = front ++ back ∧ front.length = n ∧ back.Pairwise (· ≤ ·) ∧
    ∀ x ∈ front, ∀ y ∈ back, x ≤ y

/-- **A pass** over the first elements leaves one less of them. -/
theorem SortedBehind.pass (h : SortedBehind (k + 1) l) : SortedBehind k (pass k l) := by
  obtain ⟨front, back, rfl, hlength, hsorted, hle⟩ := h
  obtain ⟨front', m, hpass, hm⟩ := exists_pass_eq hlength
  have hmem : ∀ x, x ∈ front' ++ [m] ↔ x ∈ front := fun x => by
    rw [← hpass]
    exact (pass_perm k front).mem_iff
  have hmfront : m ∈ front := (hmem m).mp (List.mem_append_right _ (List.mem_singleton_self m))
  refine ⟨front', m :: back, ?_, ?_, ?_, fun x hx y hy => ?_⟩
  · rw [pass_append (by omega), hpass, List.append_assoc, List.singleton_append]
  · have hlen := congrArg List.length hpass
    rw [(pass_perm k front).length_eq, List.length_append, List.length_singleton] at hlen
    omega
  · exact List.pairwise_cons.mpr ⟨hle m hmfront, hsorted⟩
  · rcases List.mem_cons.mp hy with rfl | hy
    · exact hm x hx
    · exact hle x ((hmem x).mp (List.mem_append_left _ hx)) y hy

theorem bubbleSort_sorted (l : List α) : (bubbleSort l).Pairwise (· ≤ ·) := by
  have hfold : ∀ i ≤ l.length, SortedBehind (l.length - i)
      ((List.range i).foldl (fun l' i => pass (l.length - i - 1) l') l) := by
    intro i hi
    induction i with
    | zero => exact ⟨l, [], (List.append_nil l).symm, rfl, .nil, by simp⟩
    | succ i ih =>
      have hbefore := ih (by omega)
      rw [show l.length - i = l.length - i - 1 + 1 by omega] at hbefore
      rw [List.range_succ, List.foldl_append]
      exact hbefore.pass
  obtain ⟨front, back, heq, hlength, hsorted, -⟩ := hfold l.length (Nat.le_refl _)
  rw [Nat.sub_self] at hlength
  rw [bubbleSort, heq, List.length_eq_zero_iff.mp hlength, List.nil_append]
  exact hsorted

end BubbleSort
