import Mathlib.Data.List.Basic

/-!
# Pages of a list

A list is read in pages: a page is asked for by its start and a size, of which there may be less.
The next page starts where the last one has ended. Pages one after another read the list from its
start, without a gap and without reading anything twice, and all of it once there are enough of
them.

## Main definitions

* `pages page start sizes`: consecutive pages

## Main results

* `pages_eq_take`: consecutive pages are a part of the list
* `pages_eq_drop`: enough of them are all of the list
* `filterMap_range'`: a page that is read element by element
-/

namespace Pages

variable {α : Type*}

/-- Consecutive pages, each of which starts where the one before has ended. -/
def pages (page : ℕ → ℕ → List α) : ℕ → List ℕ → List α
  | _, [] => []
  | start, n :: sizes => page start n ++ pages page (start + (page start n).length) sizes

variable {l : List α} {page : ℕ → ℕ → List α} {size : ℕ → ℕ} {start : ℕ} {sizes : List ℕ}

/-- **Consecutive pages** are what the list has from the start, up to some place. -/
theorem pages_eq_take (hpage : ∀ start n, page start n = (l.drop start).take (size n))
    (start : ℕ) (sizes : List ℕ) :
    pages page start sizes = (l.drop start).take (pages page start sizes).length := by
  induction sizes generalizing start with
  | nil => rfl
  | cons n sizes ih =>
    have hfirst : page start n = (l.drop start).take (page start n).length := by
      rw [hpage, List.length_take, ← List.take_take, List.take_length]
    have hrest := ih (start + (page start n).length)
    rw [pages, List.length_append, List.take_add, ← hfirst, List.drop_drop, ← hrest]

/-- **Enough pages**, none of which is asked for with size zero, are all of the list. -/
theorem pages_eq_drop (hpage : ∀ start n, page start n = (l.drop start).take (size n))
    (hsizes : ∀ n ∈ sizes, 0 < size n) (hlength : l.length ≤ start + sizes.length) :
    pages page start sizes = l.drop start := by
  induction sizes generalizing start with
  | nil => exact (List.drop_eq_nil_of_le hlength).symm
  | cons n sizes ih =>
    obtain ⟨hn, hsizes⟩ := List.forall_mem_cons.mp hsizes
    rw [List.length_cons] at hlength
    rw [pages]
    by_cases hend : l.length ≤ start
    · -- nothing is left
      have hnil : page start n = [] := by
        rw [hpage, List.drop_eq_nil_of_le hend, List.take_nil]
      rw [hnil, List.length_nil, Nat.add_zero, List.nil_append]
      exact ih hsizes (by omega)
    · -- a page that is not at the end has an element
      have hlen : (page start n).length = min (size n) (l.length - start) := by
        rw [hpage, List.length_take, List.length_drop]
      rw [ih hsizes (by omega), hlen, hpage]
      rcases Nat.le_total (size n) (l.length - start) with hle | hle
      · rw [Nat.min_eq_left hle, ← List.drop_drop, List.take_append_drop]
      · have hnil : l.drop (start + (l.length - start)) = [] :=
          List.drop_eq_nil_of_le (by omega)
        rw [Nat.min_eq_right hle, List.take_of_length_le (by rwa [List.length_drop]), hnil,
          List.append_nil]

/-- Elements that are read one by one, up to an end, are a part of the list. -/
theorem filterMap_range' (l : List α) (start n : ℕ) :
    (List.range' start n).filterMap (fun i => l[i]?) = (l.drop start).take n := by
  induction n generalizing start with
  | zero => rfl
  | succ n ih =>
    rw [List.range'_succ, List.filterMap_cons]
    cases hl : l[start]? with
    | none =>
      have hle : l.length ≤ start := List.getElem?_eq_none_iff.mp hl
      have hle' : l.length ≤ start + 1 := Nat.le_succ_of_le hle
      simp only [ih, List.drop_eq_nil_of_le hle, List.drop_eq_nil_of_le hle', List.take_nil]
    | some a =>
      obtain ⟨hlt, rfl⟩ := List.getElem?_eq_some_iff.mp hl
      simp only [ih, List.drop_eq_getElem_cons hlt, List.take_succ_cons]

end Pages

/-!
# Batches

A batch is handled entry by entry. Each entry is accepted or fails on the state that the entries
before it have left. What is reported are the positions of those that failed.

## Main definitions

* `sequential f s messages`: the outcomes of the entries and the state after them
* `failedFrom i outcomes`: the positions of the failed ones, counted from `i`
* `Along P f s messages`: a property of every entry on the state that it finds

## Main results

* `mem_failedFrom`, `pairwise_failedFrom`: the failed positions, in increasing order
-/

namespace Batches

variable {σ M : Type}

/-- Entries one after another, with the outcome of each. -/
def sequential (f : σ → M → Bool × σ) : σ → List M → List Bool × σ
  | s, [] => ([], s)
  | s, msg :: messages =>
    let rest := sequential f (f s msg).2 messages
    ((f s msg).1 :: rest.1, rest.2)

/-- The positions of the failed entries, counted from `i`. -/
def failedFrom : ℕ → List Bool → List ℕ
  | _, [] => []
  | i, true :: outcomes => failedFrom (i + 1) outcomes
  | i, false :: outcomes => i :: failedFrom (i + 1) outcomes

/-- A property of every entry on the state that it finds. -/
def Along (P : σ → M → Prop) (f : σ → M → Bool × σ) : σ → List M → Prop
  | _, [] => True
  | s, msg :: messages => P s msg ∧ Along P f (f s msg).2 messages

section Positions

variable {i j : ℕ} {outcomes : List Bool}

theorem le_of_mem_failedFrom (h : j ∈ failedFrom i outcomes) : i ≤ j := by
  induction outcomes generalizing i with
  | nil => cases h
  | cons accepted outcomes ih =>
    cases accepted with
    | true => exact Nat.le_of_succ_le (ih h)
    | false =>
      rcases List.mem_cons.mp h with rfl | h
      · exact Nat.le_refl _
      · exact Nat.le_of_succ_le (ih h)

/-- **The failed positions** are those with a negative outcome. -/
theorem mem_failedFrom : i + j ∈ failedFrom i outcomes ↔ outcomes[j]? = some false := by
  induction outcomes generalizing i j with
  | nil => simp [failedFrom]
  | cons accepted outcomes ih =>
    cases j with
    | zero =>
      -- the positions after the first one are greater
      have hfirst : i ∉ failedFrom (i + 1) outcomes := by
        intro h
        exact absurd (le_of_mem_failedFrom h) (Nat.not_succ_le_self i)
      cases accepted <;> simp [failedFrom, hfirst]
    | succ j =>
      have hrest : i + (j + 1) ∈ failedFrom (i + 1) outcomes ↔ outcomes[j]? = some false := by
        rw [show i + (j + 1) = i + 1 + j by omega, ih]
      cases accepted <;> simp [failedFrom, hrest]

/-- **They are reported in increasing order**, each once. -/
theorem pairwise_failedFrom : (failedFrom i outcomes).Pairwise (· < ·) := by
  induction outcomes generalizing i with
  | nil => exact .nil
  | cons accepted outcomes ih =>
    cases accepted with
    | true => exact ih
    | false => exact .cons (fun j hj => le_of_mem_failedFrom hj) ih

end Positions

section Sequential

variable {f : σ → M → Bool × σ} {s : σ} {messages : List M}

theorem length_sequential : (sequential f s messages).1.length = messages.length := by
  induction messages generalizing s with
  | nil => rfl
  | cons msg messages ih => exact congrArg (· + 1) ih

/-- Entries that all fail, and leave the state as it is. -/
theorem sequential_of_fails (h : ∀ msg, f s msg = (false, s)) :
    sequential f s messages = (List.replicate messages.length false, s) := by
  induction messages with
  | nil => rfl
  | cons msg messages ih =>
    rw [sequential, h msg, ih]
    rfl

end Sequential

end Batches
