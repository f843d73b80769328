import Mathlib.Algebra.Order.BigOperators.Group.List
import Mathlib.Algebra.Order.Ring.Int
import Mathlib.Data.List.Nodup
import Mathlib.Tactic.Linarith
import Mathlib.Tactic.Ring

/-!
# Registers of numbered entries

A register issues an entry under the next free number and keeps the numbers of the open entries in
a list, in the order of issue. An entry may be amended while it is open, and is taken off the list
when it is closed. The list then names exactly the open entries, each of them once, and what is
summed over it changes by what is issued, amended and closed.

## Main definitions

* `Register V`: the next number, the list of the open entries, and the entries
* `issue`, `amend`, `close`: the three operations
* `Register.Sound isOpen valid`: the list names the open entries, and every entry is valid
* `total f r`: the sum of `f` over the open entries, `opened r`

## Main results

* `Sound.issue`, `Sound.amend`, `Sound.close`: the operations keep a register sound
* `total_issue`, `total_amend`, `total_close`: what they add to a total
-/

/-- Entries under numbers that are issued in order. -/
structure Register (V : Type*) where
  next : ℕ
  ids : List ℕ
  entry : ℕ → Option V

namespace Register

open Function

variable {V : Type*} {r : Register V} {isOpen valid : V → Prop} {f : V → ℤ} {id : ℕ} {v w : V}

/-- A new entry under the next number. -/
def issue (r : Register V) (v : V) : Register V where
  next := r.next + 1
  ids := r.ids ++ [r.next]
  entry := update r.entry r.next (some v)

/-- An entry is written over and stays open. -/
def amend (r : Register V) (id : ℕ) (v : V) : Register V :=
  { r with entry := update r.entry id (some v) }

/-- An entry is written over and taken off the list. -/
def close (r : Register V) (id : ℕ) (v : V) : Register V :=
  { r with ids := r.ids.erase id, entry := update r.entry id (some v) }

/-- The list names the open entries in the order of issue, and every entry is valid. -/
structure Sound (isOpen valid : V → Prop) (r : Register V) : Prop where
  increasing : r.ids.Pairwise (· < ·)
  lt_next : ∀ id v, r.entry id = some v → id < r.next
  mem_iff : ∀ id, id ∈ r.ids ↔ ∃ v, r.entry id = some v ∧ isOpen v
  valid : ∀ id v, r.entry id = some v → valid v

/-- The value of `f` at an entry. -/
def valueAt (r : Register V) (f : V → ℤ) (id : ℕ) : ℤ := ((r.entry id).map f).getD 0

/-- The sum of `f` over the open entries. -/
def total (f : V → ℤ) (r : Register V) : ℤ := (r.ids.map (r.valueAt f)).sum

theorem valueAt_of_eq (h : r.entry id = some v) : r.valueAt f id = f v := by
  rw [valueAt, h]
  rfl

/-- An entry after one was written is the written one, or an old one. -/
theorem entry_update {entry : ℕ → Option V} {k : ℕ} (h : update entry id (some v) k = some w) :
    k = id ∧ v = w ∨ k ≠ id ∧ entry k = some w := by
  by_cases hk : k = id
  · subst hk
    rw [update_self] at h
    exact .inl ⟨rfl, Option.some.inj h⟩
  · rw [update_of_ne hk] at h
    exact .inr ⟨hk, h⟩

/-- The open entries, in the order of issue. -/
def opened (r : Register V) : List V := r.ids.filterMap r.entry

/-- A total is a sum over the open entries. -/
theorem total_eq_sum_opened : r.total f = (r.opened.map f).sum := by
  rw [total, opened]
  induction r.ids with
  | nil => rfl
  | cons k ids ih =>
    rw [List.map_cons, List.sum_cons, ih]
    cases hk : r.entry k with
    | none =>
      rw [List.filterMap_cons_none hk, valueAt, hk, Option.map_none, Option.getD_none, zero_add]
    | some v => rw [List.filterMap_cons_some hk, valueAt_of_eq hk, List.map_cons, List.sum_cons]

/-! ## Sound registers -/

namespace Sound

theorem empty : Sound isOpen valid (⟨0, [], fun _ => none⟩ : Register V) := by
  constructor <;> simp

theorem nodup (h : Sound isOpen valid r) : r.ids.Nodup := h.increasing.imp fun hlt => hlt.ne

/-- An entry on the list is there and open. -/
theorem exists_of_mem (h : Sound isOpen valid r) (hid : id ∈ r.ids) :
    ∃ v, r.entry id = some v ∧ isOpen v := (h.mem_iff id).mp hid

theorem lt_next_of_mem (h : Sound isOpen valid r) (hid : id ∈ r.ids) : id < r.next := by
  obtain ⟨v, hv, -⟩ := h.exists_of_mem hid
  exact h.lt_next id v hv

theorem next_notMem (h : Sound isOpen valid r) : r.next ∉ r.ids :=
  fun hmem => lt_irrefl _ (h.lt_next_of_mem hmem)

theorem mem_of_open (h : Sound isOpen valid r) (hv : r.entry id = some v) (hopen : isOpen v) :
    id ∈ r.ids := (h.mem_iff id).mpr ⟨v, hv, hopen⟩

theorem issue (h : Sound isOpen valid r) (hopen : isOpen v) (hvalid : valid v) :
    Sound isOpen valid (r.issue v) := by
  refine ⟨?_, ?_, ?_, ?_⟩
  · -- every number on the list was issued before the next one
    apply List.pairwise_append.mpr
    refine ⟨h.increasing, List.pairwise_singleton _ _, ?_⟩
    intro k hk l hl
    rw [List.mem_singleton.mp hl]
    exact h.lt_next_of_mem hk
  · intro k w hk
    rcases entry_update hk with ⟨rfl, -⟩ | ⟨-, hold⟩
    · exact Nat.lt_succ_self r.next
    · exact Nat.lt_succ_of_lt (h.lt_next k w hold)
  · intro k
    show k ∈ r.ids ++ [r.next] ↔ _
    rw [List.mem_append, List.mem_singleton]
    by_cases hkn : k = r.next
    · subst hkn
      simp [Register.issue, hopen]
    · simp [Register.issue, hkn, h.mem_iff]
  · intro k w hk
    rcases entry_update hk with ⟨-, rfl⟩ | ⟨-, hold⟩
    · exact hvalid
    · exact h.valid k w hold

theorem amend (h : Sound isOpen valid r) (hid : id ∈ r.ids) (hopen : isOpen v) (hvalid : valid v) :
    Sound isOpen valid (r.amend id v) := by
  refine ⟨h.increasing, ?_, ?_, ?_⟩
  · intro k w hk
    rcases entry_update hk with ⟨rfl, -⟩ | ⟨-, hold⟩
    · exact h.lt_next_of_mem hid
    · exact h.lt_next k w hold
  · intro k
    show k ∈ r.ids ↔ _
    by_cases hki : k = id
    · subst hki
      simp [Register.amend, hopen, hid]
    · simp [Register.amend, hki, h.mem_iff]
  · intro k w hk
    rcases entry_update hk with ⟨-, rfl⟩ | ⟨-, hold⟩
    · exact hvalid
    · exact h.valid k w hold

theorem close (h : Sound isOpen valid r) (hid : id ∈ r.ids) (hclosed : ¬isOpen v)
    (hvalid : valid v) : Sound isOpen valid (r.close id v) := by
  refine ⟨h.increasing.sublist List.erase_sublist, ?_, ?_, ?_⟩
  · intro k w hk
    rcases entry_update hk with ⟨rfl, -⟩ | ⟨-, hold⟩
    · exact h.lt_next_of_mem hid
    · exact h.lt_next k w hold
  · intro k
    show k ∈ r.ids.erase id ↔ _
    rw [h.nodup.mem_erase_iff]
    by_cases hki : k = id
    · subst hki
      simp [Register.close, hclosed]
    · simp [Register.close, hki, h.mem_iff]
  · intro k w hk
    rcases entry_update hk with ⟨-, rfl⟩ | ⟨-, hold⟩
    · exact hvalid
    · exact h.valid k w hold

end Sound

/-! ## Totals -/

/-- A value that was not changed counts the same. -/
theorem valueAt_update_of_ne {k : ℕ} {s : Register V}
    (hs : s.entry = update r.entry id (some v)) (hk : k ≠ id) :
    s.valueAt f k = r.valueAt f k := by
  rw [valueAt, valueAt, hs, update_of_ne hk]

theorem total_issue (h : Sound isOpen valid r) : (r.issue v).total f = r.total f + f v := by
  have hold : r.ids.map ((r.issue v).valueAt f) = r.ids.map (r.valueAt f) := by
    apply List.map_congr_left
    intro k hk
    exact valueAt_update_of_ne rfl fun hkn => h.next_notMem (hkn ▸ hk)
  have hnew : (r.issue v).valueAt f r.next = f v := valueAt_of_eq (update_self ..)
  show ((r.ids ++ [r.next]).map _).sum = _
  rw [List.map_append, List.sum_append, hold, List.map_singleton, List.sum_singleton, hnew]
  rfl

/-- The total with the value at one entry taken out. -/
theorem total_eq_add_erase (hid : id ∈ r.ids) :
    r.total f = r.valueAt f id + ((r.ids.erase id).map (r.valueAt f)).sum := by
  have hperm : r.ids.Perm (id :: r.ids.erase id) := List.perm_cons_erase hid
  rw [total, (hperm.map _).sum_eq, List.map_cons, List.sum_cons]

/-- What a total is once one entry is written over. -/
theorem sum_erase_update (h : Sound isOpen valid r) {s : Register V}
    (hs : s.entry = update r.entry id (some v)) :
    ((r.ids.erase id).map (s.valueAt f)).sum = ((r.ids.erase id).map (r.valueAt f)).sum := by
  congr 1
  apply List.map_congr_left
  intro k hk
  exact valueAt_update_of_ne hs (h.nodup.mem_erase_iff.mp hk).1

theorem total_amend (h : Sound isOpen valid r) (hid : id ∈ r.ids) (hv : r.entry id = some v) :
    (r.amend id w).total f = r.total f - f v + f w := by
  have hnew : (r.amend id w).valueAt f id = f w := valueAt_of_eq (update_self ..)
  have hrest : (((r.amend id w).ids.erase id).map ((r.amend id w).valueAt f)).sum =
      ((r.ids.erase id).map (r.valueAt f)).sum := sum_erase_update h rfl
  have hamended : id ∈ (r.amend id w).ids := hid
  rw [total_eq_add_erase hamended, hnew, hrest, total_eq_add_erase hid, valueAt_of_eq hv]
  ring

theorem total_close (h : Sound isOpen valid r) (hid : id ∈ r.ids) (hv : r.entry id = some v) :
    (r.close id w).total f = r.total f - f v := by
  have hrest : (r.close id w).total f = ((r.ids.erase id).map (r.valueAt f)).sum :=
    sum_erase_update h rfl
  rw [hrest, total_eq_add_erase hid, valueAt_of_eq hv]
  ring

/-- Values that are not negative have a sum that is not, over any list of entries. -/
theorem sum_valueAt_nonneg (hf : ∀ id v, r.entry id = some v → 0 ≤ f v) (ids : List ℕ) :
    0 ≤ (ids.map (r.valueAt f)).sum := by
  apply List.sum_nonneg
  intro x hx
  obtain ⟨k, -, rfl⟩ := List.mem_map.mp hx
  cases hk : r.entry k with
  | none => rw [valueAt, hk]; exact le_rfl
  | some w => rw [valueAt_of_eq hk]; exact hf k w hk

theorem total_nonneg (hf : ∀ id v, r.entry id = some v → 0 ≤ f v) : 0 ≤ r.total f :=
  sum_valueAt_nonneg hf r.ids

/-- One of values that are not negative is at most their total. -/
theorem le_total (hf : ∀ id v, r.entry id = some v → 0 ≤ f v) (hid : id ∈ r.ids)
    (hv : r.entry id = some v) : f v ≤ r.total f := by
  have hrest := sum_valueAt_nonneg hf (r.ids.erase id)
  rw [total_eq_add_erase hid, valueAt_of_eq hv]
  linarith

end Register
