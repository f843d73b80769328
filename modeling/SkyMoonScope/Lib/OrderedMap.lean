import Mathlib.Data.List.MinMax
import Mathlib.Data.List.Pairwise
import Mathlib.Data.List.Sort
import Mathlib.Data.Prod.Lex
import Mathlib.Order.Defs.LinearOrder

/-!
# Maps in the order of their keys

The entries of a map are visited in the order of their keys. A list that is sorted by something else
with a stable sort keeps this order among those that are equal.

## Main definitions

* `OrderedMap κ β`: the entries, in the order of their keys, each key once
* `get?`, `insert`, `erase`: the operations

## Main results

* `get?_eq_some_iff`: a value is found exactly when its entry is there
* `mem_insert`, `mem_erase`: the entries after each operation
* `get?_insert`, `get?_erase`: what is found after each operation
* `pairwise_insertionSort_stable`: the order of a list after a stable sort
* `head?_insertionSort`: what comes first is the earliest of those with the least time
-/

/-- Entries in the order of their keys, each key once. -/
structure OrderedMap (κ β : Type*) [LinearOrder κ] where
  entries : List (κ × β)
  sorted : entries.Pairwise fun p q => p.1 < q.1

namespace OrderedMap

variable {κ β : Type*} [LinearOrder κ]

def empty : OrderedMap κ β := ⟨[], List.Pairwise.nil⟩

def get? (m : OrderedMap κ β) (k : κ) : Option β := m.entries.lookup k

def erase (m : OrderedMap κ β) (k : κ) : OrderedMap κ β where
  entries := m.entries.filter fun p => p.1 ≠ k
  sorted := m.sorted.filter _

/-- Put an entry where its key belongs, in place of an earlier one with its key. -/
def insertEntry (k : κ) (v : β) : List (κ × β) → List (κ × β)
  | [] => [(k, v)]
  | (k', v') :: l =>
    if k < k' then (k, v) :: (k', v') :: l
    else if k = k' then (k, v) :: l
    else (k', v') :: insertEntry k v l

variable {l : List (κ × β)} {p : κ × β} {k k' : κ} {v v' : β}

theorem mem_insertEntry (hsorted : l.Pairwise fun p q => p.1 < q.1) :
    p ∈ insertEntry k v l ↔ p = (k, v) ∨ p ∈ l ∧ p.1 ≠ k := by
  induction l with
  | nil => simp [insertEntry]
  | cons q l ih =>
    obtain ⟨k', v'⟩ := q
    obtain ⟨hhead, htail⟩ := List.pairwise_cons.mp hsorted
    unfold insertEntry
    split
    · next hlt =>
      -- every key of the list is greater
      have hne : ∀ q ∈ (k', v') :: l, q.1 ≠ k := by
        rintro q (_ | ⟨_, hq⟩)
        · exact hlt.ne'
        · exact (hlt.trans (hhead q hq)).ne'
      rw [List.mem_cons]
      constructor
      · rintro (h | h)
        · exact .inl h
        · exact .inr ⟨h, hne p h⟩
      · rintro (h | h)
        · exact .inl h
        · exact .inr h.1
    · split
      · next heq =>
        subst heq
        have hne : ∀ q ∈ l, q.1 ≠ k := fun q hq => (hhead q hq).ne'
        simp only [List.mem_cons]
        constructor
        · rintro (h | h)
          · exact .inl h
          · exact .inr ⟨.inr h, hne p h⟩
        · rintro (h | ⟨h | h, hk⟩)
          · exact .inl h
          · exact absurd (congrArg Prod.fst h) hk
          · exact .inr h
      · next hne =>
        rw [List.mem_cons, ih htail, List.mem_cons]
        constructor
        · rintro (rfl | h | ⟨h, hk⟩)
          · exact .inr ⟨.inl rfl, fun h => hne h.symm⟩
          · exact .inl h
          · exact .inr ⟨.inr h, hk⟩
        · rintro (h | ⟨h | h, hk⟩)
          · exact .inr (.inl h)
          · exact .inl h
          · exact .inr (.inr ⟨h, hk⟩)

theorem pairwise_insertEntry (hsorted : l.Pairwise fun p q => p.1 < q.1) :
    (insertEntry k v l).Pairwise fun p q => p.1 < q.1 := by
  induction l with
  | nil => exact List.pairwise_singleton _ _
  | cons q l ih =>
    obtain ⟨k', v'⟩ := q
    obtain ⟨hhead, htail⟩ := List.pairwise_cons.mp hsorted
    unfold insertEntry
    split
    · next hlt =>
      refine List.pairwise_cons.mpr ⟨?_, hsorted⟩
      rintro q (_ | ⟨_, hq⟩)
      · exact hlt
      · exact hlt.trans (hhead q hq)
    · next hnot =>
      split
      · next heq =>
        subst heq
        exact List.pairwise_cons.mpr ⟨hhead, htail⟩
      · next hne =>
        refine List.pairwise_cons.mpr ⟨fun q hq => ?_, ih htail⟩
        rcases (mem_insertEntry htail).mp hq with rfl | ⟨hq, -⟩
        · exact lt_of_le_of_ne (not_lt.mp hnot) (Ne.symm hne)
        · exact hhead q hq

def insert (m : OrderedMap κ β) (k : κ) (v : β) : OrderedMap κ β where
  entries := insertEntry k v m.entries
  sorted := pairwise_insertEntry m.sorted

variable {m : OrderedMap κ β}

theorem mem_insert : p ∈ (m.insert k v).entries ↔ p = (k, v) ∨ p ∈ m.entries ∧ p.1 ≠ k :=
  mem_insertEntry m.sorted

theorem mem_erase : p ∈ (m.erase k).entries ↔ p ∈ m.entries ∧ p.1 ≠ k := by
  simp [erase]

/-- A key has one value. -/
theorem eq_of_mem (h : (k, v) ∈ m.entries) (h' : (k, v') ∈ m.entries) : v = v' := by
  by_contra hne
  have hkeys : m.entries.Pairwise fun p q => p.1 ≠ q.1 := m.sorted.imp fun h => h.ne
  have : Std.Symm fun p q : κ × β => p.1 ≠ q.1 := ⟨fun _ _ h => h.symm⟩
  exact hkeys.forall h h' (by simpa using hne) rfl

theorem get?_eq_some_iff : m.get? k = some v ↔ (k, v) ∈ m.entries := by
  have hfound : ∀ {w}, m.get? k = some w → (k, w) ∈ m.entries := by
    intro w h
    obtain ⟨l₁, l₂, heq, -⟩ := List.lookup_eq_some_iff.mp h
    simp [heq]
  constructor
  · exact hfound
  · intro h
    rcases hget : m.get? k with - | w
    · have hnot := List.lookup_eq_none_iff.mp hget (k, v) h
      simp at hnot
    · rw [eq_of_mem (hfound hget) h]

theorem get?_eq_none_iff : m.get? k = none ↔ ∀ v, (k, v) ∉ m.entries := by
  simp only [Option.eq_none_iff_forall_ne_some, ne_eq, get?_eq_some_iff]

theorem get?_insert : (m.insert k v).get? k' = if k' = k then some v else m.get? k' := by
  apply Option.ext
  intro w
  rw [get?_eq_some_iff, mem_insert]
  split
  · next heq => simp [heq, eq_comm]
  · next hne => simp [hne, get?_eq_some_iff]

theorem get?_erase : (m.erase k).get? k' = if k' = k then none else m.get? k' := by
  apply Option.ext
  intro w
  rw [get?_eq_some_iff, mem_erase]
  split
  · next heq => simp [heq]
  · next hne => simp [hne, get?_eq_some_iff]

theorem nodup_entries (m : OrderedMap κ β) : m.entries.Nodup :=
  m.sorted.imp fun h heq => h.ne (congrArg Prod.fst heq)

/-- An entry, and the others. -/
theorem perm_cons_erase (h : (k, v) ∈ m.entries) :
    m.entries.Perm ((k, v) :: (m.erase k).entries) := by
  have hnodup : ((k, v) :: (m.erase k).entries).Nodup :=
    List.nodup_cons.mpr ⟨fun hmem => (mem_erase.mp hmem).2 rfl, nodup_entries _⟩
  refine (List.perm_ext_iff_of_nodup (nodup_entries m) hnodup).mpr ?_
  rintro ⟨k', v'⟩
  rw [List.mem_cons, mem_erase]
  constructor
  · intro hmem
    by_cases hk : k' = k
    · subst hk
      rw [eq_of_mem hmem h]
      exact .inl rfl
    · exact .inr ⟨hmem, hk⟩
  · rintro (heq | hmem)
    · exact heq ▸ h
    · exact hmem.1

theorem perm_insert : (m.insert k v).entries.Perm ((k, v) :: (m.erase k).entries) := by
  have h : (k, v) ∈ (m.insert k v).entries := mem_insert.mpr (.inl rfl)
  have hrest : ((m.insert k v).erase k).entries.Perm (m.erase k).entries := by
    refine (List.perm_ext_iff_of_nodup (nodup_entries _) (nodup_entries _)).mpr fun p => ?_
    rw [mem_erase, mem_erase, mem_insert]
    constructor
    · rintro ⟨rfl | hp, hne⟩
      · exact absurd rfl hne
      · exact hp
    · exact fun hp => ⟨.inr hp, hp.2⟩
  exact (perm_cons_erase h).trans (hrest.cons _)

@[simp] theorem get?_empty : (empty : OrderedMap κ β).get? k = none := rfl

@[simp] theorem entries_empty : (empty : OrderedMap κ β).entries = [] := rfl

end OrderedMap

/-! ## Stable sorting -/

section Stable

variable {α τ : Type*} [LinearOrder τ] (time : α → τ) {r : α → α → Prop} {a : α} {l : List α}

/-- First by one key, then by the order that there was. -/
def Later (time : α → τ) (r : α → α → Prop) (a b : α) : Prop :=
  time a < time b ∨ time a = time b ∧ r a b

/-- What is inserted before all that is not smaller stays in front of what it came before. -/
theorem pairwise_orderedInsert_later (h : l.Pairwise (Later time r)) (ha : ∀ b ∈ l, r a b) :
    (l.orderedInsert (fun a b => time a ≤ time b) a).Pairwise (Later time r) := by
  induction l with
  | nil => exact List.pairwise_singleton _ _
  | cons b l ih =>
    obtain ⟨hhead, htail⟩ := List.pairwise_cons.mp h
    rw [List.orderedInsert_cons]
    split
    · next hle =>
      refine List.pairwise_cons.mpr ⟨fun c hc => ?_, h⟩
      have hbc : time b ≤ time c := by
        rcases List.mem_cons.mp hc with rfl | hc
        · exact le_rfl
        · rcases hhead c hc with hlt | heq
          · exact hlt.le
          · exact heq.1.le
      rcases (hle.trans hbc).lt_or_eq with hlt | heq
      · exact .inl hlt
      · exact .inr ⟨heq, ha c hc⟩
    · next hnot =>
      refine List.pairwise_cons.mpr ⟨fun c hc => ?_, ih htail fun c hc =>
        ha c (List.mem_cons_of_mem b hc)⟩
      rcases List.mem_cons.mp ((List.perm_orderedInsert _ a l).mem_iff.mp hc) with rfl | hc
      · exact .inl (not_le.mp hnot)
      · exact hhead c hc

/-- **A stable sort** orders by the time, and what is equal as it was. -/
theorem pairwise_insertionSort_stable (h : l.Pairwise r) :
    (l.insertionSort fun a b => time a ≤ time b).Pairwise (Later time r) := by
  induction l with
  | nil => exact List.Pairwise.nil
  | cons a l ih =>
    obtain ⟨hhead, htail⟩ := List.pairwise_cons.mp h
    rw [List.insertionSort_cons]
    refine pairwise_orderedInsert_later time (ih htail) fun b hb => ?_
    exact hhead b ((List.perm_insertionSort _ l).mem_iff.mp hb)

/-- **What comes first** has the least time, and among those with the least time the least rank. -/
theorem head?_insertionSort {rank : α → ℕ} (h : l.Pairwise fun a b => rank a < rank b) :
    (l.insertionSort fun a b => time a ≤ time b).head? =
      l.argmin fun a => toLex (time a, rank a) := by
  induction l with
  | nil => rfl
  | cons a l ih =>
    obtain ⟨hhead, htail⟩ := List.pairwise_cons.mp h
    have ih := ih htail
    rw [List.insertionSort_cons, List.argmin_cons]
    rcases hsorted : l.insertionSort (fun a b => time a ≤ time b) with - | ⟨b, rest⟩
    · rw [hsorted] at ih
      rw [← ih]
      rfl
    · rw [hsorted, List.head?_cons] at ih
      have hb : b ∈ l := (List.perm_insertionSort _ l).mem_iff.mp (by rw [hsorted]; simp)
      -- a later element comes first only if its time is less
      have hlt : toLex (time b, rank b) < toLex (time a, rank a) ↔ time b < time a := by
        rw [Prod.Lex.toLex_lt_toLex]
        constructor
        · rintro (hlt | ⟨-, hlt⟩)
          · exact hlt
          · exact absurd hlt (hhead b hb).not_gt
        · exact .inl
      rw [← ih, List.orderedInsert_cons]
      simp only [hlt]
      split
      · next hle => rw [if_neg (not_lt.mpr hle), List.head?_cons]
      · next hnot => rw [if_pos (not_le.mp hnot), List.head?_cons]

end Stable
