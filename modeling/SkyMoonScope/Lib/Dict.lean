import Mathlib.Data.List.Nodup

/-!
# Dictionaries

A dictionary is a list of entries whose keys are pairwise different. The order of the entries is
the order in which its values are visited.

## Main definitions

* `Dict κ β`: the entries, and that no two of them have the same key
* `get?`, `mapVal`, `alter`, `insert`: the operations

## Main results

* `get?_eq_some_iff`: a value is found exactly when its entry is there
* `get?_mapVal`, `get?_alter`, `get?_insert`: what is found after each operation
-/

/-- The entries of a dictionary, no two of them with the same key. -/
structure Dict (κ β : Type*) where
  entries : List (κ × β)
  nodup : (entries.map Prod.fst).Nodup

namespace Dict

variable {κ β γ : Type*} [DecidableEq κ]

def empty : Dict κ β := ⟨[], List.nodup_nil⟩

def get? (d : Dict κ β) (k : κ) : Option β := d.entries.lookup k

/-- Change every value. -/
def mapVal (d : Dict κ β) (f : κ → β → γ) : Dict κ γ where
  entries := d.entries.map fun p => (p.1, f p.1 p.2)
  nodup := by simpa [Function.comp_def] using d.nodup

/-- Change the value of one key, if it is there. -/
def alter (d : Dict κ β) (k : κ) (f : β → β) : Dict κ β :=
  d.mapVal fun k' v => if k' = k then f v else v

/-- Insert an entry, in place of an earlier one with its key. -/
def insert (d : Dict κ β) (k : κ) (v : β) : Dict κ β :=
  if h : k ∈ d.entries.map Prod.fst then d.alter k fun _ => v
  else
    { entries := d.entries ++ [(k, v)]
      nodup := by
        rw [List.map_append, List.map_singleton]
        exact List.nodup_append.mpr ⟨d.nodup, List.nodup_singleton _, by
          simp only [List.mem_singleton, forall_eq]
          exact fun a ha hk => h (hk ▸ ha)⟩ }

variable {d : Dict κ β} {k k' : κ} {v w : β}

theorem get?_eq_some_iff : d.get? k = some v ↔ (k, v) ∈ d.entries := by
  obtain ⟨entries, hnodup⟩ := d
  simp only [get?]
  induction entries with
  | nil => simp
  | cons p entries ih =>
    obtain ⟨k', v'⟩ := p
    obtain ⟨hnotin, htail⟩ := List.nodup_cons.mp hnodup
    rw [List.lookup_cons, List.mem_cons, ← ih htail]
    by_cases hk : k = k'
    · -- no later entry has this key
      subst hk
      have hlater : entries.lookup k ≠ some v := by
        intro h
        exact hnotin (List.mem_map.mpr ⟨(k, v), (ih htail).mp h, rfl⟩)
      simp [hlater, eq_comm]
    · have hne : (k == k') = false := beq_false_of_ne hk
      simp [hne, hk]

theorem get?_eq_none_iff : d.get? k = none ↔ k ∉ d.entries.map Prod.fst := by
  rw [Option.eq_none_iff_forall_ne_some]
  simp only [ne_eq, get?_eq_some_iff, List.mem_map, not_exists, Prod.forall]
  constructor
  · rintro h k' v ⟨hmem, rfl⟩
    exact h v hmem
  · intro h v hmem
    exact h k v ⟨hmem, rfl⟩

@[simp] theorem get?_empty : (empty : Dict κ β).get? k = none := rfl

theorem get?_mapVal (f : κ → β → γ) : (d.mapVal f).get? k = (d.get? k).map (f k) := by
  apply Option.ext
  intro v
  simp only [get?_eq_some_iff, mapVal, List.mem_map, Prod.mk.injEq, Prod.exists,
    Option.map_eq_some_iff]
  constructor
  · rintro ⟨k', w, hmem, rfl, rfl⟩
    exact ⟨w, hmem, rfl⟩
  · rintro ⟨w, hmem, rfl⟩
    exact ⟨k, w, hmem, rfl, rfl⟩

theorem get?_alter (f : β → β) :
    (d.alter k f).get? k' = if k' = k then (d.get? k').map f else d.get? k' := by
  rw [alter, get?_mapVal]
  split <;> simp

theorem get?_insert : (d.insert k v).get? k' = if k' = k then some v else d.get? k' := by
  unfold insert
  split
  case isTrue hmem =>
    obtain ⟨w, hw⟩ := Option.ne_none_iff_exists'.mp fun h => get?_eq_none_iff.mp h hmem
    rw [get?_alter]
    split
    case isTrue hk => rw [hk, hw, Option.map_some]
    case isFalse => rfl
  case isFalse hnot =>
    have hnone := get?_eq_none_iff.mpr hnot
    simp only [get?] at hnone ⊢
    rw [List.lookup_append]
    by_cases hk : k' = k
    · simp [hk, hnone]
    · have hne : (k' == k) = false := beq_false_of_ne hk
      simp [hk, List.lookup_cons, hne]

end Dict
