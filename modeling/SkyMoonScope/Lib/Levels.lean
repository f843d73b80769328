import SkyMoonScope.Lib.Merkle
import Mathlib.Data.List.GetD

/-!
# Levels of pairs

A list is folded to one element by pairing its neighbours level by level, an odd last element with
itself. The levels over a list of hashes are those of a Merkle tree, and pairing the leaves
themselves builds the tree they are the hashes of.

## Main definitions

* `pairUp f l`: the neighbours of `l` paired by `f`, an odd last element with itself
* `IsTower f l ls`: `ls` lists the levels over `l`, from `l` up to a single element
* `BuildsTree xs t`: `t` is the tree that pairing the leaves `xs` builds

## Main results

* `pairUp_getElem?`: the element of the next level over an index
* `IsTower.unique`, `exists_isTower`: a nonempty list has exactly one tower
* `IsTower.map`: towers are natural in the elements
* `BuildsTree.root_eq`: the top of a tower of hashes is the root of the tree the list builds
* `BuildsTree.mem_leaves`, `BuildsTree.root_mem_of_path`: its leaves are the list, its subtrees are
  the nodes of the tower
-/

namespace Merkle

variable {β γ : Type*}

section Tower

variable (f : β → β → β)

/-- The neighbours of a list, paired; an odd last element is paired with itself. -/
def pairUp : List β → List β
  | [] => []
  | [a] => [f a a]
  | a :: b :: l => f a b :: pairUp l

@[simp] theorem length_pairUp (l : List β) : (pairUp f l).length = (l.length + 1) / 2 := by
  fun_induction pairUp f l with
  | case1 => simp
  | case2 => simp
  | case3 a b l ih =>
    simp only [List.length_cons, ih]
    omega

/-- The element over the indices `2 * i` and `2 * i + 1` pairs theirs. -/
theorem pairUp_getElem? (l : List β) (i : ℕ) :
    (pairUp f l)[i]? = l[2 * i]?.map fun a => f a (l[2 * i + 1]?.getD a) := by
  fun_induction pairUp f l generalizing i with
  | case1 => simp
  | case2 a => cases i <;> simp [Nat.mul_add]
  | case3 a b l ih =>
    cases i with
    | zero => simp
    | succ i => simpa [Nat.mul_add] using ih i

theorem map_pairUp {f : β → β → β} {g : γ → γ → γ} {h : β → γ}
    (hfg : ∀ a b, h (f a b) = g (h a) (h b)) (l : List β) :
    (pairUp f l).map h = pairUp g (l.map h) := by
  fun_induction pairUp f l with
  | case1 => rfl
  | case2 a => simp [pairUp, hfg]
  | case3 a b l ih => simp [pairUp, hfg, ih]

/-- The levels over a list, from the list up to a single element. -/
inductive IsTower : List β → List (List β) → Prop
  | top (a : β) : IsTower [a] [[a]]
  | step {l : List β} {ls : List (List β)} :
      l.length ≠ 1 → IsTower (pairUp f l) ls → IsTower l (l :: ls)

variable {f}

namespace IsTower

variable {l : List β} {ls ms : List (List β)}

theorem unique (h : IsTower f l ls) (h' : IsTower f l ms) : ls = ms := by
  -- the length of a level decides whether the tower goes on
  induction h generalizing ms with
  | top a =>
    cases h' with
    | top => rfl
    | step hl => exact absurd rfl hl
  | step hl _ ih =>
    cases h' with
    | top => exact absurd rfl hl
    | step _ h' => rw [ih h']

theorem ne_nil (h : IsTower f l ls) : ls ≠ [] := by
  cases h <;> simp

theorem base_ne_nil (h : IsTower f l ls) : l ≠ [] := by
  induction h with
  | top => simp
  | step _ _ ih =>
    rintro rfl
    exact ih rfl

theorem head?_eq (h : IsTower f l ls) : ls.head? = some l := by
  cases h <;> rfl

theorem getLast?_cons (h : IsTower f l ls) (m : List β) :
    (m :: ls).getLast? = ls.getLast? := by
  rw [List.getLast?_cons, List.getLast?_eq_some_getLast h.ne_nil, Option.getD_some]

/-- The top of a tower is a single element. -/
theorem exists_top (h : IsTower f l ls) : ∃ a, ls.getLast? = some [a] := by
  induction h with
  | top a => exact ⟨a, rfl⟩
  | step _ h ih =>
    obtain ⟨a, ha⟩ := ih
    exact ⟨a, by rw [h.getLast?_cons, ha]⟩

theorem map {g : γ → γ → γ} {k : β → γ} (hfg : ∀ a b, k (f a b) = g (k a) (k b))
    (h : IsTower f l ls) : IsTower g (l.map k) (ls.map (List.map k)) := by
  induction h with
  | top a => exact .top (k a)
  | step hl _ ih =>
    refine .step (by simpa using hl) ?_
    rwa [map_pairUp hfg] at ih

end IsTower

/-- Every nonempty list has a tower. -/
theorem exists_isTower : ∀ (n : ℕ) (l : List β), l ≠ [] → l.length ≤ n → ∃ ls, IsTower f l ls
  | 0, l, hl, hn => absurd (List.length_eq_zero_iff.mp (Nat.le_zero.mp hn)) hl
  | n + 1, l, hl, hn => by
    by_cases h1 : l.length = 1
    · obtain ⟨a, rfl⟩ := List.length_eq_one_iff.mp h1
      exact ⟨_, .top a⟩
    · -- pairing shortens a list of two or more elements and leaves one at least
      have hpos := List.length_pos_iff.mpr hl
      have hlen := length_pairUp f l
      obtain ⟨ls, h⟩ := exists_isTower n (pairUp f l)
        (List.ne_nil_of_length_pos (by omega)) (by omega)
      exact ⟨l :: ls, .step h1 h⟩

end Tower

/-! ## The tree under a tower of hashes -/

variable {α H : Type*} [LinearOrder H] {hash : Preimage α H → H}

/-- The tree a nonempty list of data builds. -/
def BuildsTree (xs : List α) (t : HashTree α) : Prop :=
  ∃ ts, IsTower HashTree.node (xs.map HashTree.leaf) ts ∧ ts.getLast? = some [t]

theorem exists_buildsTree {xs : List α} (h : xs ≠ []) : ∃ t, BuildsTree xs t := by
  obtain ⟨ts, hts⟩ := exists_isTower (f := HashTree.node) xs.length (xs.map HashTree.leaf)
    (by simpa using h) (by simp)
  obtain ⟨t, ht⟩ := hts.exists_top
  exact ⟨t, ts, hts, ht⟩

theorem BuildsTree.unique {xs : List α} {t u : HashTree α} (h : BuildsTree xs t)
    (h' : BuildsTree xs u) : t = u := by
  obtain ⟨ts, hts, ht⟩ := h
  obtain ⟨us, hus, hu⟩ := h'
  rw [hts.unique hus, hu] at ht
  simpa using ht.symm

/-- The tower of the leaf hashes is the tower of the trees, hashed. -/
theorem IsTower.map_root (hash : Preimage α H → H) {l : List (HashTree α)}
    {ts : List (List (HashTree α))} (h : IsTower HashTree.node l ts) :
    IsTower (pair hash) (l.map (HashTree.root hash)) (ts.map (List.map (HashTree.root hash))) :=
  h.map fun _ _ => rfl

section Hashes

variable {xs : List α} {t : HashTree α} {ls : List (List H)}

/-- The levels of hashes over a list are those of the trees under the tree it builds, hashed. -/
theorem BuildsTree.exists_tower (h : BuildsTree xs t)
    (hls : IsTower (pair hash) (xs.map fun a => hash (.leaf a)) ls) :
    ∃ ts, IsTower HashTree.node (xs.map HashTree.leaf) ts ∧ ts.getLast? = some [t] ∧
      ls = ts.map (List.map (HashTree.root hash)) := by
  obtain ⟨ts, hts, ht⟩ := h
  have hroot := IsTower.map_root hash hts
  rw [List.map_map] at hroot
  exact ⟨ts, hts, ht, hls.unique hroot⟩

/-- **The top of a tower of leaf hashes is the root of the tree the leaves build.** -/
theorem BuildsTree.root_eq (h : BuildsTree xs t)
    (hls : IsTower (pair hash) (xs.map fun a => hash (.leaf a)) ls) :
    ls.getLast? = some [t.root hash] := by
  obtain ⟨ts, -, ht, rfl⟩ := h.exists_tower hls
  rw [List.getLast?_map, ht]
  rfl

end Hashes

/-! ## The leaves and the subtrees of the tree -/

section Trees

variable {l : List (HashTree α)} {ts : List (List (HashTree α))} {t : HashTree α}

theorem mem_pairUp_leaves {a : α} :
    (∃ t ∈ pairUp HashTree.node l, a ∈ t.leaves) ↔ ∃ t ∈ l, a ∈ t.leaves := by
  fun_induction pairUp HashTree.node l with
  | case1 => simp
  | case2 t => simp [HashTree.leaves]
  | case3 t u l ih =>
    simp only [List.exists_mem_cons_iff, ih, HashTree.leaves, List.mem_append, or_assoc]

/-- The leaves of the tree at the top of a tower are those of the trees at its base. -/
theorem IsTower.mem_leaves (h : IsTower HashTree.node l ts) (ht : ts.getLast? = some [t]) (a : α) :
    a ∈ t.leaves ↔ ∃ u ∈ l, a ∈ u.leaves := by
  induction h with
  | top u =>
    obtain rfl : u = t := by simpa using ht
    simp
  | step _ hts ih =>
    -- pairing a level keeps the leaves of its trees
    rw [← mem_pairUp_leaves]
    rw [hts.getLast?_cons] at ht
    exact ih ht

/-- The leaves of the tree a list builds are the elements of the list. -/
theorem BuildsTree.mem_leaves {xs : List α} (h : BuildsTree xs t) (a : α) :
    a ∈ t.leaves ↔ a ∈ xs := by
  obtain ⟨ts, hts, ht⟩ := h
  rw [hts.mem_leaves ht]
  simp [HashTree.leaves]

theorem mem_of_node_mem_pairUp {a b : HashTree α}
    (h : HashTree.node a b ∈ pairUp HashTree.node l) : a ∈ l ∧ b ∈ l := by
  fun_induction pairUp HashTree.node l with
  | case1 => simp at h
  | case2 t =>
    obtain ⟨rfl, rfl⟩ : a = t ∧ b = t := by simpa using h
    simp
  | case3 t u l ih =>
    rcases List.mem_cons.mp h with h | h
    · obtain ⟨rfl, rfl⟩ := HashTree.node.inj h
      simp
    · exact ⟨by simp [(ih h).1], by simp [(ih h).2]⟩

/-- The children of a node of a tower are a level below it, unless the node is at the base. -/
theorem IsTower.children_mem {level : List (HashTree α)} {a b : HashTree α}
    (h : IsTower HashTree.node l ts) (hlevel : level ∈ ts) (hab : HashTree.node a b ∈ level)
    (hbase : HashTree.node a b ∉ l) : ∃ below ∈ ts, a ∈ below ∧ b ∈ below := by
  induction h with
  | top t =>
    obtain rfl := List.mem_singleton.mp hlevel
    exact absurd hab hbase
  | @step l ts _ hts ih =>
    rcases List.mem_cons.mp hlevel with rfl | hlevel
    · exact absurd hab hbase
    by_cases hup : HashTree.node a b ∈ pairUp HashTree.node l
    · -- a node of the second level pairs two elements of the first
      exact ⟨l, List.mem_cons_self, mem_of_node_mem_pairUp hup⟩
    · -- a node above the second level has its children above the first
      obtain ⟨below, hb, hab⟩ := ih hlevel hup
      exact ⟨below, List.mem_cons_of_mem _ hb, hab⟩

/-- The subtrees of the tree at the top are in the tower, when the base holds leaves only. -/
theorem IsTower.mem_of_path {xs : List α} {u : HashTree α} {p : List H}
    (h : IsTower HashTree.node (xs.map HashTree.leaf) ts) (ht : ts.getLast? = some [t])
    (hu : HashTree.Path hash t u p) : ∃ level ∈ ts, u ∈ level := by
  -- a leaf has no children, so no node is at the base
  have hchild : ∀ {a b : HashTree α}, (∃ level ∈ ts, HashTree.node a b ∈ level) →
      ∃ below ∈ ts, a ∈ below ∧ b ∈ below :=
    fun ⟨level, hlevel, hab⟩ => h.children_mem hlevel hab (by simp)
  induction hu with
  | refl => exact ⟨[t], List.mem_of_getLast? ht, List.mem_singleton_self t⟩
  | left _ ih =>
    obtain ⟨below, hbelow, hl, -⟩ := hchild ih
    exact ⟨below, hbelow, hl⟩
  | right _ ih =>
    obtain ⟨below, hbelow, -, hr⟩ := hchild ih
    exact ⟨below, hbelow, hr⟩

/-- **The subtrees of the tree a list builds are the nodes of its tower.** -/
theorem BuildsTree.root_mem_of_path {xs : List α} {u : HashTree α} {p : List H}
    {ls : List (List H)} (h : BuildsTree xs t) (hu : HashTree.Path hash t u p)
    (hls : IsTower (pair hash) (xs.map fun a => hash (.leaf a)) ls) :
    ∃ level ∈ ls, u.root hash ∈ level := by
  obtain ⟨ts, hts, ht, rfl⟩ := h.exists_tower hls
  obtain ⟨level, hlevel, hu⟩ := hts.mem_of_path ht hu
  exact ⟨_, List.mem_map_of_mem hlevel, List.mem_map_of_mem hu⟩

theorem height_of_mem_pairUp {n : ℕ} (h : ∀ t ∈ l, t.height = n) :
    ∀ t ∈ pairUp HashTree.node l, t.height = n + 1 := by
  fun_induction pairUp HashTree.node l with
  | case1 => simp
  | case2 t => simpa [HashTree.height] using h
  | case3 t u l ih =>
    simp only [List.forall_mem_cons] at h
    simp only [List.forall_mem_cons, HashTree.height, h.1, h.2.1, max_self, true_and]
    exact ih h.2.2

/-- A tower over trees of one height adds a level to the height with every level of its own. -/
theorem IsTower.height_add_one {n : ℕ} (h : IsTower HashTree.node l ts)
    (ht : ts.getLast? = some [t]) (hn : ∀ u ∈ l, u.height = n) : t.height + 1 = n + ts.length := by
  induction h generalizing n with
  | top u =>
    obtain rfl : u = t := by simpa using ht
    simp [hn u]
  | step _ hts ih =>
    rw [hts.getLast?_cons] at ht
    rw [List.length_cons, ih ht (height_of_mem_pairUp hn)]
    omega

/-- A list builds a tree with one level less than its tower: all its leaves are equally deep. -/
theorem BuildsTree.height_add_one {xs : List α} {ls : List (List H)} (h : BuildsTree xs t)
    (hls : IsTower (pair hash) (xs.map fun a => hash (.leaf a)) ls) :
    t.height + 1 = ls.length := by
  obtain ⟨ts, hts, ht, rfl⟩ := h.exists_tower hls
  rw [List.length_map, hts.height_add_one ht (n := 0) (by simp [HashTree.height]), Nat.zero_add]

end Trees

end Merkle
