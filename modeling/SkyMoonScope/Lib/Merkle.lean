import Mathlib.Data.Set.Function
import Mathlib.Order.Defs.LinearOrder
import Mathlib.Data.List.Nodup

/-!
# Merkle trees with sorted pairs

A Merkle tree hashes the data of its leaves and the pairs of its children, and a sorted pair
hashes the smaller child first. The hash is any function of the preimages; what a result asks of
it is that it has no collision among the preimages the result is about. A path from a node up to
the root is a list of siblings, each with the side the path is on.

## Main definitions

* `Preimage`: what a tree hashes
* `pair`: the hash of a pair, sorted
* `HashTree`, `HashTree.root`, `HashTree.preimages`: a tree of data, its root, and what hashing it
  hashes
* `climb`: the hash a path leads to from its start
* `HashTree.Path t u p`: `u` is a subtree of `t`, and `p` lists the siblings from `u` up to `t`
* `HashTree.Swap`: trees that differ in the order of the children of some nodes

## Main results

* `exists_path_of_climb`: without collisions, a path that leads to the root starts at a subtree
  and lists its siblings
* `climb_of_path`: conversely, the siblings of a subtree lead to the root
* `HashTree.root_eq_iff_swap`: without collisions, two trees have the same root exactly when they
  differ in the order of children only
-/

namespace Merkle

variable {α H : Type*}

/-- What a tree hashes: the data of a leaf, or a left and a right child. -/
inductive Preimage (α H : Type*)
  | leaf (a : α)
  | node (l r : H)
deriving DecidableEq

/-- A binary tree with data at its leaves. -/
inductive HashTree (α : Type*)
  | leaf (a : α)
  | node (l r : HashTree α)
deriving DecidableEq

/-- A step of a path: a sibling, and whether the path is on the left of it. -/
structure Step (H : Type*) where
  sibling : H
  isLeft : Bool
deriving DecidableEq

/-- The data of the leaves, from left to right. -/
def HashTree.leaves : HashTree α → List α
  | leaf a => [a]
  | node l r => l.leaves ++ r.leaves

/-- What one step of a path hashes. -/
def stepPreimage (h : H) (s : Step H) : Preimage α H :=
  if s.isLeft then .node h s.sibling else .node s.sibling h

theorem stepPreimage_ne_leaf (h : H) (s : Step H) (a : α) : stepPreimage h s ≠ .leaf a := by
  unfold stepPreimage
  split <;> simp

/-- A function has no collision among arguments with pairwise different values. -/
theorem injOn_of_nodup_map {β γ : Type*} {f : β → γ} {xs : List β} (ys : List β)
    (h : (ys.map f).Nodup) (hs : xs ⊆ ys) : Set.InjOn f {x | x ∈ xs} :=
  fun _ hx _ hy => List.inj_on_of_nodup_map h (hs hx) (hs hy)

section Hash

variable (hash : Preimage α H → H)

/-- The hash a path leads to from the hash `h`. -/
def climb (h : H) : List (Step H) → H
  | [] => h
  | s :: p => climb (hash (stepPreimage h s)) p

/-- What following a path hashes. -/
def climbPreimages (h : H) : List (Step H) → List (Preimage α H)
  | [] => []
  | s :: p => stepPreimage h s :: climbPreimages (hash (stepPreimage h s)) p

/-- The hash a path leads to is that of the last preimage on it. -/
theorem exists_climb_eq (x : Preimage α H) (p : List (Step H)) :
    ∃ y ∈ x :: climbPreimages hash (hash x) p, climb hash (hash x) p = hash y := by
  induction p generalizing x with
  | nil => exact ⟨x, List.mem_singleton_self x, rfl⟩
  | cons s p ih =>
    obtain ⟨y, hy, h⟩ := ih (stepPreimage (hash x) s)
    exact ⟨y, List.mem_cons_of_mem _ hy, h⟩

variable [LinearOrder H]

/-- The sorted pair of two hashes. -/
def pairPreimage (l r : H) : Preimage α H := if l ≤ r then .node l r else .node r l

/-- The hash of the sorted pair of two hashes. -/
def pair (l r : H) : H := hash (pairPreimage l r)

omit hash in
theorem pairPreimage_comm (l r : H) : (pairPreimage l r : Preimage α H) = pairPreimage r l := by
  unfold pairPreimage
  rcases lt_trichotomy l r with h | rfl | h
  · rw [if_pos h.le, if_neg h.not_ge]
  · rfl
  · rw [if_neg h.not_ge, if_pos h.le]

theorem pair_comm (l r : H) : pair hash l r = pair hash r l := by
  rw [pair, pairPreimage_comm, pair]

omit hash in
theorem pairPreimage_ne_leaf (l r : H) (a : α) : pairPreimage l r ≠ .leaf a := by
  unfold pairPreimage
  split <;> simp

omit hash in
/-- A sorted pair determines its two hashes up to their order. -/
theorem pairPreimage_inj {l r l' r' : H}
    (h : (pairPreimage l r : Preimage α H) = pairPreimage l' r') :
    l = l' ∧ r = r' ∨ l = r' ∧ r = l' := by
  unfold pairPreimage at h
  split at h <;> split at h <;> simp only [Preimage.node.injEq] at h <;> tauto

omit hash in
/-- A path step that hashes a sorted pair is at one of the pair's hashes, beside the other. -/
theorem stepPreimage_eq_pair {h l r : H} {s : Step H}
    (he : (stepPreimage h s : Preimage α H) = pairPreimage l r) :
    h = l ∧ s.sibling = r ∨ h = r ∧ s.sibling = l := by
  unfold stepPreimage pairPreimage at he
  split at he <;> split at he <;> simp only [Preimage.node.injEq] at he <;> tauto

namespace HashTree

/-- The root hash of a tree. -/
def root : HashTree α → H
  | leaf a => hash (.leaf a)
  | node l r => pair hash l.root r.root

/-- What hashing a tree hashes at its top. -/
def topPreimage : HashTree α → Preimage α H
  | leaf a => .leaf a
  | node l r => pairPreimage (l.root hash) (r.root hash)

/-- What hashing a tree hashes. -/
def preimages : HashTree α → List (Preimage α H)
  | leaf a => [.leaf a]
  | node l r => pairPreimage (l.root hash) (r.root hash) :: (l.preimages ++ r.preimages)

theorem hash_topPreimage (t : HashTree α) : hash (t.topPreimage hash) = t.root hash := by
  cases t <;> rfl

theorem topPreimage_mem (t : HashTree α) : t.topPreimage hash ∈ t.preimages hash := by
  cases t <;> simp [topPreimage, preimages]

/-- `u` is a subtree of `t`, and `p` lists the roots of the siblings from `u` up to `t`. -/
inductive Path : HashTree α → HashTree α → List H → Prop
  | refl (t : HashTree α) : Path t t []
  | left {t l r : HashTree α} {p : List H} :
      Path t (node l r) p → Path t l (r.root hash :: p)
  | right {t l r : HashTree α} {p : List H} :
      Path t (node l r) p → Path t r (l.root hash :: p)

variable {hash}

namespace Path

variable {t u : HashTree α} {p : List H}

theorem preimages_subset (h : Path hash t u p) :
    u.preimages hash ⊆ t.preimages hash := by
  induction h with
  | refl => exact List.Subset.refl _
  | left _ ih => exact List.Subset.trans (by simp [preimages, List.subset_def]; tauto) ih
  | right _ ih => exact List.Subset.trans (by simp [preimages, List.subset_def]; tauto) ih

/-- Hashing a tree hashes the preimage at the top of each of its subtrees. -/
theorem topPreimage_mem (h : Path hash t u p) : u.topPreimage hash ∈ t.preimages hash := by
  apply h.preimages_subset
  exact HashTree.topPreimage_mem hash u

theorem leaves_subset (h : Path hash t u p) : u.leaves ⊆ t.leaves := by
  induction h with
  | refl => exact List.Subset.refl _
  | left _ ih => exact List.Subset.trans (by simp [leaves]) ih
  | right _ ih => exact List.Subset.trans (by simp [leaves]) ih

end Path

end HashTree

/-! ## Paths to the root -/

/-- **Soundness of paths.** Without collisions, a path that leads to the root of a tree starts at
a subtree and lists the siblings from it up. -/
theorem exists_path_of_climb {t : HashTree α} {h : H} {p : List (Step H)}
    (hinj : Set.InjOn hash {x | x ∈ t.preimages hash ++ climbPreimages hash h p})
    (hc : climb hash h p = t.root hash) :
    ∃ u, HashTree.Path hash t u (p.map Step.sibling) ∧ u.root hash = h := by
  -- from the root down: the rest of the path starts at a subtree, and the first step is at one of
  -- its children
  induction p generalizing h with
  | nil => exact ⟨t, .refl t, hc.symm⟩
  | cons s p ih =>
    have hrest : Set.InjOn hash
        {x | x ∈ t.preimages hash ++ climbPreimages hash (hash (stepPreimage h s)) p} := by
      apply hinj.mono
      intro x hx
      simp only [climbPreimages, Set.mem_ofPred_eq, List.mem_append, List.mem_cons] at hx ⊢
      tauto
    obtain ⟨u, hu, hr⟩ := ih hrest hc
    -- the subtree and the first step are hashed to the same value
    have hx : u.topPreimage hash = stepPreimage h s := by
      apply hinj
      · exact List.mem_append_left _ hu.topPreimage_mem
      · exact List.mem_append_right _ List.mem_cons_self
      · rw [HashTree.hash_topPreimage hash, hr]
    cases u with
    | leaf a => exact absurd hx.symm (stepPreimage_ne_leaf h s a)
    | node l r =>
      rcases stepPreimage_eq_pair hx.symm with ⟨rfl, hs⟩ | ⟨rfl, hs⟩
      · exact ⟨l, by simpa [hs] using hu.left, rfl⟩
      · exact ⟨r, by simpa [hs] using hu.right, rfl⟩

/-- A path that leads from the hash of some data to the root starts at a leaf with that data. -/
theorem path_leaf_of_climb {t : HashTree α} {a : α} {p : List (Step H)}
    (hinj : Set.InjOn hash
      {x | x ∈ t.preimages hash ++ .leaf a :: climbPreimages hash (hash (.leaf a)) p})
    (hc : climb hash (hash (.leaf a)) p = t.root hash) :
    HashTree.Path hash t (.leaf a) (p.map Step.sibling) := by
  have hpath : Set.InjOn hash
      {x | x ∈ t.preimages hash ++ climbPreimages hash (hash (.leaf a)) p} := by
    apply hinj.mono
    intro x hx
    simp only [Set.mem_ofPred_eq, List.mem_append, List.mem_cons] at hx ⊢
    tauto
  obtain ⟨u, hu, hr⟩ := exists_path_of_climb hash hpath hc
  have hx : u.topPreimage hash = .leaf a := by
    apply hinj
    · exact List.mem_append_left _ hu.topPreimage_mem
    · exact List.mem_append_right _ List.mem_cons_self
    · rw [HashTree.hash_topPreimage hash, hr]
  -- only a leaf hashes the data of a leaf
  cases u with
  | leaf b =>
    cases hx
    exact hu
  | node l r => exact absurd hx (pairPreimage_ne_leaf _ _ a)

/-- The steps that sort every pair on the way up. -/
def sortedSteps (h : H) : List H → List (Step H)
  | [] => []
  | s :: p => ⟨s, h ≤ s⟩ :: sortedSteps (pair hash h s) p

theorem hash_stepPreimage_sorted (h s : H) :
    hash (stepPreimage h ⟨s, h ≤ s⟩) = pair hash h s := by
  simp only [stepPreimage, pair, pairPreimage, decide_eq_true_eq]

@[simp] theorem sortedSteps_siblings (h : H) (p : List H) :
    (sortedSteps hash h p).map Step.sibling = p := by
  induction p generalizing h with
  | nil => rfl
  | cons s p ih => simp [sortedSteps, ih]

/-- Climbing sorted steps folds the siblings into sorted pairs. -/
theorem climb_sortedSteps (h : H) (p : List H) :
    climb hash h (sortedSteps hash h p) = p.foldl (pair hash) h := by
  induction p generalizing h with
  | nil => rfl
  | cons s p ih =>
    rw [sortedSteps, climb, hash_stepPreimage_sorted hash, ih, List.foldl_cons]

/-- **Completeness of paths.** The siblings of a subtree lead from its root to the root. -/
theorem foldl_pair_of_path {t u : HashTree α} {p : List H} (h : HashTree.Path hash t u p) :
    p.foldl (pair hash) (u.root hash) = t.root hash := by
  induction h with
  | refl => rfl
  | left _ ih => exact ih
  | @right l r p _ ih =>
    -- the sibling is on the left, but the pair is sorted
    rw [List.foldl_cons, pair_comm]
    exact ih

/-! ## Trees with the same root -/

namespace HashTree

omit [LinearOrder H] hash in
/-- The number of levels above the deepest leaf. -/
def height : HashTree α → ℕ
  | leaf _ => 0
  | node l r => max l.height r.height + 1

/-- The trees differ in the order of the children of some nodes. -/
inductive Swap : HashTree α → HashTree α → Prop
  | leaf (a : α) : Swap (leaf a) (leaf a)
  | node {l r l' r' : HashTree α} : Swap l l' → Swap r r' → Swap (node l r) (node l' r')
  | swap {l r l' r' : HashTree α} : Swap l r' → Swap r l' → Swap (node l r) (node l' r')

theorem Swap.height_eq {t t' : HashTree α} (h : Swap t t') : t.height = t'.height := by
  induction h with
  | leaf => rfl
  | node _ _ ihl ihr => simp [height, ihl, ihr]
  | swap _ _ ihl ihr => simp [height, ihl, ihr, max_comm]

theorem Swap.mem_leaves {t t' : HashTree α} (h : Swap t t') (a : α) :
    a ∈ t.leaves ↔ a ∈ t'.leaves := by
  induction h with
  | leaf => rfl
  | node _ _ ihl ihr => simp [leaves, ihl, ihr]
  | swap _ _ ihl ihr => simp [leaves, ihl, ihr, or_comm]

theorem Swap.root_eq {t t' : HashTree α} (h : Swap t t') : t.root hash = t'.root hash := by
  induction h with
  | leaf => rfl
  | node _ _ ihl ihr => simp only [root, ihl, ihr]
  | swap _ _ ihl ihr => simp only [root, ihl, ihr, pair_comm hash]

/-- Without collisions, equal roots hash the same preimage at the top. -/
theorem topPreimage_eq {t t' : HashTree α}
    (hinj : Set.InjOn hash {x | x ∈ t.preimages hash ++ t'.preimages hash})
    (h : t.root hash = t'.root hash) : t.topPreimage hash = t'.topPreimage hash := by
  apply hinj
  · exact List.mem_append_left _ (topPreimage_mem hash t)
  · exact List.mem_append_right _ (topPreimage_mem hash t')
  · rw [hash_topPreimage hash, hash_topPreimage hash, h]

/-- **The root determines the tree up to the order of children**, when hashing the two trees
meets no collision. -/
theorem root_eq_iff_swap {t t' : HashTree α}
    (hinj : Set.InjOn hash {x | x ∈ t.preimages hash ++ t'.preimages hash}) :
    t.root hash = t'.root hash ↔ Swap t t' := by
  refine ⟨fun h => ?_, Swap.root_eq hash⟩
  induction t generalizing t' with
  | leaf a =>
    have hx := topPreimage_eq hash hinj h
    cases t' with
    | leaf b => cases hx; exact .leaf a
    | node l' r' => exact absurd hx.symm (pairPreimage_ne_leaf _ _ a)
  | node l r ihl ihr =>
    have hx := topPreimage_eq hash hinj h
    cases t' with
    | leaf b => exact absurd hx (pairPreimage_ne_leaf _ _ b)
    | node l' r' =>
      -- each pair of children is hashed within the preimages of the two trees
      have hsub : ∀ {u u' : HashTree α}, (u = l ∨ u = r) → (u' = l' ∨ u' = r') →
          Set.InjOn hash {x | x ∈ u.preimages hash ++ u'.preimages hash} := by
        intro u u' hu hu'
        apply hinj.mono
        intro x hx
        simp only [preimages, Set.mem_ofPred_eq, List.mem_append, List.mem_cons] at hx ⊢
        rcases hu with rfl | rfl <;> rcases hu' with rfl | rfl <;> tauto
      -- the children agree in order or crosswise
      rcases pairPreimage_inj hx with ⟨h₁, h₂⟩ | ⟨h₁, h₂⟩
      · exact .node (ihl (hsub (.inl rfl) (.inl rfl)) h₁) (ihr (hsub (.inr rfl) (.inr rfl)) h₂)
      · exact .swap (ihl (hsub (.inl rfl) (.inr rfl)) h₁) (ihr (hsub (.inr rfl) (.inl rfl)) h₂)

end HashTree

end Hash

end Merkle
