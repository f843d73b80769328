import SkyMoonScope.Core.MerkleTree.Tree
import SkyMoonScope.Lib.Machine
import SkyMoonScope.Lib.Sha256

/-!
# Incremental updates refine rebuilding

A tree represents a list of leaves when its fields are those `build` computes from the list. The
updates keep a tree that represents a list representing the updated list, and an update that fails
leaves the tree alone. Along a run the tree is therefore the one `build` makes from the current
leaves.

## Main definitions

* `Represents sha256 t leaves`: the tree is the one built from `leaves`
* `Update`, `Update.apply`, `Update.leaves`: the updates, on trees and on lists of leaves
* `currentLeaves xs ls`: the leaves after the calls `ls` on a tree built from `xs`

## Main results

* `buildLevels_eq_some_iff`: the levels of the code are the tower of sorted pairs
* `build_eq_ok_iff`: `build` makes exactly the tree that represents its leaves
* `Represents.apply`: one update refines the update of the list, or fails and changes nothing
* `Represents.run`: a run refines the run on lists
* `run_eq_build`: after any run, the tree is the one `build` makes of the current leaves
-/

namespace Core.MerkleTree

open Merkle Machine

variable (sha256 : List UInt8 → BytesN 32)

/-! ## The levels are a tower -/

/-- The hash of the tree's preimages: a leaf is hashed twice, children are concatenated. -/
def treeHash : Preimage (List UInt8) (BytesN 32) → BytesN 32
  | .leaf data => hashLeaf sha256 data
  | .node left right => hashConcat sha256 left right

theorem hashPair_eq (left right : BytesN 32) :
    hashPair sha256 left right = pair (treeHash sha256) left right := by
  unfold hashPair pair pairPreimage
  split <;> rfl

theorem nextLevel_eq (level : List (BytesN 32)) :
    nextLevel sha256 level = pairUp (pair (treeHash sha256)) level := by
  fun_induction nextLevel sha256 level with
  | case1 => rfl
  | case2 left => simp [pairUp, hashPair_eq]
  | case3 left right rest ih => simp [pairUp, hashPair_eq, ih]

variable {sha256}

theorem isTower_of_buildLevelsLoop {n : ℕ} {level : List (BytesN 32)}
    {nodes : List (List (BytesN 32))} (h : buildLevelsLoop sha256 n level = some nodes) :
    IsTower (pair (treeHash sha256)) level nodes := by
  -- one round of the loop is one level of the tower
  induction n generalizing level nodes with
  | zero => cases h
  | succ n ih =>
    rw [buildLevelsLoop] at h
    split at h
    · next hl =>
      obtain ⟨a, rfl⟩ := List.length_eq_one_iff.mp hl
      obtain rfl := Option.some.inj h
      exact .top a
    · next hl =>
      obtain ⟨rest, hr, rfl⟩ := Option.map_eq_some_iff.mp h
      rw [nextLevel_eq] at hr
      exact .step hl (ih hr)

theorem exists_buildLevelsLoop {n : ℕ} {level : List (BytesN 32)} (hne : level ≠ [])
    (hn : level.length ≤ n) : ∃ nodes, buildLevelsLoop sha256 n level = some nodes := by
  induction n generalizing level with
  | zero => exact absurd (List.length_eq_zero_iff.mp (Nat.le_zero.mp hn)) hne
  | succ n ih =>
    rw [buildLevelsLoop]
    split
    · exact ⟨_, rfl⟩
    · next hl =>
      -- a level of more than one node is followed by a shorter one, which is not empty
      have hpos := List.length_pos_iff.mpr hne
      have hlen : (nextLevel sha256 level).length = (level.length + 1) / 2 := by
        rw [nextLevel_eq, length_pairUp]
      have hne' : nextLevel sha256 level ≠ [] := List.ne_nil_of_length_pos (by omega)
      obtain ⟨rest, hr⟩ := ih hne' (by omega)
      exact ⟨level :: rest, by rw [hr]; rfl⟩

/-- **The levels of the code are the tower of sorted pairs over the leaf hashes.** -/
theorem buildLevels_eq_some_iff {leafHashes : List (BytesN 32)}
    {nodes : List (List (BytesN 32))} :
    buildLevels sha256 leafHashes = some nodes ↔
      IsTower (pair (treeHash sha256)) leafHashes nodes := by
  constructor
  · exact isTower_of_buildLevelsLoop
  · intro h
    obtain ⟨nodes', h'⟩ := exists_buildLevelsLoop h.base_ne_nil le_rfl
    rw [buildLevels, h', (isTower_of_buildLevelsLoop h').unique h]

/-! ## Trees that represent a list of leaves -/

variable (sha256) in
/-- The tree is the one built from `leaves`. -/
structure Represents (t : MerkleTree) (leaves : List (List UInt8)) : Prop where
  dataLeaves_eq : t.dataLeaves = leaves
  leafCount_eq : t.leafCount = leaves.length
  leafHashes_eq : t.leafHashes = leaves.map (hashLeaf sha256)
  isTower : IsTower (pair (treeHash sha256)) t.leafHashes t.nodes
  topNode_eq : topNode t.nodes = some t.root
  length_le : leaves.length ≤ maxLeaves t.levels

/-- The levels are those over the hashes of the represented leaves. -/
theorem Represents.isTower_leaves {t : MerkleTree} {leaves : List (List UInt8)}
    (h : Represents sha256 t leaves) :
    IsTower (pair (treeHash sha256)) (leaves.map (hashLeaf sha256)) t.nodes := by
  rw [← h.leafHashes_eq]
  exact h.isTower

theorem Represents.leaves_ne_nil {t : MerkleTree} {leaves : List (List UInt8)}
    (h : Represents sha256 t leaves) : leaves ≠ [] := by
  simpa using h.isTower_leaves.base_ne_nil

theorem exists_topNode {level : List (BytesN 32)} {nodes : List (List (BytesN 32))}
    (h : IsTower (pair (treeHash sha256)) level nodes) : ∃ root, topNode nodes = some root := by
  obtain ⟨root, hroot⟩ := h.exists_top
  exact ⟨root, by simp [topNode, hroot]⟩

/-- Rebuilding the levels restores a tree whose other fields are those of the list. -/
theorem exists_rebuild {t : MerkleTree} {leaves : List (List UInt8)} (failure : String)
    (hne : leaves ≠ []) (hd : t.dataLeaves = leaves) (hc : t.leafCount = leaves.length)
    (hh : t.leafHashes = leaves.map (hashLeaf sha256)) (hm : leaves.length ≤ maxLeaves t.levels) :
    ∃ t', rebuild sha256 t failure = some (.ok (), t') ∧ Represents sha256 t' leaves ∧
      t'.levels = t.levels := by
  have hne' : t.leafHashes ≠ [] := by simpa [hh] using hne
  obtain ⟨nodes, hn⟩ := exists_isTower (f := pair (treeHash sha256)) _ t.leafHashes hne' le_rfl
  obtain ⟨root, hr⟩ := exists_topNode hn
  refine ⟨{ t with nodes, root }, ?_, ⟨hd, hc, hh, hn, hr, hm⟩, rfl⟩
  simp [rebuild, buildLevels_eq_some_iff.mpr hn, hr]

/-- **`build` makes exactly the tree that represents its leaves.** -/
theorem build_eq_ok_iff {u t : MerkleTree} {leaves : List (List UInt8)} :
    build sha256 u leaves = some (.ok (), t) ↔
      Represents sha256 t leaves ∧ t.levels = u.levels := by
  constructor
  · intro h
    unfold build at h
    split at h
    · -- no leaves
      simp at h
    split at h
    · -- more leaves than the tree holds
      simp at h
    next hm =>
    obtain ⟨nodes, hn, h⟩ := Option.bind_eq_some_iff.mp h
    cases hr : topNode nodes with
    | none => simp [hr] at h
    | some root =>
      obtain rfl : _ = t := by simpa [hr] using h
      exact ⟨⟨rfl, rfl, rfl, buildLevels_eq_some_iff.mp hn, hr, Nat.le_of_not_lt hm⟩, rfl⟩
  · rintro ⟨h, hl⟩
    have hne := h.leaves_ne_nil
    have hm := h.length_le
    have hn := buildLevels_eq_some_iff.mpr h.isTower_leaves
    rw [hl] at hm
    -- every field of the tree is the one that `build` computes
    have ht : { u with
        nodes := t.nodes, root := t.root, dataLeaves := leaves, leafCount := leaves.length,
        leafHashes := leaves.map (hashLeaf sha256) } = t :=
      MerkleTree.ext rfl hl.symm h.leafCount_eq.symm h.dataLeaves_eq.symm rfl h.leafHashes_eq.symm
    simp [build, hne, hn, h.topNode_eq, Nat.not_lt.mpr hm, ht]

/-! ## Updates -/

/-- A call that updates a tree in place. -/
inductive Update
  | appendLeaves (newLeaves : List (List UInt8))
  | updateLeaf (leafIndex : ℕ) (newLeafData : List UInt8)
  | updateLeaves (updates : List (ℕ × List UInt8))

variable (sha256) in
/-- The call, on a tree. -/
def Update.apply (t : MerkleTree) : Update → Option (Except String Unit × MerkleTree)
  | .appendLeaves newLeaves => MerkleTree.appendLeaves sha256 t newLeaves
  | .updateLeaf leafIndex newLeafData => MerkleTree.updateLeaf sha256 t leafIndex newLeafData
  | .updateLeaves updates => MerkleTree.updateLeaves sha256 t updates

/-- The leaves after the writes `updates`, in order. -/
def setAll (leaves : List (List UInt8)) (updates : List (ℕ × List UInt8)) : List (List UInt8) :=
  updates.foldl (fun leaves u => leaves.set u.1 u.2) leaves

@[simp] theorem length_setAll (leaves : List (List UInt8)) (updates : List (ℕ × List UInt8)) :
    (setAll leaves updates).length = leaves.length := by
  unfold setAll
  induction updates generalizing leaves with
  | nil => rfl
  | cons u updates ih => simp [ih]

/-- What a successful call means for the list of leaves. -/
def Update.leaves (leaves : List (List UInt8)) : Update → List (List UInt8)
  | .appendLeaves newLeaves => leaves ++ newLeaves
  | .updateLeaf leafIndex newLeafData => leaves.set leafIndex newLeafData
  | .updateLeaves updates => setAll leaves updates

/-- The call stays within the vectors the machine can hold. -/
def Update.Fits (leaves : List (List UInt8)) : Update → Prop
  | .appendLeaves newLeaves => leaves.length + newLeaves.length ≤ usizeMax
  | _ => True

theorem vecSet_eq_some {α : Type} {xs : List α} {i : ℕ} {x : α} (h : i < xs.length) :
    vecSet xs i x = some (xs.set i x) := if_pos h

/-- The leaves after a list of writes. -/
theorem writeData_eq_some {leaves : List (List UInt8)} {updates : List (ℕ × List UInt8)}
    (h : ∀ u ∈ updates, u.1 < leaves.length) :
    writeData leaves updates = some (setAll leaves updates) := by
  induction updates generalizing leaves with
  | nil => rfl
  | cons u updates ih =>
    have hu := h u List.mem_cons_self
    rw [writeData, vecSet_eq_some hu]
    apply ih
    intro v hv
    rw [List.length_set]
    exact h v (List.mem_cons_of_mem _ hv)

/-- Writing the hashes beside the data keeps them the hashes of the data. -/
theorem writeUpdates_eq_some {leaves : List (List UInt8)} {updates : List (ℕ × List UInt8)}
    (h : ∀ u ∈ updates, u.1 < leaves.length) :
    writeUpdates sha256 (leaves.map (hashLeaf sha256)) leaves updates =
      some ((setAll leaves updates).map (hashLeaf sha256),
        setAll leaves updates) := by
  induction updates generalizing leaves with
  | nil => rfl
  | cons u updates ih =>
    have hu := h u List.mem_cons_self
    rw [writeUpdates, vecSet_eq_some (by simpa using hu), vecSet_eq_some hu, ← List.map_set]
    apply ih
    intro v hv
    rw [List.length_set]
    exact h v (List.mem_cons_of_mem _ hv)

theorem map_hashLeaf_set {leaves : List (List UInt8)} {i : ℕ} {data : List UInt8}
    (h : (leaves.map (hashLeaf sha256))[i]? = some (hashLeaf sha256 data)) :
    (leaves.set i data).map (hashLeaf sha256) = leaves.map (hashLeaf sha256) := by
  obtain ⟨hi, hx⟩ := List.getElem?_eq_some_iff.mp h
  rw [List.map_set, ← hx, List.set_getElem_self]

variable (sha256) in
/-- `hasChanges` reads every leaf until one differs; when none does, the writes leave the hashes
alone. -/
theorem exists_hasChanges {leaves : List (List UInt8)} {updates : List (ℕ × List UInt8)}
    (h : ∀ u ∈ updates, u.1 < leaves.length) :
    ∃ changed, hasChanges sha256 (leaves.map (hashLeaf sha256)) updates = some changed ∧
      (changed = false →
        (setAll leaves updates).map (hashLeaf sha256) =
          leaves.map (hashLeaf sha256)) := by
  induction updates generalizing leaves with
  | nil => exact ⟨false, rfl, fun _ => rfl⟩
  | cons u updates ih =>
    have hu := h u List.mem_cons_self
    have hget : (leaves.map (hashLeaf sha256))[u.1]? = some (hashLeaf sha256 leaves[u.1]) := by
      simp [hu]
    rw [hasChanges, hget, Option.bind_eq_bind, Option.bind_some]
    by_cases he : hashLeaf sha256 leaves[u.1] = hashLeaf sha256 u.2
    · -- the write keeps the hashes, so that the search goes on as on the written leaves
      rw [if_neg (not_not.mpr he)]
      rw [he] at hget
      have h' : ∀ v ∈ updates, v.1 < (leaves.set u.1 u.2).length := by
        intro v hv
        rw [List.length_set]
        exact h v (List.mem_cons_of_mem _ hv)
      obtain ⟨changed, hc, hf⟩ := ih h'
      rw [map_hashLeaf_set hget] at hc hf
      exact ⟨changed, hc, hf⟩
    · exact ⟨true, if_pos he, by simp⟩

namespace Represents

variable {t : MerkleTree} {leaves : List (List UInt8)}

theorem nodes_isEmpty (h : Represents sha256 t leaves) : t.nodes.isEmpty = false := by
  simpa using h.isTower.ne_nil

theorem appendLeaves (h : Represents sha256 t leaves) (newLeaves : List (List UInt8)) :
    (∃ e, MerkleTree.appendLeaves sha256 t newLeaves = some (.error e, t)) ∨
    (¬ leaves.length + newLeaves.length ≤ usizeMax ∧
      MerkleTree.appendLeaves sha256 t newLeaves = none) ∨
    ∃ t', MerkleTree.appendLeaves sha256 t newLeaves = some (.ok (), t') ∧
      Represents sha256 t' (leaves ++ newLeaves) ∧ t'.levels = t.levels := by
  unfold MerkleTree.appendLeaves
  split
  · -- nothing to append
    next he =>
    obtain rfl := List.isEmpty_iff.mp he
    exact .inr (.inr ⟨t, rfl, by simpa using h, rfl⟩)
  rw [if_neg (by simp [h.nodes_isEmpty])]
  split
  · -- over the capacity of the tree
    exact .inl ⟨_, rfl⟩
  next hm =>
  rw [h.leafHashes_eq, h.dataLeaves_eq]
  by_cases hfit : leaves.length + newLeaves.length ≤ usizeMax
  · right
    right
    -- the saturating sum of the check is the length itself
    rw [h.leafCount_eq, min_eq_left hfit] at hm
    simp only [vecExtend, List.length_map, if_pos hfit, Option.bind_eq_bind, Option.bind_some,
      ← List.map_append]
    exact exists_rebuild _ (by simp [h.leaves_ne_nil]) rfl rfl rfl
      (by simpa using Nat.le_of_not_lt hm)
  · exact .inr (.inl ⟨hfit, by simp [vecExtend, hfit]⟩)

theorem updateLeaf (h : Represents sha256 t leaves) (leafIndex : ℕ) (newLeafData : List UInt8) :
    (∃ e, MerkleTree.updateLeaf sha256 t leafIndex newLeafData = some (.error e, t)) ∨
    ∃ t', MerkleTree.updateLeaf sha256 t leafIndex newLeafData = some (.ok (), t') ∧
      Represents sha256 t' (leaves.set leafIndex newLeafData) ∧ t'.levels = t.levels := by
  unfold MerkleTree.updateLeaf
  rw [if_neg (by simp [h.nodes_isEmpty])]
  split
  · -- out of bounds
    exact .inl ⟨_, rfl⟩
  next hi =>
  right
  rw [h.leafCount_eq, not_le] at hi
  have hget : t.leafHashes[leafIndex]? = some (hashLeaf sha256 leaves[leafIndex]) := by
    simp [h.leafHashes_eq, hi]
  simp only [hget, Option.bind_eq_bind, Option.bind_some, h.dataLeaves_eq, vecSet_eq_some hi]
  split
  · next he =>
    -- the hashes, and so the levels over them, are those of the new leaves as well
    rw [he, h.leafHashes_eq] at hget
    have hsame := map_hashLeaf_set hget
    refine ⟨_, rfl, ⟨rfl, by simpa using h.leafCount_eq, ?_, h.isTower, h.topNode_eq,
      by simpa using h.length_le⟩, rfl⟩
    rw [hsame, h.leafHashes_eq]
  · rw [h.leafHashes_eq, vecSet_eq_some (by simpa using hi), Option.bind_some, ← List.map_set]
    exact exists_rebuild _ (by simp [h.leaves_ne_nil]) rfl (by simp [h.leafCount_eq]) rfl
      (by simpa using h.length_le)

theorem updateLeaves (h : Represents sha256 t leaves) (updates : List (ℕ × List UInt8)) :
    (∃ e, MerkleTree.updateLeaves sha256 t updates = some (.error e, t)) ∨
    ∃ t', MerkleTree.updateLeaves sha256 t updates = some (.ok (), t') ∧
      Represents sha256 t' (setAll leaves updates) ∧
      t'.levels = t.levels := by
  unfold MerkleTree.updateLeaves
  split
  · -- nothing to update
    next he =>
    obtain rfl := List.isEmpty_iff.mp he
    exact .inr ⟨t, rfl, h, rfl⟩
  rw [if_neg (by simp [h.nodes_isEmpty])]
  split
  · -- some index is out of bounds: the call ends before its first write
    exact .inl ⟨_, rfl⟩
  next hi =>
  right
  have hlt : ∀ u ∈ updates, u.1 < leaves.length := by
    simpa [h.leafCount_eq] using hi
  obtain ⟨changed, hc, hf⟩ := exists_hasChanges sha256 hlt
  rw [h.leafHashes_eq, h.dataLeaves_eq, hc, writeData_eq_some hlt, writeUpdates_eq_some hlt]
  cases changed with
  | false =>
    -- only the data is written: the levels stay, and are those of the new leaves
    refine ⟨_, rfl, ⟨rfl, by simpa using h.leafCount_eq, (hf rfl).symm,
      h.leafHashes_eq ▸ h.isTower, h.topNode_eq, by simpa using h.length_le⟩, rfl⟩
  | true =>
    have hne : setAll leaves updates ≠ [] :=
      List.ne_nil_of_length_pos (by simpa using List.length_pos_iff.mpr h.leaves_ne_nil)
    exact exists_rebuild _ hne rfl (by simpa using h.leafCount_eq) rfl
      (by simpa using h.length_le)

/-- **One update refines the update of the list.** On a tree that represents a list, a call fails
and changes nothing, or overflows a vector, or leaves the tree of the updated list. -/
theorem apply (h : Represents sha256 t leaves) (u : Update) :
    (∃ e, u.apply sha256 t = some (.error e, t)) ∨
    (¬ u.Fits leaves ∧ u.apply sha256 t = none) ∨
    ∃ t', u.apply sha256 t = some (.ok (), t') ∧ Represents sha256 t' (u.leaves leaves) ∧
      t'.levels = t.levels := by
  cases u with
  | appendLeaves newLeaves => exact h.appendLeaves newLeaves
  | updateLeaf leafIndex newLeafData => exact (h.updateLeaf leafIndex newLeafData).imp_right .inr
  | updateLeaves updates => exact (h.updateLeaves updates).imp_right .inr

end Represents

/-! ## Runs -/

variable (sha256) in
/-- A call of a run: the update, the result it returned, and the tree it left. -/
def step (t : MerkleTree) (l : Update × Except String Unit) (t' : MerkleTree) : Prop :=
  l.1.apply sha256 t = some (l.2, t')

/-- The leaves after the calls of a run: those that succeeded update the list, those that failed
do not. -/
def currentLeaves (leaves : List (List UInt8)) :
    List (Update × Except String Unit) → List (List UInt8)
  | [] => leaves
  | (u, .ok ()) :: ls => currentLeaves (u.leaves leaves) ls
  | (_, .error _) :: ls => currentLeaves leaves ls

/-- A failed call leaves a tree that represents a list exactly as it was. -/
theorem Represents.eq_of_error {t t' : MerkleTree} {leaves : List (List UInt8)} {u : Update}
    {e : String} (h : Represents sha256 t leaves)
    (hu : u.apply sha256 t = some (.error e, t')) : t' = t := by
  rcases h.apply u with ⟨e', he⟩ | ⟨-, hn⟩ | ⟨t'', ht, -⟩
  · obtain ⟨-, rfl⟩ : e' = e ∧ t = t' := by simpa [he] using hu
    rfl
  · rw [hn] at hu
    cases hu
  · rw [ht] at hu
    simp at hu

theorem Represents.of_ok {t t' : MerkleTree} {leaves : List (List UInt8)} {u : Update}
    (h : Represents sha256 t leaves) (hu : u.apply sha256 t = some (.ok (), t')) :
    Represents sha256 t' (u.leaves leaves) ∧ t'.levels = t.levels := by
  rcases h.apply u with ⟨e, he⟩ | ⟨-, hn⟩ | ⟨t'', ht, hr⟩
  · rw [he] at hu
    simp at hu
  · rw [hn] at hu
    cases hu
  · rw [ht] at hu
    obtain rfl : t'' = t' := by simpa using hu
    exact hr

/-- **A run refines the run on lists.** -/
theorem Represents.run {t t' : MerkleTree} {leaves : List (List UInt8)}
    {ls : List (Update × Except String Unit)} (h : Represents sha256 t leaves)
    (hr : Run (step sha256) t ls t') :
    Represents sha256 t' (currentLeaves leaves ls) ∧ t'.levels = t.levels := by
  induction hr generalizing leaves with
  | nil t => exact ⟨h, rfl⟩
  | @cons t u v l ls hl _ ih =>
    obtain ⟨op, res⟩ := l
    cases res with
    | error e =>
      -- neither the tree nor the list changes
      obtain rfl := h.eq_of_error hl
      exact ih h
    | ok =>
      obtain ⟨h', hlv⟩ := h.of_ok hl
      exact ⟨(ih h').1, (ih h').2.trans hlv⟩

/-- **Incremental updates refine rebuilding.** After any calls on a built tree, the tree is the
one `build` makes of the current leaves; a further call either fails and leaves the tree exactly
as it was, or overflows a vector, or leaves the tree `build` makes of the updated leaves. -/
theorem run_eq_build {u t t' : MerkleTree} {xs : List (List UInt8)}
    {ls : List (Update × Except String Unit)} (hb : build sha256 u xs = some (.ok (), t))
    (hr : Run (step sha256) t ls t') :
    build sha256 u (currentLeaves xs ls) = some (.ok (), t') ∧
      ∀ op : Update, (∃ e, op.apply sha256 t' = some (.error e, t')) ∨
        (¬ op.Fits (currentLeaves xs ls) ∧ op.apply sha256 t' = none) ∨
        ∃ t'', op.apply sha256 t' = some (.ok (), t'') ∧
          build sha256 u (op.leaves (currentLeaves xs ls)) = some (.ok (), t'') := by
  obtain ⟨h, hl⟩ := build_eq_ok_iff.mp hb
  obtain ⟨h', hl'⟩ := h.run hr
  constructor
  · exact build_eq_ok_iff.mpr ⟨h', hl'.trans hl⟩
  · intro op
    rcases h'.apply op with he | hn | ⟨t'', ht, hr'', hl''⟩
    · exact .inl he
    · exact .inr (.inl hn)
    · have hbuild : build sha256 u (op.leaves (currentLeaves xs ls)) = some (.ok (), t'') := by
        rw [build_eq_ok_iff]
        exact ⟨hr'', hl''.trans (hl'.trans hl)⟩
      exact .inr (.inr ⟨t'', ht, hbuild⟩)

theorem run_eq_build_append : ∃ t t',
    build Sha256.hash (new 1) [[97]] = some (.ok (), t) ∧
    appendLeaves Sha256.hash t [[98]] = some (.ok (), t') ∧
    build Sha256.hash (new 1) [[97], [98]] = some (.ok (), t') :=
  ⟨_, _, rfl, rfl, (@run_eq_build Sha256.hash (new 1) _ _ [[97]]
    [(.appendLeaves [[98]], .ok ())] rfl (.single rfl)).1⟩

end Core.MerkleTree
