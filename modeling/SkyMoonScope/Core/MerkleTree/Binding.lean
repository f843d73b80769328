import SkyMoonScope.Core.MerkleTree.Refinement
import SkyMoonScope.Lib.Sha256
import SkyMoonScope.CrossChainVerifier.MerkleSoundness

/-!
# Inclusion proofs verify

The proof of a leaf lists the siblings of its path through the levels, each with the side the path
is on. Folding it retraces the sorted pairs of the levels, so it leads from the leaf's hash to the
root.

## Main definitions

* `ProofNode.step`: a step of a proof, as a step of a path

## Main results

* `foldProof_eq_climb`: folding a proof climbs its path
* `exists_proofLoop`: the siblings of an index lead from its node to the top of the levels
* `Represents.generateProof`: every leaf of a tree has a proof that verifies
* `generateProof_verifies`: every current leaf has one, after any run of updates
-/

namespace Core

open Merkle Machine

/-- The step of a path that a proof node stands for. -/
def ProofNode.step (node : ProofNode) : Step (BytesN 32) := ⟨node.hash, node.isLeft⟩

namespace MerkleTree

variable {sha256 : List UInt8 → BytesN 32}

/-- Folding a proof climbs its path. -/
theorem foldProof_eq_climb (current : BytesN 32) (proof : List ProofNode) :
    foldProof sha256 current proof =
      climb (treeHash sha256) current (proof.map ProofNode.step) := by
  induction proof generalizing current with
  | nil => rfl
  | cons node proof ih =>
    rw [foldProof, List.foldl_cons, ← foldProof, ih, List.map_cons, climb]
    congr 1
    unfold stepPreimage ProofNode.step
    split <;> rfl

/-- One level up, a node is paired with its sibling, or with itself when it is the odd last one. -/
theorem nextLevel_getElem? {level : List (BytesN 32)} {i : ℕ} {node : BytesN 32}
    (h : level[i]? = some node) :
    (pairUp (pair (treeHash sha256)) level)[i / 2]? =
      some (pair (treeHash sha256) node (level[siblingIndex i]?.getD node)) := by
  rw [pairUp_getElem?]
  rcases Nat.mod_two_eq_zero_or_one i with hi | hi
  · -- the node is the left one of its pair, or the odd last one
    have hleft : 2 * (i / 2) = i := by omega
    rw [hleft, h, siblingIndex, if_pos hi, Option.map_some]
  · -- the node is the right one: the level pairs its sibling with it
    have hleft : 2 * (i / 2) = i - 1 := by omega
    have hright : i - 1 + 1 = i := by omega
    have hlt : i - 1 < level.length :=
      (Nat.sub_le i 1).trans_lt (List.getElem?_eq_some_iff.mp h).1
    rw [hleft, hright, h, siblingIndex, if_neg (by omega), List.getElem?_eq_getElem hlt,
      Option.map_some, Option.getD_some, Option.getD_some, pair_comm]

/-- **The siblings of an index lead from its node to the top of the levels.** -/
theorem exists_proofLoop {level : List (BytesN 32)} {nodes : List (List (BytesN 32))}
    {i : ℕ} {node root : BytesN 32} (h : IsTower (pair (treeHash sha256)) level nodes)
    (hi : level[i]? = some node) (hroot : topNode nodes = some root) :
    ∃ proof, proofLoop nodes i = some proof ∧ foldProof sha256 node proof = root := by
  induction h generalizing i node with
  | top a =>
    obtain ⟨-, rfl⟩ : i = 0 ∧ a = node := by simpa [List.getElem?_singleton] using hi
    exact ⟨[], rfl, by simpa [topNode, foldProof] using hroot⟩
  | @step level nodes _ hts ih =>
    obtain ⟨proof, hp, hf⟩ := ih (nextLevel_getElem? hi) (by
      simpa only [topNode, hts.getLast?_cons] using hroot)
    -- a level above is left, so that the loop adds a step
    obtain ⟨above, rest, rfl⟩ := List.exists_cons_of_ne_nil hts.ne_nil
    refine ⟨_, by rw [proofLoop, hi, hp]; rfl, ?_⟩
    rw [foldProof_eq_climb, List.map_cons, climb, ← foldProof_eq_climb]
    rwa [ProofNode.step, hash_stepPreimage_sorted (treeHash sha256)]

/-- **Every leaf of a tree has a proof that verifies.** -/
theorem Represents.generateProof {t : MerkleTree} {leaves : List (List UInt8)}
    (h : Represents sha256 t leaves) {i : ℕ} (hi : i < t.leafCount) :
    ∃ p, t.generateProof i = some (.ok p) ∧ leaves[i]? = some p.leaf ∧
      p.verify sha256 = true ∧ verifyProof sha256 p t.root = true := by
  have hlt : i < leaves.length := h.leafCount_eq ▸ hi
  have hhash : t.leafHashes[i]? = some (hashLeaf sha256 leaves[i]) := by
    simp [h.leafHashes_eq, hlt]
  obtain ⟨proof, hp, hf⟩ := exists_proofLoop h.isTower hhash h.topNode_eq
  refine ⟨⟨i, leaves[i], hashLeaf sha256 leaves[i], t.root, proof⟩, ?_, by simp [hlt], ?_⟩
  · rw [MerkleTree.generateProof, if_neg (by simp [h.nodes_isEmpty]), if_neg (by omega), hp,
      h.dataLeaves_eq, h.isTower.head?_eq]
    simp [hlt, hhash]
  · -- the start hash is the leaf's hash, also when that happens to be all zeros
    have hstart : MerkleProof.startHash sha256
        ⟨i, leaves[i], hashLeaf sha256 leaves[i], t.root, proof⟩ = hashLeaf sha256 leaves[i] := by
      simp [MerkleProof.startHash]
    simp only [MerkleProof.verify, verifyProof, hstart, hf, decide_true, and_self]

/-- **Completeness.** After any calls on a built tree, `generate_proof` succeeds for every index
below the leaf count, with a proof of the leaf now at the index that verifies against its own root
and against the root of the tree. -/
theorem generateProof_verifies {u t t' : MerkleTree} {xs : List (List UInt8)}
    {ls : List (Update × Except String Unit)} (hb : build sha256 u xs = some (.ok (), t))
    (hr : Run (step sha256) t ls t') {i : ℕ} (hi : i < t'.leafCount) :
    ∃ p, t'.generateProof i = some (.ok p) ∧ (currentLeaves xs ls)[i]? = some p.leaf ∧
      p.verify sha256 = true ∧ verifyProof sha256 p t'.root = true :=
  ((build_eq_ok_iff.mp hb).1.run hr).1.generateProof hi

theorem generateProof_verifies_append : ∃ t t',
    build Sha256.hash (new 1) [[97]] = some (.ok (), t) ∧
    appendLeaves Sha256.hash t [[98]] = some (.ok (), t') ∧
    ∃ p, t'.generateProof 1 = some (.ok p) ∧ some [98] = some p.leaf ∧
      p.verify Sha256.hash = true ∧ verifyProof Sha256.hash p t'.root = true :=
  ⟨_, _, rfl, rfl, @generateProof_verifies Sha256.hash (new 1) _ _ [[97]]
    [(.appendLeaves [[98]], .ok ())] rfl (.single rfl) 1 (by decide)⟩

end MerkleTree

end Core

/-!
# What roots and proofs commit to

The hash of the tree is two-level: SHA-256 below, and above it the leaf hash and the node hash,
which are told apart by the length of what SHA-256 reads. Where SHA-256 has no collision among the
strings a result is about, neither has the tree's hash.

## Main definitions

* `hashedStrings sha256 x`: the byte strings that hashing the preimage `x` feeds to SHA-256

## Main results

* `injOn_treeHash`: no collision of SHA-256, no collision of the tree's hash
* `verifyProof_sound`: an accepted proof starts at a node of the tree, and at a current leaf when
  it starts at the hash of its own leaf
* `root_eq_iff`: two lists build the same root exactly when their trees differ in the order of
  children only
-/

namespace Core.MerkleTree

open Merkle Machine

section HashedStrings

variable (sha256 : List UInt8 → BytesN 32)

/-- The byte strings that hashing a preimage feeds to SHA-256. -/
def hashedStrings : Preimage (List UInt8) (BytesN 32) → List (List UInt8)
  | .leaf data => [data, (sha256 data).toList]
  | .node left right => [left.toList ++ right.toList]

variable {sha256}

/-- **No collision of SHA-256, no collision of the tree's hash.** A leaf hash and a node hash
read strings of 32 and of 64 bytes. -/
theorem injOn_treeHash {xs : List (Preimage (List UInt8) (BytesN 32))}
    (hinj : Set.InjOn sha256 {s | s ∈ xs.flatMap (hashedStrings sha256)}) :
    Set.InjOn (treeHash sha256) {x | x ∈ xs} := by
  have hmem : ∀ {x s}, x ∈ xs → s ∈ hashedStrings sha256 x →
      s ∈ {s | s ∈ xs.flatMap (hashedStrings sha256)} :=
    fun hx hs => List.mem_flatMap.mpr ⟨_, hx, hs⟩
  have hlen : ∀ (a : BytesN 32) (l r : BytesN 32), a.toList ≠ l.toList ++ r.toList := by
    intro a l r h
    simpa using congrArg List.length h
  intro x hx y hy h
  cases x with
  | leaf a =>
    cases y with
    | leaf b =>
      -- the outer hash is cancelled first, then the inner one
      have hab : sha256 a = sha256 b := BytesN.ext (hinj (hmem hx (by simp [hashedStrings]))
        (hmem hy (by simp [hashedStrings])) h)
      rw [hinj (hmem hx (by simp [hashedStrings])) (hmem hy (by simp [hashedStrings])) hab]
    | node l r =>
      exact absurd (hinj (hmem hx (by simp [hashedStrings])) (hmem hy (by simp [hashedStrings])) h)
        (hlen _ l r)
  | node l r =>
    have hl : l.toList ++ r.toList ∈ hashedStrings sha256 (.node l r) := by simp [hashedStrings]
    cases y with
    | leaf b =>
      exact absurd (hinj (hmem hx hl) (hmem hy (by simp [hashedStrings])) h).symm (hlen _ l r)
    | node l' r' =>
      obtain ⟨rfl, rfl⟩ := BytesN.append_inj
        (hinj (hmem hx hl) (hmem hy (by simp [hashedStrings])) h)
      rfl

end HashedStrings

variable {sha256 : List UInt8 → BytesN 32}

/-- The leaves of a tree build exactly one tree of data. -/
theorem Represents.existsUnique_tree {t : MerkleTree} {leaves : List (List UInt8)}
    (h : Represents sha256 t leaves) : ∃! tree, BuildsTree leaves tree := by
  obtain ⟨tree, htree⟩ := exists_buildsTree h.leaves_ne_nil
  exact ⟨tree, htree, fun _ h' => h'.unique htree⟩

/-- **The root of a tree is the root of the tree of data that its leaves build.** -/
theorem Represents.root_eq {t : MerkleTree} {leaves : List (List UInt8)}
    {tree : HashTree (List UInt8)} (h : Represents sha256 t leaves) (ht : BuildsTree leaves tree) :
    t.root = tree.root (treeHash sha256) := by
  have hlast := ht.root_eq h.isTower_leaves
  simpa [topNode, hlast] using h.topNode_eq.symm

/-! ## Proofs -/

/-- **An accepted proof starts at a node of the tree.** After any calls on a built tree, when
hashing the tree and the proof meets no collision of SHA-256, the hash an accepted proof starts
from is a node of the levels, and if that is the hash of the proof's leaf, the leaf is one of the
current leaves. -/
theorem verifyProof_sound {u t t' : MerkleTree} {xs : List (List UInt8)}
    {ls : List (Update × Except String Unit)} {tree : HashTree (List UInt8)} {p : MerkleProof}
    (hb : build sha256 u xs = some (.ok (), t)) (hr : Run (step sha256) t ls t')
    (htree : BuildsTree (currentLeaves xs ls) tree)
    (hinj : Set.InjOn sha256 {s | s ∈ (tree.preimages (treeHash sha256) ++ .leaf p.leaf ::
      climbPreimages (treeHash sha256) (p.startHash sha256)
        (p.proof.map ProofNode.step)).flatMap (hashedStrings sha256)})
    (hv : verifyProof sha256 p t'.root = true) :
    (∃ level ∈ t'.nodes, p.startHash sha256 ∈ level) ∧
      (p.startHash sha256 = hashLeaf sha256 p.leaf → p.leaf ∈ currentLeaves xs ls) := by
  have h := ((build_eq_ok_iff.mp hb).1.run hr).1
  -- the accepted proof is a path that leads to the root of the tree of data
  have hclimb : climb (treeHash sha256) (p.startHash sha256) (p.proof.map ProofNode.step) =
      tree.root (treeHash sha256) := by
    rw [← foldProof_eq_climb, ← h.root_eq htree]
    exact of_decide_eq_true hv
  have htreeHash := injOn_treeHash hinj
  constructor
  · obtain ⟨v, hv, hroot⟩ := exists_path_of_climb (treeHash sha256)
      (htreeHash.mono fun x hx => by simp at hx ⊢; tauto) hclimb
    rw [← hroot]
    exact htree.root_mem_of_path hv h.isTower_leaves
  · intro hleaf
    -- a proof that starts at the hash of its own leaf climbs from a leaf of the tree
    rw [hleaf] at hclimb htreeHash
    have hpath := path_leaf_of_climb (treeHash sha256) htreeHash hclimb
    rw [← htree.mem_leaves]
    exact hpath.leaves_subset (by simp [HashTree.leaves])

/-- The proof of the only leaf `[97]`, hashed with SHA-256, with `leaf` in its place. -/
def singleProof (leaf : List UInt8) : MerkleProof :=
  { leafIndex := 0, leaf, leafHash := hashLeaf Sha256.hash [97],
    root := hashLeaf Sha256.hash [97], proof := [] }

theorem startHash_singleProof (leaf : List UInt8) :
    (singleProof leaf).startHash Sha256.hash = hashLeaf Sha256.hash [97] := by
  have h : hashLeaf Sha256.hash [97] ≠ zeroHash := by decide +kernel
  exact if_neg h

theorem verifyProof_singleProof (leaf : List UInt8) :
    verifyProof Sha256.hash (singleProof leaf) (hashLeaf Sha256.hash [97]) = true := by
  rw [verifyProof, startHash_singleProof]
  exact decide_eq_true rfl

theorem buildsTree_singleton (data : List UInt8) : BuildsTree [data] (.leaf data) :=
  ⟨[[.leaf data]], .top _, rfl⟩

theorem verifyProof_sound_single : ∃ t, build Sha256.hash (new 1) [[97]] = some (.ok (), t) ∧
    verifyProof Sha256.hash (singleProof [97]) t.root = true ∧
    (∃ level ∈ t.nodes, (singleProof [97]).startHash Sha256.hash ∈ level) ∧
    ((singleProof [97]).startHash Sha256.hash = hashLeaf Sha256.hash (singleProof [97]).leaf →
      (singleProof [97]).leaf ∈ [[97]]) :=
  ⟨_, rfl, verifyProof_singleProof [97], @verifyProof_sound Sha256.hash (new 1) _ _ [[97]] [] _ _
    rfl (.nil _) (buildsTree_singleton [97])
    (injOn_of_nodup_map [[97], (Sha256.hash [97]).toList] (by decide +kernel)
      (by simp [HashTree.preimages, hashedStrings, singleProof, climbPreimages]))
    (verifyProof_singleProof [97])⟩

/-- The leaf of an accepted proof need not be a leaf of the tree: the proof of the leaf `[97]`
verifies with the leaf `[98]` in its place. -/
theorem verifyProof_forged : ∃ t, build Sha256.hash (new 1) [[97]] = some (.ok (), t) ∧
    verifyProof Sha256.hash (singleProof [98]) t.root = true ∧
    (singleProof [98]).leaf ∉ t.dataLeaves ∧
    Set.InjOn Sha256.hash {s | s ∈ [[97], (Sha256.hash [97]).toList, [98],
      (Sha256.hash [98]).toList]} :=
  ⟨_, rfl, verifyProof_singleProof [98], by decide,
    injOn_of_nodup_map _ (by decide +kernel) (List.Subset.refl _)⟩

/-! ## Roots -/

/-- **Root binding.** When hashing two lists of leaves meets no collision of the leaf hash and the
node hash, `build` gives them the same root exactly when their trees differ in the order of
children only. -/
theorem root_eq_iff {u v t t' : MerkleTree} {xs ys : List (List UInt8)}
    {tree tree' : HashTree (List UInt8)} (hx : build sha256 u xs = some (.ok (), t))
    (hy : build sha256 v ys = some (.ok (), t')) (htree : BuildsTree xs tree)
    (htree' : BuildsTree ys tree')
    (hinj : Set.InjOn (treeHash sha256)
      {x | x ∈ tree.preimages (treeHash sha256) ++ tree'.preimages (treeHash sha256)}) :
    (t.root = t'.root ↔ tree.Swap tree') ∧
      (t.root = t'.root → t.nodes.length = t'.nodes.length ∧ ∀ data, data ∈ xs ↔ data ∈ ys) := by
  obtain ⟨h, -⟩ := build_eq_ok_iff.mp hx
  obtain ⟨h', -⟩ := build_eq_ok_iff.mp hy
  have hiff : t.root = t'.root ↔ tree.Swap tree' := by
    rw [h.root_eq htree, h'.root_eq htree', HashTree.root_eq_iff_swap (treeHash sha256) hinj]
  refine ⟨hiff, ?_⟩
  intro hroot
  have hswap := hiff.mp hroot
  constructor
  · -- the tree has a level more than its height, and swapping keeps the height
    rw [← htree.height_add_one h.isTower_leaves, ← htree'.height_add_one h'.isTower_leaves,
      hswap.height_eq]
  · intro data
    rw [← htree.mem_leaves, ← htree'.mem_leaves, hswap.mem_leaves]

theorem buildsTree_pair (a b : List UInt8) :
    BuildsTree [a, b] (.node (.leaf a) (.leaf b)) :=
  ⟨[[.leaf a, .leaf b], [.node (.leaf a) (.leaf b)]], .step (by simp) (.top _), rfl⟩

/-- The trees of `[97]` and `[98]`, in one order and in the other, are hashed by SHA-256 without
collisions. -/
theorem injOn_treeHash_pair : Set.InjOn (treeHash Sha256.hash)
    {x | x ∈ (HashTree.node (.leaf [97]) (.leaf [98])).preimages (treeHash Sha256.hash) ++
      (HashTree.node (.leaf [98]) (.leaf [97])).preimages (treeHash Sha256.hash)} := by
  refine injOn_of_nodup_map [.leaf [97], .leaf [98],
    pairPreimage (hashLeaf Sha256.hash [97]) (hashLeaf Sha256.hash [98])] (by decide +kernel) ?_
  simp [HashTree.preimages, HashTree.root, treeHash, pairPreimage_comm (hashLeaf Sha256.hash [98])]

theorem root_eq_iff_pair : ∃ t t', build Sha256.hash (new 1) [[97], [98]] = some (.ok (), t) ∧
    build Sha256.hash (new 1) [[98], [97]] = some (.ok (), t') ∧
    (t.root = t'.root ↔
      (HashTree.node (.leaf [(97 : UInt8)]) (.leaf [98])).Swap (.node (.leaf [98]) (.leaf [97]))) ∧
    (t.root = t'.root → t.nodes.length = t'.nodes.length ∧
      ∀ data : List UInt8, data ∈ [[97], [98]] ↔ data ∈ [[98], [97]]) :=
  ⟨_, _, rfl, rfl, root_eq_iff (u := new 1) (v := new 1) rfl rfl (buildsTree_pair _ _)
    (buildsTree_pair _ _) injOn_treeHash_pair⟩

/-- Different lists can have the same root: a pair is sorted before it is hashed. -/
theorem root_eq_of_swapped : ∃ t t', build Sha256.hash (new 1) [[97], [98]] = some (.ok (), t) ∧
    build Sha256.hash (new 1) [[98], [97]] = some (.ok (), t') ∧
    t.root = t'.root ∧ t.dataLeaves ≠ t'.dataLeaves ∧
    Set.InjOn (treeHash Sha256.hash)
      {x | x ∈ (HashTree.node (.leaf [97]) (.leaf [98])).preimages (treeHash Sha256.hash) ++
        (HashTree.node (.leaf [98]) (.leaf [97])).preimages (treeHash Sha256.hash)} := by
  obtain ⟨t, ht⟩ : ∃ t, build Sha256.hash (new 1) [[97], [98]] = some (.ok (), t) := ⟨_, rfl⟩
  obtain ⟨t', ht'⟩ : ∃ t, build Sha256.hash (new 1) [[98], [97]] = some (.ok (), t) := ⟨_, rfl⟩
  obtain ⟨h, -⟩ := build_eq_ok_iff.mp ht
  obtain ⟨h', -⟩ := build_eq_ok_iff.mp ht'
  refine ⟨t, t', ht, ht', ?_, ?_, injOn_treeHash_pair⟩
  · rw [h.root_eq (buildsTree_pair _ _), h'.root_eq (buildsTree_pair _ _)]
    exact HashTree.Swap.root_eq _ (.swap (.leaf _) (.leaf _))
  · rw [h.dataLeaves_eq, h'.dataLeaves_eq]
    decide

end Core.MerkleTree

/-!
# The off-chain tree and the on-chain verifier

The repository calls the proofs of the off-chain tree compatible with the verifier. The two sort
their pairs alike, but the verifier prefixes leaves and nodes where the tree hashes leaves twice and
nodes bare. Every string the tree hashes at its root has 32 or 64 bytes and every string the
verifier hashes has 33 or 65, so the verifier computes the root of the tree only on a collision.

## Main results

* `exists_hashedString`, `length_treeString`: the lengths of the strings
* `verifyMerkleProof_rejects`: the verifier rejects every proof against the root of the tree
* `generateProof_rejected`: in particular the proof the tree generates for a leaf
-/

namespace Core.MerkleTree

open Merkle

/-- What the tree hashes last for a preimage has 32 or 64 bytes. -/
theorem exists_hashedString (sha256 : List UInt8 → BytesN 32)
    (x : Preimage (List UInt8) (BytesN 32)) :
    ∃ s ∈ hashedStrings sha256 x,
      treeHash sha256 x = sha256 s ∧ (s.length = 32 ∨ s.length = 64) := by
  cases x with
  | leaf data => exact ⟨_, by simp [hashedStrings], rfl, .inl (by simp)⟩
  | node l r => exact ⟨_, by simp [hashedStrings], rfl, .inr (by simp)⟩

/-- What the verifier hashes has 33 or 65 bytes. -/
theorem length_treeString (x : Preimage (BytesN 32) (BytesN 32)) :
    (CrossChainVerifier.treeString x).length = 33 ∨
      (CrossChainVerifier.treeString x).length = 65 := by
  cases x <;> simp [CrossChainVerifier.treeString]

variable {Address : Type} {host : CrossChainVerifier.Host Address}
  {s : CrossChainVerifier.State Address} {blockHeight : UInt32} {u t : MerkleTree}
  {xs : List (List UInt8)} {tree : HashTree (List UInt8)}

/-- What building the tree and verifying a leaf with the siblings `proof` feed to SHA-256. -/
def comparedStrings (sha256 : List UInt8 → BytesN 32) (tree : HashTree (List UInt8))
    (leaf : BytesN 32) (proof : List (BytesN 32)) : List (List UInt8) :=
  (tree.preimages (treeHash sha256)).flatMap (hashedStrings sha256) ++
    (.leaf leaf :: climbPreimages (CrossChainVerifier.treeHash sha256)
      (CrossChainVerifier.hashLeaf sha256 leaf)
      (sortedSteps (CrossChainVerifier.treeHash sha256) (CrossChainVerifier.hashLeaf sha256 leaf)
        proof)).map CrossChainVerifier.treeString

/-- **The verifier rejects every proof against the root of an off-chain tree**, unless SHA-256
collides on what the two hash. -/
theorem verifyMerkleProof_rejects (hb : build host.sha256 u xs = some (.ok (), t))
    (htree : BuildsTree xs tree) (hroot : s.stateRoot blockHeight = some t.root)
    (leaf : BytesN 32) (proof : List (BytesN 32)) (proofFlags : List Bool)
    (hinj : Set.InjOn host.sha256 {x | x ∈ comparedStrings host.sha256 tree leaf proof}) :
    CrossChainVerifier.verifyMerkleProof host s leaf blockHeight proof proofFlags = false := by
  rw [← Bool.not_eq_true, CrossChainVerifier.verifyMerkleProof_iff hroot]
  rintro ⟨-, -, hloop⟩
  -- an accepted proof hashes some string `a` of the tree and some string of the verifier alike
  rw [(build_eq_ok_iff.mp hb).1.root_eq htree, ← HashTree.hash_topPreimage,
    CrossChainVerifier.merkleLoop_eq_climb] at hloop
  obtain ⟨a, ha, hta, hlen⟩ :=
    exists_hashedString host.sha256 (tree.topPreimage (treeHash host.sha256))
  obtain ⟨y, hy, hcy⟩ := exists_climb_eq (CrossChainVerifier.treeHash host.sha256) (.leaf leaf)
    (sortedSteps (CrossChainVerifier.treeHash host.sha256)
      (CrossChainVerifier.hashLeaf host.sha256 leaf) proof)
  have heq : CrossChainVerifier.treeString y = a := by
    refine hinj ?_ ?_ ((hcy.symm.trans hloop).trans hta)
    · exact List.mem_append_right _ (List.mem_map_of_mem hy)
    · exact List.mem_append_left _
        (List.mem_flatMap.mpr ⟨_, HashTree.topPreimage_mem (treeHash host.sha256) tree, ha⟩)
  -- but no length is that of both
  have hlen' := length_treeString y
  rw [heq] at hlen'
  omega

/-- **The proof the tree generates for a leaf is rejected on chain.** Off chain it verifies; on
chain no 32 bytes for the leaf and no flags make it verify against the root of the tree. -/
theorem generateProof_rejected (hb : build host.sha256 u xs = some (.ok (), t))
    (htree : BuildsTree xs tree) (hroot : s.stateRoot blockHeight = some t.root) {i : ℕ}
    (hi : i < xs.length) :
    ∃ p, t.generateProof i = some (.ok p) ∧ xs[i]? = some p.leaf ∧
      verifyProof host.sha256 p t.root = true ∧
      ∀ (leaf : BytesN 32) (proofFlags : List Bool),
        Set.InjOn host.sha256
          {x | x ∈ comparedStrings host.sha256 tree leaf (p.proof.map ProofNode.hash)} →
        CrossChainVerifier.verifyMerkleProof host s leaf blockHeight (p.proof.map ProofNode.hash)
          proofFlags = false := by
  have h := (build_eq_ok_iff.mp hb).1
  obtain ⟨p, hp, hleaf, -, hv⟩ := h.generateProof (h.leafCount_eq ▸ hi)
  exact ⟨p, hp, hleaf, hv, fun leaf proofFlags hinj =>
    verifyMerkleProof_rejects hb htree hroot leaf _ proofFlags hinj⟩

/-- The tree over the leaf of 32 ones. -/
theorem generateProof_rejected_single :
    let host : CrossChainVerifier.Host Unit := ⟨Sha256.hash, fun _ _ _ => false, fun _ => []⟩
    let leaf : BytesN 32 := .replicate 32 1
    ∃ t p, build Sha256.hash (new 1) [leaf.toList] = some (.ok (), t) ∧
      t.generateProof 0 = some (.ok p) ∧ verifyProof Sha256.hash p t.root = true ∧
      CrossChainVerifier.verifyMerkleProof host
        { CrossChainVerifier.State.empty Unit with stateRoot := fun _ => some t.root } leaf 5
        (p.proof.map ProofNode.hash) [] = false := by
  intro host leaf
  obtain ⟨t, ht⟩ : ∃ t, build Sha256.hash (new 1) [leaf.toList] = some (.ok (), t) := ⟨_, rfl⟩
  let s : CrossChainVerifier.State Unit :=
    { CrossChainVerifier.State.empty Unit with stateRoot := fun _ => some t.root }
  have hroot : s.stateRoot 5 = some t.root := rfl
  obtain ⟨p, hp, -, hv, hrej⟩ := @generateProof_rejected Unit host s 5 (new 1) t [leaf.toList] _ ht
    (buildsTree_singleton _) hroot 0 (by decide)
  refine ⟨t, p, ht, hp, hv, hrej leaf [] ?_⟩
  -- the three strings that are hashed have different digests
  obtain rfl : _ = t := by
    simpa [build, maxLeaves, new, buildLevels, buildLevelsLoop, topNode] using ht
  obtain rfl : _ = p := by simpa [generateProof, proofLoop] using hp
  exact injOn_of_nodup_map [leaf.toList, (Sha256.hash leaf.toList).toList,
    CrossChainVerifier.treeString (.leaf leaf)] (by decide +kernel)
    (by simp [host, comparedStrings, HashTree.preimages, hashedStrings, climbPreimages,
      sortedSteps])

/-- The proof of the only leaf, rejected for the leaf itself and for the hash of the leaf. -/
theorem verifyMerkleProof_incompatible :
    let host : CrossChainVerifier.Host Unit := ⟨Sha256.hash, fun _ _ _ => false, fun _ => []⟩
    let leaf : BytesN 32 := .replicate 32 1
    ∃ t p, build Sha256.hash (new 1) [leaf.toList] = some (.ok (), t) ∧
      t.generateProof 0 = some (.ok p) ∧
      ∀ s : CrossChainVerifier.State Unit, s.stateRoot 5 = some t.root →
        CrossChainVerifier.verifyMerkleProof host s leaf 5 (p.proof.map ProofNode.hash) [] =
          false ∧
        CrossChainVerifier.verifyMerkleProof host s (Sha256.hash leaf.toList) 5
          (p.proof.map ProofNode.hash) [] = false := by
  intro host leaf
  have hne : CrossChainVerifier.hashLeaf Sha256.hash leaf ≠ hashLeaf Sha256.hash leaf.toList ∧
      CrossChainVerifier.hashLeaf Sha256.hash (Sha256.hash leaf.toList) ≠
        hashLeaf Sha256.hash leaf.toList := by
    decide +kernel
  refine ⟨_, _, rfl, rfl, fun s hroot => ?_⟩
  simp only [CrossChainVerifier.verifyMerkleProof, hroot]
  exact ⟨decide_eq_false hne.1, decide_eq_false hne.2⟩

end Core.MerkleTree
