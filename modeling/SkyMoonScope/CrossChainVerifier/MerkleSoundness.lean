import SkyMoonScope.CrossChainVerifier.Verifier
import SkyMoonScope.Lib.Merkle
import SkyMoonScope.Lib.Sha256

/-!
# The verifier accepts exactly the leaves of a tree

The prefixes make the strings of leaves and of nodes different, and sorting makes the combination
of a hash with its sibling independent of their sides. A stored root therefore accepts a leaf with
a list of siblings exactly when the list is the path of such a leaf in the tree.

## Main definitions

* `treeString x`, `treeHash sha256`: the string a preimage is hashed as, and its hash

## Main results

* `merkleLoop_eq_climb`: the loop climbs the sorted path
* `verifyMerkleProof_of_path`: the path of a leaf of the tree is accepted
* `verifyMerkleProof_sound`: without collisions nothing else is
-/

namespace CrossChainVerifier

open Merkle

/-- The byte string a leaf or a node is hashed as. -/
def treeString : Preimage (BytesN 32) (BytesN 32) → List UInt8
  | .leaf leaf => leafPrefix :: leaf.toList
  | .node left right => nodePrefix :: (left.toList ++ right.toList)

/-- **The prefixes keep leaves and nodes apart.** -/
theorem treeString_injective : Function.Injective treeString := by
  intro x y h
  cases x with
  | leaf a =>
    cases y with
    | leaf b => rw [BytesN.ext (List.cons.inj h).2]
    -- the first bytes are the prefixes
    | node l r => exact absurd (List.cons.inj h).1 (by decide)
  | node l r =>
    cases y with
    | leaf b => exact absurd (List.cons.inj h).1 (by decide)
    | node l' r' =>
      obtain ⟨rfl, rfl⟩ := BytesN.append_inj (List.cons.inj h).2
      rfl

section Hash

variable (sha256 : List UInt8 → BytesN 32)

/-- The hash of the verifier's trees. -/
def treeHash (x : Preimage (BytesN 32) (BytesN 32)) : BytesN 32 := sha256 (treeString x)

theorem treeHash_leaf (leaf : BytesN 32) : treeHash sha256 (.leaf leaf) = hashLeaf sha256 leaf :=
  rfl

variable {sha256}

theorem injOn_treeHash {xs : List (Preimage (BytesN 32) (BytesN 32))}
    (hinj : Set.InjOn sha256 {s | s ∈ xs.map treeString}) :
    Set.InjOn (treeHash sha256) {x | x ∈ xs} := by
  intro x hx y hy h
  apply treeString_injective
  exact hinj (List.mem_map_of_mem hx) (List.mem_map_of_mem hy) h

theorem hashNode_sorted (current sibling : BytesN 32) :
    (if sibling ≤ current then hashNode sha256 sibling current
      else hashNode sha256 current sibling) = pair (treeHash sha256) current sibling := by
  rw [pair_comm]
  unfold pair pairPreimage
  split <;> rfl

theorem merkleLoop_eq_foldl (current : BytesN 32) (proof : List (BytesN 32)) :
    merkleLoop sha256 current proof = proof.foldl (pair (treeHash sha256)) current := by
  induction proof generalizing current with
  | nil => rfl
  | cons sibling proof ih => rw [merkleLoop, ih, hashNode_sorted, List.foldl_cons]

/-- The loop climbs the path with the siblings `proof`, every pair sorted. -/
theorem merkleLoop_eq_climb (current : BytesN 32) (proof : List (BytesN 32)) :
    merkleLoop sha256 current proof =
      climb (treeHash sha256) current (sortedSteps (treeHash sha256) current proof) := by
  rw [merkleLoop_eq_foldl, climb_sortedSteps]

end Hash

variable {Address : Type} {host : Host Address} {s : State Address} {tree : HashTree (BytesN 32)}
  {leaf : BytesN 32} {blockHeight : UInt32} {proof : List (BytesN 32)} {proofFlags : List Bool}

theorem verifyMerkleProof_iff {root : BytesN 32} (hroot : s.stateRoot blockHeight = some root) :
    verifyMerkleProof host s leaf blockHeight proof proofFlags = true ↔
      proof.length = proofFlags.length ∧ proof.length ≤ maxProofLength ∧
        merkleLoop host.sha256 (hashLeaf host.sha256 leaf) proof = root := by
  rw [verifyMerkleProof, hroot]
  dsimp only
  split
  · -- a flag is missing, or a sibling
    next h => simp [h]
  next h =>
  split
  · -- the proof is too long
    next hm => simp [Nat.not_le.mpr hm]
  · next hm => simpa [not_not.mp h] using fun _ => not_not.mp h ▸ Nat.le_of_not_lt hm

/-- **The path of a leaf of the tree is accepted**, when it is not too long and has a flag for
every sibling. -/
theorem verifyMerkleProof_of_path
    (hroot : s.stateRoot blockHeight = some (tree.root (treeHash host.sha256)))
    (hpath : tree.Path (treeHash host.sha256) (.leaf leaf) proof)
    (hlen : proof.length = proofFlags.length) (hmax : proof.length ≤ maxProofLength) :
    verifyMerkleProof host s leaf blockHeight proof proofFlags = true := by
  rw [verifyMerkleProof_iff hroot, merkleLoop_eq_foldl]
  exact ⟨hlen, hmax, foldl_pair_of_path (treeHash host.sha256) hpath⟩

/-- **Soundness of inclusion proofs.** When the stored root is that of a tree, and hashing the
tree and the proof meets no collision of SHA-256, an accepted leaf is a leaf of the tree, and the
proof lists the siblings on its path. -/
theorem verifyMerkleProof_sound
    (hroot : s.stateRoot blockHeight = some (tree.root (treeHash host.sha256)))
    (hinj : Set.InjOn host.sha256
      {x | x ∈ (tree.preimages (treeHash host.sha256) ++ .leaf leaf ::
        climbPreimages (treeHash host.sha256) (hashLeaf host.sha256 leaf)
          (sortedSteps (treeHash host.sha256) (hashLeaf host.sha256 leaf) proof)).map treeString})
    (hv : verifyMerkleProof host s leaf blockHeight proof proofFlags = true) :
    leaf ∈ tree.leaves ∧ tree.Path (treeHash host.sha256) (.leaf leaf) proof := by
  obtain ⟨-, -, hloop⟩ := (verifyMerkleProof_iff hroot).mp hv
  -- the loop climbs a path that leads from the leaf's data to the root
  rw [merkleLoop_eq_climb] at hloop
  have hpath := path_leaf_of_climb (treeHash host.sha256) (injOn_treeHash hinj) hloop
  rw [sortedSteps_siblings] at hpath
  exact ⟨hpath.leaves_subset (by simp [HashTree.leaves]), hpath⟩

/-- A tree of two leaves, with the proof of the first. -/
theorem verifyMerkleProof_sound_pair :
    let host : Host Unit := ⟨Sha256.hash, fun _ _ _ => false, fun _ => []⟩
    let a : BytesN 32 := .replicate 32 1
    let b : BytesN 32 := .replicate 32 2
    let tree : HashTree (BytesN 32) := .node (.leaf a) (.leaf b)
    let s : State Unit :=
      { State.empty Unit with stateRoot := fun _ => some (tree.root (treeHash Sha256.hash)) }
    verifyMerkleProof host s a 5 [hashLeaf Sha256.hash b] [true] = true ∧
      a ∈ tree.leaves ∧ tree.Path (treeHash Sha256.hash) (.leaf a) [hashLeaf Sha256.hash b] := by
  intro host a b tree s
  have hroot : s.stateRoot 5 = some (tree.root (treeHash host.sha256)) := rfl
  have hv : verifyMerkleProof host s a 5 [hashLeaf Sha256.hash b] [true] = true :=
    verifyMerkleProof_of_path hroot (.left (.refl tree)) rfl (by decide)
  refine ⟨hv, verifyMerkleProof_sound hroot ?_ hv⟩
  refine injOn_of_nodup_map [treeString (.leaf a), treeString (.leaf b), treeString
    (pairPreimage (hashLeaf Sha256.hash a) (hashLeaf Sha256.hash b))] (by decide +kernel) ?_
  have hstep : (stepPreimage (hashLeaf Sha256.hash a)
      ⟨hashLeaf Sha256.hash b, hashLeaf Sha256.hash a ≤ hashLeaf Sha256.hash b⟩ :
        Preimage (BytesN 32) (BytesN 32)) =
      pairPreimage (hashLeaf Sha256.hash a) (hashLeaf Sha256.hash b) := by
    simp [stepPreimage, pairPreimage]
  simp [tree, host, HashTree.preimages, HashTree.root, climbPreimages, sortedSteps, hstep,
    treeHash_leaf]

end CrossChainVerifier
