import SkyMoonScope.Lib.Bytes
import SkyMoonScope.Lib.Levels

/-!
# The off-chain Merkle tree

The tree of `core/src/merkle_tree.rs`, over any hash function `sha256` from byte strings to
32-byte digests. A method that takes `&mut self` returns its result with the tree it leaves
behind; `none` is a panic or a call that never returns. Lengths and indices are natural numbers,
and a vector longer than `usize::MAX` is a capacity overflow.

## Main definitions

* `MerkleTree.build`, `appendLeaves`, `updateLeaf`, `updateLeaves`: the methods that change a tree
* `MerkleTree.generateProof`, `MerkleProof.verify`, `MerkleTree.verifyProof`: inclusion proofs
* `buildLevels`: the levels over the leaf hashes
-/

namespace Core

/-- One step in a Merkle inclusion proof. -/
structure ProofNode where
  hash : BytesN 32
  isLeft : Bool
deriving DecidableEq

/-- A Merkle inclusion proof for a single leaf. -/
structure MerkleProof where
  leafIndex : ℕ
  leaf : List UInt8
  leafHash : BytesN 32
  root : BytesN 32
  proof : List ProofNode
deriving DecidableEq

/-- A binary Merkle tree. -/
@[ext] structure MerkleTree where
  root : BytesN 32
  levels : ℕ
  leafCount : ℕ
  dataLeaves : List (List UInt8)
  nodes : List (List (BytesN 32))
  leafHashes : List (BytesN 32)
deriving DecidableEq

/-- The digest of zeros that marks an absent leaf hash. -/
def zeroHash : BytesN 32 := .replicate 32 0

/-- `usize::MAX` on the 64-bit targets the crate is built for. -/
def usizeMax : ℕ := 2 ^ 64 - 1

/-- `Vec::extend`, which panics when the length overflows. -/
def vecExtend {α : Type} (xs ys : List α) : Option (List α) :=
  if xs.length + ys.length ≤ usizeMax then some (xs ++ ys) else none

/-- Assignment to `xs[i]`, which panics when the index is out of bounds. -/
def vecSet {α : Type} (xs : List α) (i : ℕ) (x : α) : Option (List α) :=
  if i < xs.length then some (xs.set i x) else none

namespace MerkleTree

section Hash

variable (sha256 : List UInt8 → BytesN 32)

def hashLeaf (data : List UInt8) : BytesN 32 := sha256 (sha256 data).toList

def hashPair (left right : BytesN 32) : BytesN 32 :=
  if left ≤ right then sha256 (left.toList ++ right.toList)
  else sha256 (right.toList ++ left.toList)

def hashConcat (left right : BytesN 32) : BytesN 32 := sha256 (left.toList ++ right.toList)

/-- The inner loop of `build_levels`: the hashes of the pairs of a level, an odd last node with
itself. -/
def nextLevel : List (BytesN 32) → List (BytesN 32)
  | [] => []
  | [left] => [hashPair sha256 left left]
  | left :: right :: rest => hashPair sha256 left right :: nextLevel rest

/-- The outer loop of `build_levels`, for at most `n` rounds. -/
def buildLevelsLoop : ℕ → List (BytesN 32) → Option (List (List (BytesN 32)))
  | 0, _ => none
  | n + 1, currentLevel =>
    if currentLevel.length = 1 then some [currentLevel]
    else (buildLevelsLoop n (nextLevel sha256 currentLevel)).map (currentLevel :: ·)

/-- The levels over the leaf hashes. A level of `m > 1` nodes is followed by one of fewer, so `m`
rounds are enough; over no leaves the loop never ends. -/
def buildLevels (leafHashes : List (BytesN 32)) : Option (List (List (BytesN 32))) :=
  buildLevelsLoop sha256 leafHashes.length leafHashes

/-- `self.nodes.last().and_then(|level| level.first())`. -/
def topNode (nodes : List (List (BytesN 32))) : Option (BytesN 32) :=
  nodes.getLast?.bind List.head?

/-- The number of leaves a tree of the configured depth holds. -/
def maxLeaves (levels : ℕ) : ℕ := if 64 ≤ levels then usizeMax else 2 ^ levels

/-- Create a new empty Merkle tree with a maximum depth. -/
def new (levels : ℕ) : MerkleTree :=
  { root := zeroHash, levels, leafCount := 0, dataLeaves := [], nodes := [], leafHashes := [] }

/-- Build the tree from raw leaf bytes. -/
def build (self : MerkleTree) (leaves : List (List UInt8)) :
    Option (Except String Unit × MerkleTree) :=
  if leaves.isEmpty then
    some (.error "Cannot build a Merkle tree from zero leaves.", self)
  else if maxLeaves self.levels < leaves.length then
    some (.error "Leaf count exceeds configured tree capacity.", self)
  else do
    let leafHashes := leaves.map (hashLeaf sha256)
    let nodes ← buildLevels sha256 leafHashes
    match topNode nodes with
    | none => some (.error "Failed to calculate tree root.", { self with nodes })
    | some root =>
      some (.ok (), { self with
        nodes, root, dataLeaves := leaves, leafCount := leaves.length, leafHashes })

/-- The end of every incremental update: rebuild the levels from the leaf hashes. -/
def rebuild (self : MerkleTree) (failure : String) : Option (Except String Unit × MerkleTree) := do
  let nodes ← buildLevels sha256 self.leafHashes
  match topNode nodes with
  | none => some (.error failure, { self with nodes })
  | some root => some (.ok (), { self with nodes, root })

/-- Append one or more new leaves to the tree. -/
def appendLeaves (self : MerkleTree) (newLeaves : List (List UInt8)) :
    Option (Except String Unit × MerkleTree) :=
  if newLeaves.isEmpty then some (.ok (), self)
  else if self.nodes.isEmpty then
    some (.error "Cannot append to uninitialized tree. Call build() first.", self)
  else if maxLeaves self.levels < min (self.leafCount + newLeaves.length) usizeMax then
    some (.error "Appending leaves would exceed configured tree capacity.", self)
  else do
    let leafHashes ← vecExtend self.leafHashes (newLeaves.map (hashLeaf sha256))
    let dataLeaves ← vecExtend self.dataLeaves newLeaves
    rebuild sha256 { self with leafHashes, dataLeaves, leafCount := dataLeaves.length }
      "Failed to calculate tree root after append."

/-- Update a specific leaf in place. -/
def updateLeaf (self : MerkleTree) (leafIndex : ℕ) (newLeafData : List UInt8) :
    Option (Except String Unit × MerkleTree) :=
  if self.nodes.isEmpty then
    some (.error "Cannot update leaf in uninitialized tree. Call build() first.", self)
  else if self.leafCount ≤ leafIndex then some (.error "Leaf index is out of bounds.", self)
  else do
    let newLeafHash := hashLeaf sha256 newLeafData
    let oldLeafHash ← self.leafHashes[leafIndex]?
    if oldLeafHash = newLeafHash then
      let dataLeaves ← vecSet self.dataLeaves leafIndex newLeafData
      some (.ok (), { self with dataLeaves })
    else
      let leafHashes ← vecSet self.leafHashes leafIndex newLeafHash
      let dataLeaves ← vecSet self.dataLeaves leafIndex newLeafData
      rebuild sha256 { self with leafHashes, dataLeaves }
        "Failed to calculate tree root after update."

/-- Whether some update changes its leaf's hash. -/
def hasChanges (leafHashes : List (BytesN 32)) : List (ℕ × List UInt8) → Option Bool
  | [] => some false
  | (idx, newLeafData) :: updates => do
    let oldHash ← leafHashes[idx]?
    if oldHash ≠ hashLeaf sha256 newLeafData then some true else hasChanges leafHashes updates

omit sha256 in
/-- The data of the updates, written in order. -/
def writeData (dataLeaves : List (List UInt8)) :
    List (ℕ × List UInt8) → Option (List (List UInt8))
  | [] => some dataLeaves
  | (idx, newLeafData) :: updates => do
    let dataLeaves ← vecSet dataLeaves idx newLeafData
    writeData dataLeaves updates

/-- The hashes and the data of the updates, written in order. -/
def writeUpdates (leafHashes : List (BytesN 32)) (dataLeaves : List (List UInt8)) :
    List (ℕ × List UInt8) → Option (List (BytesN 32) × List (List UInt8))
  | [] => some (leafHashes, dataLeaves)
  | (idx, newLeafData) :: updates => do
    let leafHashes ← vecSet leafHashes idx (hashLeaf sha256 newLeafData)
    let dataLeaves ← vecSet dataLeaves idx newLeafData
    writeUpdates leafHashes dataLeaves updates

/-- Update multiple leaves in place, all of them or none. -/
def updateLeaves (self : MerkleTree) (updates : List (ℕ × List UInt8)) :
    Option (Except String Unit × MerkleTree) :=
  if updates.isEmpty then some (.ok (), self)
  else if self.nodes.isEmpty then
    some (.error "Cannot update leaves in uninitialized tree. Call build() first.", self)
  else if updates.any fun u => self.leafCount ≤ u.1 then
    some (.error "Leaf index is out of bounds.", self)
  else do
    let changed ← hasChanges sha256 self.leafHashes updates
    if changed then
      let (leafHashes, dataLeaves) ← writeUpdates sha256 self.leafHashes self.dataLeaves updates
      rebuild sha256 { self with leafHashes, dataLeaves }
        "Failed to calculate tree root after bulk update."
    else
      let dataLeaves ← writeData self.dataLeaves updates
      some (.ok (), { self with dataLeaves })

end Hash

/-- The index a path node is paired with. -/
def siblingIndex (pathIndex : ℕ) : ℕ := if pathIndex % 2 = 0 then pathIndex + 1 else pathIndex - 1

/-- The loop of `generate_proof`: one step for every level below the top. -/
def proofLoop : List (List (BytesN 32)) → ℕ → Option (List ProofNode)
  | levelNodes :: above :: rest, pathIndex => do
    let node ← levelNodes[pathIndex]?
    let siblingHash := levelNodes[siblingIndex pathIndex]?.getD node
    let proof ← proofLoop (above :: rest) (pathIndex / 2)
    some (⟨siblingHash, node ≤ siblingHash⟩ :: proof)
  | _, _ => some []

/-- Generate an inclusion proof for the leaf at `leafIndex`. -/
def generateProof (self : MerkleTree) (leafIndex : ℕ) : Option (Except String MerkleProof) :=
  if self.nodes.isEmpty then
    some (.error "Cannot generate proof before building the tree.")
  else if self.leafCount ≤ leafIndex then some (.error "Leaf index is out of bounds.")
  else do
    let proof ← proofLoop self.nodes leafIndex
    let leaf ← self.dataLeaves[leafIndex]?
    let leafHash ← self.nodes.head?.bind (·[leafIndex]?)
    some (.ok { leafIndex, leaf, leafHash, root := self.root, proof })

end MerkleTree

section Verify

variable (sha256 : List UInt8 → BytesN 32)

/-- The hash the path leads to, as `verify` and `verify_proof` fold it. -/
def foldProof (current : BytesN 32) (proof : List ProofNode) : BytesN 32 :=
  proof.foldl (fun current node =>
    if node.isLeft then MerkleTree.hashConcat sha256 current node.hash
    else MerkleTree.hashConcat sha256 node.hash current) current

/-- The hash verification starts from. -/
def MerkleProof.startHash (self : MerkleProof) : BytesN 32 :=
  if self.leafHash = zeroHash then MerkleTree.hashLeaf sha256 self.leaf else self.leafHash

/-- Verify the proof against the claimed root. -/
def MerkleProof.verify (self : MerkleProof) : Bool :=
  foldProof sha256 (self.startHash sha256) self.proof = self.root

/-- Verify a proof for the provided root. -/
def MerkleTree.verifyProof (proof : MerkleProof) (root : BytesN 32) : Bool :=
  foldProof sha256 (proof.startHash sha256) proof.proof = root

end Verify

end Core
