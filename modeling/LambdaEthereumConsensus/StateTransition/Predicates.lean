import LambdaEthereumConsensus.SszEx.MerkleRoots

/-
  LambdaEthereumConsensus.StateTransition.Predicates — the Merkle-branch check of
  `state_transition/predicates.ex`: `valid_merkle_branch?/5` and `generate_merkle_proof/4`, which
  `process_deposit` runs on a deposit's proof and which the deposit tree's and the block
  builder's proofs are made for.

  `generate_merkle_proof/4` folds the leaf up with the first `depth` siblings, the side at level
  `i` chosen by bit `i` of the index: it is `Merkle.climb` with `hash_nodes/2` as the node
  (`generateMerkleProof_eq_climb`). So the check accepts the branch of any leaf of a tree below
  a mixed-in length, the length's chunk the last sibling (`validMerkleBranch?_branch_append`),
  and a branch through such a list into the container that holds it, at the generalized index
  of the leaf below the container's field (`validMerkleBranch?_append_mixIn`). The proofs
  `compute_merkle_proof/3` gives pass it against `merkleize_chunks_with_virtual_padding/2` of
  their leaves (`computeMerkleProof_valid`).
-/

namespace LambdaEthereumConsensus.StateTransition

open LambdaEthereumConsensus.SszEx.Merkleization

section Branches

variable (hash : List UInt8 → List UInt8)

/-- `hash_merkle_node/4`: the sibling on the left when bit `i` of the index is set. -/
def hashMerkleNode (value1 value2 : List UInt8) (index i : Nat) : List UInt8 :=
  if index / 2 ^ i % 2 = 1 then hash (value1 ++ value2) else hash (value2 ++ value1)

/-- `generate_merkle_proof/4`: the root the first `depth` siblings lead up to. -/
def generateMerkleProof (leaf : List UInt8) (branch : List (List UInt8)) (depth index : Nat) : List UInt8 :=
  (branch.take depth).zipIdx.foldl (fun value (v, i) => hashMerkleNode hash v value index i) leaf

/-- `valid_merkle_branch?/5`. -/
def validMerkleBranch? (leaf : List UInt8) (branch : List (List UInt8)) (depth index : Nat) (root : List UInt8) :
    Bool :=
  root == generateMerkleProof hash leaf branch depth index

theorem generateMerkleProof_eq_climb (leaf : List UInt8) (branch : List (List UInt8)) (depth index : Nat) :
    generateMerkleProof hash leaf branch depth index = Merkle.climb (hashNodes hash) leaf (branch.take depth) index :=
  rfl

/-- The check accepts the branch of a leaf of a tree of height `d` with one more sibling on top,
    `mix`, against the node of the tree's root and `mix`: the shape of a proof into a list whose
    length is mixed in. The index is below `2 ^ d`, so its bit `d` puts the root on the left. -/
theorem validMerkleBranch?_branch_append (zero : List UInt8) (d : Nat) (leaves : List (List UInt8)) {index : Nat}
    (hindex : index < 2 ^ d) (mix : List UInt8) :
    validMerkleBranch? hash (leaves.getD index zero) (Merkle.branch (hashNodes hash) zero d leaves index ++ [mix])
      (d + 1) index (hashNodes hash (Merkle.root (hashNodes hash) zero d leaves) mix) = true := by
  have hlength : (Merkle.branch (hashNodes hash) zero d leaves index ++ [mix]).length = d + 1 := by simp
  have htop : index / 2 ^ d % 2 ≠ 1 := by rw [Nat.div_eq_of_lt hindex]; decide
  have hclimb := Merkle.climb_branch (hashNodes hash) zero d leaves index
  rw [Nat.mod_eq_of_lt hindex] at hclimb
  rw [validMerkleBranch?, generateMerkleProof_eq_climb, List.take_of_length_le hlength.le,
    Merkle.climb_append_singleton, Merkle.length_branch, if_neg htop, hclimb, beq_self_eq_true]

/-- A branch into a list's tree, the list's length `mix`, and a branch from the list's root up
    a container whose field `field` the list is: the check accepts it at the index of the leaf
    below the list's data, `(field * 2 + 0) * 2 ^ proof.length + index`, against the
    container's root. -/
theorem validMerkleBranch?_append_mixIn {leaf treeRoot mix root : List UInt8} {proof containerProof : List (List UInt8)}
    {index field : Nat} (hindex : index < 2 ^ proof.length)
    (htree : Merkle.climb (hashNodes hash) leaf proof index = treeRoot)
    (hcontainer : Merkle.climb (hashNodes hash) (hashNodes hash treeRoot mix) containerProof field = root) :
    validMerkleBranch? hash leaf (proof ++ [mix] ++ containerProof) (proof.length + 1 + containerProof.length)
      ((field * 2 + 0) * 2 ^ proof.length + index) root = true := by
  have hlength : (proof ++ [mix] ++ containerProof).length = proof.length + 1 + containerProof.length := by
    simp only [List.length_append, List.length_singleton]
  have hpos : 0 < 2 ^ proof.length := Nat.two_pow_pos _
  -- the index's low bits lead to the leaf, its next bit is zero and its high bits are the field's
  have hlow : ((field * 2 + 0) * 2 ^ proof.length + index) % 2 ^ proof.length = index := by
    rw [Nat.add_comm, Nat.add_mul_mod_self_right, Nat.mod_eq_of_lt hindex]
  have hmid : ((field * 2 + 0) * 2 ^ proof.length + index) / 2 ^ proof.length = field * 2 := by
    rw [Nat.add_comm, Nat.add_mul_div_right _ _ hpos, Nat.div_eq_of_lt hindex, Nat.zero_add, Nat.add_zero]
  have hhigh : ((field * 2 + 0) * 2 ^ proof.length + index) / 2 ^ (proof ++ [mix]).length = field := by
    rw [List.length_append, List.length_singleton, Nat.pow_succ, ← Nat.div_div_eq_div_mul, hmid,
      Nat.mul_div_cancel _ (by decide)]
  have hside : ¬((field * 2 + 0) * 2 ^ proof.length + index) / 2 ^ proof.length % 2 = 1 := by
    rw [hmid, Nat.mul_mod_left]
    decide
  rw [validMerkleBranch?, generateMerkleProof_eq_climb, List.take_of_length_le hlength.le, Merkle.climb_append,
    Merkle.climb_append_singleton, if_neg hside, Merkle.climb_mod (hashNodes hash) leaf proof, hlow, htree, hhigh,
    hcontainer, beq_self_eq_true]

end Branches

section ComputedProofs

variable {hash : List UInt8 → List UInt8} (hhash : ∀ bytes, (hash bytes).length = bytesPerChunk)
include hhash

/-- The proof `compute_merkle_proof/3` gives of a leaf among at most `2 ^ height` leaves of one
    chunk each, `height` at most 64, has `height` siblings, and the check accepts it against the
    leaves' `merkleize_chunks_with_virtual_padding/2` under `2 ^ height` leaves: the leaf climbs
    its siblings to the tree's root, which the merkleization is. -/
theorem computeMerkleProof_valid {leaves : List (List UInt8)} (hleaves : ∀ leaf ∈ leaves, leaf.length = bytesPerChunk)
    {height : Nat} (hheight : height ≤ maxMerkleTreeDepth) (hlength : leaves.length ≤ 2 ^ height) {index : Nat}
    (hindex : index < leaves.length) :
    ∃ proof root, computeMerkleProof hash leaves index height = some proof ∧ proof.length = height ∧
      merkleizeChunksWithVirtualPadding hash leaves.flatten (2 ^ height) = some root ∧
      validMerkleBranch? hash leaves[index] proof height index root = true := by
  have hne : leaves ≠ [] := List.ne_nil_of_length_pos (by omega)
  obtain ⟨proof, hproof, hproofLength, hclimb⟩ := computeMerkleProof_climb hash hne hlength
    (show index < 2 ^ height by omega) (by omega)
  have hroot := merkleizeChunksWithVirtualPadding_eq_root hhash hne hleaves hlength hheight
  refine ⟨proof, _, hproof, hproofLength, hroot, ?_⟩
  rw [validMerkleBranch?, generateMerkleProof_eq_climb, List.take_of_length_le hproofLength.le,
    ← List.getD_eq_getElem _ zeroChunk hindex, hclimb, beq_self_eq_true]

end ComputedProofs

theorem computeMerkleProof_valid_third_of_three :
    ∃ proof root, computeMerkleProof (fun bytes => (bytes ++ zeroChunk).take bytesPerChunk)
        [List.replicate 32 1, List.replicate 32 2, List.replicate 32 3] 2 2 = some proof ∧ proof.length = 2 ∧
      merkleizeChunksWithVirtualPadding (fun bytes => (bytes ++ zeroChunk).take bytesPerChunk)
        [List.replicate 32 1, List.replicate 32 2, List.replicate 32 3].flatten (2 ^ 2) = some root ∧
      validMerkleBranch? (fun bytes => (bytes ++ zeroChunk).take bytesPerChunk) (List.replicate 32 3) proof 2 2 root =
        true :=
  @computeMerkleProof_valid (fun bytes => (bytes ++ zeroChunk).take bytesPerChunk) (fun bytes => by simp [zeroChunk])
    [List.replicate 32 1, List.replicate 32 2, List.replicate 32 3] (by decide) 2 (by decide) (by decide) 2 (by decide)

end LambdaEthereumConsensus.StateTransition
