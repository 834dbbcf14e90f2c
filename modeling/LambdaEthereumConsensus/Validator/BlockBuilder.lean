import LambdaEthereumConsensus.SszEx.MerkleRoots
import LambdaEthereumConsensus.StateTransition.Predicates

/-
  LambdaEthereumConsensus.Validator.BlockBuilder — `BlockBuilder.compute_inclusion_proofs/1`
  (`validator/block_builder.ex`): the proof of each blob commitment of a block body that goes
  into the commitment's blob sidecar.

  A body is its field values in the order of `BeaconBlockBody.schema/0`. The schemas of the
  containers it holds and the chain spec's limits are parameters (`BodySchemas`), and so is the
  hash, of which only its 32-byte output is assumed. For each commitment the code joins three
  parts: the siblings of the commitment's root in the tree of `MAX_BLOB_COMMITMENTS_PER_BLOCK`
  leaves, the number of commitments as a 256-bit chunk, and the siblings of the commitments'
  root among the body's field roots.

  With a limit of `2 ^ h` and between one commitment and the limit, every proof has
  `h + 1 + 4` siblings, `KZG_COMMITMENT_INCLUSION_PROOF_DEPTH` (17 on mainnet, where `h = 12`),
  and `valid_merkle_branch?/5` accepts it for the commitment's root at the generalized index
  `(11 * 2 + 0) * 2 ^ h + i`, below field 11 of the body, against the body's root
  (`computeInclusionProofs_verify`). The list's root is the tree over the commitments' roots
  with their number mixed in (`hashTreeRoot_list_eq_root`), the body's root the tree over its
  13 field roots (`hashTreeRoot_container_eq_root`), and the three parts climb the two trees one
  after the other (`validMerkleBranch?_append_mixIn`).
-/

namespace LambdaEthereumConsensus.Validator

open LambdaEthereumConsensus.SszEx LambdaEthereumConsensus.SszEx.Merkleization
open LambdaEthereumConsensus.SszEx.Encode LambdaEthereumConsensus.SszEx.Utils LambdaEthereumConsensus.StateTransition

/-! ## The body -/

/-- The schemas `BeaconBlockBody.schema/0` names by module, and the chain spec's limits it
    reads. -/
structure BodySchemas where
  eth1Data : Schema
  proposerSlashing : Schema
  attesterSlashing : Schema
  attestation : Schema
  deposit : Schema
  signedVoluntaryExit : Schema
  syncAggregate : Schema
  executionPayload : Schema
  signedBlsToExecutionChange : Schema
  executionRequests : Schema
  maxProposerSlashings : Nat
  maxAttesterSlashingsElectra : Nat
  maxAttestationsElectra : Nat
  maxDeposits : Nat
  maxVoluntaryExits : Nat
  maxBlsToExecutionChanges : Nat
  maxBlobCommitmentsPerBlock : Nat

/-- `TypeAliases.kzg_commitment/0`. -/
def kzgCommitment : Schema := .byteVector 48

/-- `BeaconBlockBody.schema/0`, with `TypeAliases.bls_signature/0` and `TypeAliases.bytes32/0`
    written out. -/
def BeaconBlockBody.schema (s : BodySchemas) : List (String × Schema) :=
  [("randao_reveal", .byteVector 96),
   ("eth1_data", s.eth1Data),
   ("graffiti", .byteVector 32),
   ("proposer_slashings", .list s.proposerSlashing s.maxProposerSlashings),
   ("attester_slashings", .list s.attesterSlashing s.maxAttesterSlashingsElectra),
   ("attestations", .list s.attestation s.maxAttestationsElectra),
   ("deposits", .list s.deposit s.maxDeposits),
   ("voluntary_exits", .list s.signedVoluntaryExit s.maxVoluntaryExits),
   ("sync_aggregate", s.syncAggregate),
   ("execution_payload", s.executionPayload),
   ("bls_to_execution_changes", .list s.signedBlsToExecutionChange s.maxBlsToExecutionChanges),
   ("blob_kzg_commitments", .list kzgCommitment s.maxBlobCommitmentsPerBlock),
   ("execution_requests", s.executionRequests)]

/-- `blob_kzg_commitments` is field 11 of the body. -/
theorem findIdx?_blobKzgCommitments (s : BodySchemas) :
    (BeaconBlockBody.schema s).findIdx? (·.1 == "blob_kzg_commitments") = some 11 := by
  simp [BeaconBlockBody.schema, List.findIdx?_cons]

/-! ## `compute_inclusion_proofs/1` -/

section InclusionProofs

variable (hash : List UInt8 → List UInt8)

/-- `:math.log2(n) |> ceil()`, which raises on zero. The float logarithm of a power of two is
    exact, and that of any other count below `2 ^ 40` lies strictly between two integers. -/
def ceilLog2 (n : Nat) : Option Nat := if n = 0 then none else some (Nat.clog 2 n)

/-- A step of the body's field roots: `Map.fetch!/2` of the field, the body's value at the field's
    place, raising where there is none, then `hash_tree_root!/2` under the field's schema. -/
def fieldRoot (body : List Value) (field : (String × Schema) × Nat) : Option (List UInt8) := do
  let value ← body[field.2]?
  hashTreeRoot! hash value field.1.2

/-- `compute_inclusion_proofs/1`. The commitments, `body.blob_kzg_commitments`, are read at the
    field's place in the schema; `length/1` raises on what is not a list. -/
def computeInclusionProofs (s : BodySchemas) (body : List Value) : Option (List (List (List UInt8))) := do
  let schema := BeaconBlockBody.schema s
  let field ← schema.findIdx? (·.1 == "blob_kzg_commitments")
  let .list commitments ← body[field]? | none
  -- the first clause, on a body without commitments
  if commitments = [] then pure [] else
  let commitmentNumber := commitments.length
  let commitmentLeaves ← commitments.mapM (hashTreeRoot! hash · kzgCommitment)
  let commitmentTreeHeight ← ceilLog2 s.maxBlobCommitmentsPerBlock
  let commitmentTreeProofs ← (List.range commitmentNumber).mapM fun i =>
    computeMerkleProof hash commitmentLeaves i commitmentTreeHeight
  let commitmentsTreeIndex ← schema.findIdx? (·.1 == "blob_kzg_commitments")
  let bodyHeight ← ceilLog2 schema.length
  let fieldRoots ← schema.zipIdx.mapM (fieldRoot hash body)
  let bodyProof ← computeMerkleProof hash fieldRoots commitmentsTreeIndex bodyHeight
  let mixInLength := encodeInt commitmentNumber 256
  pure (commitmentTreeProofs.map fun proof => proof ++ [mixInLength] ++ bodyProof)

/-- `compute_inclusion_proofs/1` on a body with commitments, its stages' results given: each
    commitment's proof in its tree, then the commitments' number, then the body's proof for
    field 11 in the tree of height 4 over the 13 fields. -/
theorem computeInclusionProofs_eq {s : BodySchemas} {body commitments : List Value}
    (hcommitments : body[11]? = some (.list commitments)) (hne : commitments ≠ []) {leaves : List (List UInt8)}
    (hleaves : commitments.mapM (hashTreeRoot! hash · kzgCommitment) = some leaves) {h : Nat}
    (hheight : ceilLog2 s.maxBlobCommitmentsPerBlock = some h) {proofs : List (List (List UInt8))}
    (hproofs : (List.range commitments.length).mapM (fun i => computeMerkleProof hash leaves i h) = some proofs)
    {roots : List (List UInt8)} (hroots : (BeaconBlockBody.schema s).zipIdx.mapM (fieldRoot hash body) = some roots)
    {bodyProof : List (List UInt8)} (hbodyProof : computeMerkleProof hash roots 11 4 = some bodyProof) :
    computeInclusionProofs hash s body =
      some (proofs.map fun proof => proof ++ [encodeInt commitments.length 256] ++ bodyProof) := by
  have hbodyHeight : ceilLog2 (BeaconBlockBody.schema s).length = some 4 := by
    rw [show (BeaconBlockBody.schema s).length = 13 from rfl]
    decide
  simp only [computeInclusionProofs, findIdx?_blobKzgCommitments, hcommitments, if_neg hne, hleaves, hheight,
    hproofs, hbodyHeight, hroots, hbodyProof, Option.bind_eq_bind, Option.bind_some, Option.pure_def]

/-- The proofs of the leaves of a tree of height `height` over them: each climbs its leaf to the
    tree's root. -/
theorem mapM_computeMerkleProof_climb {leaves : List (List UInt8)} (hne : leaves ≠ []) {height : Nat}
    (hlength : leaves.length ≤ 2 ^ height) (hheight : height ≤ maxMerkleTreeDepth + 1) :
    ∃ proofs, (List.range leaves.length).mapM (fun i => computeMerkleProof hash leaves i height) = some proofs ∧
      proofs.length = leaves.length ∧ ∀ i < leaves.length, ∃ proof, proofs[i]? = some proof ∧ proof.length = height ∧
        Merkle.climb (hashNodes hash) (leaves.getD i zeroChunk) proof i =
          Merkle.root (hashNodes hash) zeroChunk height leaves := by
  have hsome : ∀ i ∈ List.range leaves.length, (computeMerkleProof hash leaves i height).isSome := by
    intro i hi
    obtain ⟨proof, hproof, -⟩ :=
      computeMerkleProof_climb hash hne hlength (show i < 2 ^ height by have := List.mem_range.mp hi; omega) hheight
    simp [hproof]
  obtain ⟨proofs, hproofs⟩ := Option.isSome_iff_exists.mp (Fallible.mapM_isSome hsome)
  refine ⟨proofs, hproofs, ?_, ?_⟩
  · rw [← (Fallible.forall₂_of_mapM_eq_some hproofs).length_eq, List.length_range]
  · intro i hi
    obtain ⟨proof, hproof, hproofLength, hclimb⟩ :=
      computeMerkleProof_climb hash hne hlength (show i < 2 ^ height by omega) hheight
    refine ⟨proof, ?_, hproofLength, hclimb⟩
    rw [Fallible.getElem?_of_mapM_eq_some hproofs, List.getElem?_range hi, Option.bind_some, hproof]

end InclusionProofs

/-! ## The body's root -/

section BodyRoot

variable {hash : List UInt8 → List UInt8}

/-- A container's chunks are its fields' `hash_tree_root!/2`s side by side, each field's value
    read at its place: here the fields from place `pre.length` on, over the values after `pre`.
    Induction on the fields. -/
theorem mapM_fieldRoot_of_containerRoots : ∀ (fields : List (String × Schema)) (pre values : List Value)
    (chunks : List UInt8), containerRoots values (fieldRoots hash fields) = some (.ok chunks) →
      ∃ roots, (fields.zipIdx pre.length).mapM (fieldRoot hash (pre ++ values)) = some roots ∧
        chunks = roots.flatten
  | [], _, values, chunks, hchunks => by
    have hnil : containerRoots values (fieldRoots hash []) = some (.ok []) := by
      cases values <;> simp [fieldRoots, containerRoots]
    rw [hnil] at hchunks
    cases hchunks
    exact ⟨[], rfl, rfl⟩
  | _ :: _, _, [], _, hchunks => by simp [fieldRoots, containerRoots] at hchunks
  | (key, schema) :: fields, pre, value :: values, chunks, hchunks => by
    rw [fieldRoots] at hchunks
    obtain ⟨root, rest, hroot, hrest, rfl⟩ := containerRoots_cons_ok hchunks
    obtain ⟨roots, hroots, rfl⟩ := mapM_fieldRoot_of_containerRoots fields (pre ++ [value]) values rest hrest
    have happend : pre ++ [value] ++ values = pre ++ value :: values := by simp
    rw [happend, List.length_append, List.length_singleton] at hroots
    have hfield : fieldRoot hash (pre ++ value :: values) ((key, schema), pre.length) = some root := by
      simp [fieldRoot, hashTreeRoot!_eq_some.mpr hroot]
    refine ⟨root :: roots, ?_, rfl⟩
    rw [List.zipIdx_cons, List.mapM_cons, hfield, hroots]
    rfl

variable (hhash : ∀ bytes, (hash bytes).length = bytesPerChunk)
include hhash

/-- A container of valid fields, `2 ^ power` the next power of two of their count: its root is the
    tree's root over its fields' roots. -/
theorem hashTreeRoot_container_eq_root {name : String} {fields : List (String × Schema)}
    (hvalid : validateFields fields = true) (hne : fields ≠ []) {power : Nat}
    (hpow : nextPowOfTwo fields.length = 2 ^ power) (hpower : power ≤ maxMerkleTreeDepth)
    {values : List Value} {root : List UInt8}
    (hroot : hashTreeRoot hash (.container values) (.container name fields) = some (.ok root)) :
    ∃ roots, fields.zipIdx.mapM (fieldRoot hash values) = some roots ∧
      root = Merkle.root (hashNodes hash) zeroChunk power roots := by
  simp only [hashTreeRoot] at hroot
  obtain ⟨chunks, hcontainer, hmerkle⟩ := containerRoot_eq_ok hroot
  obtain ⟨roots, hroots, rfl⟩ := mapM_fieldRoot_of_containerRoots fields [] values chunks hcontainer
  have hrootsLength : roots.length = fields.length := by
    rw [← (Fallible.forall₂_of_mapM_eq_some hroots).length_eq, List.length_zipIdx]
  -- every field's root is one chunk: its schema is valid
  have hchunks : ∀ fieldRoot ∈ roots, fieldRoot.length = bytesPerChunk := by
    intro r hr
    obtain ⟨field, hfield, hr⟩ := Fallible.exists_of_mapM_eq_some hroots hr
    simp only [fieldRoot, Option.bind_eq_bind] at hr
    obtain ⟨value, -, hvalue⟩ := Option.bind_eq_some_iff.mp hr
    exact hashTreeRoot_length hhash field.1.2
      (validateFields_eq_true_iff.mp hvalid field.1 (List.fst_mem_of_mem_zipIdx hfield)) value r
      (hashTreeRoot!_eq_some.mp hvalue)
  have hcount : getChunksLen roots.flatten = fields.length := by
    rw [getChunksLen, length_flatten_chunks hchunks, Nat.mul_div_cancel_left _ (by decide), hrootsLength]
  have hrootsNe : roots ≠ [] :=
    List.ne_nil_of_length_pos (by rw [hrootsLength]; exact List.length_pos_of_ne_nil hne)
  have hfits : roots.length ≤ 2 ^ power := by
    rw [hrootsLength, ← hpow]
    exact le_nextPowOfTwo _
  rw [hcount, hpow, merkleizeChunksWithVirtualPadding_eq_root hhash hrootsNe hchunks hfits hpower] at hmerkle
  cases hmerkle
  exact ⟨roots, hroots, rfl⟩

end BodyRoot

/-! ## The proofs verify -/

section Verify

variable {hash : List UInt8 → List UInt8} (hhash : ∀ bytes, (hash bytes).length = bytesPerChunk)
include hhash

/-- With `MAX_BLOB_COMMITMENTS_PER_BLOCK = 2 ^ h`, a body whose root the code computes and whose
    commitments number between one and the limit: the code gives one proof for each commitment,
    of `h + 1 + 4` siblings, which `valid_merkle_branch?/5` accepts for the commitment's root at
    its generalized index below field 11 against the body's root. -/
theorem computeInclusionProofs_verify (s : BodySchemas) {h : Nat} (hmax : s.maxBlobCommitmentsPerBlock = 2 ^ h)
    (hh : h ≤ maxMerkleTreeDepth) (hvalid : validateFields (BeaconBlockBody.schema s) = true)
    (body commitments : List Value) (hcommitments : body[11]? = some (.list commitments))
    (hk : 1 ≤ commitments.length) (hkmax : commitments.length ≤ s.maxBlobCommitmentsPerBlock)
    (name : String) (bodyRoot : List UInt8)
    (hroot : hashTreeRoot hash (.container body) (.container name (BeaconBlockBody.schema s)) = some (.ok bodyRoot)) :
    ∃ proofs, computeInclusionProofs hash s body = some proofs ∧ proofs.length = commitments.length ∧
      ∀ i commitment, commitments[i]? = some commitment → ∃ proof commitmentRoot,
        proofs[i]? = some proof ∧ hashTreeRoot hash commitment kzgCommitment = some (.ok commitmentRoot) ∧
        proof.length = h + 1 + 4 ∧
        validMerkleBranch? hash commitmentRoot proof (h + 1 + 4) ((11 * 2 + 0) * 2 ^ h + i) bodyRoot = true := by
  -- the body's root is the tree over its 13 field roots
  have hfields : (BeaconBlockBody.schema s).length = 13 := rfl
  obtain ⟨roots, hroots, hbodyRoot⟩ := hashTreeRoot_container_eq_root hhash hvalid (by simp [BeaconBlockBody.schema])
    (show nextPowOfTwo (BeaconBlockBody.schema s).length = 2 ^ 4 by rw [hfields]; decide) (by decide) hroot
  have hrootsLength : roots.length = 13 := by
    rw [← (Fallible.forall₂_of_mapM_eq_some hroots).length_eq, List.length_zipIdx, hfields]
  -- field 11 is the commitments' list, whose root is their tree's with their number mixed in
  have hfield : roots[11]? = hashTreeRoot! hash (.list commitments) (.list kzgCommitment (2 ^ h)) := by
    rw [Fallible.getElem?_of_mapM_eq_some hroots, List.getElem?_zipIdx]
    simp [BeaconBlockBody.schema, fieldRoot, hcommitments, hmax]
  have h11 : 11 < roots.length := by omega
  have hlistRoot := hfield.symm.trans (List.getElem?_eq_getElem h11)
  obtain ⟨leaves, hleaves, hlistRootEq⟩ := hashTreeRoot_list_eq_root hhash (rfl : validateSchema kzgCommitment = true)
    rfl (List.ne_nil_of_length_pos hk) (by omega) hh (hashTreeRoot!_eq_some.mp hlistRoot)
  have hleavesLength : leaves.length = commitments.length := (Fallible.forall₂_of_mapM_eq_some hleaves).length_eq.symm
  -- the proofs in the two trees
  obtain ⟨proofs, hproofs, hproofsLength, hclimbs⟩ := mapM_computeMerkleProof_climb hash
    (List.ne_nil_of_length_pos (by omega)) (by omega : leaves.length ≤ 2 ^ h) (by unfold maxMerkleTreeDepth at hh ⊢; omega)
  obtain ⟨bodyProof, hbodyProof, hbodyProofLength, hbodyClimb⟩ := computeMerkleProof_climb hash
    (List.ne_nil_of_length_pos (by omega)) (by omega : roots.length ≤ 2 ^ 4) (by decide : 11 < 2 ^ 4) (by decide)
  have hheight : ceilLog2 s.maxBlobCommitmentsPerBlock = some h := by
    rw [hmax, ceilLog2, if_neg (by positivity), Nat.clog_pow 2 h (by norm_num)]
  rw [hleavesLength] at hproofs
  have hrun := computeInclusionProofs_eq hash hcommitments (List.ne_nil_of_length_pos hk) hleaves hheight hproofs
    hroots hbodyProof
  refine ⟨_, hrun, by rw [List.length_map, hproofsLength, hleavesLength], ?_⟩
  intro i commitment hcommitment
  have hi : i < commitments.length := (List.getElem?_eq_some_iff.mp hcommitment).1
  obtain ⟨proof, hproof, hproofLength, hclimb⟩ := hclimbs i (by omega)
  have hleaf : leaves[i]? = hashTreeRoot! hash commitment kzgCommitment := by
    rw [Fallible.getElem?_of_mapM_eq_some hleaves, hcommitment, Option.bind_some]
  have hi' : i < leaves.length := by omega
  have hcommitmentRoot := hleaf.symm.trans (List.getElem?_eq_getElem hi')
  refine ⟨proof ++ [encodeInt commitments.length 256] ++ bodyProof, leaves[i], ?_, hashTreeRoot!_eq_some.mp hcommitmentRoot,
    by simp [hproofLength, hbodyProofLength], ?_⟩
  · rw [List.getElem?_map, hproof]
    rfl
  -- the commitment climbs its tree, then the list's root with the length climbs the body's tree
  have htree : Merkle.climb (hashNodes hash) leaves[i] proof i = Merkle.root (hashNodes hash) zeroChunk h leaves := by
    rw [← hclimb, List.getD_eq_getElem _ _ hi']
  have hcontainer : Merkle.climb (hashNodes hash)
      (hashNodes hash (Merkle.root (hashNodes hash) zeroChunk h leaves) (encodeInt commitments.length 256))
      bodyProof 11 = bodyRoot := by
    rw [hbodyRoot, ← hbodyClimb, List.getD_eq_getElem _ _ h11, hlistRootEq]
    rfl
  have hverify := validMerkleBranch?_append_mixIn hash (by rw [hproofLength]; omega) htree hcontainer
  rwa [hproofLength, hbodyProofLength] at hverify

end Verify

/-- A stand-in for SHA-256 that gives one chunk: the input's first chunk, padded with zeros. -/
def firstChunk (bytes : List UInt8) : List UInt8 := (bytes ++ zeroChunk).take bytesPerChunk

theorem firstChunk_length (bytes : List UInt8) : (firstChunk bytes).length = bytesPerChunk := by
  simp [firstChunk, zeroChunk]

/-- A body schema whose containers are booleans, every list of length at most one but the
    commitments, at most two. -/
def booleanBodySchemas : BodySchemas where
  eth1Data := .bool
  proposerSlashing := .bool
  attesterSlashing := .bool
  attestation := .bool
  deposit := .bool
  signedVoluntaryExit := .bool
  syncAggregate := .bool
  executionPayload := .bool
  signedBlsToExecutionChange := .bool
  executionRequests := .bool
  maxProposerSlashings := 1
  maxAttesterSlashingsElectra := 1
  maxAttestationsElectra := 1
  maxDeposits := 1
  maxVoluntaryExits := 1
  maxBlsToExecutionChanges := 1
  maxBlobCommitmentsPerBlock := 2

/-- A body of that schema with one commitment. -/
def oneCommitmentBody : List Value :=
  [.binary (List.replicate 96 0), .bool false, .binary (List.replicate 32 0), .list [], .list [], .list [], .list [],
   .list [], .bool false, .bool false, .list [], .list [.binary (List.replicate 48 1)], .bool false]

theorem computeInclusionProofs_verify_one_commitment :
    ∃ bodyRoot, hashTreeRoot firstChunk (.container oneCommitmentBody)
        (.container "Types.BeaconBlockBody" (BeaconBlockBody.schema booleanBodySchemas)) = some (.ok bodyRoot) ∧
      ∃ proofs, computeInclusionProofs firstChunk booleanBodySchemas oneCommitmentBody = some proofs ∧
        proofs.length = 1 ∧
        ∀ i commitment, [Value.binary (List.replicate 48 1)][i]? = some commitment → ∃ proof commitmentRoot,
          proofs[i]? = some proof ∧ hashTreeRoot firstChunk commitment kzgCommitment = some (.ok commitmentRoot) ∧
          proof.length = 1 + 1 + 4 ∧
          validMerkleBranch? firstChunk commitmentRoot proof (1 + 1 + 4) ((11 * 2 + 0) * 2 ^ 1 + i) bodyRoot = true := by
  obtain ⟨bodyRoot, hbodyRoot⟩ : ∃ bodyRoot, hashTreeRoot! firstChunk (.container oneCommitmentBody)
      (.container "Types.BeaconBlockBody" (BeaconBlockBody.schema booleanBodySchemas)) = some bodyRoot :=
    Option.isSome_iff_exists.mp (by decide +kernel)
  have hroot := hashTreeRoot!_eq_some.mp hbodyRoot
  exact ⟨bodyRoot, hroot, computeInclusionProofs_verify firstChunk_length booleanBodySchemas
    (show booleanBodySchemas.maxBlobCommitmentsPerBlock = 2 ^ 1 from rfl) (by decide) (by decide) oneCommitmentBody _ rfl (by decide) (by decide) _ bodyRoot hroot⟩

end LambdaEthereumConsensus.Validator
