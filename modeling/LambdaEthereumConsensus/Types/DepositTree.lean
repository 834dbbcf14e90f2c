import LambdaEthereumConsensus.StateTransition.Predicates

/-
  LambdaEthereumConsensus.Types.DepositTree — the pruned Merkle tree of deposits of EIP-4881
  (`types/deposit_tree.ex`): `new/0`, `push_leaf/2`, `finalize/3` and `get_root/1`, with the hash
  and the deposits' `hash_tree_root/1` parameters.

  A node is a subtree of zeros, a leaf, a finalized subtree kept as its root, or two children.
  `push_leaf/2` goes down to the first subtree that is not full, deciding at each node from
  `full?/1`, which reads the rightmost path only; `finalize/3` replaces whole subtrees of
  finalized deposits by their roots. Both keep what the tree holds (`Holds`): the leaf hashes
  packed to the left, every finalized subtree full with its root. So `get_root/1` is the
  depth-32 Merkle root of the deposits' roots, mixed with their count (`getRoot_of_valid`),
  after any run of pushes and finalizations that finalizes no more than was pushed
  (`run_getRoot`).

  `get_deposit/2` goes down the index's bits to the deposit's leaf (`generate_proof/4`), putting
  each sibling's root in front of the proof. `Stores` says more than `Holds`: the deposits
  themselves, and every finalized subtree before every leaf. Every run keeps it (`run_stores`,
  one more instance of `run_invariant`), and on it a deposit past the finalized ones comes with
  its branch among the deposits' roots and the mixed-in count on top
  (`getDeposit_of_stores`), which `valid_merkle_branch?/5` accepts against the root
  (`getDeposit_proofs_verify`).

  `get_snapshot/1` lists the finalized roots right subtree first (`get_finalized/1`), while
  `from_snapshot/1` gives the head of the list to the leftmost subtree
  (`from_snapshot_parts/3`). They agree when one subtree is finalized; after three deposits,
  all finalized, the restored tree has the third deposit's root where the first two's stood,
  and is the tree again only when that root is the hash of the first two
  (`snapshot_round_trip_three`).
-/

namespace LambdaEthereumConsensus.Types

open Binary LambdaEthereumConsensus.SszEx.Encode LambdaEthereumConsensus.SszEx.Merkleization

/-- `Constants.deposit_contract_tree_depth/0`. -/
def depositContractTreeDepth : Nat := 32

/-- `%Types.Eth1Data{}` without `deposit_root`, which `finalize/3` does not read. -/
structure Eth1Data where
  depositCount : Nat
  blockHash : List UInt8
  deriving DecidableEq, Repr

/-- `tree_node`: `{:zero, depth}`, `{:leaf, {hash, deposit}}`, `{:finalized, {hash, count}}` and
    `{:node, {left, right}}`. -/
inductive TreeNode (δ : Type) where
  | zero (depth : Nat)
  | leaf (root : List UInt8) (deposit : δ)
  | finalized (root : List UInt8) (count : Nat)
  | node (left right : TreeNode δ)
  deriving DecidableEq, Repr

/-- `%Types.DepositTree{}`. -/
structure DepositTree (δ : Type) where
  inner : TreeNode δ
  depositCount : Nat
  finalizedExecutionBlock : Option (List UInt8 × Nat)

/-- `%Types.Deposit{}`. -/
structure Deposit (δ : Type) where
  proof : List (List UInt8)
  data : δ

/-- `%Types.DepositTreeSnapshot{}`. -/
structure DepositTreeSnapshot where
  finalized : List (List UInt8)
  depositRoot : List UInt8
  depositCount : Nat
  executionBlockHash : List UInt8
  executionBlockHeight : Nat

namespace DepositTree

variable {δ : Type}

/-! ## The model -/

/-- `new/0`. -/
def new : DepositTree δ := ⟨.zero depositContractTreeDepth, 0, none⟩

/-- `create_node/2`. -/
def createNode : List (List UInt8 × δ) → Nat → TreeNode δ
  | [], depth => .zero depth
  | leaf :: _, 0 => .leaf leaf.1 leaf.2
  | leaves, depth + 1 => .node (createNode (leaves.take (2 ^ depth)) depth) (createNode (leaves.drop (2 ^ depth)) depth)

/-- `full?/1`: the rightmost path ends in a leaf or a finalized subtree. -/
def full? : TreeNode δ → Bool
  | .node _ right => full? right
  | .zero _ => false
  | _ => true

/-- `push_leaf_inner/3`. A leaf, a finalized subtree or a subtree of zeros of another depth
    matches no clause; so does a node at level `0`, whose children are reached at a negative
    level that no subtree of zeros has. -/
def pushLeafInner : TreeNode δ → List UInt8 × δ → Nat → Option (TreeNode δ)
  | .node left right, leafValue, level + 1 =>
    if full? left then do pure (.node left (← pushLeafInner right leafValue level))
    else do pure (.node (← pushLeafInner left leafValue level) right)
  | .zero depth, leafValue, level => if depth = level then some (createNode [leafValue] level) else none
  | _, _, _ => none

/-- `count_finalized/1`. -/
def countFinalized : TreeNode δ → Nat
  | .finalized _ count => count
  | .node left right => countFinalized left + countFinalized right
  | .leaf _ _ => 0
  | .zero _ => 0

/-- `get_finalized/1`: the right subtree's roots before the left's. -/
def getFinalized : TreeNode δ → List (List UInt8)
  | .finalized root _ => [root]
  | .node left right => getFinalized right ++ getFinalized left
  | .leaf _ _ => []
  | .zero _ => []

/-- `from_snapshot_parts/3`: the head of the list for the leftmost finalized subtree. An empty
    list with deposits left matches no clause. At level `0` with a non-empty list the code goes
    on into negative levels, where `2 ** (level - 1)` is a float: a count of `2 ** 0` is
    finalized first; a greater one is cut by halves that never exhaust it, and raises once the
    list runs out; a count of `0` goes left until `2 ** level` underflows to `0.0`, which `==`
    takes for `0`, and returns a tree with `:zero` nodes at negative levels. Levels here are
    natural numbers, so that last tree is `none` too: here a count of `0` needs an empty list. -/
def fromSnapshotParts : List (List UInt8) → Nat → Nat → Option (TreeNode δ)
  | [], 0, level => some (.zero level)
  | [], _ + 1, _ => none
  | head :: _, depositCount, 0 => if depositCount = 2 ^ 0 then some (.finalized head depositCount) else none
  | head :: rest, depositCount, level + 1 =>
    let leftSubtree := 2 ^ level
    if depositCount = 2 ^ (level + 1) then some (.finalized head depositCount)
    else if depositCount ≤ leftSubtree then do
      let left ← fromSnapshotParts (head :: rest) depositCount level
      pure (.node left (.zero level))
    else do
      let right ← fromSnapshotParts rest (depositCount - leftSubtree) level
      pure (.node (.finalized head leftSubtree) right)

/-- `from_snapshot/1`. -/
def fromSnapshot (snapshot : DepositTreeSnapshot) : Option (DepositTree δ) := do
  let innerTree ← fromSnapshotParts snapshot.finalized snapshot.depositCount depositContractTreeDepth
  let executionInfo := (snapshot.executionBlockHash, snapshot.executionBlockHeight)
  pure ⟨innerTree, snapshot.depositCount, some executionInfo⟩

section Hashing

variable (hash : List UInt8 → List UInt8)

/-- `get_node_root/1`; `get_zero_hash/1` raises past depth 64. -/
def getNodeRoot : TreeNode δ → Option (List UInt8)
  | .zero level => getZeroHash hash level
  | .finalized root _ => some root
  | .node left right => do pure (hashNodes hash (← getNodeRoot left) (← getNodeRoot right))
  | .leaf root _ => some root

/-- `finalize_tree/3`: a subtree of zeros with deposits left to finalize matches no clause. -/
def finalizeTree : TreeNode δ → Nat → Nat → Option (TreeNode δ)
  | .zero depth, 0, _ => some (.zero depth)
  | .finalized root count, _, _ => some (.finalized root count)
  | .leaf root _, _, _ => some (.finalized root 1)
  | .node left right, toFinalize, deposits =>
    if deposits ≤ toFinalize then do pure (.finalized (← getNodeRoot hash (.node left right)) deposits)
    else do
      let childDeposits := deposits / 2
      let newLeft ← finalizeTree left toFinalize childDeposits
      let newRight ← if toFinalize > childDeposits then finalizeTree right (toFinalize - childDeposits) childDeposits
        else pure right
      pure (.node newLeft newRight)
  | .zero _, _ + 1, _ => none

/-- `finalize/3`. -/
def finalize (tree : DepositTree δ) (eth1Data : Eth1Data) (executionBlockHeight : Nat) : Option (DepositTree δ) := do
  let finalizedBlock := (eth1Data.blockHash, executionBlockHeight)
  let newInner ← finalizeTree hash tree.inner eth1Data.depositCount (2 ^ depositContractTreeDepth)
  pure { tree with inner := newInner, finalizedExecutionBlock := some finalizedBlock }

/-- `mix_in_length/1`: `hash_tree_root!(count, uint64)`, the count's eight little-endian bytes
    packed into a chunk. -/
def mixInLength (tree : DepositTree δ) : List UInt8 := packBytes (encodeInt tree.depositCount 64)

/-- `get_root/1`. -/
def getRoot (tree : DepositTree δ) : Option (List UInt8) := do
  pure (hashNodes hash (← getNodeRoot hash tree.inner) (mixInLength tree))

/-- `generate_proof/4`: down the index's bits from the top, each sibling's root put in front of
    the proof. A subtree of zeros, a finalized subtree, a leaf above depth `0` and a node at
    depth `0` match no clause on the way down. -/
def generateProof : TreeNode δ → Nat → Nat → List (List UInt8) → Option (δ × List (List UInt8))
  | .leaf _ depositData, _, 0, proof => some (depositData, proof)
  | .node left right, index, depth + 1, proof =>
    let ithBit := index >>> depth &&& 1
    -- `{a, b}`: the child on the index's path and its sibling
    if ithBit = 1 then do generateProof right index depth ((← getNodeRoot hash left) :: proof)
    else do generateProof left index depth ((← getNodeRoot hash right) :: proof)
  | _, _, _, _ => none

/-- `get_deposit/2`. -/
def getDeposit (tree : DepositTree δ) (index : Nat) : Option (Except String (Deposit δ)) :=
  if index < countFinalized tree.inner then some (.error "deposit already finalized")
  else if index ≥ tree.depositCount then some (.error "deposit index out of bounds")
  else do
    let (data, proof) ← generateProof hash tree.inner index depositContractTreeDepth [mixInLength tree]
    pure (.ok ⟨proof, data⟩)

/-- `get_snapshot/1`: the match on `finalized_execution_block` raises on a tree never
    finalized. -/
def getSnapshot (tree : DepositTree δ) : Option DepositTreeSnapshot := do
  let finalized := getFinalized tree.inner
  let depositRoot ← getRoot hash tree
  let (elHash, elHeight) ← tree.finalizedExecutionBlock
  pure ⟨finalized, depositRoot, tree.depositCount, elHash, elHeight⟩

end Hashing

/-- `push_leaf/2`, the deposit's root from `hash_tree_root!/1`. -/
def pushLeaf (hashTreeRoot : δ → List UInt8) (tree : DepositTree δ) (deposit : δ) : Option (DepositTree δ) := do
  let leaf := (hashTreeRoot deposit, deposit)
  let newInner ← pushLeafInner tree.inner leaf depositContractTreeDepth
  pure { tree with inner := newInner, depositCount := tree.depositCount + 1 }

/-! ## What a tree holds -/

section Holds

variable (hash : List UInt8 → List UInt8)

/-- A subtree at depth `d` holds the leaf hashes `leaves`, packed to the left: a subtree of
    zeros none, a leaf its root, a finalized subtree `2 ^ d` of them under their root, and a
    node its left child's then its right child's, the right ones none unless the left child
    is full. -/
inductive Holds : TreeNode δ → Nat → List (List UInt8) → Prop
  | zero (d : Nat) : Holds (.zero d) d []
  | leaf (root : List UInt8) (deposit : δ) : Holds (.leaf root deposit) 0 [root]
  | finalized {root : List UInt8} {count d : Nat} {leaves : List (List UInt8)} (hlength : leaves.length = 2 ^ d)
      (hroot : root = Merkle.root (hashNodes hash) zeroChunk d leaves) (hcount : count = 2 ^ d) :
      Holds (.finalized root count) d leaves
  | node {left right : TreeNode δ} {d : Nat} {lefts rights : List (List UInt8)} :
      Holds left d lefts → Holds right d rights → (rights ≠ [] → lefts.length = 2 ^ d) →
      Holds (.node left right) (d + 1) (lefts ++ rights)

variable {hash}

theorem Holds.length_le {t : TreeNode δ} {d : Nat} {leaves : List (List UInt8)} (h : Holds hash t d leaves) :
    leaves.length ≤ 2 ^ d := by
  induction h with
  | zero d => simp
  | leaf => simp
  | finalized hlength => exact hlength.le
  | node _ _ _ ihl ihr =>
    rw [List.length_append, Nat.pow_succ, Nat.mul_two]
    omega

/-- The root of a subtree is the Merkle root of the leaf hashes it holds. -/
theorem getNodeRoot_of_holds {t : TreeNode δ} {d : Nat} {leaves : List (List UInt8)} (h : Holds hash t d leaves)
    (hd : d ≤ maxMerkleTreeDepth) :
    getNodeRoot hash t = some (Merkle.root (hashNodes hash) zeroChunk d leaves) := by
  induction h with
  | zero d =>
    rw [getNodeRoot, getZeroHash, if_pos ⟨Int.natCast_nonneg d, Int.ofNat_le.mpr hd⟩, Int.toNat_natCast, zeroHashes,
      Merkle.root_nil]
  | leaf root deposit => rfl
  | finalized _ hroot _ => rw [getNodeRoot, hroot]
  | node hleft _ hpacked ihl ihr =>
    rw [getNodeRoot, ihl (by omega), ihr (by omega), Merkle.root_succ_append _ _ _ hleft.length_le hpacked]
    rfl

/-- `full?/1` reads the rightmost path only, which in a tree packed to the left ends in a leaf or
    a finalized subtree exactly when the tree is full. -/
theorem full?_iff_of_holds {t : TreeNode δ} {d : Nat} {leaves : List (List UInt8)} (h : Holds hash t d leaves) :
    full? t = true ↔ leaves.length = 2 ^ d := by
  induction h with
  | zero d => simp [full?, (Nat.two_pow_pos d).ne]
  | leaf => simp [full?]
  | finalized hlength => simp [full?, hlength]
  | @node left right d lefts rights hleft hright hpacked _ ihr =>
    have hlefts := hleft.length_le
    have hrights := hright.length_le
    rw [full?, ihr, List.length_append, Nat.pow_succ, Nat.mul_two]
    constructor
    · intro hfull
      have := hpacked (List.ne_nil_of_length_pos (by rw [hfull]; exact Nat.two_pow_pos d))
      omega
    · intro
      omega

theorem holds_createNode (leafValue : List UInt8 × δ) : ∀ d, Holds hash (createNode [leafValue] d) d [leafValue.1]
  | 0 => Holds.leaf leafValue.1 leafValue.2
  | d + 1 => by
    have hone : [leafValue].length ≤ 2 ^ d := Nat.one_le_two_pow
    have hnode := Holds.node (holds_createNode leafValue d) (Holds.zero d) (fun h => absurd rfl h)
    rw [List.append_nil] at hnode
    simpa only [createNode, List.take_of_length_le hone, List.drop_eq_nil_of_le hone] using hnode

/-- `push_leaf_inner/3` on a subtree with room puts the leaf after the ones it holds: it goes
    right past a full left child, and left otherwise, where the right child is still empty. -/
theorem pushLeafInner_of_holds (leafValue : List UInt8 × δ) {t : TreeNode δ} {d : Nat} {leaves : List (List UInt8)}
    (h : Holds hash t d leaves) (hroom : leaves.length < 2 ^ d) :
    ∃ t', pushLeafInner t leafValue d = some t' ∧ Holds hash t' d (leaves ++ [leafValue.1]) := by
  induction h with
  | zero d => exact ⟨_, by rw [pushLeafInner, if_pos rfl], holds_createNode leafValue d⟩
  | leaf => simp at hroom
  | finalized hlength => omega
  | @node left right d lefts rights hleft hright hpacked ihl ihr =>
    have hlefts := hleft.length_le
    rw [List.length_append, Nat.pow_succ, Nat.mul_two] at hroom
    by_cases hfull : full? left = true
    · have hleftsFull : lefts.length = 2 ^ d := (full?_iff_of_holds hleft).mp hfull
      obtain ⟨right', hpush, hright'⟩ := ihr (by omega)
      refine ⟨.node left right', by rw [pushLeafInner, if_pos hfull, hpush]; rfl, ?_⟩
      rw [List.append_assoc]
      exact Holds.node hleft hright' (fun _ => hleftsFull)
    · have hroomLeft : lefts.length ≠ 2 ^ d := fun hleftsFull => hfull ((full?_iff_of_holds hleft).mpr hleftsFull)
      have hrights : rights = [] := not_imp_comm.mp hpacked hroomLeft
      subst hrights
      obtain ⟨left', hpush, hleft'⟩ := ihl (by omega)
      refine ⟨.node left' right, by rw [pushLeafInner, if_neg hfull, hpush]; rfl, ?_⟩
      have hnode := Holds.node hleft' hright (fun h => absurd rfl h)
      rwa [List.append_nil] at hnode ⊢

/-- An empty subtree is asked to finalize nothing: it holds nothing and is not full. -/
theorem toFinalize_eq_zero_of_nil {α : Type} {d toFinalize : Nat}
    (hfinalize : toFinalize ≤ ([] : List α).length ∨ ([] : List α).length = 2 ^ d) : toFinalize = 0 := by
  rcases hfinalize with hle | hfull
  · simpa using hle
  · exact absurd hfull.symm (Nat.two_pow_pos d).ne'

/-- A count to finalize past a node's capacity, within what it holds unless it is full, finds the
    node full. -/
theorem length_append_of_finalize_all {α : Type} {lefts rights : List α} {d toFinalize : Nat}
    (hlefts : lefts.length ≤ 2 ^ d) (hrights : rights.length ≤ 2 ^ d)
    (hfinalize : toFinalize ≤ lefts.length + rights.length ∨ lefts.length + rights.length = 2 ^ d + 2 ^ d)
    (hall : 2 ^ (d + 1) ≤ toFinalize) : (lefts ++ rights).length = 2 ^ (d + 1) := by
  rw [List.length_append, Nat.pow_succ, Nat.mul_two]
  rw [Nat.pow_succ, Nat.mul_two] at hall
  omega

/-- In a node packed to the left, a count to finalize within what it holds, or a full node, is
    within what its left child holds, or the left child is full. -/
theorem finalize_left_of_packed {α : Type} {lefts rights : List α} {d toFinalize : Nat}
    (hpacked : rights ≠ [] → lefts.length = 2 ^ d)
    (hfinalize : toFinalize ≤ lefts.length + rights.length ∨ lefts.length + rights.length = 2 ^ d + 2 ^ d)
    (hlefts : lefts.length ≤ 2 ^ d) :
    toFinalize ≤ lefts.length ∨ lefts.length = 2 ^ d := by
  by_cases hleftsFull : lefts.length = 2 ^ d
  · exact Or.inr hleftsFull
  · have hnil : rights = [] := not_imp_comm.mp hpacked hleftsFull
    subst hnil
    simp only [List.length_nil] at hfinalize
    omega

/-- In a node packed to the left, a count to finalize past the left child's capacity and within
    what the node holds, or a full node, finds the left child full. -/
theorem left_full_of_packed {α : Type} {lefts rights : List α} {d toFinalize : Nat}
    (hpacked : rights ≠ [] → lefts.length = 2 ^ d)
    (hfinalize : toFinalize ≤ lefts.length + rights.length ∨ lefts.length + rights.length = 2 ^ d + 2 ^ d)
    (hlefts : lefts.length ≤ 2 ^ d) (hvisit : toFinalize > 2 ^ d) : lefts.length = 2 ^ d := by
  by_contra hne
  have hnil : rights = [] := not_imp_comm.mp hpacked hne
  subst hnil
  simp only [List.length_nil] at hfinalize
  omega

/-- `finalize_tree/3` at a subtree's capacity, with no more to finalize than it holds unless it
    is full, keeps what it holds: a subtree within the finalized count becomes its root, and
    the right child is visited only past a full left one. -/
theorem finalizeTree_of_holds {t : TreeNode δ} {d : Nat} {leaves : List (List UInt8)} (h : Holds hash t d leaves)
    (hd : d ≤ maxMerkleTreeDepth) {toFinalize : Nat} (hfinalize : toFinalize ≤ leaves.length ∨ leaves.length = 2 ^ d) :
    ∃ t', finalizeTree hash t toFinalize (2 ^ d) = some t' ∧ Holds hash t' d leaves := by
  induction h generalizing toFinalize with
  | zero d =>
    obtain rfl := toFinalize_eq_zero_of_nil hfinalize
    exact ⟨_, rfl, Holds.zero d⟩
  | leaf root deposit => exact ⟨_, rfl, Holds.finalized rfl rfl rfl⟩
  | finalized hlength hroot hcount => exact ⟨_, rfl, Holds.finalized hlength hroot hcount⟩
  | @node left right d lefts rights hleft hright hpacked ihl ihr =>
    have hlefts := hleft.length_le
    have hrights := hright.length_le
    have hchild : 2 ^ (d + 1) / 2 = 2 ^ d := by rw [Nat.pow_succ, Nat.mul_div_cancel _ Nat.two_pos]
    rw [List.length_append, Nat.pow_succ, Nat.mul_two] at hfinalize
    by_cases hall : 2 ^ (d + 1) ≤ toFinalize
    · have hfull := length_append_of_finalize_all hlefts hrights hfinalize hall
      refine ⟨_, ?_, Holds.finalized hfull rfl rfl⟩
      rw [finalizeTree, if_pos hall, getNodeRoot_of_holds (Holds.node hleft hright hpacked) hd]
      rfl
    · obtain ⟨left', hleftStep, hleft'⟩ := ihl (by omega) (finalize_left_of_packed hpacked hfinalize hlefts)
      by_cases hvisit : toFinalize > 2 ^ d
      · have hleftsFull := left_full_of_packed hpacked hfinalize hlefts hvisit
        obtain ⟨right', hrightStep, hright'⟩ := ihr (by omega) (show toFinalize - 2 ^ d ≤ rights.length ∨ _ by omega)
        refine ⟨.node left' right', ?_, Holds.node hleft' hright' hpacked⟩
        simp only [finalizeTree, if_neg hall, hchild, hleftStep, if_pos hvisit, hrightStep, Option.bind_eq_bind,
          Option.bind_some, Option.pure_def]
      · refine ⟨.node left' right, ?_, Holds.node hleft' hright hpacked⟩
        simp only [finalizeTree, if_neg hall, hchild, hleftStep, if_neg hvisit, Option.bind_eq_bind, Option.bind_some,
          Option.pure_def]

end Holds

/-! ## The tree across a run -/

section Valid

variable (hash : List UInt8 → List UInt8)

/-- A deposit tree holds the leaf hashes `leaves` at the contract's depth and counts them. -/
def Valid (tree : DepositTree δ) (leaves : List (List UInt8)) : Prop :=
  Holds hash tree.inner depositContractTreeDepth leaves ∧ tree.depositCount = leaves.length

theorem valid_new : Valid hash (new : DepositTree δ) [] := ⟨Holds.zero _, rfl⟩

variable {hash}

theorem mixInLength_eq (tree : DepositTree δ) :
    mixInLength tree = natToLE 8 tree.depositCount ++ List.replicate 24 0 := by
  rw [mixInLength, encodeInt, packBytes]
  simp [natToLE_length, bitsPerChunk]

/-- `get_root/1` of a tree that holds `leaves` is their depth-32 root mixed with their count. -/
theorem getRoot_of_valid {tree : DepositTree δ} {leaves : List (List UInt8)} (hvalid : Valid hash tree leaves) :
    getRoot hash tree = some (hashNodes hash (Merkle.root (hashNodes hash) zeroChunk depositContractTreeDepth leaves)
      (natToLE 8 leaves.length ++ List.replicate 24 0)) := by
  rw [getRoot, getNodeRoot_of_holds hvalid.1 (by decide), mixInLength_eq, hvalid.2]
  rfl

theorem pushLeaf_valid (hashTreeRoot : δ → List UInt8) {tree : DepositTree δ} {leaves : List (List UInt8)}
    (hvalid : Valid hash tree leaves) (hroom : leaves.length < 2 ^ depositContractTreeDepth) (deposit : δ) :
    ∃ tree', pushLeaf hashTreeRoot tree deposit = some tree' ∧ Valid hash tree' (leaves ++ [hashTreeRoot deposit]) := by
  obtain ⟨inner, hpush, hinner⟩ := pushLeafInner_of_holds (hashTreeRoot deposit, deposit) hvalid.1 hroom
  refine ⟨_, by rw [pushLeaf, hpush]; rfl, ⟨hinner, ?_⟩⟩
  rw [List.length_append, List.length_singleton, ← hvalid.2]

theorem finalize_valid {tree : DepositTree δ} {leaves : List (List UInt8)} (hvalid : Valid hash tree leaves)
    (eth1Data : Eth1Data) (executionBlockHeight : Nat) (hcount : eth1Data.depositCount ≤ tree.depositCount) :
    ∃ tree', finalize hash tree eth1Data executionBlockHeight = some tree' ∧ Valid hash tree' leaves ∧
      tree'.depositCount = tree.depositCount := by
  obtain ⟨inner, hfinalize, hinner⟩ := finalizeTree_of_holds hvalid.1 (by decide) (Or.inl (hvalid.2 ▸ hcount))
  refine ⟨{ tree with inner := inner, finalizedExecutionBlock := some (eth1Data.blockHash, executionBlockHeight) }, ?_,
    ⟨hinner, hvalid.2⟩, rfl⟩
  rw [finalize, hfinalize]
  rfl

end Valid

/-- A call on the tree: `push_leaf/2` or `finalize/3`. -/
inductive Operation (δ : Type) where
  | pushLeaf (deposit : δ)
  | finalize (eth1Data : Eth1Data) (executionBlockHeight : Nat)

section Run

variable (hash : List UInt8 → List UInt8) (hashTreeRoot : δ → List UInt8)

/-- One call. -/
def Operation.apply (tree : DepositTree δ) : Operation δ → Option (DepositTree δ)
  | .pushLeaf deposit => DepositTree.pushLeaf hashTreeRoot tree deposit
  | .finalize eth1Data executionBlockHeight => DepositTree.finalize hash tree eth1Data executionBlockHeight

/-- The calls one after the other; one that raises stops the run. -/
def run (tree : DepositTree δ) (operations : List (Operation δ)) : Option (DepositTree δ) :=
  operations.foldlM (Operation.apply hash hashTreeRoot) tree

/-- The deposits a run pushes. -/
def deposits (operations : List (Operation δ)) : List δ :=
  operations.filterMap fun
    | .pushLeaf deposit => some deposit
    | .finalize _ _ => none

/-- Every finalization of the run, from `count` deposits, asks for no more deposits than were
    pushed before it. -/
def finalizesPushed : Nat → List (Operation δ) → Bool
  | _, [] => true
  | count, .pushLeaf _ :: operations => finalizesPushed (count + 1) operations
  | count, .finalize eth1Data _ :: operations =>
    decide (eth1Data.depositCount ≤ count) && finalizesPushed count operations

variable {hash}

/-- A property of the tree and of what was pushed (`g` of each deposit) that every push into a
    tree with room keeps, and every finalization of no more than was pushed, holds after every
    run that pushes no more than the tree has room for and finalizes no more than it pushed.
    Induction on the calls. -/
theorem run_invariant {β : Type} (g : δ → β) (Inv : DepositTree δ → List β → Prop)
    (hpush : ∀ tree pushed deposit, Inv tree pushed → pushed.length < 2 ^ depositContractTreeDepth →
      ∃ tree', pushLeaf hashTreeRoot tree deposit = some tree' ∧ Inv tree' (pushed ++ [g deposit]))
    (hfinalize : ∀ tree pushed eth1Data executionBlockHeight, Inv tree pushed →
      eth1Data.depositCount ≤ pushed.length →
      ∃ tree', finalize hash tree eth1Data executionBlockHeight = some tree' ∧ Inv tree' pushed) :
    ∀ (operations : List (Operation δ)) {tree : DepositTree δ} {pushed : List β}, Inv tree pushed →
      pushed.length + (deposits operations).length < 2 ^ depositContractTreeDepth →
      finalizesPushed pushed.length operations = true →
      ∃ tree', run hash hashTreeRoot tree operations = some tree' ∧ Inv tree' (pushed ++ (deposits operations).map g)
  | [], tree, pushed, hinv, _, _ => ⟨tree, rfl, by simpa [deposits] using hinv⟩
  | .pushLeaf deposit :: operations, tree, pushed, hinv, hroom, hfinalizes => by
    have hrest : (deposits (.pushLeaf deposit :: operations)) = deposit :: deposits operations := rfl
    rw [hrest, List.length_cons] at hroom
    obtain ⟨tree₁, hpush₁, hinv₁⟩ := hpush tree pushed deposit hinv (by omega)
    obtain ⟨tree', hrun, hinv'⟩ := run_invariant g Inv hpush hfinalize operations hinv₁ (by simp; omega)
      (by simpa [finalizesPushed] using hfinalizes)
    refine ⟨tree', ?_, ?_⟩
    · rw [run, List.foldlM_cons]
      exact (congrArg (· >>= _) hpush₁).trans hrun
    · rw [hrest, List.map_cons]
      simpa using hinv'
  | .finalize eth1Data executionBlockHeight :: operations, tree, pushed, hinv, hroom, hfinalizes => by
    rw [finalizesPushed, Bool.and_eq_true, decide_eq_true_iff] at hfinalizes
    obtain ⟨tree₁, hfinalize₁, hinv₁⟩ := hfinalize tree pushed eth1Data executionBlockHeight hinv hfinalizes.1
    obtain ⟨tree', hrun, hinv'⟩ := run_invariant g Inv hpush hfinalize operations hinv₁ hroom hfinalizes.2
    exact ⟨tree', (congrArg (· >>= _) hfinalize₁).trans hrun, hinv'⟩

/-- A run that pushes no more than the tree has room for and finalizes no more than it pushed
    succeeds, and the tree then holds the pushed deposits' roots after the ones it held. -/
theorem run_valid : ∀ (operations : List (Operation δ)) {tree : DepositTree δ} {leaves : List (List UInt8)},
    Valid hash tree leaves → leaves.length + (deposits operations).length < 2 ^ depositContractTreeDepth →
    finalizesPushed leaves.length operations = true →
    ∃ tree', run hash hashTreeRoot tree operations = some tree' ∧
      Valid hash tree' (leaves ++ (deposits operations).map hashTreeRoot) :=
  run_invariant hashTreeRoot hashTreeRoot (Valid hash)
    (fun _ _ deposit hvalid hroom => pushLeaf_valid hashTreeRoot hvalid hroom deposit)
    (fun _ _ eth1Data executionBlockHeight hvalid hcount =>
      (finalize_valid hvalid eth1Data executionBlockHeight (hvalid.2 ▸ hcount)).imp fun _ hstep => ⟨hstep.1, hstep.2.1⟩)

end Run

/-- From `new/0`, any run of fewer than `2 ^ 32` pushes whose finalizations ask for no more
    deposits than were pushed succeeds, counts the deposits, and has for root their depth-32
    root mixed with their count; a finalization of it keeps the root. -/
theorem run_getRoot (hash : List UInt8 → List UInt8) (hashTreeRoot : δ → List UInt8) (operations : List (Operation δ))
    (hcount : (deposits operations).length < 2 ^ 32) (hfinalize : finalizesPushed 0 operations = true) :
    ∃ tree, run hash hashTreeRoot new operations = some tree ∧ tree.depositCount = (deposits operations).length ∧
      getRoot hash tree = some (hashNodes hash
        (Merkle.root (hashNodes hash) zeroChunk 32 ((deposits operations).map hashTreeRoot))
        (natToLE 8 (deposits operations).length ++ List.replicate 24 0)) ∧
      ∀ eth1Data executionBlockHeight, eth1Data.depositCount ≤ tree.depositCount →
        ∃ tree', finalize hash tree eth1Data executionBlockHeight = some tree' ∧ getRoot hash tree' = getRoot hash tree := by
  obtain ⟨tree, hrun, hvalid⟩ := run_valid hashTreeRoot operations (valid_new hash) (by simpa [depositContractTreeDepth] using hcount) hfinalize
  rw [List.nil_append] at hvalid
  refine ⟨tree, hrun, by rw [hvalid.2, List.length_map], ?_, fun eth1Data executionBlockHeight hle => ?_⟩
  · rw [getRoot_of_valid hvalid, List.length_map]
    rfl
  · obtain ⟨tree', hfin, hvalid', _⟩ := finalize_valid hvalid eth1Data executionBlockHeight hle
    exact ⟨tree', hfin, by rw [getRoot_of_valid hvalid', getRoot_of_valid hvalid]⟩

/-- Two deposits, a finalization of the first, and a third deposit. -/
def pushFinalizePush : List (Operation Nat) :=
  [.pushLeaf 5, .pushLeaf 6, .finalize ⟨1, List.replicate 32 7⟩ 100, .pushLeaf 8]

/-- The run `pushFinalizePush`, each deposit's root its number in 32 bytes, and `pairSum`, which
    reads both chunks of a node, as the hash. -/
theorem pushFinalizePush_root :
    ∃ tree, run pairSum (natToLE 32) new pushFinalizePush = some tree ∧
      tree.depositCount = (deposits pushFinalizePush).length ∧
      getRoot pairSum tree = some (hashNodes pairSum
        (Merkle.root (hashNodes pairSum) zeroChunk 32 ((deposits pushFinalizePush).map (natToLE 32)))
        (natToLE 8 (deposits pushFinalizePush).length ++ List.replicate 24 0)) ∧
      ∀ eth1Data executionBlockHeight, eth1Data.depositCount ≤ tree.depositCount →
        ∃ tree', finalize pairSum tree eth1Data executionBlockHeight = some tree' ∧
          getRoot pairSum tree' = getRoot pairSum tree :=
  run_getRoot pairSum (natToLE 32) pushFinalizePush (by decide) (by decide)

/-! ## Deposits and their proofs -/

section Stores

variable (hash : List UInt8 → List UInt8) (hashTreeRoot : δ → List UInt8)

/-- A subtree at depth `d` stores the deposits `deposits`, packed to the left, the first
    `finalizedCount` of them under finalized subtrees and the others in leaves under their
    roots: what `Holds` says of the roots, with the deposits themselves, and every finalized
    subtree before every leaf. -/
inductive Stores : TreeNode δ → Nat → Nat → List δ → Prop
  | zero (d : Nat) : Stores (.zero d) d 0 []
  | leaf (deposit : δ) : Stores (.leaf (hashTreeRoot deposit) deposit) 0 0 [deposit]
  | finalized {root : List UInt8} {count d : Nat} {deposits : List δ} (hlength : deposits.length = 2 ^ d)
      (hroot : root = Merkle.root (hashNodes hash) zeroChunk d (deposits.map hashTreeRoot)) (hcount : count = 2 ^ d) :
      Stores (.finalized root count) d (2 ^ d) deposits
  | node {left right : TreeNode δ} {d finalizedLeft finalizedRight : Nat} {lefts rights : List δ} :
      Stores left d finalizedLeft lefts → Stores right d finalizedRight rights → (rights ≠ [] → lefts.length = 2 ^ d) →
      (0 < finalizedRight → finalizedLeft = 2 ^ d) →
      Stores (.node left right) (d + 1) (finalizedLeft + finalizedRight) (lefts ++ rights)

variable {hash hashTreeRoot}

/-- A subtree holds the roots of the deposits it stores. -/
theorem Stores.holds {t : TreeNode δ} {d finalizedCount : Nat} {deposits : List δ}
    (h : Stores hash hashTreeRoot t d finalizedCount deposits) : Holds hash t d (deposits.map hashTreeRoot) := by
  induction h with
  | zero d => exact Holds.zero d
  | leaf deposit => exact Holds.leaf (hashTreeRoot deposit) deposit
  | finalized hlength hroot hcount => exact Holds.finalized (by rw [List.length_map, hlength]) hroot hcount
  | node _ _ hpacked _ ihl ihr =>
    rw [List.map_append]
    refine Holds.node ihl ihr fun hrights => ?_
    rw [List.length_map]
    exact hpacked fun hnil => hrights (by rw [hnil, List.map_nil])

theorem Stores.finalizedCount_le {t : TreeNode δ} {d finalizedCount : Nat} {deposits : List δ}
    (h : Stores hash hashTreeRoot t d finalizedCount deposits) : finalizedCount ≤ deposits.length := by
  induction h with
  | zero => exact Nat.le_refl 0
  | leaf => exact Nat.zero_le 1
  | finalized hlength => exact hlength.ge
  | node _ _ _ _ ihl ihr =>
    rw [List.length_append]
    omega

/-- `count_finalized/1` counts the deposits under finalized subtrees. -/
theorem countFinalized_of_stores {t : TreeNode δ} {d finalizedCount : Nat} {deposits : List δ}
    (h : Stores hash hashTreeRoot t d finalizedCount deposits) : countFinalized t = finalizedCount := by
  induction h with
  | zero => rfl
  | leaf => rfl
  | finalized _ _ hcount => exact hcount
  | node _ _ _ _ ihl ihr => rw [countFinalized, ihl, ihr]

theorem stores_createNode (deposit : δ) :
    ∀ d, Stores hash hashTreeRoot (createNode [(hashTreeRoot deposit, deposit)] d) d 0 [deposit]
  | 0 => Stores.leaf deposit
  | d + 1 => by
    have hone : [(hashTreeRoot deposit, deposit)].length ≤ 2 ^ d := Nat.one_le_two_pow
    have hnode := Stores.node (stores_createNode deposit d) (Stores.zero d) (fun h => absurd rfl h)
      (fun h => absurd h (Nat.lt_irrefl 0))
    simpa only [createNode, List.take_of_length_le hone, List.drop_eq_nil_of_le hone, List.append_nil,
      Nat.add_zero] using hnode

/-- `push_leaf_inner/3` on a subtree with room stores the deposit after the others, in a leaf:
    nothing more is finalized. -/
theorem pushLeafInner_stores (deposit : δ) {t : TreeNode δ} {d finalizedCount : Nat} {deposits : List δ}
    (h : Stores hash hashTreeRoot t d finalizedCount deposits) (hroom : deposits.length < 2 ^ d) :
    ∃ t', pushLeafInner t (hashTreeRoot deposit, deposit) d = some t' ∧
      Stores hash hashTreeRoot t' d finalizedCount (deposits ++ [deposit]) := by
  induction h with
  | zero d => exact ⟨_, by rw [pushLeafInner, if_pos rfl], stores_createNode deposit d⟩
  | leaf => simp at hroom
  | finalized hlength => omega
  | @node left right d finalizedLeft finalizedRight lefts rights hleft hright hpacked hprefix ihl ihr =>
    have hfull_iff : full? left = true ↔ lefts.length = 2 ^ d := by
      rw [full?_iff_of_holds hleft.holds, List.length_map]
    have hlefts : lefts.length ≤ 2 ^ d := by simpa using hleft.holds.length_le
    rw [List.length_append, Nat.pow_succ, Nat.mul_two] at hroom
    by_cases hfull : full? left = true
    · obtain ⟨right', hpush, hright'⟩ := ihr (by have := hfull_iff.mp hfull; omega)
      refine ⟨.node left right', by rw [pushLeafInner, if_pos hfull, hpush]; rfl, ?_⟩
      rw [List.append_assoc]
      exact Stores.node hleft hright' (fun _ => hfull_iff.mp hfull) hprefix
    · have hroomLeft : lefts.length ≠ 2 ^ d := fun hleftsFull => hfull (hfull_iff.mpr hleftsFull)
      have hrights : rights = [] := not_imp_comm.mp hpacked hroomLeft
      subst hrights
      obtain ⟨left', hpush, hleft'⟩ := ihl (by omega)
      refine ⟨.node left' right, by rw [pushLeafInner, if_neg hfull, hpush]; rfl, ?_⟩
      have hnode := Stores.node hleft' hright (fun h => absurd rfl h) hprefix
      rwa [List.append_nil] at hnode ⊢

/-- `finalize_tree/3` at a subtree's capacity, with no more to finalize than it stores unless
    it is full, stores the same deposits, finalizes no fewer of them, and all of them when asked
    for the whole subtree. -/
theorem finalizeTree_stores {t : TreeNode δ} {d finalizedCount : Nat} {deposits : List δ}
    (h : Stores hash hashTreeRoot t d finalizedCount deposits) (hd : d ≤ maxMerkleTreeDepth) {toFinalize : Nat}
    (hfinalize : toFinalize ≤ deposits.length ∨ deposits.length = 2 ^ d) :
    ∃ t' finalizedCount', finalizeTree hash t toFinalize (2 ^ d) = some t' ∧
      Stores hash hashTreeRoot t' d finalizedCount' deposits ∧ finalizedCount ≤ finalizedCount' ∧
      (2 ^ d ≤ toFinalize → finalizedCount' = 2 ^ d) := by
  induction h generalizing toFinalize with
  | zero d =>
    obtain rfl := toFinalize_eq_zero_of_nil hfinalize
    exact ⟨_, 0, rfl, Stores.zero d, Nat.le_refl 0, fun hle => absurd hle (Nat.two_pow_pos d).not_ge⟩
  | leaf deposit => exact ⟨_, 2 ^ 0, rfl, Stores.finalized rfl rfl rfl, Nat.zero_le _, fun _ => rfl⟩
  | finalized hlength hroot hcount =>
    exact ⟨_, _, rfl, Stores.finalized hlength hroot hcount, Nat.le_refl _, fun _ => rfl⟩
  | @node left right d finalizedLeft finalizedRight lefts rights hleft hright hpacked hprefix ihl ihr =>
    have hlefts : lefts.length ≤ 2 ^ d := by simpa using hleft.holds.length_le
    have hrights : rights.length ≤ 2 ^ d := by simpa using hright.holds.length_le
    have hchild : 2 ^ (d + 1) / 2 = 2 ^ d := by rw [Nat.pow_succ, Nat.mul_div_cancel _ Nat.two_pos]
    have hnode := Stores.node hleft hright hpacked hprefix
    rw [List.length_append, Nat.pow_succ, Nat.mul_two] at hfinalize
    by_cases hall : 2 ^ (d + 1) ≤ toFinalize
    · -- the whole node is finalized: it becomes its root
      have hfull := length_append_of_finalize_all hlefts hrights hfinalize hall
      refine ⟨_, _, ?_, Stores.finalized hfull rfl rfl, hfull ▸ hnode.finalizedCount_le, fun _ => rfl⟩
      rw [finalizeTree, if_pos hall, getNodeRoot_of_holds hnode.holds hd]
      rfl
    · obtain ⟨left', finalizedLeft', hleftStep, hleft', hleftMore, hleftAll⟩ :=
        ihl (by omega) (finalize_left_of_packed hpacked hfinalize hlefts)
      have hleftBound : finalizedLeft' ≤ 2 ^ d := hleft'.finalizedCount_le.trans hlefts
      by_cases hvisit : toFinalize > 2 ^ d
      · -- past the left child: it is finalized whole, and the right child with the rest
        have hleftsFull := left_full_of_packed hpacked hfinalize hlefts hvisit
        obtain ⟨right', finalizedRight', hrightStep, hright', hrightMore, -⟩ :=
          ihr (by omega) (show toFinalize - 2 ^ d ≤ rights.length ∨ _ by omega)
        refine ⟨.node left' right', finalizedLeft' + finalizedRight', ?_,
          Stores.node hleft' hright' hpacked fun _ => hleftAll hvisit.le, by omega, fun hle => absurd hle hall⟩
        simp only [finalizeTree, if_neg hall, hchild, hleftStep, if_pos hvisit, hrightStep, Option.bind_eq_bind,
          Option.bind_some, Option.pure_def]
      · -- the right child is left as it is; a finalized deposit in it had the left child full
        refine ⟨.node left' right, finalizedLeft' + finalizedRight, ?_,
          Stores.node hleft' hright hpacked fun hpos => ?_, by omega, fun hle => absurd hle hall⟩
        · simp only [finalizeTree, if_neg hall, hchild, hleftStep, if_neg hvisit, Option.bind_eq_bind,
            Option.bind_some, Option.pure_def]
        · have := hprefix hpos
          omega

/-- In a node packed to the left, the first `2 ^ d` of what it holds are its left child's. -/
theorem take_drop_of_packed {α : Type} {lefts rights : List α} {n : Nat} (hlefts : lefts.length ≤ n)
    (hpacked : rights ≠ [] → lefts.length = n) : (lefts ++ rights).take n = lefts ∧ (lefts ++ rights).drop n = rights := by
  by_cases hrights : rights = []
  · subst hrights
    rw [List.append_nil]
    exact ⟨List.take_of_length_le hlefts, List.drop_eq_nil_of_le hlefts⟩
  · exact ⟨List.take_left' (hpacked hrights), List.drop_left' (hpacked hrights)⟩

/-- `generate_proof/4` down to a deposit stored in a leaf gives the deposit, and the branch of its
    root among the stored deposits' roots in front of the proof so far. Induction on what the
    subtree stores: at a node the index's bit picks the child its position is in, and a
    position past the finalized deposits is under no finalized subtree. -/
theorem generateProof_of_stores {t : TreeNode δ} {d finalizedCount : Nat} {deposits : List δ}
    (h : Stores hash hashTreeRoot t d finalizedCount deposits) (hd : d ≤ maxMerkleTreeDepth) {index : Nat}
    {deposit : δ} (hlow : finalizedCount ≤ index % 2 ^ d) (hdeposit : deposits[index % 2 ^ d]? = some deposit)
    (proof : List (List UInt8)) :
    generateProof hash t index d proof =
      some (deposit, Merkle.branch (hashNodes hash) zeroChunk d (deposits.map hashTreeRoot) index ++ proof) := by
  induction h generalizing proof with
  | zero d => simp at hdeposit
  | leaf deposit' =>
    simp only [Nat.pow_zero, Nat.mod_one, List.getElem?_cons_zero, Option.some.injEq] at hdeposit
    subst hdeposit
    rfl
  | finalized hlength =>
    have hposition := (List.getElem?_eq_some_iff.mp hdeposit).1
    omega
  | @node left right d finalizedLeft finalizedRight lefts rights hleft hright hpacked hprefix ihl ihr =>
    have hsplit : index % 2 ^ (d + 1) = index % 2 ^ d + 2 ^ d * (index / 2 ^ d % 2) := Nat.mod_pow_succ
    have hbitEq : index >>> d &&& 1 = index / 2 ^ d % 2 := by rw [Nat.shiftRight_eq_div_pow, Nat.and_one_is_mod]
    have hlefts : lefts.length ≤ 2 ^ d := by simpa using hleft.holds.length_le
    have hposition : index % 2 ^ (d + 1) < lefts.length + rights.length := by
      simpa using (List.getElem?_eq_some_iff.mp hdeposit).1
    -- the branch splits the roots where the node splits the deposits
    have hhalves : (lefts.map hashTreeRoot ++ rights.map hashTreeRoot).take (2 ^ d) = lefts.map hashTreeRoot ∧
        (lefts.map hashTreeRoot ++ rights.map hashTreeRoot).drop (2 ^ d) = rights.map hashTreeRoot := by
      refine take_drop_of_packed (by rw [List.length_map]; exact hlefts) fun hrights => ?_
      rw [List.length_map]
      exact hpacked fun hnil => hrights (by rw [hnil, List.map_nil])
    rw [generateProof, Merkle.branch, List.map_append, hhalves.1, hhalves.2]
    by_cases hbit : index / 2 ^ d % 2 = 1
    · -- the position is in the right child, past a full left one
      rw [hsplit, hbit, Nat.mul_one] at hlow hdeposit hposition
      have hleftsFull : lefts.length = 2 ^ d := by
        by_contra hne
        have hnil : rights = [] := not_imp_comm.mp hpacked hne
        subst hnil
        simp only [List.length_nil] at hposition
        omega
      have hrightLow : finalizedRight ≤ index % 2 ^ d := by
        rcases Nat.eq_zero_or_pos finalizedRight with hzero | hpos
        · omega
        · have := hprefix hpos
          omega
      have hrightDeposit : rights[index % 2 ^ d]? = some deposit := by
        rwa [List.getElem?_append_right (by omega), hleftsFull, Nat.add_sub_cancel] at hdeposit
      simp only [hbitEq, if_pos hbit, getNodeRoot_of_holds hleft.holds (by omega), Option.bind_eq_bind,
        Option.bind_some, ihr (by omega) hrightLow hrightDeposit, List.append_assoc, List.singleton_append]
    · -- the position is in the left child
      have hbit0 : index / 2 ^ d % 2 = 0 := by omega
      rw [hsplit, hbit0, Nat.mul_zero, Nat.add_zero] at hlow hdeposit hposition
      have hleftPosition : index % 2 ^ d < lefts.length := by
        by_cases hleftsFull : lefts.length = 2 ^ d
        · rw [hleftsFull]
          exact Nat.mod_lt index (Nat.two_pow_pos d)
        · have hnil : rights = [] := not_imp_comm.mp hpacked hleftsFull
          subst hnil
          simpa using hposition
      have hleftDeposit : lefts[index % 2 ^ d]? = some deposit := by
        rwa [List.getElem?_append_left hleftPosition] at hdeposit
      simp only [hbitEq, if_neg hbit, getNodeRoot_of_holds hright.holds (by omega), Option.bind_eq_bind,
        Option.bind_some, ihl (by omega) (by omega) hleftDeposit, List.append_assoc, List.singleton_append]

end Stores

section StoredRun

variable {hash : List UInt8 → List UInt8} {hashTreeRoot : δ → List UInt8}

theorem pushLeaf_stores {tree : DepositTree δ} {finalizedCount : Nat} {deposits : List δ}
    (hstores : Stores hash hashTreeRoot tree.inner depositContractTreeDepth finalizedCount deposits)
    (hcount : tree.depositCount = deposits.length) (hroom : deposits.length < 2 ^ depositContractTreeDepth)
    (deposit : δ) :
    ∃ tree', pushLeaf hashTreeRoot tree deposit = some tree' ∧
      Stores hash hashTreeRoot tree'.inner depositContractTreeDepth finalizedCount (deposits ++ [deposit]) ∧
      tree'.depositCount = (deposits ++ [deposit]).length := by
  obtain ⟨inner, hpush, hinner⟩ := pushLeafInner_stores deposit hstores hroom
  refine ⟨_, by rw [pushLeaf, hpush]; rfl, hinner, ?_⟩
  rw [List.length_append, List.length_singleton, ← hcount]

theorem finalize_stores {tree : DepositTree δ} {finalizedCount : Nat} {deposits : List δ}
    (hstores : Stores hash hashTreeRoot tree.inner depositContractTreeDepth finalizedCount deposits)
    (hcount : tree.depositCount = deposits.length) (eth1Data : Eth1Data) (executionBlockHeight : Nat)
    (hle : eth1Data.depositCount ≤ deposits.length) :
    ∃ tree' finalizedCount', finalize hash tree eth1Data executionBlockHeight = some tree' ∧
      Stores hash hashTreeRoot tree'.inner depositContractTreeDepth finalizedCount' deposits ∧
      tree'.depositCount = deposits.length := by
  obtain ⟨inner, finalizedCount', hfinalize, hinner, -⟩ := finalizeTree_stores hstores (by decide) (Or.inl hle)
  refine ⟨{ tree with inner := inner, finalizedExecutionBlock := some (eth1Data.blockHash, executionBlockHeight) },
    finalizedCount', ?_, hinner, hcount⟩
  rw [finalize, hfinalize]
  rfl

variable (hash hashTreeRoot)

/-- From `new/0`, a run of fewer than `2 ^ 32` pushes whose finalizations ask for no more deposits
    than were pushed stores the pushed deposits, and counts them. -/
theorem run_stores (operations : List (Operation δ)) (hcount : (deposits operations).length < 2 ^ depositContractTreeDepth)
    (hfinalize : finalizesPushed 0 operations = true) :
    ∃ tree finalizedCount, run hash hashTreeRoot new operations = some tree ∧
      Stores hash hashTreeRoot tree.inner depositContractTreeDepth finalizedCount (deposits operations) ∧
      tree.depositCount = (deposits operations).length := by
  let Inv : DepositTree δ → List δ → Prop := fun tree pushed => ∃ finalizedCount,
    Stores hash hashTreeRoot tree.inner depositContractTreeDepth finalizedCount pushed ∧ tree.depositCount = pushed.length
  have hnew : Inv new [] := ⟨0, Stores.zero _, rfl⟩
  obtain ⟨tree, hrun, finalizedCount, hstores, htreeCount⟩ := run_invariant hashTreeRoot id Inv
    (fun _ _ deposit ⟨finalizedCount, hstores, hcount⟩ hroom =>
      (pushLeaf_stores hstores hcount hroom deposit).imp fun _ hstep => ⟨hstep.1, finalizedCount, hstep.2⟩)
    (fun _ _ eth1Data executionBlockHeight ⟨_, hstores, hcount⟩ hle =>
      (finalize_stores hstores hcount eth1Data executionBlockHeight hle).imp fun _ ⟨finalizedCount', hstep⟩ =>
        ⟨hstep.1, finalizedCount', hstep.2⟩)
    operations hnew (by simpa using hcount) hfinalize
  rw [List.nil_append, List.map_id] at hstores htreeCount
  exact ⟨tree, finalizedCount, hrun, hstores, htreeCount⟩

variable {hash hashTreeRoot}

/-- `get_deposit/2` on a stored deposit past the finalized ones gives the deposit, with its branch
    among the stored deposits' roots and the tree's mixed-in count on top. -/
theorem getDeposit_of_stores {tree : DepositTree δ} {finalizedCount : Nat} {deposits : List δ}
    (hstores : Stores hash hashTreeRoot tree.inner depositContractTreeDepth finalizedCount deposits)
    (hcount : tree.depositCount = deposits.length) {index : Nat} {deposit : δ} (hlow : finalizedCount ≤ index)
    (hdeposit : deposits[index]? = some deposit) :
    getDeposit hash tree index = some (.ok ⟨Merkle.branch (hashNodes hash) zeroChunk depositContractTreeDepth
      (deposits.map hashTreeRoot) index ++ [mixInLength tree], deposit⟩) := by
  have hindex : index < deposits.length := (List.getElem?_eq_some_iff.mp hdeposit).1
  have hroom : deposits.length ≤ 2 ^ depositContractTreeDepth := by simpa using hstores.holds.length_le
  have hmod : index % 2 ^ depositContractTreeDepth = index := Nat.mod_eq_of_lt (by omega)
  rw [getDeposit, countFinalized_of_stores hstores, if_neg (by omega), if_neg (by omega),
    generateProof_of_stores hstores (by decide) (by rw [hmod]; exact hlow) (by rw [hmod]; exact hdeposit)]
  rfl

end StoredRun

/-- From `new/0`, after any run of fewer than `2 ^ 32` pushes whose finalizations ask for no more
    deposits than were pushed, `get_deposit/2` at every index past the finalized deposits and below
    the count gives that deposit with a proof of 33 roots, which `valid_merkle_branch?/5` accepts at
    depth 33 against the tree's root. -/
theorem getDeposit_proofs_verify (hash : List UInt8 → List UInt8) (hashTreeRoot : δ → List UInt8)
    (operations : List (Operation δ)) (hcount : (deposits operations).length < 2 ^ 32)
    (hfinalize : finalizesPushed 0 operations = true) :
    ∃ tree root, run hash hashTreeRoot new operations = some tree ∧ getRoot hash tree = some root ∧
      ∀ index deposit, countFinalized tree.inner ≤ index → (deposits operations)[index]? = some deposit →
        ∃ proof, getDeposit hash tree index = some (.ok ⟨proof, deposit⟩) ∧ proof.length = 33 ∧
          StateTransition.validMerkleBranch? hash (hashTreeRoot deposit) proof 33 index root = true := by
  obtain ⟨tree, finalizedCount, hrun, hstores, htreeCount⟩ := run_stores hash hashTreeRoot operations hcount hfinalize
  have hvalid : Valid hash tree ((deposits operations).map hashTreeRoot) :=
    ⟨hstores.holds, by rw [htreeCount, List.length_map]⟩
  refine ⟨tree, _, hrun, getRoot_of_valid hvalid, fun index deposit hlow hdeposit => ?_⟩
  rw [countFinalized_of_stores hstores] at hlow
  have hindex : index < 2 ^ depositContractTreeDepth := by
    have := (List.getElem?_eq_some_iff.mp hdeposit).1
    simp only [depositContractTreeDepth]
    omega
  -- the proof's leaf is the deposit's root, and its top sibling the count the root mixes in
  have hleaf : ((deposits operations).map hashTreeRoot).getD index zeroChunk = hashTreeRoot deposit := by
    simp [List.getD_eq_getElem?_getD, hdeposit]
  have hmix : mixInLength tree = natToLE 8 ((deposits operations).map hashTreeRoot).length ++ List.replicate 24 0 := by
    rw [mixInLength_eq, htreeCount, List.length_map]
  refine ⟨_, getDeposit_of_stores hstores htreeCount hlow hdeposit, by simp [depositContractTreeDepth], ?_⟩
  rw [← hleaf, hmix]
  exact StateTransition.validMerkleBranch?_branch_append hash zeroChunk depositContractTreeDepth _ hindex _

/-- The run `pushFinalizePush`: each of its three deposits past the one finalized has a proof that
    verifies against the root. -/
theorem getDeposit_proofs_verify_pushFinalizePush :
    ∃ tree root, run pairSum (natToLE 32) new pushFinalizePush = some tree ∧ getRoot pairSum tree = some root ∧
      ∀ index deposit, countFinalized tree.inner ≤ index → (deposits pushFinalizePush)[index]? = some deposit →
        ∃ proof, getDeposit pairSum tree index = some (.ok ⟨proof, deposit⟩) ∧ proof.length = 33 ∧
          StateTransition.validMerkleBranch? pairSum (natToLE 32 deposit) proof 33 index root = true :=
  getDeposit_proofs_verify pairSum (natToLE 32) pushFinalizePush (by decide) (by decide)

/-! ## Snapshots -/

section Snapshots

variable (hash : List UInt8 → List UInt8)

/-- `t` at depth `d` under `k` more levels of nodes, each with a subtree of zeros on its right:
    where the deposits of a tree with room for many more sit. -/
def spine (t : TreeNode δ) (d : Nat) : Nat → TreeNode δ
  | 0 => t
  | k + 1 => .node (spine t d k) (.zero (d + k))

theorem spine_inj {t t' : TreeNode δ} {d : Nat} : ∀ k, spine t d k = spine t' d k ↔ t = t'
  | 0 => Iff.rfl
  | k + 1 => by simp [spine, spine_inj k]

/-- The snapshot's deposit root is the tree's root. -/
theorem getSnapshot_depositRoot {tree : DepositTree δ} {snapshot : DepositTreeSnapshot}
    (hsnapshot : getSnapshot hash tree = some snapshot) : getRoot hash tree = some snapshot.depositRoot := by
  cases hroot : getRoot hash tree with
  | none => simp [getSnapshot, hroot] at hsnapshot
  | some root =>
    cases hblock : tree.finalizedExecutionBlock with
    | none => simp [getSnapshot, hroot, hblock] at hsnapshot
    | some block =>
      simp only [getSnapshot, hroot, hblock, Option.bind_eq_bind, Option.bind_some, Option.pure_def,
        Option.some.injEq] at hsnapshot
      rw [← hsnapshot]

/-- Three deposits, all finalized: the snapshot lists the third deposit's root before the root
    of the first two, and `from_snapshot/1` puts the third's root over the first two deposits.
    The round trip gives the tree back exactly when the hash of the first two roots is the
    third root. -/
theorem snapshot_round_trip_three (hashTreeRoot : δ → List UInt8) (deposit0 deposit1 deposit2 : δ)
    (blockHash : List UInt8) (executionBlockHeight : Nat) :
    ∃ tree snapshot, run hash hashTreeRoot new
        [.pushLeaf deposit0, .pushLeaf deposit1, .pushLeaf deposit2, .finalize ⟨3, blockHash⟩ executionBlockHeight] =
          some tree ∧
      getSnapshot hash tree = some snapshot ∧ getRoot hash tree = some snapshot.depositRoot ∧
      (fromSnapshot snapshot = some tree ↔ hashNodes hash (hashTreeRoot deposit0) (hashTreeRoot deposit1) = hashTreeRoot deposit2) := by
  set first := hashNodes hash (hashTreeRoot deposit0) (hashTreeRoot deposit1)
  set third := hashTreeRoot deposit2
  set operations : List (Operation δ) :=
    [.pushLeaf deposit0, .pushLeaf deposit1, .pushLeaf deposit2, .finalize ⟨3, blockHash⟩ executionBlockHeight]
  -- the run leaves the two finalized subtrees at the bottom of a spine of 30 nodes
  set tree : DepositTree δ := ⟨spine (.node (.finalized first 2) (.node (.finalized third 1) (.zero 0))) 2 30, 3,
    some (blockHash, executionBlockHeight)⟩
  have hrun : run hash hashTreeRoot new operations = some tree := rfl
  obtain ⟨tree', hrun', hvalid⟩ := run_valid hashTreeRoot operations (valid_new hash)
    (by simp [operations, deposits, depositContractTreeDepth]) rfl
  rw [hrun, Option.some.injEq] at hrun'
  subst hrun'
  obtain ⟨root, hroot⟩ : ∃ root, getRoot hash tree = some root := ⟨_, getRoot_of_valid hvalid⟩
  have hsnapshot : getSnapshot hash tree = some ⟨[third, first], root, 3, blockHash, executionBlockHeight⟩ := by
    simp only [getSnapshot, hroot, Option.bind_eq_bind, Option.bind_some, Option.pure_def]
    rfl
  refine ⟨tree, _, hrun, hsnapshot, getSnapshot_depositRoot hash hsnapshot, ?_⟩
  -- the restored tree has the two roots swapped
  have hrestored : fromSnapshot (⟨[third, first], root, 3, blockHash, executionBlockHeight⟩ : DepositTreeSnapshot) =
      some (⟨spine (.node (.finalized third 2) (.node (.finalized first 1) (.zero 0))) 2 30, 3,
        some (blockHash, executionBlockHeight)⟩ : DepositTree δ) := rfl
  rw [hrestored, Option.some.injEq, DepositTree.mk.injEq, spine_inj]
  constructor
  · rintro ⟨hswap, -⟩
    simp only [TreeNode.node.injEq, TreeNode.finalized.injEq] at hswap
    exact hswap.1.1.symm
  · intro hsame
    rw [hsame]
    exact ⟨rfl, rfl, rfl⟩

end Snapshots

end DepositTree

end LambdaEthereumConsensus.Types
