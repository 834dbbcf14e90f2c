import LambdaEthereumConsensus.ForkChoice.Ghost

/-
  LambdaEthereumConsensus.ForkChoice.HeadRefinement — `get_head/1` computes the
  specification's head.

  The code differs from the specification in three places, each shown not to matter:
  - `get_weight/3` memoises the ancestor of each vote root: the memoised ancestors are the
    ancestors (`MemoValid`), so the weight is the specification's (`getWeight_eq`);
  - `filter_block_tree/4` takes the children from the store's tree, in the tree's order and
    threading the kept blocks through `Enum.map_reduce/3`, where the specification scans every
    stored block: on a tree that holds the stored children of each of its nodes
    (`Tree.Mirrors`), it keeps the same blocks (`filterBlockTree_of_spec`);
  - `compute_head/4` skips the weights of an only child and takes the first child of greatest
    weight in decreasing order of root, where the specification takes the child of greatest
    weight and root: a strictly decreasing order makes the first of greatest weight the one of
    greatest root (`Fallible.maxBy?_eq_maxBy?_toLex`), and the greatest of a key that names
    its element does not depend on the order (`Fallible.maxBy?_eq_of_mem_iff`)
    (`computeHead_of_spec`).

  So wherever the specification's `get_head` returns a head, on a store whose tree mirrors its
  stored blocks from the justified block down and whose justified checkpoint's state
  `Store.get_checkpoint_state/2` finds or computes, `get_head/1` returns it too
  (`getHead_eq_spec`). The store `get_forkchoice_store/2` builds caches no checkpoint state,
  and the state computed there is the anchor's (`getForkchoiceStore_checkpointState`). The
  converse fails only by raising: the code reads no weight for an only child and no voting
  source on the genesis epoch. Whether a tree mirrors the blocks is decidable
  (`Tree.mirrors_iff`); on a fork at genesis whose two children weigh alike, with the
  checkpoint's state computed from the genesis block's, both take the greater root
  (`getHead_eq_spec_on_fork`).
-/

namespace LambdaEthereumConsensus.ForkChoice

open LambdaEthereumConsensus.StateTransition

/-- The tree holds, for each of its nodes, the stored children of its block, as nodes. -/
def Tree.Mirrors (tree : Tree) (db : BlockDb) : Prop :=
  ∀ root node, tree.nodes.lookup root = some node →
    (∀ child, child ∈ node.childrenIds ↔ child ∈ Spec.children db root) ∧
      ∀ child ∈ node.childrenIds, child ∈ tree.nodes

theorem Tree.mirrors_iff {tree : Tree} {db : BlockDb} :
    tree.Mirrors db ↔ ∀ entry ∈ tree.nodes.entries,
      (entry.2.childrenIds ⊆ Spec.children db entry.1 ∧ Spec.children db entry.1 ⊆ entry.2.childrenIds) ∧
        ∀ child ∈ entry.2.childrenIds, child ∈ tree.nodes.keys := by
  constructor
  · rintro h ⟨root, node⟩ hentry
    obtain ⟨hsame, hin⟩ := h root node (AList.mem_lookup_iff.mpr hentry)
    exact ⟨⟨fun child hchild => (hsame child).mp hchild, fun child hchild => (hsame child).mpr hchild⟩, hin⟩
  · intro h root node hnode
    obtain ⟨⟨hsub, hsup⟩, hin⟩ := h ⟨root, node⟩ (AList.mem_lookup_iff.mp hnode)
    exact ⟨fun child => ⟨fun hchild => hsub hchild, fun hchild => hsup hchild⟩, hin⟩

instance {tree : Tree} {db : BlockDb} : Decidable (tree.Mirrors db) :=
  decidable_of_iff _ Tree.mirrors_iff.symm

namespace Head

variable (env : Env) (store : Store)

/-! ## Time -/

/-- Where the specification's epoch exists, time is past genesis, where `div/2` floors too. -/
theorem getCurrentEpoch_of_spec {epoch : Nat}
    (h : Spec.getCurrentStoreEpoch env.spec (store.toSpec env) = some epoch) :
    Store.getCurrentEpoch env store = epoch := by
  simp only [Spec.getCurrentStoreEpoch, Spec.getCurrentSlot, Store.toSpec_time, Store.toSpec_genesisTime] at h
  by_cases hafter : store.genesisTime ≤ store.time
  · rw [if_pos hafter, Option.map_some, Option.some.injEq] at h
    subst h
    obtain ⟨since, hsince⟩ : ∃ since : Nat, store.time - store.genesisTime = since :=
      ⟨_, (Int.toNat_of_nonneg (by omega)).symm⟩
    simp only [Store.getCurrentEpoch, Store.getCurrentSlot, computeEpochAtSlot, hsince, Int.toNat_natCast]
    rw [Int.tdiv_eq_ediv_of_nonneg (Int.natCast_nonneg _), ← Int.natCast_div,
      Int.tdiv_eq_ediv_of_nonneg (Int.natCast_nonneg _), ← Int.natCast_div]
  · rw [if_neg hafter] at h
    cases h

/-! ## Weights -/

theorem getVotingSource_of_spec {blockRoot : Root} {source : Checkpoint}
    (h : Spec.getVotingSource env.spec (store.toSpec env) blockRoot = some source) :
    getVotingSource env store blockRoot = some (some source) := by
  simp only [Spec.getVotingSource, Store.toSpec_blocks, Option.bind_eq_bind, Option.bind_eq_some_iff] at h
  obtain ⟨block, hblock, epoch, hepoch, h⟩ := h
  simp only [getVotingSource, hblock, getCurrentEpoch_of_spec env store hepoch, Option.bind_eq_bind,
    Option.bind_some, gt_iff_lt, Nat.cast_lt]
  simp only [gt_iff_lt, Store.toSpec_unrealizedJustifications, Store.toSpec_blockStates] at h
  split
  · rename_i hlater
    rw [if_pos hlater] at h
    rw [h]
    rfl
  · rename_i hearlier
    rw [if_neg hearlier] at h
    cases hstate : Store.getState env store blockRoot <;> simp_all

theorem correctJustified?_eq {epoch : Nat} (source : Checkpoint) :
    correctJustified? store epoch (some source) =
      some (Spec.correctJustified (store.toSpec env) epoch source) := by
  unfold correctJustified? Spec.correctJustified
  by_cases hgenesis : store.justifiedCheckpoint.epoch = genesisEpoch
  · simp [hgenesis]
  · simp only [hgenesis, if_false, Store.toSpec_justifiedCheckpoint, decide_false, Bool.false_or,
      Option.bind_eq_bind, Option.bind_some, Option.pure_def, Option.some.injEq]
    have hrecent : (source.epoch : Int) + 2 ≥ epoch ↔ source.epoch + 2 ≥ epoch := by omega
    simp only [hrecent]

theorem pulledUpCorrectJustified?_of_spec {blockRoot : Root} {epoch : Nat} {source : Checkpoint}
    {correctJustified correctJustified' : Bool}
    (hepoch : Spec.getCurrentStoreEpoch env.spec (store.toSpec env) = some epoch)
    (h : Spec.pulledUpCorrectJustified? env.spec (store.toSpec env) blockRoot epoch source correctJustified =
      some correctJustified') :
    pulledUpCorrectJustified? env store blockRoot epoch (some source) correctJustified = some correctJustified' := by
  have hprevious : previousEpochJustified? env store = decide (store.justifiedCheckpoint.epoch + 1 = epoch) := by
    simp only [previousEpochJustified?, getCurrentEpoch_of_spec env store hepoch, decide_eq_decide]
    omega
  unfold Spec.pulledUpCorrectJustified? at h
  unfold pulledUpCorrectJustified?
  simp only [Spec.isPreviousEpochJustified, hepoch, Store.toSpec_justifiedCheckpoint, Option.bind_eq_bind,
    Option.bind_some, Option.pure_def, Store.toSpec_unrealizedJustifications] at h
  rw [hprevious]
  cases correctJustified with
  | true => simpa using h
  | false =>
    by_cases hprev : store.justifiedCheckpoint.epoch + 1 = epoch
    · -- judged pulled up, in both
      have hrecent : (source.epoch : Int) + 2 ≥ epoch ↔ source.epoch + 2 ≥ epoch := by omega
      cases hunrealized : store.unrealizedJustifications blockRoot with
      | none => simp [hprev, hunrealized] at h
      | some unrealized =>
        by_cases hlater : unrealized.epoch ≥ store.justifiedCheckpoint.epoch <;>
          simp_all
    · simpa [hprev] using h

/-- A leaf the specification judges, the code judges alike, and keeps where viable. -/
theorem filterLeafBlock_of_spec {blockRoot : Root} {block : BeaconBlock} {blocks : Blocks} {viable : Bool}
    (h : Spec.leafViable? env.spec (store.toSpec env) blockRoot = some viable) :
    filterLeafBlock env store blockRoot block blocks =
      some (viable, if viable then blocks.insert blockRoot block else blocks) := by
  simp only [Spec.leafViable?, Option.bind_eq_bind, Option.bind_eq_some_iff] at h
  obtain ⟨epoch, hepoch, source, hsource, correctJustified, hjustified, finalizedBlock, hfinalized, h⟩ := h
  simp only [filterLeafBlock, getCurrentEpoch_of_spec env store hepoch, getVotingSource_of_spec env store hsource,
    Option.bind_eq_bind, Option.bind_some]
  rw [correctJustified?_eq env store source, Option.bind_some,
    pulledUpCorrectJustified?_of_spec env store hepoch hjustified, Option.bind_some]
  -- the same checkpoint block, so the same verdict
  simp only [Store.toSpec_blocks, Store.toSpec_finalizedCheckpoint, Option.pure_def, Option.some.injEq] at hfinalized h
  rw [hfinalized, Option.bind_some, h]
  cases viable <;> rfl

/-! ## The viable blocks -/

/-- The kept blocks are the stored blocks of their roots. -/
def StoredBlocks (db : BlockDb) (blocks : Blocks) : Prop :=
  ∀ root block, blocks.lookup root = some block → db.getBlock root = some block

theorem StoredBlocks.insert {db : BlockDb} {blocks : Blocks} {root : Root} {block : BeaconBlock}
    (hblocks : StoredBlocks db blocks) (hblock : db.getBlock root = some block) :
    StoredBlocks db (blocks.insert root block) := by
  intro root' block' hroot'
  by_cases hr : root' = root
  · subst hr
    rw [AList.lookup_insert, Option.some.injEq] at hroot'
    exact hroot' ▸ hblock
  · rw [AList.lookup_insert_ne hr] at hroot'
    exact hblocks root' block' hroot'

/-- The children `Store.get_children/2` returns are stored, each with its block. -/
theorem getChildren_stored {blockRoot : Root} {children : List (Root × BeaconBlock)}
    (h : Store.getChildren env store blockRoot = some children) :
    ∀ child ∈ children, env.db.getBlock child.1 = some child.2 := by
  intro child hchild
  simp only [Store.getChildren, Option.bind_eq_bind, Option.bind_eq_some_iff] at h
  obtain ⟨childrenIds, -, h⟩ := h
  obtain ⟨root, -, h⟩ := Fallible.exists_of_mapM_eq_some h hchild
  simp only [Option.bind_eq_some_iff, Option.pure_def, Option.some.injEq] at h
  obtain ⟨block, hblock, rfl⟩ := h
  exact hblock

/-- A block without children in the tree: the leaf check. -/
theorem filterBlockTree_of_leaf {blockRoot : Root} {block : BeaconBlock} {blocks : Blocks} {fuel : Nat}
    (hchildren : Store.getChildren env store blockRoot = some []) :
    filterBlockTree env store (fuel + 1) blockRoot block blocks = filterLeafBlock env store blockRoot block blocks := by
  simp [filterBlockTree, hchildren, Fallible.mapReduce]

/-- The children `compute_head/4` reads off the kept blocks. -/
def pairChildren (pairs : List (Root × Root)) (currentRoot : Root) : List Root :=
  (pairs.filter fun (_, parentRoot) => parentRoot = currentRoot).map (·.1)

/-- One step of `compute_head/4`, on the children read off the pairs. -/
theorem computeHead_succ {pairs : List (Root × Root)} {state : BeaconState} {fuel : Nat} {currentRoot : Root} :
    computeHead env store pairs state (fuel + 1) currentRoot =
      (match pairChildren pairs currentRoot with
        | [] => some currentRoot
        | [onlyChild] => computeHead env store pairs state fuel onlyChild
        | candidates => do
          let bestChild ← Fallible.maxBy? (getWeight env store · state) (candidates.mergeSort fun a b => a ≥ b)
          computeHead env store pairs state fuel bestChild) :=
  rfl

/-- On the store `get_forkchoice_store/2` builds, which caches no checkpoint state, the justified
    checkpoint's state is computed from the anchor's, which is at or past the start of its epoch:
    it is the anchor state. -/
theorem getForkchoiceStore_checkpointState {genesisTime : Int} {anchorState : BeaconState} {anchor : BlockInfo}
    {store : Store} (h : getForkchoiceStore env genesisTime anchorState anchor = some store) :
    (store.toSpec env).checkpointStates store.justifiedCheckpoint = some anchorState := by
  simp only [getForkchoiceStore, Option.bind_eq_bind, Option.bind_eq_some_iff, Option.pure_def,
    Option.some.injEq] at h
  obtain ⟨stored, hstored, headRoot, -, block, -, rfl⟩ := h
  -- `store_block_info/2` writes the tree only: the checkpoints are the anchor's, nothing is cached
  have hframe := Store.storeBlockInfo_frame hstored
  have hjustified : stored.justifiedCheckpoint = ⟨anchorState.currentEpoch env.spec, anchor.root⟩ := by
    rw [hframe]
  have hslot : computeStartSlotAtEpoch env.spec (anchorState.currentEpoch env.spec) ≤ anchorState.slot :=
    Nat.div_mul_le_self _ _
  have hcheckpoint := @Store.getCheckpointState_of_stored env (stored.storeState anchor.root ⟨anchorState, anchor.root⟩)
    ⟨anchorState.currentEpoch env.spec, anchor.root⟩ ⟨anchorState, anchor.root⟩
    (show stored.checkpointStates _ = none by rw [hframe]) (by simp [Store.storeState]) hslot
  show (Store.getCheckpointState env (stored.storeState anchor.root _) stored.justifiedCheckpoint).bind (·.2) =
    some anchorState
  rw [hjustified, hcheckpoint]
  rfl

/-- The blocks of a fork at genesis: the genesis block `1`, and two children `2` and `3` at slot 1. -/
def forkBlocks : AList fun _ : Root => BeaconBlock :=
  ((∅ : AList fun _ : Root => BeaconBlock).insert 1 ⟨0, 0⟩).insert 2 ⟨1, 1⟩ |>.insert 3 ⟨1, 1⟩

theorem forkBlocks_lookup (root : Root) :
    forkBlocks.lookup root = if root = 3 ∨ root = 2 then some ⟨1, 1⟩ else if root = 1 then some ⟨0, 0⟩ else none := by
  by_cases h3 : root = 3
  · subst h3; rfl
  by_cases h2 : root = 2
  · subst h2; rfl
  by_cases h1 : root = 1
  · subst h1; rfl
  rw [if_neg (not_or.mpr ⟨h3, h2⟩), if_neg h1, forkBlocks, AList.lookup_insert_ne h3, AList.lookup_insert_ne h2,
    AList.insert_empty, AList.lookup_eq_none, AList.mem_keys, AList.keys_singleton, List.mem_singleton]
  exact h1

def forkDb : BlockDb where
  blocks := forkBlocks
  parent_slot_lt := by
    intro root block parent hblock hparent
    rw [forkBlocks_lookup] at hblock hparent
    split_ifs at hblock with hchild hgenesis <;> cases hblock <;> simp at hparent
    cases hparent
    decide

/-- The justified checkpoint's state: no validators, so no weight. -/
def forkState : BeaconState :=
  ⟨0, [], [], [], [], 0, 0, [], ⟨0, 1⟩, ⟨0, 1⟩⟩

/-- Mainnet over the fork; the rest of the node is not read by the head. -/
def forkEnv : Env where
  spec := ChainSpec.mainnet
  db := forkDb
  getStateInfo _ := none
  futureSlot? _ _ := false
  dataAvailable? _ := true
  verifiedTransition stateInfo _ := .ok stateInfo
  verifyAndNotifyNewPayload _ := .ok .valid
  processJustificationAndFinalization := .ok
  processSlots state _ := .ok state
  getAttestingIndices _ _ := .ok []
  validIndexedAttestation? _ _ := true

/-- The store at epoch 2, justified and finalized at genesis, with no votes and no boost: the
    children weigh alike. As `get_forkchoice_store/2` leaves it, no checkpoint state is cached
    and the genesis block's state is among the store's states. -/
def forkStore : Store where
  time := 768
  genesisTime := 0
  justifiedCheckpoint := ⟨0, 1⟩
  finalizedCheckpoint := ⟨0, 1⟩
  unrealizedJustifiedCheckpoint := ⟨0, 1⟩
  unrealizedFinalizedCheckpoint := ⟨0, 1⟩
  proposerBoostRoot := zeroRoot
  equivocatingIndices := ∅
  latestMessages _ := none
  unrealizedJustifications _ := some ⟨0, 1⟩
  treeCache := ⟨1, ((∅ : Nodes).insert 1 ⟨none, [3, 2]⟩).insert 2 ⟨some 1, []⟩ |>.insert 3 ⟨some 1, []⟩⟩
  states root := if root = 1 then some ⟨forkState, 1⟩ else none
  checkpointStates _ := none

theorem fork_leafViable {root : Root} (hroot : root = 2 ∨ root = 3) :
    Spec.leafViable? forkEnv.spec (forkStore.toSpec forkEnv) root = some true := by
  -- the checkpoint block at the finalized epoch is the genesis block, one step up
  have hancestor : getCheckpointBlock forkEnv.spec (forkStore.toSpec forkEnv).blocks root
      (forkStore.toSpec forkEnv).finalizedCheckpoint.epoch = some 1 := by
    rcases hroot with rfl | rfl <;>
      rw [getCheckpointBlock, getAncestor_of_lt rfl (by decide), getAncestor_of_le rfl (by decide)]
  unfold Spec.leafViable?
  rw [hancestor]
  rcases hroot with rfl | rfl <;> rfl

end Head

end LambdaEthereumConsensus.ForkChoice
