import LambdaEthereumConsensus.ForkChoice.Head

/-
  LambdaEthereumConsensus.ForkChoice.Ghost — the specification's LMD-GHOST
  (`docs/specs/fork-choice.md`): `get_weight`, `get_voting_source`, `filter_block_tree`,
  `get_filtered_block_tree` and `get_head`, over the specification's store.

  The specification's store holds every block (`store.blocks`), each block's state
  (`store.block_states`) and the checkpoint states. The node's store is read as one
  (`Store.toSpec`): its block database, its states over the database's, and as checkpoint
  states those `Store.get_checkpoint_state/2` gives, cached or computed from the state of the
  checkpoint's block. A raise (a missing key, a `uint64` below zero) is `none`.

  `filter_block_tree` adds the kept blocks to a dictionary, each child's subtree before the
  block; here it returns the roots it adds, in that order. Both walks go down to stored
  children, of greater slots, so they end (`termination_by`). `get_ancestor` and
  `get_checkpoint_block` are line for line the code's (`getAncestor`, `getCheckpointBlock`),
  and so is `get_total_active_balance` (`getTotalActiveBalance`).
-/

namespace LambdaEthereumConsensus.ForkChoice

open LambdaEthereumConsensus.StateTransition

namespace Spec

/-- The specification's `Store`, the fields `get_head` reads. -/
structure Store where
  time : Int
  genesisTime : Int
  justifiedCheckpoint : Checkpoint
  finalizedCheckpoint : Checkpoint
  proposerBoostRoot : Root
  equivocatingIndices : Finset Nat
  blocks : BlockDb
  blockStates : Root → Option BeaconState
  checkpointStates : Checkpoint → Option BeaconState
  latestMessages : Nat → Option Checkpoint
  unrealizedJustifications : Root → Option Checkpoint

/-- The stored blocks whose parent is `blockRoot`, in the order of the store's keys. -/
def children (blocks : BlockDb) (blockRoot : Root) : List Root :=
  blocks.blocks.keys.filter fun root => (blocks.getBlock root).map (·.parentRoot) = some blockRoot

theorem mem_children_iff {blocks : BlockDb} {blockRoot root : Root} :
    root ∈ children blocks blockRoot ↔ ∃ block, blocks.getBlock root = some block ∧ block.parentRoot = blockRoot := by
  simp only [children, List.mem_filter, decide_eq_true_eq, Option.map_eq_some_iff]
  constructor
  · rintro ⟨-, block, hblock, hparent⟩
    exact ⟨block, hblock, hparent⟩
  · rintro ⟨block, hblock, hparent⟩
    exact ⟨BlockDb.mem_keys_of_getBlock hblock, block, hblock, hparent⟩

/-- A stored block's child is stored, at a greater slot. -/
theorem card_above_lt_of_child {blocks : BlockDb} {parentRoot root : Root} {parent block : BeaconBlock}
    (hparent : blocks.getBlock parentRoot = some parent) (hblock : blocks.getBlock root = some block)
    (hchild : block.parentRoot = parentRoot) :
    (blocks.above blocks.blocks.keys.toFinset (blocks.slotOf root)).card <
      (blocks.above blocks.blocks.keys.toFinset (blocks.slotOf parentRoot)).card := by
  subst hchild
  exact BlockDb.card_above_lt (List.mem_toFinset.mpr (BlockDb.mem_keys_of_getBlock hblock))
    (BlockDb.slotOf_parent_lt_of_stored hblock hparent)

variable (spec : ChainSpec)

/-! ## Time -/

/-- `get_current_slot`: `store.time - store.genesis_time` is a `uint64`, which raises below
    zero. -/
def getCurrentSlot (store : Store) : Option Nat :=
  if store.genesisTime ≤ store.time then some ((store.time - store.genesisTime).toNat / spec.secondsPerSlot)
  else none

/-- `get_current_store_epoch`. -/
def getCurrentStoreEpoch (store : Store) : Option Nat :=
  (getCurrentSlot spec store).map (computeEpochAtSlot spec)

/-- `is_previous_epoch_justified`. -/
def isPreviousEpochJustified (store : Store) : Option Bool := do
  let currentEpoch ← getCurrentStoreEpoch spec store
  pure (store.justifiedCheckpoint.epoch + 1 = currentEpoch)

/-! ## Weights -/

/-- `get_proposer_score`. -/
def getProposerScore (store : Store) : Option Nat := do
  let justifiedCheckpointState ← store.checkpointStates store.justifiedCheckpoint
  let committeeWeight := getTotalActiveBalance spec justifiedCheckpointState / spec.slotsPerEpoch
  pure (committeeWeight * spec.proposerScoreBoost / 100)

/-- Whether validator `i`'s vote counts for `root` in `get_weight`: `and` reads the block and
    the ancestor only for a validator with a message that does not equivocate. -/
def votesFor (store : Store) (root : Root) (i : Nat) : Option Bool :=
  match store.latestMessages i with
  | none => pure false
  | some message =>
    if i ∈ store.equivocatingIndices then pure false
    else do
      let block ← store.blocks.getBlock root
      let ancestor ← getAncestor store.blocks message.root block.slot
      pure (ancestor = root)

/-- One term of `get_weight`'s sum: validator `i`'s balance, where its vote counts. -/
def addVote (store : Store) (state : BeaconState) (root : Root) (score i : Nat) : Option Nat := do
  if ← votesFor store root i then
    let validator ← state.validators[i]?
    pure (score + validator.effectiveBalance)
  else pure score

/-- `get_weight`. -/
def getWeight (store : Store) (root : Root) : Option Nat := do
  let state ← store.checkpointStates store.justifiedCheckpoint
  let unslashedAndActiveIndices ← (getActiveValidatorIndices state (state.currentEpoch spec)).filterM fun i => do
    let validator ← state.validators[i]?
    pure !validator.slashed
  let attestationScore ← unslashedAndActiveIndices.foldlM (addVote store state root) 0
  if store.proposerBoostRoot = zeroRoot then pure attestationScore
  else do
    let block ← store.blocks.getBlock root
    let proposerScore ←
      if (← getAncestor store.blocks store.proposerBoostRoot block.slot) = root then getProposerScore spec store
      else pure 0
    pure (attestationScore + proposerScore)

/-! ## The viable blocks -/

/-- `get_voting_source`. -/
def getVotingSource (store : Store) (blockRoot : Root) : Option Checkpoint := do
  let block ← store.blocks.getBlock blockRoot
  let currentEpoch ← getCurrentStoreEpoch spec store
  let blockEpoch := computeEpochAtSlot spec block.slot
  if currentEpoch > blockEpoch then store.unrealizedJustifications blockRoot
  else do
    let headState ← store.blockStates blockRoot
    pure headState.currentJustifiedCheckpoint

/-- The first `correct_justified` of `filter_block_tree`'s leaf case. -/
def correctJustified (store : Store) (currentEpoch : Nat) (votingSource : Checkpoint) : Bool :=
  store.justifiedCheckpoint.epoch = genesisEpoch ||
    votingSource.epoch = store.justifiedCheckpoint.epoch || votingSource.epoch + 2 ≥ currentEpoch

/-- The second `correct_justified`: where the previous epoch is justified, the block is judged
    pulled up. -/
def pulledUpCorrectJustified? (store : Store) (blockRoot : Root) (currentEpoch : Nat)
    (votingSource : Checkpoint) (correctJustified : Bool) : Option Bool :=
  if !correctJustified then do
    if ← isPreviousEpochJustified spec store then do
      let unrealized ← store.unrealizedJustifications blockRoot
      pure (unrealized.epoch ≥ store.justifiedCheckpoint.epoch && votingSource.epoch + 2 ≥ currentEpoch)
    else pure correctJustified
  else pure correctJustified

/-- The leaf case of `filter_block_tree`: whether the leaf's voting source and checkpoint block
    agree with the store. -/
def leafViable? (store : Store) (blockRoot : Root) : Option Bool := do
  let currentEpoch ← getCurrentStoreEpoch spec store
  let votingSource ← getVotingSource spec store blockRoot
  let correctJustified ← pulledUpCorrectJustified? spec store blockRoot currentEpoch votingSource
    (correctJustified store currentEpoch votingSource)
  let finalizedCheckpointBlock ← getCheckpointBlock spec store.blocks blockRoot store.finalizedCheckpoint.epoch
  let correctFinalized := store.finalizedCheckpoint.epoch = genesisEpoch ||
    store.finalizedCheckpoint.root = finalizedCheckpointBlock
  pure (correctJustified && correctFinalized)

/-- `filter_block_tree`: whether the block is kept, and the roots it adds, each child's subtree
    before the block. -/
def filterBlockTree (store : Store) (blockRoot : Root) : Option (Bool × List Root) :=
  match hblock : store.blocks.getBlock blockRoot with
  | none => none
  | some _ =>
    if children store.blocks blockRoot ≠ [] then do
      let results ← (children store.blocks blockRoot).attach.mapM fun ⟨child, _⟩ => filterBlockTree store child
      if results.any (·.1) then pure (true, results.flatMap (·.2) ++ [blockRoot])
      else pure (false, results.flatMap (·.2))
    else do
      let viable ← leafViable? spec store blockRoot
      pure (viable, if viable then [blockRoot] else [])
termination_by (store.blocks.above store.blocks.blocks.keys.toFinset (store.blocks.slotOf blockRoot)).card
decreasing_by
  obtain ⟨block, hchild, hparent⟩ := mem_children_iff.mp ‹_›
  exact card_above_lt_of_child hblock hchild hparent

/-- `get_filtered_block_tree`: the keys of the dictionary. -/
def getFilteredBlockTree (store : Store) : Option (List Root) :=
  (filterBlockTree spec store store.justifiedCheckpoint.root).map (·.2)

/-- The key `get_head` maximises, `(get_weight(store, root), root)`. -/
def headKey (store : Store) (root : Root) : Option (Lex (Nat × Root)) :=
  (getWeight spec store root).map fun weight => toLex (weight, root)

/-- The children of `head` among the kept blocks, `blocks[root].parent_root == head`. -/
def keptChildren (store : Store) (blocks : List Root) (head : Root) : List Root :=
  blocks.filter fun root => (store.blocks.getBlock root).map (·.parentRoot) = some head

theorem mem_keptChildren_iff {store : Store} {blocks : List Root} {head root : Root} :
    root ∈ keptChildren store blocks head ↔
      root ∈ blocks ∧ ∃ block, store.blocks.getBlock root = some block ∧ block.parentRoot = head := by
  simp only [keptChildren, List.mem_filter, decide_eq_true_eq, Option.map_eq_some_iff]

/-- The loop of `get_head`, from `head`: the first step may start off the stored blocks, the
    later ones are on stored children. -/
def getHeadFrom (store : Store) (blocks : List Root) (head : Root) : Option Root :=
  if keptChildren store blocks head = [] then some head
  else
    match hbest : Fallible.maxBy? (headKey spec store) (keptChildren store blocks head) with
    | none => none
    | some best => getHeadFrom store blocks best
termination_by ((store.blocks.getBlock head).isNone.toNat,
  (store.blocks.above store.blocks.blocks.keys.toFinset (store.blocks.slotOf head)).card)
decreasing_by
  obtain ⟨hbest, -⟩ := Fallible.maxBy?_spec hbest
  obtain ⟨-, block, hblock, hchild⟩ := mem_keptChildren_iff.mp hbest
  cases hhead : store.blocks.getBlock head with
  | none => exact Prod.Lex.left _ _ (by simp [hblock])
  | some parent =>
    have hlt := card_above_lt_of_child hhead hblock hchild
    simpa [hblock] using Prod.Lex.right _ hlt

/-- `get_head`. -/
def getHead (store : Store) : Option Root := do
  let blocks ← getFilteredBlockTree spec store
  getHeadFrom spec store blocks store.justifiedCheckpoint.root

end Spec

/-- The node's store as the specification's: the block database, the store's states over the
    database's, and the checkpoint states `Store.get_checkpoint_state/2` gives, the cached one
    or the one computed from the state of the checkpoint's block. -/
@[simps]
def Store.toSpec (env : Env) (store : Store) : Spec.Store where
  time := store.time
  genesisTime := store.genesisTime
  justifiedCheckpoint := store.justifiedCheckpoint
  finalizedCheckpoint := store.finalizedCheckpoint
  proposerBoostRoot := store.proposerBoostRoot
  equivocatingIndices := store.equivocatingIndices
  blocks := env.db
  blockStates root := (Store.getState env store root).map (·.beaconState)
  checkpointStates checkpoint := (Store.getCheckpointState env store checkpoint).bind (·.2)
  latestMessages := store.latestMessages
  unrealizedJustifications := store.unrealizedJustifications

end LambdaEthereumConsensus.ForkChoice
