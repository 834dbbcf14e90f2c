import LambdaEthereumConsensus.Fallible.List
import LambdaEthereumConsensus.StateTransition.Attestations
import LambdaEthereumConsensus.ForkChoice.Handlers

/-
  LambdaEthereumConsensus.ForkChoice.Head — `ForkChoice.Head` (`fork_choice/head.ex`): the
  head of the chain by LMD-GHOST, `get_head/1`.

  `get_filtered_block_tree/1` walks down from the justified block along the children of the
  store's tree (`Store.get_children/2`), keeping a block where one of its leaves is viable
  (`filter_leaf_block/4`: its voting source and its checkpoint block at the finalized epoch
  agree with the store). `compute_head/4` then walks down the kept blocks, to the only child
  or to the first of greatest weight among the children sorted in decreasing order
  (`Enum.sort(:desc)` and `Enum.max_by/2`). `get_weight/3` memoises the ancestor at the
  block's slot of each vote root in a map while it adds up the votes.

  The two walks end on a tree whose children have greater slots; they are given the number of
  nodes of the tree, and of kept blocks, as fuel, and give `none` past it, where the code would
  not return. A raise is `none`; `get_head/1` never returns `{:error, _}`.

  `Store.get_forkchoice_store/2` is here too, since its `update_head_info/1` calls `get_head/1`;
  it leaves the checkpoint states empty, and the anchor's state in the store's states.
-/

namespace LambdaEthereumConsensus.ForkChoice

open LambdaEthereumConsensus.StateTransition

/-- The filtered blocks by root, `blocks` of `filter_block_tree/4`. -/
abbrev Blocks := AList fun _ : Root => BeaconBlock

namespace Head

variable (env : Env)

/-! ## Weights -/

/-- `Map.put_new_lazy/3` with a value that may raise, on a map read by key only. -/
def putNewLazy {β : Type} (map : Root → Option β) (key : Root) (value : Option β) : Option (Root → Option β) :=
  match map key with
  | some _ => some map
  | none => do
    let value ← value
    pure (Function.update map key (some value))

/-- One vote of `get_weight/3`'s reduction: the vote's balance counts where the ancestor of its
    root at the block's slot is the block, the ancestor memoised by vote root. -/
def weightStep (store : Store) (root : Root) (block : BeaconBlock) (state : BeaconState)
    (acc : Nat × (Root → Option Root)) (i : Nat) : Option (Nat × (Root → Option Root)) := do
  let message ← store.latestMessages i
  let voteRoot := message.root
  let ancestors ← putNewLazy acc.2 voteRoot (getAncestor env.db voteRoot block.slot)
  let ancestor ← ancestors voteRoot
  -- `Aja.Vector.at!/2` raises past the end of the validators
  let delta ← if ancestor = root then (state.validators[i]?).map (·.effectiveBalance) else pure 0
  pure (acc.1 + delta, ancestors)

/-- `get_weight/3`. -/
def getWeight (store : Store) (root : Root) (state : BeaconState) : Option Nat := do
  let block ← env.db.getBlock root
  let unslashed ← (getActiveValidatorIndices state (state.currentEpoch env.spec)).filterM fun i => do
    let validator ← state.validators[i]?
    pure !validator.slashed
  let voters := (unslashed.filter fun i => (store.latestMessages i).isSome).filter
    fun i => !decide (i ∈ store.equivocatingIndices)
  let (attestationScore, _) ← voters.foldlM (weightStep env store root block state) (0, fun _ => none)
  -- `or` reads the ancestor of the boost root only where there is one
  if store.proposerBoostRoot = zeroRoot then pure attestationScore
  else do
    let boostAncestor ← getAncestor env.db store.proposerBoostRoot block.slot
    if boostAncestor ≠ root then pure attestationScore
    else
      let committeeWeight := getTotalActiveBalance env.spec state / env.spec.slotsPerEpoch
      let proposerScore := committeeWeight * env.spec.proposerScoreBoost / 100
      pure (attestationScore + proposerScore)

/-! ## The walk to the head -/

/-- `compute_head/4`: the children of the current root among the kept blocks, then the only
    child, or the first of greatest weight in decreasing order of root. -/
def computeHead (store : Store) (blocks : List (Root × Root)) (justifiedState : BeaconState) :
    Nat → Root → Option Root
  | 0, _ => none
  | fuel + 1, currentRoot =>
    let children := (blocks.filter fun (_, parentRoot) => parentRoot = currentRoot).map (·.1)
    match children with
    | [] => some currentRoot
    | [onlyChild] => computeHead store blocks justifiedState fuel onlyChild
    | candidates => do
      let bestChild ← Fallible.maxBy? (getWeight env store · justifiedState)
        (candidates.mergeSort fun a b => a ≥ b)
      computeHead store blocks justifiedState fuel bestChild

/-! ## The viable blocks -/

/-- `previous_epoch_justified?/1`. -/
def previousEpochJustified? (store : Store) : Bool :=
  (store.justifiedCheckpoint.epoch : Int) + 1 = Store.getCurrentEpoch env store

/-- `get_voting_source/2`: the inner `none` is `nil`, the unrealized justification of a block
    without one. -/
def getVotingSource (store : Store) (blockRoot : Root) : Option (Option Checkpoint) := do
  let block ← env.db.getBlock blockRoot
  let currentEpoch := Store.getCurrentEpoch env store
  let blockEpoch := computeEpochAtSlot env.spec block.slot
  if currentEpoch > blockEpoch then pure (store.unrealizedJustifications blockRoot)
  else do
    -- `Store.get_state!/2` raises on a block without a state
    let stateInfo ← Store.getState env store blockRoot
    pure (some stateInfo.beaconState.currentJustifiedCheckpoint)

/-- The first `correct_justified` of `filter_leaf_block/4`: `or` reads the voting source past
    the genesis test only, and `nil.epoch` raises. -/
def correctJustified? (store : Store) (currentEpoch : Int) (votingSource : Option Checkpoint) : Option Bool :=
  if store.justifiedCheckpoint.epoch = genesisEpoch then pure true
  else do
    let source ← votingSource
    pure (source.epoch = store.justifiedCheckpoint.epoch || (source.epoch : Int) + 2 ≥ currentEpoch)

/-- The second `correct_justified` of `filter_leaf_block/4`: where the previous epoch is
    justified, a block is judged pulled up. -/
def pulledUpCorrectJustified? (store : Store) (blockRoot : Root) (currentEpoch : Int)
    (votingSource : Option Checkpoint) (correctJustified : Bool) : Option Bool :=
  if !correctJustified && previousEpochJustified? env store then do
    let unrealized ← store.unrealizedJustifications blockRoot
    if unrealized.epoch ≥ store.justifiedCheckpoint.epoch then do
      let source ← votingSource
      pure (decide ((source.epoch : Int) + 2 ≥ currentEpoch))
    else pure false
  else pure correctJustified

/-- `filter_leaf_block/4`; the voting source is computed first and read only where `or` and `and`
    reach it. -/
def filterLeafBlock (store : Store) (blockRoot : Root) (block : BeaconBlock) (blocks : Blocks) :
    Option (Bool × Blocks) := do
  let currentEpoch := Store.getCurrentEpoch env store
  let votingSource ← getVotingSource env store blockRoot
  let correctJustified ← correctJustified? store currentEpoch votingSource
  let correctJustified ← pulledUpCorrectJustified? env store blockRoot currentEpoch votingSource correctJustified
  let finalizedCheckpointBlock ← getCheckpointBlock env.spec env.db blockRoot store.finalizedCheckpoint.epoch
  let correctFinalized := store.finalizedCheckpoint.epoch = genesisEpoch ||
    store.finalizedCheckpoint.root = finalizedCheckpointBlock
  if correctJustified && correctFinalized then pure (true, blocks.insert blockRoot block)
  else pure (false, blocks)

/-- `filter_block_tree/4`: the children's subtrees through `Enum.map_reduce/3`, then the block
    where one of them is viable, nothing where none is, and the leaf check on a leaf. -/
def filterBlockTree (store : Store) : Nat → Root → BeaconBlock → Blocks → Option (Bool × Blocks)
  | 0, _, _, _ => none
  | fuel + 1, blockRoot, block, blocks => do
    let children ← Store.getChildren env store blockRoot
    let (filterBlockTreeResult, newBlocks) ←
      Fallible.mapReduce (fun (root, block) acc => filterBlockTree store fuel root block acc) children blocks
    if filterBlockTreeResult.any id then pure (true, newBlocks.insert blockRoot block)
    else if children ≠ [] then pure (false, newBlocks)
    else filterLeafBlock env store blockRoot block blocks

/-- `get_filtered_block_tree/1`: each kept block's root and parent root. -/
def getFilteredBlockTree (store : Store) : Option (List (Root × Root)) := do
  let base := store.justifiedCheckpoint.root
  let block ← env.db.getBlock base
  let (_, blocks) ← filterBlockTree env store (store.treeCache.nodes.entries.length + 1) base block ∅
  pure (blocks.entries.map fun entry => (entry.1, entry.2.parentRoot))

/-- `get_head/1`: `%BeaconState{} = justified_state` raises on a missing checkpoint state. -/
def getHead (store : Store) : Option Root := do
  let filteredBlocks ← getFilteredBlockTree env store
  let head := store.justifiedCheckpoint.root
  let (_, justifiedState) ← Store.getCheckpointState env store store.justifiedCheckpoint
  let justifiedState ← justifiedState
  computeHead env store filteredBlocks justifiedState (filteredBlocks.length + 1) head

/-- `Store.get_forkchoice_store/2` past its check of the anchor's state root (`anchorStateInfo`):
    every checkpoint is the anchor's, at the anchor state's epoch, with the time of its slot;
    the anchor block goes into the tree and its state into the store's states.
    `update_head_info/1` raises where `get_head/1` or `Blocks.get_block!/1` does, and writes
    only the head fields, which are not modelled. The writes to `BlockStates` and
    `CheckpointStates` go to the databases, which `get_checkpoint_state/2` does not read. -/
def getForkchoiceStore (genesisTime : Int) (anchorState : BeaconState) (anchor : BlockInfo) : Option Store := do
  let anchorCheckpoint : Checkpoint := ⟨anchorState.currentEpoch env.spec, anchor.root⟩
  let store : Store :=
    { time := genesisTime + env.spec.secondsPerSlot * anchorState.slot
      genesisTime := genesisTime
      justifiedCheckpoint := anchorCheckpoint
      finalizedCheckpoint := anchorCheckpoint
      unrealizedJustifiedCheckpoint := anchorCheckpoint
      unrealizedFinalizedCheckpoint := anchorCheckpoint
      proposerBoostRoot := zeroRoot
      equivocatingIndices := ∅
      latestMessages := fun _ => none
      unrealizedJustifications := fun root => if root = anchor.root then some anchorCheckpoint else none
      treeCache := Tree.new anchor.root
      states := fun _ => none
      checkpointStates := fun _ => none }
  let store ← Store.storeBlockInfo store anchor
  let store := Store.storeState store anchor.root ⟨anchorState, anchor.root⟩
  let headRoot ← getHead env store
  let _ ← env.db.getBlock headRoot
  pure store

end Head

end LambdaEthereumConsensus.ForkChoice
