import LambdaEthereumConsensus.Binary.Encoding
import LambdaEthereumConsensus.ForkChoice.Tree

/-
  LambdaEthereumConsensus.ForkChoice.Store — the fork-choice store `%Types.Store{}` and the
  functions of `Types.Store` (`types/store.ex`) and `ForkChoice` (`fork_choice/fork_choice.ex`)
  that the handlers read it with.

  What the store reads from the rest of the node is an `Env`: the block database
  (`Store.Blocks`), the state database (`Store.BlockStates`), blob availability, the state
  transition, the execution client and the system clock. The block database holds each
  block's parent at a smaller slot (`BlockDb.parent_slot_lt`), which the state transition
  enforces; so `get_ancestor/3`, which walks up the parents, ends (`getAncestor`).

  Times are Elixir integers: `get_current_slot/1` divides `time - genesis_time`, negative
  before genesis, with `div/2`, which truncates toward zero (`Int.tdiv`).
-/

namespace LambdaEthereumConsensus.ForkChoice

open LambdaEthereumConsensus.StateTransition

/-! ## Blocks, states and attestations -/

/-- `%Types.BeaconBlock{}`, the fields the fork choice reads. -/
structure BeaconBlock where
  slot : Nat
  parentRoot : Root
  deriving DecidableEq, Repr

/-- `%Types.BlockInfo{}`: `root` and `signed_block.message`. -/
structure BlockInfo where
  root : Root
  block : BeaconBlock
  deriving DecidableEq, Repr

/-- `%Types.StateInfo{}`. -/
structure StateInfo where
  beaconState : BeaconState
  blockRoot : Root
  deriving DecidableEq, Repr

/-- `%Types.AttestationData{}`. -/
structure AttestationData where
  slot : Nat
  index : Nat
  beaconBlockRoot : Root
  source : Checkpoint
  target : Checkpoint
  deriving DecidableEq, Repr

/-- `%Types.Attestation{}`: its aggregation and committee bits are read by
    `Accessors.get_attesting_indices/2` only (`Env.getAttestingIndices`). -/
structure Attestation where
  aggregationBits : List Bool
  data : AttestationData
  signature : List UInt8
  committeeBits : List Bool
  deriving DecidableEq, Repr

/-- `%Types.IndexedAttestation{}`. -/
structure IndexedAttestation where
  attestingIndices : List Nat
  data : AttestationData
  signature : List UInt8
  deriving DecidableEq, Repr

/-- `%Types.AttesterSlashing{}`. -/
structure AttesterSlashing where
  attestation1 : IndexedAttestation
  attestation2 : IndexedAttestation
  deriving DecidableEq, Repr

/-- `Predicates.slashable_attestation_data?/2`: a double vote or a surround vote. -/
def slashableAttestationData? (data1 data2 : AttestationData) : Bool :=
  (data1 != data2 && data1.target.epoch == data2.target.epoch) ||
    (data1.source.epoch < data2.source.epoch && data2.target.epoch < data1.target.epoch)

/-- The block database, `Store.Blocks`. A block's parent, where stored, is at a smaller slot. -/
structure BlockDb where
  blocks : AList fun _ : Root => BeaconBlock
  parent_slot_lt : ∀ {root : Root} {block parent : BeaconBlock}, blocks.lookup root = some block →
    blocks.lookup block.parentRoot = some parent → parent.slot < block.slot

/-- `Blocks.get_block/1`. -/
def BlockDb.getBlock (db : BlockDb) (root : Root) : Option BeaconBlock := db.blocks.lookup root

/-- The slot of a stored block, `0` for a root not stored: what `get_ancestor/3` descends on. -/
def BlockDb.slotOf (db : BlockDb) (root : Root) : Nat := ((db.getBlock root).map (·.slot)).getD 0

/-- A walk up from a block above `slot` goes to a root of a smaller slot. -/
theorem BlockDb.slotOf_parent_lt {db : BlockDb} {root : Root} {block : BeaconBlock} {slot : Nat}
    (hblock : db.getBlock root = some block) (habove : slot < block.slot) :
    db.slotOf block.parentRoot < db.slotOf root := by
  unfold BlockDb.slotOf
  rw [hblock]
  cases hparent : db.getBlock block.parentRoot with
  | none => simp only [Option.map_none, Option.getD_none, Option.map_some, Option.getD_some]; omega
  | some parent => simpa using db.parent_slot_lt hblock hparent

theorem BlockDb.mem_keys_of_getBlock {db : BlockDb} {root : Root} {block : BeaconBlock}
    (hblock : db.getBlock root = some block) : root ∈ db.blocks.keys :=
  AList.mem_keys.mpr (AList.lookup_isSome.mp (by rw [show db.blocks.lookup root = some block from hblock]; rfl))

/-- A stored block's stored parent is at a smaller slot. -/
theorem BlockDb.slotOf_parent_lt_of_stored {db : BlockDb} {root : Root} {block parent : BeaconBlock}
    (hblock : db.getBlock root = some block) (hparent : db.getBlock block.parentRoot = some parent) :
    db.slotOf block.parentRoot < db.slotOf root := by
  simpa [BlockDb.slotOf, hblock, hparent] using db.parent_slot_lt hblock hparent

/-- The roots among `roots` of a stored block above `slot`: a walk from a block to its children
    goes down in their number. -/
def BlockDb.above (db : BlockDb) (roots : Finset Root) (slot : Nat) : Finset Root :=
  roots.filter fun root => slot < db.slotOf root

/-- Going to one of the roots, of a higher slot, leaves fewer roots above. -/
theorem BlockDb.card_above_lt {db : BlockDb} {roots : Finset Root} {slot : Nat} {root : Root}
    (hroot : root ∈ roots) (hslot : slot < db.slotOf root) :
    (db.above roots (db.slotOf root)).card < (db.above roots slot).card := by
  refine Finset.card_lt_card ((Finset.ssubset_iff_of_subset fun r hr => ?_).mpr ⟨root, ?_, ?_⟩)
  · simp only [BlockDb.above, Finset.mem_filter] at hr ⊢
    exact ⟨hr.1, hslot.trans hr.2⟩
  · simp [BlockDb.above, hroot, hslot]
  · simp [BlockDb.above]

/-- `Store.get_ancestor/3`; `Blocks.get_block!/1` raises on a root not stored. -/
def getAncestor (db : BlockDb) (root : Root) (slot : Nat) : Option Root :=
  match hblock : db.getBlock root with
  | none => none
  | some block =>
    if habove : block.slot > slot then getAncestor db block.parentRoot slot else some root
termination_by db.slotOf root
decreasing_by exact BlockDb.slotOf_parent_lt hblock habove

/-- `get_ancestor/3` on a stored block: the parent's ancestor above the slot, the block itself at
    or below it. -/
theorem getAncestor_of_getBlock {db : BlockDb} {root : Root} {block : BeaconBlock} {slot : Nat}
    (hblock : db.getBlock root = some block) :
    getAncestor db root slot = if slot < block.slot then getAncestor db block.parentRoot slot else some root := by
  rw [getAncestor]
  split
  · simp_all
  · rename_i block' hblock'
    rw [hblock, Option.some.injEq] at hblock'
    subst hblock'
    rfl

/-- A stored block at or below the slot is its own ancestor. -/
theorem getAncestor_of_le {db : BlockDb} {root : Root} {block : BeaconBlock} {slot : Nat}
    (hblock : db.getBlock root = some block) (hle : block.slot ≤ slot) : getAncestor db root slot = some root := by
  rw [getAncestor_of_getBlock hblock, if_neg (Nat.not_lt.mpr hle)]

/-- Above the slot, the ancestor is the parent's. -/
theorem getAncestor_of_lt {db : BlockDb} {root : Root} {block : BeaconBlock} {slot : Nat}
    (hblock : db.getBlock root = some block) (habove : slot < block.slot) :
    getAncestor db root slot = getAncestor db block.parentRoot slot := by
  rw [getAncestor_of_getBlock hblock, if_pos habove]

/-- `Misc.compute_start_slot_at_epoch/1`. -/
def computeStartSlotAtEpoch (spec : ChainSpec) (epoch : Nat) : Nat := epoch * spec.slotsPerEpoch

/-- `Store.get_checkpoint_block/3`. -/
def getCheckpointBlock (spec : ChainSpec) (db : BlockDb) (root : Root) (epoch : Nat) : Option Root :=
  getAncestor db root (computeStartSlotAtEpoch spec epoch)

/-! ## The store -/

/-- `%Types.Store{}`; `head_root` and `head_slot` are set by `update_head_info/1`, outside the
    handlers. -/
structure Store where
  time : Int
  genesisTime : Int
  justifiedCheckpoint : Checkpoint
  finalizedCheckpoint : Checkpoint
  unrealizedJustifiedCheckpoint : Checkpoint
  unrealizedFinalizedCheckpoint : Checkpoint
  proposerBoostRoot : Root
  equivocatingIndices : Finset Nat
  latestMessages : Nat → Option Checkpoint
  unrealizedJustifications : Root → Option Checkpoint
  treeCache : Tree
  states : Root → Option StateInfo
  checkpointStates : Checkpoint → Option BeaconState

/-- `{:ok, :valid}`, `{:ok, :optimistic}` and `{:ok, :invalid}` of the execution client. -/
inductive PayloadStatus where
  | valid
  | optimistic
  | invalid
  deriving DecidableEq, Repr

/-- What the store reads from the rest of the node. -/
structure Env where
  spec : ChainSpec
  db : BlockDb
  /-- `BlockStates.get_state_info/1`. -/
  getStateInfo : Root → Option StateInfo
  /-- `ForkChoice.future_slot?/2`, on the system clock. -/
  futureSlot? : Store → Int → Bool
  /-- `Handlers.data_available?/2` on a block's root and its blob commitments. -/
  dataAvailable? : BlockInfo → Bool
  /-- `StateTransition.verified_transition/2`. -/
  verifiedTransition : StateInfo → BlockInfo → Except String StateInfo
  /-- `ExecutionClient.verify_and_notify_new_payload/1` on the block's payload. -/
  verifyAndNotifyNewPayload : BlockInfo → Except String PayloadStatus
  /-- `EpochProcessing.process_justification_and_finalization/1`. -/
  processJustificationAndFinalization : BeaconState → Except String BeaconState
  /-- `StateTransition.process_slots/2`. -/
  processSlots : BeaconState → Nat → Except String BeaconState
  /-- `Accessors.get_attesting_indices/2`. -/
  getAttestingIndices : BeaconState → Attestation → Except String (List Nat)
  /-- `Predicates.valid_indexed_attestation?/2`, signature included. -/
  validIndexedAttestation? : BeaconState → IndexedAttestation → Bool

namespace Store

variable (env : Env)

/-- `ForkChoice.get_current_slot/1`. -/
def getCurrentSlot (store : Store) : Int := Int.tdiv (store.time - store.genesisTime) env.spec.secondsPerSlot

/-- `Store.get_current_epoch/1`: `Misc.compute_epoch_at_slot/1` of the current slot. -/
def getCurrentEpoch (store : Store) : Int := Int.tdiv (getCurrentSlot env store) env.spec.slotsPerEpoch

/-- `Store.get_state/2`: the store's states, then the database. -/
def getState (store : Store) (root : Root) : Option StateInfo :=
  match store.states root with
  | some stateInfo => some stateInfo
  | none => env.getStateInfo root

/-- `Store.store_state/3`. -/
def storeState (store : Store) (blockRoot : Root) (state : StateInfo) : Store :=
  { store with states := Function.update store.states blockRoot (some state) }

/-- `compute_checkpoint_state/2`; `{:ok, new_state} = process_slots(...)` raises on an error. -/
def computeCheckpointState (store : Store) (checkpoint : Checkpoint) : Option (Store × Option BeaconState) :=
  let targetSlot := computeStartSlotAtEpoch env.spec checkpoint.epoch
  match getState env store checkpoint.root with
  | none => some (store, none)
  | some stateInfo =>
    if stateInfo.beaconState.slot < targetSlot then
      match env.processSlots stateInfo.beaconState targetSlot with
      | .error _ => none
      | .ok newState =>
        some ({ store with checkpointStates := Function.update store.checkpointStates checkpoint (some newState) },
          some newState)
    else some (store, some stateInfo.beaconState)

/-- `Store.get_checkpoint_state/2`: the cached state, else a computed one, cached. -/
def getCheckpointState (store : Store) (checkpoint : Checkpoint) : Option (Store × Option BeaconState) :=
  match store.checkpointStates checkpoint with
  | none => computeCheckpointState env store checkpoint
  | some state => some (store, some state)

/-- A checkpoint whose state is not cached, and whose block's state is in the store at or past the
    start of its epoch: `get_checkpoint_state/2` gives that state and leaves the store as it is. -/
theorem getCheckpointState_of_stored {store : Store} {checkpoint : Checkpoint} {stateInfo : StateInfo}
    (hcached : store.checkpointStates checkpoint = none) (hstored : store.states checkpoint.root = some stateInfo)
    (hslot : computeStartSlotAtEpoch env.spec checkpoint.epoch ≤ stateInfo.beaconState.slot) :
    getCheckpointState env store checkpoint = some (store, some stateInfo.beaconState) := by
  simp [getCheckpointState, computeCheckpointState, getState, hcached, hstored, Nat.not_lt.mpr hslot]

/-- `Store.get_children/2`: `Tree.get_children!/2`, each child with its block
    (`Blocks.get_block!/1`). -/
def getChildren (store : Store) (parentRoot : Root) : Option (List (Root × BeaconBlock)) := do
  let childrenIds ← store.treeCache.getChildren! parentRoot
  childrenIds.mapM fun root => do
    let block ← env.db.getBlock root
    pure (root, block)

/-- `update_tree/3`: re-root at the finalized block (`update_root!/2` raises if it is not in
    the tree), then add the block; a block whose parent is not in the tree leaves the store as
    it was. -/
def updateTree (store : Store) (blockRoot parentRoot : Root) : Option Store := do
  let tree ← store.treeCache.updateRoot! store.finalizedCheckpoint.root
  match tree.addBlock blockRoot parentRoot with
  | some newTree => pure { store with treeCache := newTree }
  | none => pure store

/-- `Store.store_block_info/2`; the block's write to `Store.Blocks` is the database's. -/
def storeBlockInfo (store : Store) (blockInfo : BlockInfo) : Option Store :=
  updateTree store blockInfo.root blockInfo.block.parentRoot

/-- `store_block_info/2` writes the tree only. -/
theorem storeBlockInfo_frame {store store' : Store} {blockInfo : BlockInfo}
    (h : storeBlockInfo store blockInfo = some store') : store' = { store with treeCache := store'.treeCache } := by
  unfold storeBlockInfo updateTree at h
  obtain ⟨tree, -, h⟩ := Option.bind_eq_some_iff.mp h
  split at h <;> cases h <;> rfl

end Store

end LambdaEthereumConsensus.ForkChoice
