import LambdaEthereumConsensus.StateTransition.Attestations
import LambdaEthereumConsensus.Utils.BitField

/-
  LambdaEthereumConsensus.StateTransition.EpochProcessing — `process_justification_and_finalization/1`
  and `weigh_justification_and_finalization/4` (`state_transition/epoch_processing.ex`), with
  `Accessors.get_block_root/2` and the bit vector of `utils/bit_vector.ex`; and the
  specification's `process_justification_and_finalization` (`docs/specs/phase0/beacon-chain.md`,
  unchanged since).

  The justification bits are the code's bitstring, highest index first; the specification reads
  them by index, so its model reverses them (`BitVector.map_set?_range`).

  The four finalization rules pass the ranges `1..3`, `1..2`, `0..2` and `0..1` to
  `BitVector.all?/2`, which leaves the upper end out (`BitVector.all?_eq_true_iff`), where the
  specification reads `bits[1:4]`, `bits[1:3]`, `bits[0:3]` and `bits[0:2]`. Each rule tests one
  bit fewer: on a state from a checkpoint sync whose bits say that the 2nd and 3rd most recent
  epochs were justified but not the 4th, with the previous justified checkpoint three epochs
  back, the code finalizes it and the specification does not
  (`processJustificationAndFinalization_finalizes_without_bit`).
-/

namespace LambdaEthereumConsensus.StateTransition

open LambdaEthereumConsensus.Utils

namespace Constants

/-- `Constants.genesis_epoch/0`. -/
def genesisEpoch : Nat := 0

/-- `Constants.timely_target_flag_index/0`. -/
def timelyTargetFlagIndex : Nat := 1

/-- `JUSTIFICATION_BITS_LENGTH`. -/
def justificationBitsLength : Nat := 4

end Constants

/-! ## Presets and state -/

/-- The presets epoch processing reads beyond the chain's, with a history of roots that is not
    empty. -/
structure EpochSpec extends ChainSpec where
  slotsPerHistoricalRoot : Nat
  slotsPerHistoricalRoot_pos : 0 < slotsPerHistoricalRoot

/-- `config/presets/minimal`. -/
def EpochSpec.minimal : EpochSpec :=
  { ChainSpec.minimal with
    slotsPerHistoricalRoot := 64
    slotsPerHistoricalRoot_pos := by decide }

/-- The beacon state with the fields of justification: the justification bits as the code's
    bitstring, the previous justified checkpoint, and the block roots, a vector of
    `SLOTS_PER_HISTORICAL_ROOT` roots. -/
structure EpochState (spec : EpochSpec) extends BeaconState where
  justificationBits : List Bool
  previousJustifiedCheckpoint : Checkpoint
  blockRoots : Vector Root spec.slotsPerHistoricalRoot

variable (spec : EpochSpec)

/-- `Accessors.get_previous_epoch/1`. -/
def BeaconState.previousEpoch (state : BeaconState) : Nat :=
  if state.currentEpoch spec.toChainSpec = Constants.genesisEpoch then Constants.genesisEpoch
  else state.currentEpoch spec.toChainSpec - 1

/-- `Accessors.get_block_root_at_slot/2`: a root of the last `SLOTS_PER_HISTORICAL_ROOT` slots
    before the state's. -/
def getBlockRootAtSlot (state : EpochState spec) (slot : Nat) : Except String Root :=
  if slot < state.slot ∧ state.slot ≤ slot + spec.slotsPerHistoricalRoot then
    .ok (state.blockRoots.get ⟨slot % spec.slotsPerHistoricalRoot, Nat.mod_lt _ spec.slotsPerHistoricalRoot_pos⟩)
  else .error "Block root not available"

/-- `Accessors.get_block_root/2`: the root at the start of the epoch. -/
def getBlockRoot (state : EpochState spec) (epoch : Nat) : Except String Root :=
  getBlockRootAtSlot spec state (computeStartSlotAtEpoch spec.toChainSpec epoch)

/-! ## The code -/

/-- `get_total_participating_balance/3`: the effective balances of the validators, active and not
    slashed in `epoch`, whose participation has the flag; `Aja.Vector.zip_with/3` stops at the
    shorter of the validators and the participation. `Predicates.has_flag/2` is the
    specification's `has_flag`. -/
def getTotalParticipatingBalance (state : BeaconState) (flagIndex epoch : Nat) : Nat :=
  let epochParticipation :=
    if epoch = state.currentEpoch spec.toChainSpec then state.currentEpochParticipation
    else state.previousEpochParticipation
  (((state.validators.zip epochParticipation).filter fun (validator, participation) =>
      !validator.slashed && validator.active? epoch && Spec.hasFlag participation flagIndex).map
    (·.1.effectiveBalance)).sum

/-- `update_first_bit/1`. -/
def updateFirstBit (state : EpochState spec) : Option (EpochState spec) := do
  let justificationBits ← BitVector.shiftHigher state.justificationBits 1
  pure { state with previousJustifiedCheckpoint := state.currentJustifiedCheckpoint, justificationBits }

/-- `update_epoch_justified/4`: a justified epoch's checkpoint becomes the current justified one
    and its bit is set; a missing root is the error of the `with`. -/
def updateEpochJustified (state : EpochState spec) (justified : Bool) (epoch index : Nat) :
    Option (Except String (EpochState spec)) :=
  if justified then
    match getBlockRoot spec state epoch with
    | .error e => some (.error e)
    | .ok blockRoot => do
      let justificationBits ← BitVector.set state.justificationBits index
      pure (.ok { state with currentJustifiedCheckpoint := ⟨epoch, blockRoot⟩, justificationBits })
  else some (.ok state)

/-- `update_checkpoint_finalization/5`: the old justified checkpoint is finalized when the bits
    of `first..last` are set and it is `offset` epochs back. -/
def updateCheckpointFinalization (state : EpochState spec) (oldJustifiedCheckpoint : Checkpoint)
    (currentEpoch first last offset : Nat) : EpochState spec :=
  if BitVector.all? state.justificationBits first last && oldJustifiedCheckpoint.epoch + offset == currentEpoch then
    { state with finalizedCheckpoint := oldJustifiedCheckpoint }
  else state

/-- `weigh_justification_and_finalization/4`. -/
def weighJustificationAndFinalization (state : EpochState spec)
    (totalActiveBalance previousTargetBalance currentTargetBalance : Nat) :
    Option (Except String (EpochState spec)) := do
  let previousEpoch := state.previousEpoch spec
  let currentEpoch := state.currentEpoch spec.toChainSpec
  let oldPreviousJustified := state.previousJustifiedCheckpoint
  let oldCurrentJustified := state.currentJustifiedCheckpoint
  let previousIsJustified := decide (previousTargetBalance * 3 ≥ totalActiveBalance * 2)
  let currentIsJustified := decide (currentTargetBalance * 3 ≥ totalActiveBalance * 2)
  let newState ← updateFirstBit spec state
  match ← updateEpochJustified spec newState previousIsJustified previousEpoch 1 with
  | .error e => pure (.error e)
  | .ok newState =>
    match ← updateEpochJustified spec newState currentIsJustified currentEpoch 0 with
    | .error e => pure (.error e)
    | .ok newState =>
      let newState := updateCheckpointFinalization spec newState oldPreviousJustified currentEpoch 1 3 3
      let newState := updateCheckpointFinalization spec newState oldPreviousJustified currentEpoch 1 2 2
      let newState := updateCheckpointFinalization spec newState oldCurrentJustified currentEpoch 0 2 2
      let newState := updateCheckpointFinalization spec newState oldCurrentJustified currentEpoch 0 1 1
      pure (.ok newState)

/-- `process_justification_and_finalization/1`: nothing in the first two epochs. -/
def processJustificationAndFinalization (state : EpochState spec) : Option (Except String (EpochState spec)) :=
  let previousEpoch := state.previousEpoch spec
  let currentEpoch := state.currentEpoch spec.toChainSpec
  if currentEpoch ≤ Constants.genesisEpoch + 1 then some (.ok state)
  else
    let previousTargetBalance :=
      getTotalParticipatingBalance spec state.toBeaconState Constants.timelyTargetFlagIndex previousEpoch
    let currentTargetBalance :=
      getTotalParticipatingBalance spec state.toBeaconState Constants.timelyTargetFlagIndex currentEpoch
    let totalActiveBalance := getTotalActiveBalance spec.toChainSpec state.toBeaconState
    weighJustificationAndFinalization spec state totalActiveBalance previousTargetBalance currentTargetBalance

/-! ## The specification -/

namespace Spec

/-- The specification's `get_unslashed_participating_indices`: the active validators whose
    participation in `epoch` has the flag and that are not slashed; it asserts that the epoch
    is the current or the previous one, and reading past a list's end fails. -/
def getUnslashedParticipatingIndices (state : BeaconState) (flagIndex epoch : Nat) : Option (List Nat) := do
  if epoch ≠ state.previousEpoch spec ∧ epoch ≠ state.currentEpoch spec.toChainSpec then none
  let epochParticipation :=
    if epoch = state.currentEpoch spec.toChainSpec then state.currentEpochParticipation
    else state.previousEpochParticipation
  let participating ← (getActiveValidatorIndices state epoch).filterM fun index => do
    pure (hasFlag (← epochParticipation[index]?) flagIndex)
  participating.filterM fun index => do pure !(← state.validators[index]?).slashed

/-- The specification's `get_total_balance`: at least one increment. -/
def getTotalBalance (state : BeaconState) (indices : List Nat) : Option Nat := do
  let balances ← indices.mapM fun index => (·.effectiveBalance) <$> state.validators[index]?
  pure (max spec.effectiveBalanceIncrement balances.sum)

/-- The specification's `weigh_justification_and_finalization`, on the bits by index:
    `bits[1:] = bits[:3]` and `bits[0] = 0`, then the justified epochs' bits, then the four
    rules on `bits[1:4]`, `bits[1:3]`, `bits[0:3]` and `bits[0:2]`. `get_block_root` asserts. -/
def weighJustificationAndFinalization (state : EpochState spec)
    (totalActiveBalance previousEpochTargetBalance currentEpochTargetBalance : Nat) :
    Option (EpochState spec) := do
  let previousEpoch := state.previousEpoch spec
  let currentEpoch := state.currentEpoch spec.toChainSpec
  let oldPreviousJustifiedCheckpoint := state.previousJustifiedCheckpoint
  let oldCurrentJustifiedCheckpoint := state.currentJustifiedCheckpoint
  let bits := false :: state.justificationBits.reverse.take (Constants.justificationBitsLength - 1)
  let state := { state with previousJustifiedCheckpoint := state.currentJustifiedCheckpoint }
  let (state, bits) ←
    if previousEpochTargetBalance * 3 ≥ totalActiveBalance * 2 then do
      let root ← (getBlockRoot spec state previousEpoch).toOption
      pure ({ state with currentJustifiedCheckpoint := ⟨previousEpoch, root⟩ }, bits.set 1 true)
    else pure (state, bits)
  let (state, bits) ←
    if currentEpochTargetBalance * 3 ≥ totalActiveBalance * 2 then do
      let root ← (getBlockRoot spec state currentEpoch).toOption
      pure ({ state with currentJustifiedCheckpoint := ⟨currentEpoch, root⟩ }, bits.set 0 true)
    else pure (state, bits)
  let all (first last : Nat) : Bool := ((bits.drop first).take (last - first)).all id
  let state := if all 1 4 && oldPreviousJustifiedCheckpoint.epoch + 3 == currentEpoch then
    { state with finalizedCheckpoint := oldPreviousJustifiedCheckpoint } else state
  let state := if all 1 3 && oldPreviousJustifiedCheckpoint.epoch + 2 == currentEpoch then
    { state with finalizedCheckpoint := oldPreviousJustifiedCheckpoint } else state
  let state := if all 0 3 && oldCurrentJustifiedCheckpoint.epoch + 2 == currentEpoch then
    { state with finalizedCheckpoint := oldCurrentJustifiedCheckpoint } else state
  let state := if all 0 2 && oldCurrentJustifiedCheckpoint.epoch + 1 == currentEpoch then
    { state with finalizedCheckpoint := oldCurrentJustifiedCheckpoint } else state
  pure { state with justificationBits := bits.reverse }

/-- The specification's `process_justification_and_finalization`. -/
def processJustificationAndFinalization (state : EpochState spec) : Option (EpochState spec) :=
  if state.currentEpoch spec.toChainSpec ≤ Constants.genesisEpoch + 1 then some state
  else do
    let previousIndices ← getUnslashedParticipatingIndices spec state.toBeaconState Constants.timelyTargetFlagIndex
      (state.previousEpoch spec)
    let currentIndices ← getUnslashedParticipatingIndices spec state.toBeaconState Constants.timelyTargetFlagIndex
      (state.currentEpoch spec.toChainSpec)
    let totalActiveBalance := getTotalActiveBalance spec.toChainSpec state.toBeaconState
    let previousTargetBalance ← getTotalBalance spec state.toBeaconState previousIndices
    let currentTargetBalance ← getTotalBalance spec state.toBeaconState currentIndices
    weighJustificationAndFinalization spec state totalActiveBalance previousTargetBalance currentTargetBalance

end Spec

/-! ## The missing bit -/

/-- A state from a checkpoint sync at the last slot of epoch 5 of the minimal preset: one active
    validator, no participation, and bits saying that epochs 4 and 3 were justified (indices 0 and 1
    before the shift) but not epoch 2, whose checkpoint is nonetheless the previous justified one. -/
def checkpointSyncState : EpochState EpochSpec.minimal where
  slot := 47
  validators := [⟨[0], [1], 32000000000, false, 0, farFutureEpoch, farFutureEpoch⟩]
  balances := [32000000000]
  previousEpochParticipation := [0]
  currentEpochParticipation := [0]
  nextWithdrawalIndex := 0
  nextWithdrawalValidatorIndex := 0
  pendingPartialWithdrawals := []
  currentJustifiedCheckpoint := ⟨4, 0⟩
  finalizedCheckpoint := ⟨0, 0⟩
  justificationBits := [false, false, true, true]
  previousJustifiedCheckpoint := ⟨2, 0⟩
  blockRoots := Vector.replicate 64 0

/-- The code finalizes the previous justified checkpoint of `checkpointSyncState` on bits 1 and 2
    alone; the specification also reads bit 3, which is clear, and finalizes nothing. -/
theorem processJustificationAndFinalization_finalizes_without_bit :
    (∃ state', processJustificationAndFinalization EpochSpec.minimal checkpointSyncState = some (.ok state') ∧
      state'.finalizedCheckpoint = ⟨2, 0⟩) ∧
    ∃ state', Spec.processJustificationAndFinalization EpochSpec.minimal checkpointSyncState = some state' ∧
      state'.finalizedCheckpoint = ⟨0, 0⟩ :=
  ⟨⟨_, rfl, rfl⟩, ⟨_, rfl, rfl⟩⟩

end LambdaEthereumConsensus.StateTransition
