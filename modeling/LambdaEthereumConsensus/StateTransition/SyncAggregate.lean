import LambdaEthereumConsensus.Bls
import LambdaEthereumConsensus.Fallible.List
import LambdaEthereumConsensus.Utils.BitField
import LambdaEthereumConsensus.StateTransition.Attestations

/-
  LambdaEthereumConsensus.StateTransition.SyncAggregate — `process_sync_aggregate/2`
  (`state_transition/operations.ex`) and the specification's `process_sync_aggregate`
  (`docs/specs/beacon-chain.md`).

  The block root of the previous slot (`Accessors.get_block_root_at_slot/2`), its signing root
  under the sync committee domain of its epoch (`Accessors.get_domain/3`,
  `Misc.compute_signing_root/2`), `Accessors.get_beacon_proposer_index/1` and
  `Bls.eth_fast_aggregate_verify/3` are parameters. The specification reads the proposer index
  inside its loop; the loop writes balances only, which `get_beacon_proposer_index` does not
  read, so it is read once here.

  The code maps keys to committee positions and sorts the `{position, validator}` pairs back
  into committee order (`get_sync_committee_indices/2`). When the validators' keys are distinct
  and every committee key is a validator's, that is the specification's list of
  `all_pubkeys.index(pubkey)` (`getSyncCommitteeIndices_eq`). The code then applies each
  position's delta, clamped at zero, and pays the proposer for all the set bits at the end; the
  specification pays the proposer at each set bit, before the later positions' decreases are
  clamped. Every other balance sees the same updates in the same order, so the two agree when
  the proposer holds no position with a clear bit (`processSyncAggregate_eq_spec`). When it holds
  one after a set bit and its balance is below the participant reward, the code pays the
  proposer what the specification's clamp takes back (`processSyncAggregate_pays_clamped_proposer`).
-/

namespace LambdaEthereumConsensus.StateTransition

open LambdaEthereumConsensus.Bls LambdaEthereumConsensus.Utils

/-- `Constants.sync_reward_weight/0`. -/
def syncRewardWeight : Nat := 2

/-- `%Types.SyncCommittee{}`; its `aggregate_pubkey` is not read. -/
structure SyncCommittee where
  pubkeys : List (List UInt8)
  deriving DecidableEq, Repr

/-- `%Types.SyncAggregate{}`, its bits as the bitstring `BitVector` keeps. -/
structure SyncAggregate where
  syncCommitteeBits : List Bool
  syncCommitteeSignature : List UInt8
  deriving DecidableEq, Repr

/-- The beacon state with the `current_sync_committee` that `process_sync_aggregate/2` reads. -/
structure SyncCommitteeState extends BeaconState where
  currentSyncCommittee : SyncCommittee
  deriving DecidableEq, Repr

/-! ## The code -/

section Code

variable (spec : ChainSpec) (syncCommitteeSize : Nat)

/-- `compute_sync_aggregate_rewards/1`: the reward of a participant, and the proposer's reward
    for one participant. -/
def computeSyncAggregateRewards (state : BeaconState) : Nat × Nat :=
  let totalActiveBalance := getTotalActiveBalance spec state
  let effectiveBalanceIncrement := spec.effectiveBalanceIncrement
  let totalActiveIncrements := totalActiveBalance / effectiveBalanceIncrement
  let numerator := effectiveBalanceIncrement * spec.baseRewardFactor
  let denominator := integerSquareroot totalActiveBalance
  let baseRewardPerIncrement := numerator / denominator
  let totalBaseRewards := baseRewardPerIncrement * totalActiveIncrements
  let maxParticipantRewards := totalBaseRewards * syncRewardWeight / weightDenominator / spec.slotsPerEpoch
  let participantReward := maxParticipantRewards / syncCommitteeSize
  let proposerReward := participantReward * proposerWeight / (weightDenominator - proposerWeight)
  (participantReward, proposerReward)

/-- `Map.update(map, pk, [i], &[i | &1])` on the map from keys to committee positions: the
    position goes in front of the key's list, or starts it. -/
def updatePositions (map : List UInt8 → Option (List Nat)) (entry : List UInt8 × Nat) : List UInt8 → Option (List Nat) :=
  fun key => if key = entry.1 then some (entry.2 :: (map key).getD []) else map key

/-- The map `get_sync_committee_indices/2` builds: each key's committee positions, the latest
    first; `nil` off the committee. -/
def committeePositions (committeePubkeys : List (List UInt8)) : List UInt8 → Option (List Nat) :=
  committeePubkeys.zipIdx.foldl updatePositions fun _ => none

/-- The `{position, validator}` pairs of `get_sync_committee_indices/2` before the sort: the
    validators in order, those whose key has positions, each with its positions. -/
def committeePairs (validators : List Validator) (committeePubkeys : List (List UInt8)) : List (Nat × Nat) :=
  (validators.zipIdx.filterMap fun (validator, i) => (committeePositions committeePubkeys validator.pubkey).map (·, i)).flatMap
    fun (positions, i) => positions.map (·, i)

/-- `get_sync_committee_indices/2`: the pairs sorted by position (`Enum.sort/2` with `<=` is
    stable), then their validators. -/
def getSyncCommitteeIndices (validators : List Validator) (committeePubkeys : List (List UInt8)) : List Nat :=
  ((committeePairs validators committeePubkeys).mergeSort fun a b => a.1 ≤ b.1).map (·.2)

/-- The deltas of `process_sync_aggregate/2`: each committee position's validator gains the
    participant reward for a set bit and loses it for a clear one. -/
def syncCommitteeDeltas (bits : List Bool) (participantReward : Nat) (indices : List Nat) : List (Nat × Int) :=
  indices.zipIdx.map fun (validatorIndex, committeeIndex) =>
    if BitVector.set? bits committeeIndex then (validatorIndex, participantReward)
    else (validatorIndex, -participantReward)

/-- The reduction of `process_sync_aggregate/2`: `Aja.Vector.update_at!/3` with
    `max(b + delta, 0)`, one delta after another. -/
def applySyncCommitteeDeltas (balances : List Nat) (deltas : List (Nat × Int)) : Option (List Nat) :=
  deltas.foldlM (fun balances (validatorIndex, delta) => updateAt! balances validatorIndex fun b => (b + delta).toNat)
    balances

variable (getBlockRootAtSlot : BeaconState → Nat → Except String Root)
  (syncSigningRoot : BeaconState → Nat → Root → List UInt8)
  (ethFastAggregateVerify : List (List UInt8) → List UInt8 → List UInt8 → Except String Bool)
  (getBeaconProposerIndex : BeaconState → Except String Nat)

/-- `process_sync_aggregate/2`: an `{:error, _}` of the block root, the signature or the proposer
    index is returned; `Aja.Vector.update_at!/3` raises past the end of the balances. -/
def processSyncAggregate (state : SyncCommitteeState) (aggregate : SyncAggregate) :
    Option (Except String SyncCommitteeState) :=
  let committeePubkeys := state.currentSyncCommittee.pubkeys
  let participantPubkeys :=
    (committeePubkeys.zipIdx.filter fun (_, index) => BitVector.set? aggregate.syncCommitteeBits index).map (·.1)
  let previousSlot := max state.slot 1 - 1
  let epoch := computeEpochAtSlot spec previousSlot
  match getBlockRootAtSlot state.toBeaconState previousSlot with
  | .error e => some (.error e)
  | .ok blockRoot =>
    match verifySignature ethFastAggregateVerify participantPubkeys (syncSigningRoot state.toBeaconState epoch blockRoot)
        aggregate.syncCommitteeSignature with
    | .error e => some (.error e)
    | .ok () =>
      match getBeaconProposerIndex state.toBeaconState with
      | .error e => some (.error e)
      | .ok proposerIndex => do
        let (participantReward, proposerReward) := computeSyncAggregateRewards spec syncCommitteeSize state.toBeaconState
        let totalProposerReward := BitVector.count aggregate.syncCommitteeBits * proposerReward
        let balances ← applySyncCommitteeDeltas state.balances
          (syncCommitteeDeltas aggregate.syncCommitteeBits participantReward
            (getSyncCommitteeIndices state.validators committeePubkeys))
        -- `BeaconState.increase_balance/3`
        let balances ← updateAt! balances proposerIndex (· + totalProposerReward)
        pure (.ok { state with balances })

end Code

/-! ## The specification -/

namespace Spec

section Sync

variable (spec : ChainSpec) (syncCommitteeSize : Nat)

/-- `all_pubkeys.index(pubkey)`: the first validator with the key; `index` raises without one. -/
def pubkeyIndex (validators : List Validator) (pubkey : List UInt8) : Option Nat :=
  validators.findIdx? (·.pubkey = pubkey)

/-- `sync_aggregate.sync_committee_bits`, index by index. -/
def syncCommitteeBits (aggregate : SyncAggregate) : List Bool :=
  (List.range aggregate.syncCommitteeBits.length).map (BitVector.set? aggregate.syncCommitteeBits)

/-- The participant and proposer rewards of `process_sync_aggregate`. -/
def syncRewards (state : BeaconState) : Nat × Nat :=
  let totalActiveIncrements := getTotalActiveBalance spec state / spec.effectiveBalanceIncrement
  let totalBaseRewards := getBaseRewardPerIncrement spec state * totalActiveIncrements
  let maxParticipantRewards := totalBaseRewards * syncRewardWeight / weightDenominator / spec.slotsPerEpoch
  let participantReward := maxParticipantRewards / syncCommitteeSize
  (participantReward, participantReward * proposerWeight / (weightDenominator - proposerWeight))

/-- The loop of `process_sync_aggregate`: at a set bit the participant, then the proposer, is
    paid; at a clear bit the participant loses the reward, down to zero (`decrease_balance`). -/
def applySyncRewards (participantReward proposerReward : Nat) (proposerIndex : Option Nat) :
    List Nat → List (Nat × Bool) → Option (List Nat)
  | balances, [] => some balances
  | balances, (participantIndex, true) :: rest => do
    let balances ← updateAt! balances participantIndex (· + participantReward)
    let balances ← updateAt! balances (← proposerIndex) (· + proposerReward)
    applySyncRewards participantReward proposerReward proposerIndex balances rest
  | balances, (participantIndex, false) :: rest => do
    let balances ← updateAt! balances participantIndex (· - participantReward)
    applySyncRewards participantReward proposerReward proposerIndex balances rest

variable (getBlockRootAtSlot : BeaconState → Nat → Except String Root)
  (syncSigningRoot : BeaconState → Nat → Root → List UInt8)
  (ethFastAggregateVerify : List (List UInt8) → List UInt8 → List UInt8 → Except String Bool)
  (getBeaconProposerIndex : BeaconState → Except String Nat)

/-- `process_sync_aggregate`; a failed `assert`, a key no validator has or an index past the
    balances makes the block invalid. -/
def processSyncAggregate (state : SyncCommitteeState) (aggregate : SyncAggregate) : Option SyncCommitteeState := do
  let committeePubkeys := state.currentSyncCommittee.pubkeys
  let bits := syncCommitteeBits aggregate
  let participantPubkeys := ((committeePubkeys.zip bits).filter (·.2)).map (·.1)
  let previousSlot := max state.slot 1 - 1
  let blockRoot ← (getBlockRootAtSlot state.toBeaconState previousSlot).toOption
  let signingRoot := syncSigningRoot state.toBeaconState (computeEpochAtSlot spec previousSlot) blockRoot
  match ethFastAggregateVerify participantPubkeys signingRoot aggregate.syncCommitteeSignature with
  | .ok true =>
    let (participantReward, proposerReward) := syncRewards spec syncCommitteeSize state.toBeaconState
    let committeeIndices ← committeePubkeys.mapM (pubkeyIndex state.validators)
    let balances ← applySyncRewards participantReward proposerReward
      (getBeaconProposerIndex state.toBeaconState).toOption state.balances (committeeIndices.zip bits)
    pure { state with balances }
  | _ => none

end Sync

end Spec

/-! ## The committee indices -/

/-- The positions the map gives a key: the entries of that key, the latest first, before what
    the map held. -/
theorem foldl_updatePositions (entries : List (List UInt8 × Nat)) (map : List UInt8 → Option (List Nat))
    (key : List UInt8) :
    ((entries.foldl updatePositions map) key).getD [] =
      ((entries.filter (·.1 = key)).map (·.2)).reverse ++ (map key).getD [] := by
  induction entries generalizing map with
  | nil => rfl
  | cons entry rest ih =>
    rw [List.foldl_cons, ih]
    by_cases hkey : key = entry.1
    · subst hkey
      simp [updatePositions]
    · have hne : ¬entry.1 = key := Ne.symm hkey
      simp [updatePositions, hkey, hne]

theorem committeePositions_getD (committeePubkeys : List (List UInt8)) (key : List UInt8) :
    (committeePositions committeePubkeys key).getD [] =
      ((committeePubkeys.zipIdx.filter (·.1 = key)).map (·.2)).reverse := by
  rw [committeePositions, foldl_updatePositions]
  simp

theorem mem_committeePositions {committeePubkeys : List (List UInt8)} {key : List UInt8} {k : Nat} :
    k ∈ (committeePositions committeePubkeys key).getD [] ↔ committeePubkeys[k]? = some key := by
  rw [committeePositions_getD]
  simp only [List.mem_reverse, List.mem_map, List.mem_filter, decide_eq_true_eq]
  constructor
  · rintro ⟨⟨pk, k⟩, ⟨hmem, rfl⟩, rfl⟩
    exact List.mem_zipIdx_iff_getElem?.mp hmem
  · intro hk
    exact ⟨(key, k), ⟨List.mem_zipIdx_iff_getElem?.mpr hk, rfl⟩, rfl⟩

theorem committeePositions_nodup (committeePubkeys : List (List UInt8)) (key : List UInt8) :
    ((committeePositions committeePubkeys key).getD []).Nodup := by
  rw [committeePositions_getD, List.nodup_reverse]
  exact (List.nodup_zipIdx_map_snd committeePubkeys).sublist ((List.filter_sublist).map _)

/-- A pair is a position of the committee and a validator whose key the position holds. -/
theorem mem_committeePairs {validators : List Validator} {committeePubkeys : List (List UInt8)} {k v : Nat} :
    (k, v) ∈ committeePairs validators committeePubkeys ↔
      ∃ validator, validators[v]? = some validator ∧ committeePubkeys[k]? = some validator.pubkey := by
  simp only [committeePairs, List.mem_flatMap, List.mem_filterMap, Option.map_eq_some_iff, List.mem_map,
    Prod.mk.injEq]
  constructor
  · rintro ⟨_, ⟨⟨validator, j⟩, hmem, positions, hpositions, rfl⟩, k, hk, rfl, rfl⟩
    refine ⟨validator, List.mem_zipIdx_iff_getElem?.mp hmem, mem_committeePositions.mp ?_⟩
    simpa [hpositions] using hk
  · rintro ⟨validator, hv, hk⟩
    have hpos := mem_committeePositions.mpr hk
    obtain ⟨positions, hpositions⟩ : ∃ positions, committeePositions committeePubkeys validator.pubkey = some positions := by
      cases h : committeePositions committeePubkeys validator.pubkey with
      | none => simp [h] at hpos
      | some positions => exact ⟨positions, rfl⟩
    rw [hpositions, Option.getD_some] at hpos
    exact ⟨(positions, v), ⟨(validator, v), List.mem_zipIdx_iff_getElem?.mpr hv, positions, hpositions, rfl⟩,
      k, hpos, rfl, rfl⟩

/-- No pair comes twice: each validator comes once, with distinct positions. -/
theorem committeePairs_nodup (validators : List Validator) (committeePubkeys : List (List UInt8)) :
    (committeePairs validators committeePubkeys).Nodup := by
  rw [committeePairs, List.nodup_flatMap]
  constructor
  · rintro ⟨positions, i⟩ hmem
    simp only [List.mem_filterMap, Option.map_eq_some_iff, Prod.mk.injEq] at hmem
    obtain ⟨⟨validator, j⟩, -, positions', hpositions, rfl, rfl⟩ := hmem
    have hnodup := committeePositions_nodup committeePubkeys validator.pubkey
    rw [hpositions, Option.getD_some] at hnodup
    exact hnodup.map fun _ _ h => (Prod.mk.injEq _ _ _ _ ▸ h).1
  · -- the validators' indices are distinct, so their pairs are disjoint
    have hindices : validators.zipIdx.Pairwise fun a b => a.2 ≠ b.2 :=
      List.pairwise_map.mp (List.nodup_zipIdx_map_snd validators)
    refine hindices.filterMap _ ?_
    rintro ⟨validator, i⟩ ⟨validator', i'⟩ hne ⟨positions, j⟩ hb ⟨positions', j'⟩ hb'
    simp only [Option.map_eq_some_iff, Prod.mk.injEq] at hb hb'
    obtain ⟨_, -, -, rfl⟩ := hb
    obtain ⟨_, -, -, rfl⟩ := hb'
    simp only [Function.onFun, List.disjoint_left, List.mem_map]
    rintro _ ⟨k, -, rfl⟩ ⟨k', -, hkk'⟩
    exact hne (Prod.mk.injEq _ _ _ _ ▸ hkk').2.symm

/-- With distinct keys, the first validator with a key is the only one. -/
theorem pubkeyIndex_eq_some_iff {validators : List Validator} (hkeys : (validators.map (·.pubkey)).Nodup)
    {pubkey : List UInt8} {v : Nat} :
    Spec.pubkeyIndex validators pubkey = some v ↔
      ∃ validator, validators[v]? = some validator ∧ validator.pubkey = pubkey := by
  rw [Spec.pubkeyIndex, List.findIdx?_eq_some_iff_getElem]
  constructor
  · rintro ⟨hv, hkey, -⟩
    exact ⟨validators[v], List.getElem?_eq_getElem hv, by simpa using hkey⟩
  · rintro ⟨validator, hv, rfl⟩
    obtain ⟨hlt, rfl⟩ := List.getElem?_eq_some_iff.mp hv
    refine ⟨hlt, by simp, fun j hj hkey => ?_⟩
    -- an earlier validator with the key would be the same validator
    have heq : validators[j] = validators[v] :=
      List.inj_on_of_nodup_map hkeys (List.getElem_mem _) (List.getElem_mem _) (by simpa using hkey)
    have := ((hkeys.of_map _).getElem_inj_iff).mp heq
    omega

/-- With distinct keys, and every committee key a validator's, the code's committee indices are
    the specification's: the sort puts the pairs back in committee order. -/
theorem getSyncCommitteeIndices_eq {validators : List Validator} {committeePubkeys : List (List UInt8)}
    {indices : List Nat} (hkeys : (validators.map (·.pubkey)).Nodup)
    (hindices : committeePubkeys.mapM (Spec.pubkeyIndex validators) = some indices) :
    getSyncCommitteeIndices validators committeePubkeys = indices := by
  have hmem : ∀ k v, (k, v) ∈ committeePairs validators committeePubkeys ↔ indices[k]? = some v := by
    intro k v
    rw [mem_committeePairs, Fallible.getElem?_of_mapM_eq_some hindices k]
    constructor
    · rintro ⟨validator, hv, hk⟩
      rw [hk, Option.bind_some]
      exact (pubkeyIndex_eq_some_iff hkeys).mpr ⟨validator, hv, rfl⟩
    · intro h
      obtain ⟨pubkey, hk, hindex⟩ := Option.bind_eq_some_iff.mp h
      obtain ⟨validator, hv, rfl⟩ := (pubkeyIndex_eq_some_iff hkeys).mp hindex
      exact ⟨validator, hv, hk⟩
  -- the committee order: each position with its validator
  let target := indices.zipIdx.map fun (v, k) => (k, v)
  have hmemTarget : ∀ k v, (k, v) ∈ target ↔ indices[k]? = some v := by
    intro k v
    simp only [target, List.mem_map, Prod.mk.injEq]
    constructor
    · rintro ⟨⟨v', k'⟩, hmem, rfl, rfl⟩
      exact List.mem_zipIdx_iff_getElem?.mp hmem
    · intro h
      exact ⟨(v, k), List.mem_zipIdx_iff_getElem?.mpr h, rfl, rfl⟩
  have hsortedTarget : target.Pairwise fun a b => a.1 < b.1 := by
    have hrange := List.pairwise_lt_range' (s := 0) (n := indices.length)
    rw [← List.zipIdx_map_snd 0 indices, List.pairwise_map] at hrange
    exact List.pairwise_map.mpr hrange
  have hperm : List.Perm ((committeePairs validators committeePubkeys).mergeSort fun a b => a.1 ≤ b.1) target := by
    refine (List.mergeSort_perm _ _).trans
      ((List.perm_ext_iff_of_nodup (committeePairs_nodup _ _) (hsortedTarget.imp ?_)).mpr ?_)
    · intro a b hab heq
      exact lt_irrefl _ (heq ▸ hab)
    · rintro ⟨k, v⟩
      rw [hmem, hmemTarget]
  have hsorted : ((committeePairs validators committeePubkeys).mergeSort fun a b => a.1 ≤ b.1).Pairwise
      fun a b => decide (a.1 ≤ b.1) = true :=
    List.pairwise_mergeSort (fun _ _ _ hab hbc => by simp only [decide_eq_true_eq] at *; omega)
      (fun a b => by simp only [Bool.or_eq_true, decide_eq_true_eq]; omega) _
  -- two pairs of one position in the committee order are the same pair
  have heq := hperm.eq_of_pairwise
    (fun a b ha hb (hab : a.1 ≤ b.1) (hba : b.1 ≤ a.1) => by
      obtain ⟨k, v⟩ := a
      obtain ⟨k', v'⟩ := b
      obtain rfl : k = k' := le_antisymm hab hba
      have hv := (hmemTarget k v).mp (hperm.subset ha)
      have hv' := (hmemTarget k v').mp hb
      rw [hv] at hv'
      cases hv'
      rfl)
    (hsorted.imp fun h => by simpa using h) (hsortedTarget.imp le_of_lt)
  rw [getSyncCommitteeIndices, heq, List.map_map]
  exact List.zipIdx_map_fst 0 indices

/-! ## The balances -/

/-- The code's update at a position: the participant reward added for a set bit, taken away
    down to zero for a clear one. -/
def participantUpdates (participantReward : Nat) (pairs : List (Nat × Bool)) : List (Nat × (Nat → Nat)) :=
  pairs.map fun (participantIndex, participationBit) =>
    (participantIndex, if participationBit then (· + participantReward) else (· - participantReward))

/-- The specification's updates at a position: for a set bit the participant's, then the
    proposer's. -/
def rewardUpdates (participantReward proposerReward proposerIndex : Nat) (pairs : List (Nat × Bool)) :
    List (Nat × (Nat → Nat)) :=
  pairs.flatMap fun (participantIndex, participationBit) =>
    if participationBit then [(participantIndex, (· + participantReward)), (proposerIndex, (· + proposerReward))]
    else [(participantIndex, (· - participantReward))]

@[simp] theorem participantUpdates_nil (participantReward : Nat) : participantUpdates participantReward [] = [] := rfl

@[simp] theorem participantUpdates_cons (participantReward participantIndex : Nat) (participationBit : Bool)
    (rest : List (Nat × Bool)) :
    participantUpdates participantReward ((participantIndex, participationBit) :: rest) =
      (participantIndex, if participationBit then (· + participantReward) else (· - participantReward)) ::
        participantUpdates participantReward rest := rfl

@[simp] theorem rewardUpdates_nil (participantReward proposerReward proposerIndex : Nat) :
    rewardUpdates participantReward proposerReward proposerIndex [] = [] := rfl

@[simp] theorem rewardUpdates_cons (participantReward proposerReward proposerIndex participantIndex : Nat)
    (participationBit : Bool) (rest : List (Nat × Bool)) :
    rewardUpdates participantReward proposerReward proposerIndex ((participantIndex, participationBit) :: rest) =
      (if participationBit then [(participantIndex, (· + participantReward)), (proposerIndex, (· + proposerReward))]
        else [(participantIndex, (· - participantReward))]) ++
        rewardUpdates participantReward proposerReward proposerIndex rest := rfl

/-- The code's deltas, position by position, are the participant updates of the positions and
    their bits. -/
theorem applySyncCommitteeDeltas_eq {bits : List Bool} {indices : List Nat} (hlen : indices.length ≤ bits.length)
    (participantReward : Nat) (balances : List Nat) :
    applySyncCommitteeDeltas balances (syncCommitteeDeltas bits participantReward indices) =
      (participantUpdates participantReward (indices.zip ((List.range bits.length).map (BitVector.set? bits)))).foldlM
        (fun v u => updateAt! v u.1 u.2) balances := by
  have hupdates : (syncCommitteeDeltas bits participantReward indices).map
      (fun d : Nat × Int => (d.1, fun b : Nat => ((b : Int) + d.2).toNat)) =
      participantUpdates participantReward (indices.zip ((List.range bits.length).map (BitVector.set? bits))) := by
    apply List.ext_getElem (by simp [syncCommitteeDeltas, participantUpdates]; omega)
    intro k hk _
    have hk' : k < indices.length := by simpa [syncCommitteeDeltas] using hk
    simp only [syncCommitteeDeltas, participantUpdates, List.getElem_map, List.getElem_zipIdx, List.getElem_zip,
      List.getElem_range, Nat.zero_add]
    split <;> simp only [Prod.mk.injEq, true_and] <;> funext b <;> omega
  rw [← hupdates, List.foldlM_map]
  rfl

/-- The specification's loop, with the proposer's index known, is its updates one after another. -/
theorem applySyncRewards_eq (participantReward proposerReward proposerIndex : Nat) (pairs : List (Nat × Bool))
    (balances : List Nat) :
    Spec.applySyncRewards participantReward proposerReward (some proposerIndex) balances pairs =
      (rewardUpdates participantReward proposerReward proposerIndex pairs).foldlM
        (fun v u => updateAt! v u.1 u.2) balances := by
  induction pairs generalizing balances with
  | nil => rfl
  | cons pair rest ih =>
    obtain ⟨participantIndex, _ | _⟩ := pair
    · -- a clear bit: the participant's decrease
      simp [Spec.applySyncRewards, ih, List.foldlM_cons]
    · -- a set bit: the participant's increase, then the proposer's
      simp [Spec.applySyncRewards, ih, List.foldlM_cons]

/-- A balance other than the proposer's sees the same updates in both. -/
theorem updatesAt_rewardUpdates_of_ne {participantReward proposerReward proposerIndex index : Nat}
    (hindex : proposerIndex ≠ index) (pairs : List (Nat × Bool)) (x : Nat) :
    updatesAt (rewardUpdates participantReward proposerReward proposerIndex pairs) index x =
      updatesAt (participantUpdates participantReward pairs) index x := by
  induction pairs generalizing x with
  | nil => rfl
  | cons pair rest ih =>
    obtain ⟨participantIndex, _ | _⟩ := pair <;> simp [hindex, ih]

/-- The proposer's balance, when no position with a clear bit is its own: it only gains, so the
    specification's proposer rewards, one per set bit, add up to what the code pays at the end. -/
theorem updatesAt_rewardUpdates_proposer (participantReward proposerReward : Nat) {proposerIndex : Nat}
    {pairs : List (Nat × Bool)}
    (hclear : ∀ participantIndex, (participantIndex, false) ∈ pairs → participantIndex ≠ proposerIndex) (x c : Nat) :
    updatesAt (rewardUpdates participantReward proposerReward proposerIndex pairs) proposerIndex (x + c) =
      updatesAt (participantUpdates participantReward pairs) proposerIndex x + c +
        (pairs.filter (·.2)).length * proposerReward := by
  induction pairs generalizing x c with
  | nil => simp
  | cons pair rest ih =>
    have hrest : ∀ i, (i, false) ∈ rest → i ≠ proposerIndex := fun i h => hclear i (List.mem_cons_of_mem _ h)
    obtain ⟨participantIndex, _ | _⟩ := pair
    · -- a clear bit is another validator's
      have hne : participantIndex ≠ proposerIndex := hclear _ List.mem_cons_self
      simp [hne, ih hrest]
    · by_cases hself : participantIndex = proposerIndex
      · -- the proposer's own set bit: its participant reward, then its proposer reward
        subst hself
        have hsum : x + c + participantReward + proposerReward = x + participantReward + (c + proposerReward) := by
          omega
        simp only [rewardUpdates_cons, participantUpdates_cons, if_true, List.cons_append, List.nil_append,
          updatesAt_cons, hsum, ih hrest, List.filter_cons_of_pos, List.length_cons]
        rw [Nat.add_mul]
        omega
      · have hsum : x + c + proposerReward = x + (c + proposerReward) := by omega
        simp only [rewardUpdates_cons, participantUpdates_cons, if_true, List.cons_append, List.nil_append,
          updatesAt_cons, hself, if_false, hsum, ih hrest, List.filter_cons_of_pos, List.length_cons]
        rw [Nat.add_mul]
        omega

/-- The code's updates are in range when the participants are. -/
theorem participantUpdates_in_range_iff {participantReward n : Nat} {pairs : List (Nat × Bool)} :
    (∀ u ∈ participantUpdates participantReward pairs, u.1 < n) ↔ ∀ pair ∈ pairs, pair.1 < n := by
  induction pairs with
  | nil => simp
  | cons pair rest ih =>
    obtain ⟨participantIndex, participationBit⟩ := pair
    simp only [participantUpdates_cons, List.forall_mem_cons, ih]

/-- So are the specification's, the proposer being in range. -/
theorem rewardUpdates_in_range_iff {participantReward proposerReward proposerIndex n : Nat}
    {pairs : List (Nat × Bool)} (hproposer : proposerIndex < n) :
    (∀ u ∈ rewardUpdates participantReward proposerReward proposerIndex pairs, u.1 < n) ↔
      ∀ pair ∈ pairs, pair.1 < n := by
  induction pairs with
  | nil => simp
  | cons pair rest ih =>
    obtain ⟨participantIndex, _ | _⟩ := pair
    · simp only [rewardUpdates_cons, Bool.false_eq_true, if_false, List.singleton_append, List.forall_mem_cons, ih]
    · simp only [rewardUpdates_cons, if_true, List.cons_append, List.nil_append, List.forall_mem_cons, ih,
        hproposer, true_and]

/-- The set bits among the positions are the set bits of the bit vector. -/
theorem filter_zip_length {bits : List Bool} {indices : List Nat} (hlen : indices.length = bits.length) :
    ((indices.zip ((List.range bits.length).map (BitVector.set? bits))).filter (·.2)).length =
      BitVector.count bits := by
  have hsnd : (indices.zip ((List.range bits.length).map (BitVector.set? bits))).map Prod.snd = bits.reverse := by
    rw [List.map_snd_zip (by simp [hlen]), BitVector.map_set?_range]
  rw [← List.countP_eq_length_filter, BitVector.count, ← List.count_reverse, List.count_eq_countP, ← hsnd,
    List.countP_map]
  congr 1
  funext pair
  simp

/-- The code's balances are the specification's when the proposer, in range, holds no position
    whose bit is clear: the deltas in committee order and the proposer's total at the end give
    what the specification's interleaved loop gives. -/
theorem syncBalances_eq_spec (participantReward proposerReward : Nat) {proposerIndex : Nat} {bits : List Bool}
    {indices balances : List Nat} (hlen : indices.length = bits.length) (hproposer : proposerIndex < balances.length)
    (hclear : ∀ k, indices[k]? = some proposerIndex → BitVector.set? bits k = true) :
    (applySyncCommitteeDeltas balances (syncCommitteeDeltas bits participantReward indices)).bind
        (fun balances => updateAt! balances proposerIndex (· + BitVector.count bits * proposerReward)) =
      Spec.applySyncRewards participantReward proposerReward (some proposerIndex) balances
        (indices.zip ((List.range bits.length).map (BitVector.set? bits))) := by
  set pairs := indices.zip ((List.range bits.length).map (BitVector.set? bits)) with hpairs
  -- a clear bit never stands at a position of the proposer
  have hclearPairs : ∀ i, (i, false) ∈ pairs → i ≠ proposerIndex := by
    rintro i hmem rfl
    obtain ⟨k, hk⟩ := List.mem_iff_getElem?.mp hmem
    obtain ⟨hindex, hbit⟩ := List.getElem?_zip_eq_some.mp hk
    have hlt : k < bits.length := by simpa using (List.getElem?_eq_some_iff.mp hbit).1
    have hclearBit : BitVector.set? bits k = false := by
      simpa [List.getElem?_map, List.getElem?_range hlt] using hbit
    rw [hclear k hindex] at hclearBit
    cases hclearBit
  rw [applySyncCommitteeDeltas_eq (le_of_eq hlen), applySyncRewards_eq, foldlM_updateAt!, foldlM_updateAt!]
  by_cases hrange : ∀ pair ∈ pairs, pair.1 < balances.length
  · rw [if_pos (participantUpdates_in_range_iff.mpr hrange), if_pos ((rewardUpdates_in_range_iff hproposer).mpr hrange)]
    have hlt : proposerIndex < (balances.mapIdx fun index x =>
        updatesAt (participantUpdates participantReward pairs) index x).length := by
      simpa using hproposer
    rw [Option.bind_some, updateAt!, if_pos hlt, Option.some.injEq]
    apply List.ext_getElem (by simp)
    intro v hv _
    simp only [List.getElem_modify, List.getElem_mapIdx]
    split
    · -- the proposer: the code's total is the specification's rewards, one per set bit
      rename_i hv
      subst hv
      have hproposerEntry := updatesAt_rewardUpdates_proposer participantReward proposerReward hclearPairs
        balances[proposerIndex] 0
      simp only [Nat.add_zero] at hproposerEntry
      rw [hproposerEntry, filter_zip_length hlen]
    · rename_i hv
      exact (updatesAt_rewardUpdates_of_ne hv _ _).symm
  · rw [if_neg (mt participantUpdates_in_range_iff.mp hrange), if_neg (mt (rewardUpdates_in_range_iff hproposer).mp hrange)]
    rfl

/-! ## The whole operation -/

/-- Both check the signature over the keys of the positions whose bit is set. -/
theorem participantPubkeys_eq {committeePubkeys : List (List UInt8)} {bits : List Bool}
    (hbits : bits.length = committeePubkeys.length) :
    (committeePubkeys.zipIdx.filter fun (_, index) => BitVector.set? bits index).map (·.1) =
      ((committeePubkeys.zip ((List.range bits.length).map (BitVector.set? bits))).filter (·.2)).map (·.1) := by
  have hzip : committeePubkeys.zip ((List.range bits.length).map (BitVector.set? bits)) =
      committeePubkeys.zipIdx.map fun (pubkey, index) => (pubkey, BitVector.set? bits index) := by
    apply List.ext_getElem (by simp [hbits])
    intro k _ _
    simp
  rw [hzip, List.filter_map, List.map_map]
  rfl

/-- The code's rewards are the specification's. -/
theorem computeSyncAggregateRewards_eq (spec : ChainSpec) (syncCommitteeSize : Nat) (state : BeaconState) :
    computeSyncAggregateRewards spec syncCommitteeSize state = Spec.syncRewards spec syncCommitteeSize state := rfl

/-- A minimal-preset state at slot 1 with two validators of 32 ETH: validator `0`, and the
    proposer `1`, whose balance is spent. The committee's first position is validator `0`'s, the
    31 others the proposer's. -/
def clampState : SyncCommitteeState where
  slot := 1
  validators := [⟨[1], [1], 32000000000, false, 0, farFutureEpoch, farFutureEpoch⟩,
    ⟨[2], [1], 32000000000, false, 0, farFutureEpoch, farFutureEpoch⟩]
  balances := [32000000000, 0]
  previousEpochParticipation := [0, 0]
  currentEpochParticipation := [0, 0]
  nextWithdrawalIndex := 0
  nextWithdrawalValidatorIndex := 0
  pendingPartialWithdrawals := []
  currentJustifiedCheckpoint := ⟨0, 0⟩
  finalizedCheckpoint := ⟨0, 0⟩
  currentSyncCommittee := ⟨[1] :: List.replicate 31 [2]⟩

/-- Only validator `0` signs: bit `0`, the last of the bitstring, is set. -/
def clampAggregate : SyncAggregate := ⟨List.replicate 31 false ++ [true], []⟩

section Refinement

variable (spec : ChainSpec) (syncCommitteeSize : Nat)
  (getBlockRootAtSlot : BeaconState → Nat → Except String Root)
  (syncSigningRoot : BeaconState → Nat → Root → List UInt8)
  (ethFastAggregateVerify : List (List UInt8) → List UInt8 → List UInt8 → Except String Bool)
  (getBeaconProposerIndex : BeaconState → Except String Nat)

/-- On a state whose validators have distinct keys, one for every committee key, and a balance
    each, with a proposer that holds no position whose bit is clear, `process_sync_aggregate/2`
    returns a state exactly when the specification does, and the same one. -/
theorem processSyncAggregate_eq_spec {state : SyncCommitteeState} {aggregate : SyncAggregate}
    {proposerIndex : Nat} {proposer : Validator}
    (hkeys : (state.validators.map (·.pubkey)).Nodup)
    (hcommittee : ∀ pubkey ∈ state.currentSyncCommittee.pubkeys, ∃ validator ∈ state.validators,
      validator.pubkey = pubkey)
    (hbits : aggregate.syncCommitteeBits.length = state.currentSyncCommittee.pubkeys.length)
    (hlen : state.balances.length = state.validators.length)
    (hproposerIndex : getBeaconProposerIndex state.toBeaconState = .ok proposerIndex)
    (hproposer : state.validators[proposerIndex]? = some proposer)
    (hclear : ∀ k, state.currentSyncCommittee.pubkeys[k]? = some proposer.pubkey →
      BitVector.set? aggregate.syncCommitteeBits k = true)
    (state' : SyncCommitteeState) :
    processSyncAggregate spec syncCommitteeSize getBlockRootAtSlot syncSigningRoot ethFastAggregateVerify
        getBeaconProposerIndex state aggregate = some (.ok state') ↔
      Spec.processSyncAggregate spec syncCommitteeSize getBlockRootAtSlot syncSigningRoot ethFastAggregateVerify
        getBeaconProposerIndex state aggregate = some state' := by
  -- every committee key has its validator, which the code finds as the specification does
  obtain ⟨indices, hindices⟩ : ∃ indices,
      state.currentSyncCommittee.pubkeys.mapM (Spec.pubkeyIndex state.validators) = some indices := by
    refine Option.isSome_iff_exists.mp (Fallible.mapM_isSome fun pubkey hpubkey => ?_)
    obtain ⟨validator, hmem, hkey⟩ := hcommittee pubkey hpubkey
    simpa [Spec.pubkeyIndex, List.findIdx?_isSome] using ⟨validator, hmem, hkey⟩
  have hcode := getSyncCommitteeIndices_eq hkeys hindices
  have hindicesLen : indices.length = aggregate.syncCommitteeBits.length :=
    ((Fallible.forall₂_of_mapM_eq_some hindices).length_eq).symm.trans hbits.symm
  -- the proposer's positions are those of its key, whose bits are set
  have hclearIndices : ∀ k, indices[k]? = some proposerIndex → BitVector.set? aggregate.syncCommitteeBits k = true := by
    intro k hk
    rw [Fallible.getElem?_of_mapM_eq_some hindices k] at hk
    obtain ⟨pubkey, hpubkey, hindex⟩ := Option.bind_eq_some_iff.mp hk
    obtain ⟨validator, hvalidator, rfl⟩ := (pubkeyIndex_eq_some_iff hkeys).mp hindex
    rw [hproposer, Option.some.injEq] at hvalidator
    subst hvalidator
    exact hclear k hpubkey
  have hinRange : proposerIndex < state.balances.length := by
    rw [hlen]
    exact (List.getElem?_eq_some_iff.mp hproposer).1
  have hbalances := syncBalances_eq_spec (Spec.syncRewards spec syncCommitteeSize state.toBeaconState).1
    (Spec.syncRewards spec syncCommitteeSize state.toBeaconState).2 hindicesLen hinRange hclearIndices
  simp only [processSyncAggregate, Spec.processSyncAggregate, Spec.syncCommitteeBits, participantPubkeys_eq hbits,
    hproposerIndex, hcode, hindices, computeSyncAggregateRewards_eq]
  split
  · rename_i e hroot
    simp [hroot, Except.toOption]
  · rename_i blockRoot hroot
    simp only [hroot, Except.toOption, Option.bind_eq_bind, Option.bind_some]
    split
    · -- the code rejects the signature, and so does the specification
      rename_i e hverify
      split
      · rename_i hvalid
        simp [verifySignature, hvalid] at hverify
      · simp
    · rename_i hverify
      split
      · -- the signature holds: the balances are the specification's
        rw [← Option.bind_assoc, hbalances]
        cases Spec.applySyncRewards (Spec.syncRewards spec syncCommitteeSize state.toBeaconState).1
          (Spec.syncRewards spec syncCommitteeSize state.toBeaconState).2 (some proposerIndex) state.balances
          (indices.zip (List.map (BitVector.set? aggregate.syncCommitteeBits)
            (List.range aggregate.syncCommitteeBits.length))) <;> simp
      · rename_i hinvalid
        exact absurd ((verifySignature_eq_ok ethFastAggregateVerify).mp hverify) hinvalid

end Refinement

/-- On `clampState` with every bit set, the proposer's positions are all set: the code returns
    the specification's state, in which the proposer gains 31 participant rewards and 32 proposer
    rewards. -/
theorem full_participation_matches_spec :
    processSyncAggregate ChainSpec.minimal 32 (fun _ _ => .ok 0) (fun _ _ _ => []) (fun _ _ _ => .ok true)
        (fun _ => .ok 1) clampState ⟨List.replicate 32 true, []⟩ = some (.ok { clampState with balances := [32000001976, 70280] }) ↔
      Spec.processSyncAggregate ChainSpec.minimal 32 (fun _ _ => .ok 0) (fun _ _ _ => []) (fun _ _ _ => .ok true)
        (fun _ => .ok 1) clampState ⟨List.replicate 32 true, []⟩ = some { clampState with balances := [32000001976, 70280] } :=
  @processSyncAggregate_eq_spec ChainSpec.minimal 32 _ _ _ _ clampState ⟨List.replicate 32 true, []⟩ 1
    ⟨[2], [1], 32000000000, false, 0, farFutureEpoch, farFutureEpoch⟩ (by decide) (by decide) (by decide) (by decide) rfl rfl
    (fun k hk => by
      have hlt : k < 32 := by simpa [clampState] using (List.getElem?_eq_some_iff.mp hk).1
      have hset : ∀ k < 32, BitVector.set? (List.replicate 32 true) k = true := by decide
      exact hset k hlt)
    _

/-- On `clampState`, the participant reward is 1976 gwei and the proposer's 282. The code takes
    the proposer's 31 decreases from a zero balance, then pays it 282; the specification pays
    the 282 at the first position, and the proposer's first decrease takes it back. -/
theorem processSyncAggregate_pays_clamped_proposer :
    (processSyncAggregate ChainSpec.minimal 32 (fun _ _ => .ok 0) (fun _ _ _ => []) (fun _ _ _ => .ok true)
        (fun _ => .ok 1) clampState clampAggregate).map (·.map (·.balances)) = some (.ok [32000001976, 282]) ∧
    (Spec.processSyncAggregate ChainSpec.minimal 32 (fun _ _ => .ok 0) (fun _ _ _ => []) (fun _ _ _ => .ok true)
        (fun _ => .ok 1) clampState clampAggregate).map (·.balances) = some [32000001976, 0] := by
  have hindices : getSyncCommitteeIndices clampState.validators clampState.currentSyncCommittee.pubkeys =
      0 :: List.replicate 31 1 :=
    getSyncCommitteeIndices_eq (by decide) (by decide)
  constructor
  · simp only [processSyncAggregate, hindices]
    decide
  · decide

end LambdaEthereumConsensus.StateTransition
