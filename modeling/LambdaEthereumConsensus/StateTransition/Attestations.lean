import LambdaEthereumConsensus.StateTransition.Types

/-
  LambdaEthereumConsensus.StateTransition.Attestations — `process_attestation_batch/2`
  (`state_transition/operations.ex`) and the specification's `process_attestation`
  (`docs/specs/electra/beacon-chain.md`), applied one attestation after another.

  An attestation is taken as the batch's state reads it (`Attestation`): the outcome of
  `validate_attestation/2`, its participation flag indices, its attesting indices and whether
  it targets the current epoch. None of these reads the participation flags or the balances,
  the only fields either version writes, so the specification's sequence reads the same
  values from every intermediate state. The proposer index is a parameter.

  The batch groups the masks per validator: `merge_masks/2` puts the union of the flags so
  far in front of the list, under the newest attestation's index, and
  `update_participations/5` folds the list from the front. So a validator's new flags are
  all credited to the newest attestation that includes it, where the specification credits
  each flag to the first attestation that sets it; the reward is floored per attestation, so
  the proposer's balance can differ (`processAttestationBatch_rewards_differ`).

  `Math.integer_squareroot/1`, which the base reward divides by, is `Nat.sqrt`
  (`integerSquareroot_eq_sqrt`): each step of Newton's iteration from `n` goes down while it
  stays at or above the square root, so it never divides by zero and stops on the root within
  `n` steps (`integerSquareroot_spec`).

  Elixir maps are `AList`s; `update_participations/5` and the proposer reward only sum and
  update per key, so the order of their entries does not matter.
-/

namespace LambdaEthereumConsensus.StateTransition

/-- An attestation as `process_attestation_batch/2` reads it against its state. -/
structure Attestation where
  /-- `validate_attestation(state, attestation)`. -/
  validation : Except String Unit
  /-- `Accessors.get_attestation_participation_flag_indices/3`. -/
  flagIndices : Except String (List Nat)
  /-- `Accessors.get_attesting_indices/2`, a `MapSet`, as a list. -/
  attestingIndices : Except String (List Nat)
  /-- `data.target.epoch == Accessors.get_current_epoch(state)`. -/
  isCurrentEpoch : Bool

/-- Per validator index, `{attestation_index, mask}` pairs, newest first. -/
abbrev EpochUpdates := AList fun _ : Nat => List (Nat × Nat)

/-- Per attestation index, its proposer reward numerator. -/
abbrev RewardNumerators := AList fun _ : Nat => Nat

/-- `Map.update/4`. -/
def mapUpdate {β : Type} (m : AList fun _ : Nat => β) (key : Nat) (default : β) (f : β → β) :
    AList fun _ : Nat => β :=
  match m.lookup key with
  | some v => m.insert key (f v)
  | none => m.insert key default

/-! ## Accessors -/

section Accessors

variable (spec : ChainSpec)

/-- `compute_root/3` of `Math.integer_squareroot/1`, Newton's iteration from `x = n`; `x` goes
    down at every step, so `n + 1` rounds are more than it takes. -/
def computeRoot (n : Nat) : Nat → Nat → Nat → Nat
  | 0, x, _ => x
  | fuel + 1, x, y => if y < x then computeRoot n fuel y ((y + n / y) / 2) else x

/-- `Math.integer_squareroot/1`. -/
def integerSquareroot (n : Nat) : Nat :=
  if n = 2 ^ 64 - 1 then 2 ^ 32 - 1 else computeRoot n (n + 1) n ((n + 1) / 2)

/-- `Accessors.get_total_active_balance/1`. -/
def getTotalActiveBalance (state : BeaconState) : Nat :=
  let epoch := state.currentEpoch spec
  max ((state.validators.filter (·.active? epoch)).map (·.effectiveBalance)).sum spec.effectiveBalanceIncrement

/-- `Accessors.get_base_reward_per_increment/1`. -/
def getBaseRewardPerIncrement (state : BeaconState) : Nat :=
  spec.effectiveBalanceIncrement * spec.baseRewardFactor / integerSquareroot (getTotalActiveBalance spec state)

/-- `Accessors.get_base_reward/2` on a validator. -/
def getBaseReward (validator : Validator) (baseRewardPerIncrement : Nat) : Nat :=
  validator.effectiveBalance / spec.effectiveBalanceIncrement * baseRewardPerIncrement

end Accessors

/-- `compute_proposer_reward/1`. -/
def computeProposerReward (proposerRewardNumerator : Nat) : Nat :=
  proposerRewardNumerator / ((weightDenominator - proposerWeight) * weightDenominator / proposerWeight)

/-- The participation flags and their weights, `{weight, 2 ** i}`. -/
def flagWeights : List (Nat × Nat) :=
  participationFlagWeights.zipIdx.map fun (w, i) => (w, 2 ^ i)

/-! ## `integer_squareroot/1` -/

/-- A Newton step from any positive `x` lands at or above the square root: `x` and `n / x`
    are on either side of it, and their mean, floored, cannot fall below it. -/
theorem sqrt_le_newtonStep {n x : Nat} (hx : 0 < x) : Nat.sqrt n ≤ (x + n / x) / 2 := by
  rw [Nat.le_div_iff_mul_le (by decide)]
  by_contra hlt
  have hsq := Nat.sqrt_le n
  have hdiv := Nat.lt_mul_div_succ n hx
  generalize n / x = q at hlt hdiv
  -- `sqrt n * sqrt n ≤ n < x * (q + 1) ≤ x * (2 * sqrt n - x) ≤ sqrt n * sqrt n`
  have hprod : x * (q + 1) ≤ x * (2 * Nat.sqrt n - x) := Nat.mul_le_mul_left x (by omega)
  have hmean : x * (2 * Nat.sqrt n - x) ≤ Nat.sqrt n * Nat.sqrt n := by
    zify [show x ≤ 2 * Nat.sqrt n by omega]
    nlinarith [sq_nonneg ((Nat.sqrt n : ℤ) - x)]
  omega

/-- The stopping test: a Newton step that does not go down finds `x * x ≤ n`. -/
theorem le_sqrt_of_newtonStep_ge {n x : Nat} (hx : 0 < x) (hstop : x ≤ (x + n / x) / 2) : x ≤ Nat.sqrt n := by
  have hquot : x ≤ n / x := by omega
  exact Nat.le_sqrt.mpr ((Nat.le_div_iff_mul_le hx).mp hquot)

/-- From any `x` at or above the square root, `compute_root/3` with more rounds than `x` gives
    the square root. Induction on the rounds: every step goes down, and stays at or above the
    square root, so the divisor is never zero. -/
theorem computeRoot_eq_sqrt {n : Nat} (hn : 0 < n) :
    ∀ fuel x, Nat.sqrt n ≤ x → x < fuel → computeRoot n fuel x ((x + n / x) / 2) = Nat.sqrt n
  | 0, x, _, hfuel => absurd hfuel (Nat.not_lt_zero x)
  | fuel + 1, x, hx, hfuel => by
    have hpos : 0 < x := lt_of_lt_of_le (Nat.sqrt_pos.mpr hn) hx
    rw [computeRoot]
    split_ifs with hstep
    · exact computeRoot_eq_sqrt hn fuel _ (sqrt_le_newtonStep hpos) (by omega)
    · exact le_antisymm (le_sqrt_of_newtonStep_ge hpos (by omega)) hx

/-- `integer_squareroot/1`'s iteration from `n` and `(n + 1) / 2`, with more rounds than `n`. -/
theorem computeRoot_start {n fuel : Nat} (hfuel : n < fuel) : computeRoot n fuel n ((n + 1) / 2) = Nat.sqrt n := by
  rcases Nat.eq_zero_or_pos n with rfl | hn
  · obtain ⟨k, rfl⟩ := Nat.exists_eq_add_one_of_ne_zero (show fuel ≠ 0 by omega)
    rfl
  · have hstart : (n + 1) / 2 = (n + n / n) / 2 := by rw [Nat.div_self hn]
    rw [hstart]
    exact computeRoot_eq_sqrt hn fuel n (Nat.sqrt_le_self n) hfuel

/-- `integer_squareroot/1` is `Nat.sqrt`. -/
theorem integerSquareroot_eq_sqrt (n : Nat) : integerSquareroot n = Nat.sqrt n := by
  unfold integerSquareroot
  split_ifs with hmax
  · -- the largest `uint64`, answered without the iteration
    rw [hmax]
    exact Nat.eq_sqrt.mpr ⟨by norm_num, by norm_num⟩
  · exact computeRoot_start (Nat.lt_succ_self n)

/-- `integer_squareroot/1` gives the integer square root of every `n`, and its iteration stops
    before its rounds run out: with any more rounds it gives the same. -/
theorem integerSquareroot_spec (n : Nat) :
    integerSquareroot n * integerSquareroot n ≤ n ∧ n < (integerSquareroot n + 1) * (integerSquareroot n + 1) ∧
      ∀ fuel, n < fuel → computeRoot n fuel n ((n + 1) / 2) = computeRoot n (n + 1) n ((n + 1) / 2) := by
  rw [integerSquareroot_eq_sqrt]
  refine ⟨Nat.sqrt_le n, Nat.lt_succ_sqrt n, fun fuel hfuel => ?_⟩
  rw [computeRoot_start hfuel, computeRoot_start (Nat.lt_succ_self n)]

/-! ## The batch -/

/-- `merge_masks/2`: a mask equal to the newest one is dropped, any other joins it. The list is
    never empty: `Map.update/4` starts it with the first mask. -/
def mergeMasks : List (Nat × Nat) → Nat × Nat → List (Nat × Nat)
  | [], m => [m]
  | (i1, v1) :: rest, (i, v2) => if v1 = v2 then (i1, v1) :: rest else (i, v1 ||| v2) :: (i1, v1) :: rest

/-- `fast_process_attestation/5`. -/
def fastProcessAttestation (att : Attestation) (previousEpochUpdates currentEpochUpdates : EpochUpdates)
    (attestationIndex : Nat) : Except String (EpochUpdates × EpochUpdates) := do
  att.validation
  let flagIndices ← att.flagIndices
  let attestingIndices ← att.attestingIndices
  let epochUpdates := if att.isCurrentEpoch then currentEpochUpdates else previousEpochUpdates
  let weightsMask := ((List.range participationFlagWeights.length).filter (· ∈ flagIndices)).map (2 ^ ·) |>.sum
  let v := (attestationIndex, weightsMask)
  let newEpochUpdates := attestingIndices.foldl (fun epochUpdates i => mapUpdate epochUpdates i [v] (mergeMasks · v))
    epochUpdates
  if att.isCurrentEpoch then pure (previousEpochUpdates, newEpochUpdates)
  else pure (newEpochUpdates, currentEpochUpdates)

/-- The reduction of `process_attestation_batch/2`: indexed from zero, halting at the first error. -/
def collectUpdates (attestations : List Attestation) : Except String (EpochUpdates × EpochUpdates) :=
  attestations.zipIdx.foldlM (fun updates (att, i) => fastProcessAttestation att updates.1 updates.2 i) (∅, ∅)

/-- `update_participation/3`: each flag of the mask not yet set is set, and its weight counted. -/
def updateParticipation (participation baseReward : Nat) (weights : List (Nat × Nat)) : Nat × Nat :=
  weights.foldl (fun (participation, acc) (weight, i) =>
    let newParticipation := participation ||| i
    (newParticipation, if newParticipation = participation then acc else acc + baseReward * weight))
    (participation, 0)

section Batch

variable (spec : ChainSpec)

/-- `reduce_participation_batch/4`. -/
def reduceParticipationBatch (validator : Validator) (baseRewardPerIncrement : Nat)
    (acc : Nat × RewardNumerators) (mask : Nat × Nat) : Nat × RewardNumerators :=
  let baseReward := getBaseReward spec validator baseRewardPerIncrement
  let weights := flagWeights.filter fun (_, i) => mask.2 &&& i ≠ 0
  let (participation, reward) := updateParticipation acc.1 baseReward weights
  (participation, mapUpdate acc.2 mask.1 reward (· + reward))

/-- `update_participations/5`: each validator's masks folded from the front. -/
def updateParticipations (state : BeaconState) (epochParticipation : List Nat) (epochUpdates : EpochUpdates)
    (baseRewardPerIncrement : Nat) (rewardNumerators : RewardNumerators) : Option (List Nat × RewardNumerators) :=
  let step := fun ((participations, numerators) : List Nat × RewardNumerators) (entry : Σ _ : Nat, List (Nat × Nat)) => do
    -- `Aja.Vector.at!/2` and `replace_at!/3` raise past the end
    let validator ← state.validators[entry.1]?
    let participation ← participations[entry.1]?
    let (participation, numerators) :=
      entry.2.foldl (reduceParticipationBatch spec validator baseRewardPerIncrement) (participation, numerators)
    pure (participations.set entry.1 participation, numerators)
  epochUpdates.entries.foldlM step (epochParticipation, rewardNumerators)

variable (getBeaconProposerIndex : BeaconState → Except String Nat)

/-- `process_attestation_batch/2`. -/
def processAttestationBatch (state : BeaconState) (attestations : List Attestation) :
    Option (Except String BeaconState) :=
  match collectUpdates attestations with
  | .error e => some (.error e)
  | .ok (previousEpochUpdates, currentEpochUpdates) => do
    let baseRewardPerIncrement := getBaseRewardPerIncrement spec state
    let (newPreviousParticipation, rewardNumerators) ←
      updateParticipations spec state state.previousEpochParticipation previousEpochUpdates baseRewardPerIncrement ∅
    let (newCurrentParticipation, rewardNumerators) ←
      updateParticipations spec state state.currentEpochParticipation currentEpochUpdates baseRewardPerIncrement
        rewardNumerators
    -- `{:ok, proposer_index} = Accessors.get_beacon_proposer_index(state)`
    let proposerIndex ← (getBeaconProposerIndex state).toOption
    let proposerReward := (rewardNumerators.entries.map fun entry => computeProposerReward entry.2).sum
    let state ← state.increaseBalance proposerIndex proposerReward
    pure (.ok { state with
      previousEpochParticipation := newPreviousParticipation
      currentEpochParticipation := newCurrentParticipation })

end Batch

/-! ## The specification, one attestation at a time -/

namespace Spec

section Sequential

/-- `has_flag`. -/
def hasFlag (flags flagIndex : Nat) : Bool := flags &&& 2 ^ flagIndex == 2 ^ flagIndex

/-- `add_flag`. -/
def addFlag (flags flagIndex : Nat) : Nat := flags ||| 2 ^ flagIndex

variable (spec : ChainSpec) (getBeaconProposerIndex : BeaconState → Except String Nat)

/-- The inner loops of `process_attestation`: for each attesting index, each flag of the
    attestation not yet set is set, and the base reward times its weight counted. -/
def setFlags (state : BeaconState) (flagIndices : List Nat) (baseRewardPerIncrement : Nat) :
    List Nat → List Nat × Nat → Option (List Nat × Nat)
  | [], acc => some acc
  | index :: rest, (participation, numerator) => do
    let validator ← state.validators[index]?
    let flags ← participation[index]?
    let (flags, numerator) := participationFlagWeights.zipIdx.foldl (fun (flags, numerator) (weight, flagIndex) =>
      if flagIndex ∈ flagIndices ∧ !hasFlag flags flagIndex then
        (addFlag flags flagIndex, numerator + getBaseReward spec validator baseRewardPerIncrement * weight)
      else (flags, numerator)) (flags, numerator)
    setFlags state flagIndices baseRewardPerIncrement rest (participation.set index flags, numerator)

/-- `process_attestation`, with the proposer paid `numerator // denominator` for this attestation. -/
def processAttestation (state : BeaconState) (att : Attestation) : Option (Except String BeaconState) :=
  match att.validation, att.flagIndices, att.attestingIndices with
  | .error e, _, _ | .ok (), .error e, _ | .ok (), .ok _, .error e => some (.error e)
  | .ok (), .ok flagIndices, .ok attestingIndices => do
    let participation := if att.isCurrentEpoch then state.currentEpochParticipation else state.previousEpochParticipation
    let (participation, numerator) ←
      setFlags spec state flagIndices (getBaseRewardPerIncrement spec state) attestingIndices.dedup (participation, 0)
    let proposerIndex ← (getBeaconProposerIndex state).toOption
    let state ← state.increaseBalance proposerIndex (computeProposerReward numerator)
    pure (.ok (if att.isCurrentEpoch then { state with currentEpochParticipation := participation }
      else { state with previousEpochParticipation := participation }))

/-- `process_attestation` on each attestation in order; the first error stops the block. -/
def processAttestations (state : BeaconState) : List Attestation → Option (Except String BeaconState)
  | [] => some (.ok state)
  | att :: rest => do
    match ← processAttestation spec getBeaconProposerIndex state att with
    | .error e => pure (.error e)
    | .ok state => processAttestations state rest

end Sequential

end Spec

/-- One validator of one effective-balance increment, whose two current-epoch attestations
    set the source flag, then all three: the batch credits the three flags to the second
    attestation, the specification the source flag to the first. The flags agree, and the
    proposer reward of the batch is one gwei more. -/
theorem processAttestationBatch_rewards_differ :
    processAttestationBatch ChainSpec.mainnet (fun _ => .ok 0)
        ⟨0, [⟨[7], [1], 1000000000, false, 0, farFutureEpoch, farFutureEpoch⟩], [1000000000], [0], [0], 0, 0, [], ⟨0, 0⟩, ⟨0, 0⟩⟩
        [⟨.ok (), .ok [0], .ok [0], true⟩, ⟨.ok (), .ok [0, 1, 2], .ok [0], true⟩] =
      some (.ok ⟨0, [⟨[7], [1], 1000000000, false, 0, farFutureEpoch, farFutureEpoch⟩], [1000243953], [0], [7], 0, 0, [], ⟨0, 0⟩, ⟨0, 0⟩⟩) ∧
    Spec.processAttestations ChainSpec.mainnet (fun _ => .ok 0)
        ⟨0, [⟨[7], [1], 1000000000, false, 0, farFutureEpoch, farFutureEpoch⟩], [1000000000], [0], [0], 0, 0, [], ⟨0, 0⟩, ⟨0, 0⟩⟩
        [⟨.ok (), .ok [0], .ok [0], true⟩, ⟨.ok (), .ok [0, 1, 2], .ok [0], true⟩] =
      some (.ok ⟨0, [⟨[7], [1], 1000000000, false, 0, farFutureEpoch, farFutureEpoch⟩], [1000243952], [0], [7], 0, 0, [], ⟨0, 0⟩, ⟨0, 0⟩⟩) := by
  constructor <;> decide

end LambdaEthereumConsensus.StateTransition
