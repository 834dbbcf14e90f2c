import LambdaEthereumConsensus.StateTransition.EpochProcessing
import LambdaEthereumConsensus.Fallible.List

/-
  LambdaEthereumConsensus.StateTransition.Rewards — `process_rewards_and_penalties/1`
  (`state_transition/epoch_processing.ex`) with `BeaconState.get_flag_index_deltas/3` and
  `BeaconState.get_inactivity_penalty_deltas/1` (`types/beacon_chain/beacon_state.ex`), and the
  specification's `process_rewards_and_penalties` (`docs/specs/beacon-chain.md`, as modified in
  Altair and Bellatrix).

  The code gives every validator one signed delta per flag and one for inactivity, zips the four
  streams and the balances, and folds `max(balance + delta, 0)`; the specification keeps a
  reward and a penalty per validator for each of the four, and applies `increase_balance` then
  `decrease_balance`. Per validator the two agree: each of the code's deltas is the
  specification's reward less its penalty, and adding `r` then taking `p` off, floored at zero,
  is adding `r - p` floored (`decreaseBalance_increase`). Where the balances have one entry per validator, the previous
  epoch's participation and the inactivity scores at least one, and the finalized epoch is not
  past the previous one (the specification's `get_finality_delay` is a `uint64` difference),
  the two give the same state (`processRewardsAndPenalties_eq_spec`).

  Outside that shape they part: `Stream.zip/2` and `Aja.Vector.zip_with/3` stop at the shorter
  list where the specification reads every entry of `range(len(state.validators))`. A balance
  past the last validator is dropped by the code and kept by the specification
  (`processRewardsAndPenalties_drops_balance`).
-/

namespace LambdaEthereumConsensus.StateTransition

open Fallible

namespace Constants

/-- `Constants.timely_head_flag_index/0`. -/
def timelyHeadFlagIndex : Nat := 2

end Constants

/-! ## Presets and state -/

/-- The presets rewards and penalties read beyond epoch processing's. The increment and the
    inactivity denominator are positive, so no division of the code raises. -/
structure RewardsSpec extends EpochSpec where
  minEpochsToInactivityPenalty : Nat
  inactivityScoreBias : Nat
  inactivityPenaltyQuotientBellatrix : Nat
  effectiveBalanceIncrement_pos : 0 < effectiveBalanceIncrement
  inactivityScoreBias_pos : 0 < inactivityScoreBias
  inactivityPenaltyQuotientBellatrix_pos : 0 < inactivityPenaltyQuotientBellatrix

/-- `config/presets/minimal` and `config/networks/minimal/config.yaml`. -/
def RewardsSpec.minimal : RewardsSpec :=
  { EpochSpec.minimal with
    minEpochsToInactivityPenalty := 4
    inactivityScoreBias := 4
    inactivityPenaltyQuotientBellatrix := 16777216
    effectiveBalanceIncrement_pos := by decide
    inactivityScoreBias_pos := Nat.two_pow_pos 2
    inactivityPenaltyQuotientBellatrix_pos := by decide }

/-- The beacon state with the validators' inactivity scores. -/
structure RewardsState (spec : RewardsSpec) extends EpochState spec.toEpochSpec where
  inactivityScores : List Nat

/-- `Predicates.eligible_validator?/2`, which the specification's
    `get_eligible_validator_indices` reads the same way. -/
def Validator.eligible? (validator : Validator) (previousEpoch : Nat) : Bool :=
  validator.active? previousEpoch || (validator.slashed && previousEpoch + 1 < validator.withdrawableEpoch)

/-- `update_balance/2`: each delta in turn, floored at zero (`Int.toNat` is `max(·, 0)`). -/
def updateBalance (balance : Nat) (deltas : List Int) : Nat :=
  deltas.foldl (fun balance delta => ((balance : Int) + delta).toNat) balance

/-- `Stream.zip/1` on finite streams: the lists of their `i`-th elements, while every stream has
    one. -/
def zipStreams {α : Type} (streams : List (List α)) : List (List α) :=
  (List.range ((streams.map List.length).min?.getD 0)).map fun i => streams.filterMap (·[i]?)

/-- `Stream.zip/1` of streams of one length, not none of them: position by position. -/
theorem zipStreams_of_length {α : Type} {streams : List (List α)} {n : Nat} (d : α) (hne : streams ≠ [])
    (hlen : ∀ s ∈ streams, s.length = n) :
    zipStreams streams = (List.range n).map fun i => streams.map (·.getD i d) := by
  have hmin : (streams.map List.length).min? = some n := by
    have hrep : streams.map List.length = List.replicate streams.length n :=
      List.eq_replicate_iff.mpr ⟨by simp, by simpa using hlen⟩
    rw [hrep, List.min?_replicate_of_pos (List.length_pos_iff.mpr hne)]
  unfold zipStreams
  rw [hmin, Option.getD_some]
  apply List.map_congr_left
  intro i hi
  rw [List.mem_range] at hi
  rw [← List.filterMap_eq_map']
  apply List.filterMap_congr
  intro s hs
  simp [List.getD_eq_getElem?_getD, hlen s hs, hi]

/-- Indexing a zip is indexing its first list and reading the second at the same index, where
    the second is at least as long: `zip_with/3` and then `with_index/1`. -/
theorem zipIdx_zip {α β : Type} {xs : List α} {ys : List β} (d : β) (h : xs.length ≤ ys.length) :
    (xs.zip ys).zipIdx = xs.zipIdx.map fun (x, i) => ((x, ys.getD i d), i) := by
  apply List.ext_getElem (by simp [h])
  intro i h₁ _
  have hi : i < ys.length := by simp at h₁; omega
  simp [List.getElem_zipIdx, List.getElem_zip, List.getD_eq_getElem?_getD, List.getElem?_eq_getElem hi]

variable (spec : RewardsSpec)

/-! ## The code -/

/-- `Accessors.get_finality_delay/1`, an integer. -/
def getFinalityDelay (state : BeaconState) : Int :=
  (state.previousEpoch spec.toEpochSpec : Int) - state.finalizedCheckpoint.epoch

/-- `Predicates.in_inactivity_leak?/1`. -/
def inInactivityLeak? (state : BeaconState) : Bool :=
  decide (getFinalityDelay spec state > spec.minEpochsToInactivityPenalty)

/-- `Accessors.get_unslashed_participating_indices/3`: a set, here the list of its indices in
    order; `Aja.Vector.zip_with/3` stops at the shorter of the validators and the
    participation. -/
def getUnslashedParticipatingIndices (state : BeaconState) (flagIndex epoch : Nat) : Except String (List Nat) :=
  if epoch = state.previousEpoch spec.toEpochSpec ∨ epoch = state.currentEpoch spec.toChainSpec then
    let epochParticipation :=
      if epoch = state.currentEpoch spec.toChainSpec then state.currentEpochParticipation
      else state.previousEpochParticipation
    .ok (((state.validators.zip epochParticipation).zipIdx.filter fun ((validator, participation), _) =>
      !validator.slashed && validator.active? epoch && Spec.hasFlag participation flagIndex).map (·.2))
  else .error "epoch is not current or previous epochs"

/-- `Accessors.get_total_balance/2`: the effective balances at the indices, at least one
    increment. -/
def getTotalBalance (state : BeaconState) (indices : List Nat) : Nat :=
  max spec.effectiveBalanceIncrement
    ((state.validators.zipIdx.filter fun (_, index) => index ∈ indices).map (·.1.effectiveBalance)).sum

/-- `BeaconState.get_flag_index_deltas/3`: one signed delta per validator, in index order, zero
    for one that is not eligible; `Accessors.get_base_reward/2` reads the validator at its own
    index, and the match on `{:ok, _}` raises on an error. -/
def getFlagIndexDeltas (state : RewardsState spec) (weight flagIndex : Nat) : Option (List Int) :=
  let previousEpoch := state.previousEpoch spec.toEpochSpec
  match getUnslashedParticipatingIndices spec state.toBeaconState flagIndex previousEpoch with
  | .error _ => none
  | .ok unslashedParticipatingIndices =>
    let unslashedParticipatingBalance := getTotalBalance spec state.toBeaconState unslashedParticipatingIndices
    let unslashedParticipatingIncrements := unslashedParticipatingBalance / spec.effectiveBalanceIncrement
    let activeIncrements := getTotalActiveBalance spec.toChainSpec state.toBeaconState / spec.effectiveBalanceIncrement
    let baseRewardPerIncrement := getBaseRewardPerIncrement spec.toChainSpec state.toBeaconState
    let processRewardAndPenalty (validator : Validator) (index : Nat) : Int :=
      let baseReward := getBaseReward spec.toChainSpec validator baseRewardPerIncrement
      let isUnslashed := index ∈ unslashedParticipatingIndices
      if isUnslashed ∧ inInactivityLeak? spec state.toBeaconState then 0
      else if isUnslashed then
        ((baseReward * weight * unslashedParticipatingIncrements / (activeIncrements * weightDenominator) : Nat) : Int)
      else if flagIndex ≠ Constants.timelyHeadFlagIndex then -((baseReward * weight / weightDenominator : Nat) : Int)
      else 0
    some (state.validators.zipIdx.map fun (validator, index) =>
      if validator.eligible? previousEpoch then processRewardAndPenalty validator index else 0)

/-- `BeaconState.get_inactivity_penalty_deltas/1`: `Stream.zip/2` stops at the shorter of the
    validators and the inactivity scores. -/
def getInactivityPenaltyDeltas (state : RewardsState spec) : Option (List Int) :=
  let previousEpoch := state.previousEpoch spec.toEpochSpec
  match getUnslashedParticipatingIndices spec state.toBeaconState Constants.timelyTargetFlagIndex previousEpoch with
  | .error _ => none
  | .ok matchingTargetIndices =>
    let penaltyDenominator := spec.inactivityScoreBias * spec.inactivityPenaltyQuotientBellatrix
    some ((state.validators.zip state.inactivityScores).zipIdx.map fun ((validator, inactivityScore), index) =>
      if validator.eligible? previousEpoch ∧ index ∉ matchingTargetIndices then
        -((validator.effectiveBalance * inactivityScore / penaltyDenominator : Nat) : Int)
      else 0)

/-- `process_rewards_and_penalties/1`: nothing at the genesis epoch; otherwise the three flags'
    deltas and the inactivity deltas, zipped per validator and then with the balances. -/
def processRewardsAndPenalties (state : RewardsState spec) : Option (RewardsState spec) :=
  if state.currentEpoch spec.toChainSpec = Constants.genesisEpoch then some state
  else do
    let flagDeltas ← participationFlagWeights.zipIdx.mapM fun (weight, index) =>
      getFlagIndexDeltas spec state weight index
    let inactivityDeltas ← getInactivityPenaltyDeltas spec state
    let deltas := zipStreams (flagDeltas ++ [inactivityDeltas])
    pure { state with balances := state.balances.zipWith updateBalance deltas }

/-! ## The specification -/

namespace Spec

/-- The specification's `decrease_balance` on one balance. -/
def decreaseBalance (balance delta : Nat) : Nat :=
  if delta > balance then 0 else balance - delta

/-- The specification's `get_finality_delay`: a `uint64` difference, which fails below zero. -/
def getFinalityDelay (state : BeaconState) : Option Nat :=
  let previousEpoch := state.previousEpoch spec.toEpochSpec
  if state.finalizedCheckpoint.epoch ≤ previousEpoch then some (previousEpoch - state.finalizedCheckpoint.epoch)
  else none

/-- The specification's `is_in_inactivity_leak`. -/
def isInInactivityLeak (state : BeaconState) : Option Bool := do
  pure (decide ((← getFinalityDelay spec state) > spec.minEpochsToInactivityPenalty))

/-- The specification's `get_flag_index_deltas`: the loop over the eligible indices, each listed
    once, gives each its reward or its penalty and leaves every other entry at zero; it reads
    the leak only for an eligible participant. -/
def getFlagIndexDeltas (state : RewardsState spec) (flagIndex : Nat) : Option (List Nat × List Nat) := do
  let previousEpoch := state.previousEpoch spec.toEpochSpec
  let unslashedParticipatingIndices ←
    getUnslashedParticipatingIndices spec.toEpochSpec state.toBeaconState flagIndex previousEpoch
  let weight ← participationFlagWeights[flagIndex]?
  let unslashedParticipatingBalance ← getTotalBalance spec.toEpochSpec state.toBeaconState unslashedParticipatingIndices
  let unslashedParticipatingIncrements := unslashedParticipatingBalance / spec.effectiveBalanceIncrement
  let activeIncrements := getTotalActiveBalance spec.toChainSpec state.toBeaconState / spec.effectiveBalanceIncrement
  let baseRewardPerIncrement := getBaseRewardPerIncrement spec.toChainSpec state.toBeaconState
  let deltas ← state.validators.zipIdx.mapM fun (validator, index) => do
    let baseReward := getBaseReward spec.toChainSpec validator baseRewardPerIncrement
    if !validator.eligible? previousEpoch then pure (0, 0)
    else if index ∈ unslashedParticipatingIndices then
      if !(← isInInactivityLeak spec state.toBeaconState) then
        let rewardNumerator := baseReward * weight * unslashedParticipatingIncrements
        pure (rewardNumerator / (activeIncrements * weightDenominator), 0)
      else pure (0, 0)
    else if flagIndex ≠ Constants.timelyHeadFlagIndex then pure (0, baseReward * weight / weightDenominator)
    else pure (0, 0)
  pure (deltas.map (·.1), deltas.map (·.2))

/-- The specification's `get_inactivity_penalty_deltas` (Bellatrix's quotient): no rewards, and
    a penalty for each eligible index that missed the target; it reads the inactivity score only
    there. -/
def getInactivityPenaltyDeltas (state : RewardsState spec) : Option (List Nat × List Nat) := do
  let previousEpoch := state.previousEpoch spec.toEpochSpec
  let matchingTargetIndices ← getUnslashedParticipatingIndices spec.toEpochSpec state.toBeaconState
    Constants.timelyTargetFlagIndex previousEpoch
  let penalties ← state.validators.zipIdx.mapM fun (validator, index) => do
    if validator.eligible? previousEpoch ∧ index ∉ matchingTargetIndices then
      let penaltyNumerator := validator.effectiveBalance * (← state.inactivityScores[index]?)
      let penaltyDenominator := spec.inactivityScoreBias * spec.inactivityPenaltyQuotientBellatrix
      pure (penaltyNumerator / penaltyDenominator)
    else pure 0
  pure (List.replicate state.validators.length 0, penalties)

/-- One pair of the specification's loop: `increase_balance` by the reward and
    `decrease_balance` by the penalty at every validator index. -/
def applyDeltas (validatorCount : Nat) (balances : List Nat) (deltas : List Nat × List Nat) :
    Option (List Nat) :=
  (List.range validatorCount).foldlM (fun balances index => do
    let reward ← deltas.1[index]?
    let balances ← updateAt! balances index (· + reward)
    let penalty ← deltas.2[index]?
    updateAt! balances index (decreaseBalance · penalty)) balances

/-- The specification's `process_rewards_and_penalties`: nothing at the genesis epoch; otherwise
    the three flags' pairs and the inactivity pair, in that order. -/
def processRewardsAndPenalties (state : RewardsState spec) : Option (RewardsState spec) :=
  if state.currentEpoch spec.toChainSpec = Constants.genesisEpoch then some state
  else do
    let flagDeltas ← (List.range participationFlagWeights.length).mapM (getFlagIndexDeltas spec state)
    let deltas := flagDeltas ++ [← getInactivityPenaltyDeltas spec state]
    let balances ← deltas.foldlM (applyDeltas state.validators.length) state.balances
    pure { state with balances }

end Spec

/-! ## The balances -/

/-- One pair of the specification's loop, on balances and lists of one length: every balance
    gets its reward and then loses its penalty. -/
theorem applyDeltas_eq {n : Nat} {balances : List Nat} {deltas : List Nat × List Nat}
    (hbalances : balances.length = n) (hrewards : deltas.1.length = n) (hpenalties : deltas.2.length = n) :
    Spec.applyDeltas n balances deltas =
      some (balances.mapIdx fun i balance => Spec.decreaseBalance (balance + deltas.1.getD i 0) (deltas.2.getD i 0)) := by
  let apply (i : Nat) (balance : Nat) : Nat := Spec.decreaseBalance (balance + deltas.1.getD i 0) (deltas.2.getD i 0)
  -- at an index below `n` both reads succeed, and the two updates are one
  have hstep : ∀ index ∈ List.range n, ∀ balances : List Nat,
      (do
        let reward ← deltas.1[index]?
        let balances ← updateAt! balances index (· + reward)
        let penalty ← deltas.2[index]?
        updateAt! balances index (Spec.decreaseBalance · penalty)) = updateAt! balances index (apply index) := by
    intro index hindex balances
    rw [List.mem_range] at hindex
    have hreward : deltas.1[index]? = some (deltas.1.getD index 0) := by
      simp [List.getD_eq_getElem?_getD, hrewards, hindex]
    have hpenalty : deltas.2[index]? = some (deltas.2.getD index 0) := by
      simp [List.getD_eq_getElem?_getD, hpenalties, hindex]
    simp only [hreward, hpenalty, Option.bind_eq_bind, Option.bind_some]
    exact updateAt!_bind_updateAt! balances index _ _
  have hupdates : ((List.range n).map fun i => (i, apply i)).foldlM (fun v u => updateAt! v u.1 u.2) balances =
      (List.range n).foldlM (fun v i => updateAt! v i (apply i)) balances :=
    List.foldlM_map
  unfold Spec.applyDeltas
  rw [foldlM_congr hstep, ← hupdates, foldlM_updateAt!, if_pos (by simp [hbalances])]
  congr 1
  apply List.ext_getElem (by simp)
  intro i h₁ _
  have hi : i < n := by simpa [hbalances] using h₁
  simp [updatesAt_range, hi, apply]


/-- The code's signed deltas of a pair of rewards and penalties: reward minus penalty, index by
    index. -/
def signedDeltas (deltas : List Nat × List Nat) : List Int :=
  List.zipWith (fun (reward penalty : Nat) => (reward : Int) - penalty) deltas.1 deltas.2

theorem getD_signedDeltas {deltas : List Nat × List Nat} {i : Nat} (hrewards : i < deltas.1.length)
    (hpenalties : i < deltas.2.length) :
    (signedDeltas deltas).getD i 0 = (deltas.1.getD i 0 : Int) - deltas.2.getD i 0 := by
  rw [signedDeltas, List.getD_eq_getElem?_getD, List.getElem?_zipWith, List.getElem?_eq_getElem hrewards,
    List.getElem?_eq_getElem hpenalties]
  simp [List.getD_eq_getElem?_getD, hrewards, hpenalties]

/-- Adding a reward and then taking a penalty off, floored at zero, is adding their difference,
    floored at zero. -/
theorem decreaseBalance_increase (balance reward penalty : Nat) :
    Spec.decreaseBalance (balance + reward) penalty = ((balance : Int) + ((reward : Int) - penalty)).toNat := by
  unfold Spec.decreaseBalance
  split <;> omega

/-- Pair after pair of the specification's loop: each balance goes through every pair in
    order. Induction on the pairs. -/
theorem foldlM_applyDeltas {n : Nat} (deltas : List (List Nat × List Nat))
    (hdeltas : ∀ d ∈ deltas, d.1.length = n ∧ d.2.length = n) (balances : List Nat) (hbalances : balances.length = n) :
    deltas.foldlM (Spec.applyDeltas n) balances =
      some (balances.mapIdx fun i balance =>
        deltas.foldl (fun balance d => Spec.decreaseBalance (balance + d.1.getD i 0) (d.2.getD i 0)) balance) := by
  induction deltas generalizing balances with
  | nil =>
    have hid : balances.mapIdx (fun _ balance => balance) = balances := List.mapIdx_eq_iff.mpr (by simp)
    simp [hid]
  | cons d ds ih =>
    obtain ⟨hrewards, hpenalties⟩ := hdeltas d List.mem_cons_self
    have hrest := ih (fun d' hd' => hdeltas d' (List.mem_cons_of_mem d hd'))
    rw [List.foldlM_cons, applyDeltas_eq hbalances hrewards hpenalties, Option.bind_eq_bind, Option.bind_some,
      hrest _ (by simp [hbalances]), List.mapIdx_mapIdx]
    rfl

/-- The code's zips and folds, on pairs and balances of one length, not none of the pairs: each
    balance goes through every pair's signed delta in order. -/
theorem zipWith_updateBalance_zipStreams {n : Nat} (deltas : List (List Nat × List Nat)) (hne : deltas ≠ [])
    (hdeltas : ∀ d ∈ deltas, d.1.length = n ∧ d.2.length = n) (balances : List Nat) (hbalances : balances.length = n) :
    balances.zipWith updateBalance (zipStreams (deltas.map signedDeltas)) =
      balances.mapIdx fun i balance =>
        deltas.foldl (fun (balance : Nat) d => ((balance : Int) + ((d.1.getD i 0 : Int) - d.2.getD i 0)).toNat) balance := by
  have hstreams : ∀ s ∈ deltas.map signedDeltas, s.length = n := by
    intro s hs
    obtain ⟨d, hd, rfl⟩ := List.mem_map.mp hs
    obtain ⟨hrewards, hpenalties⟩ := hdeltas d hd
    simp [signedDeltas, hrewards, hpenalties]
  rw [zipStreams_of_length 0 (by simpa using hne) hstreams]
  apply List.ext_getElem (by simp [hbalances])
  intro i h₁ _
  have hi : i < n := by simp at h₁; omega
  simp only [List.getElem_zipWith, List.getElem_map, List.getElem_range, List.getElem_mapIdx, updateBalance,
    List.foldl_map]
  apply List.foldl_ext
  intro balance d hd
  obtain ⟨hrewards, hpenalties⟩ := hdeltas d hd
  rw [getD_signedDeltas (by omega) (by omega)]

/-- The specification's loop over the pairs is the code's zip of their signed deltas with the
    balances. -/
theorem foldlM_applyDeltas_eq_zipWith {n : Nat} (deltas : List (List Nat × List Nat)) (hne : deltas ≠ [])
    (hdeltas : ∀ d ∈ deltas, d.1.length = n ∧ d.2.length = n) (balances : List Nat) (hbalances : balances.length = n) :
    deltas.foldlM (Spec.applyDeltas n) balances =
      some (balances.zipWith updateBalance (zipStreams (deltas.map signedDeltas))) := by
  rw [foldlM_applyDeltas deltas hdeltas balances hbalances,
    zipWith_updateBalance_zipStreams deltas hne hdeltas balances hbalances]
  simp only [decreaseBalance_increase]

/-! ## The accessors -/

/-- The entries of the validators' enumeration that `get_unslashed_participating_indices` keeps,
    with the participation read at the entry's index. -/
def participating (participation : List Nat) (flagIndex epoch : Nat) (entry : Validator × Nat) : Bool :=
  !entry.1.slashed && entry.1.active? epoch && Spec.hasFlag (participation.getD entry.2 0) flagIndex

/-- After the genesis epoch the previous epoch is not the current one, so the accessors read the
    previous epoch's participation. -/
theorem previousEpoch_ne_currentEpoch {state : BeaconState}
    (hepoch : state.currentEpoch spec.toChainSpec ≠ Constants.genesisEpoch) :
    state.previousEpoch spec.toEpochSpec ≠ state.currentEpoch spec.toChainSpec := by
  unfold BeaconState.previousEpoch
  rw [if_neg hepoch]
  simp only [Constants.genesisEpoch] at hepoch
  omega

/-- The code's participating indices of the previous epoch, where its participation has an entry
    per validator: the enumeration's entries kept by `participating`. -/
theorem getUnslashedParticipatingIndices_previousEpoch {state : BeaconState} (flagIndex : Nat)
    (hepoch : state.currentEpoch spec.toChainSpec ≠ Constants.genesisEpoch)
    (hparticipation : state.validators.length ≤ state.previousEpochParticipation.length) :
    getUnslashedParticipatingIndices spec state flagIndex (state.previousEpoch spec.toEpochSpec) =
      .ok ((state.validators.zipIdx.filter
        (participating state.previousEpochParticipation flagIndex (state.previousEpoch spec.toEpochSpec))).map (·.2)) := by
  unfold getUnslashedParticipatingIndices
  rw [if_pos (Or.inl rfl), if_neg (previousEpoch_ne_currentEpoch spec hepoch)]
  dsimp only
  rw [zipIdx_zip 0 hparticipation, List.filter_map, List.map_map]
  rfl

/-- The specification's, on the same states: every read succeeds, and the indices are the
    code's. -/
theorem Spec.getUnslashedParticipatingIndices_previousEpoch {state : BeaconState} (flagIndex : Nat)
    (hepoch : state.currentEpoch spec.toChainSpec ≠ Constants.genesisEpoch)
    (hparticipation : state.validators.length ≤ state.previousEpochParticipation.length) :
    Spec.getUnslashedParticipatingIndices spec.toEpochSpec state flagIndex (state.previousEpoch spec.toEpochSpec) =
      some ((state.validators.zipIdx.filter
        (participating state.previousEpochParticipation flagIndex (state.previousEpoch spec.toEpochSpec))).map (·.2)) := by
  unfold Spec.getUnslashedParticipatingIndices
  simp only [ne_eq, not_true_eq_false, false_and, if_false, if_neg (previousEpoch_ne_currentEpoch spec hepoch)]
  set epoch := state.previousEpoch spec.toEpochSpec
  have hbound : ∀ index ∈ getActiveValidatorIndices state epoch, index < state.validators.length := by
    intro index hindex
    obtain ⟨entry, hentry, rfl⟩ := List.mem_map.mp hindex
    simpa using List.snd_lt_of_mem_zipIdx (List.mem_filter.mp hentry).1
  -- the participation read succeeds at every active index
  have hflags : ∀ index ∈ getActiveValidatorIndices state epoch,
      (do pure (Spec.hasFlag (← state.previousEpochParticipation[index]?) flagIndex) : Option Bool) =
        some (Spec.hasFlag (state.previousEpochParticipation.getD index 0) flagIndex) := by
    intro index hindex
    have hlt : index < state.previousEpochParticipation.length := by have := hbound index hindex; omega
    simp [List.getElem?_eq_getElem hlt, List.getD_eq_getElem?_getD]
  -- and the validator read at every index kept
  have hslashed : ∀ index ∈ (getActiveValidatorIndices state epoch).filter
      (fun index => Spec.hasFlag (state.previousEpochParticipation.getD index 0) flagIndex),
      (do pure !(← state.validators[index]?).slashed : Option Bool) = some !(state.validators[index]?.any (·.slashed)) := by
    intro index hindex
    have hlt := hbound index (List.mem_filter.mp hindex).1
    simp [List.getElem?_eq_getElem hlt]
  rw [filterM_eq_some_filter hflags, Option.bind_eq_bind, Option.bind_some, filterM_eq_some_filter hslashed]
  unfold getActiveValidatorIndices
  rw [List.filter_map, List.filter_map, List.filter_filter, List.filter_filter]
  congr 2
  apply List.filter_congr
  intro entry hentry
  have hread : state.validators[entry.2]? = some entry.1 := List.mem_zipIdx_iff_getElem?.mp hentry
  simp only [participating, Function.comp, hread, Option.any_some]
  cases entry.1.slashed <;> cases entry.1.active? epoch <;> simp

/-- The code's total of the indices kept from the validators' enumeration: the kept entries'
    effective balances, at least one increment. An index names one entry of the enumeration. -/
theorem getTotalBalance_filter (state : BeaconState) (keep : Validator × Nat → Bool) :
    getTotalBalance spec state ((state.validators.zipIdx.filter keep).map (·.2)) =
      max spec.effectiveBalanceIncrement ((state.validators.zipIdx.filter keep).map (·.1.effectiveBalance)).sum := by
  unfold getTotalBalance
  congr 3
  apply List.filter_congr
  intro entry hentry
  rw [Bool.eq_iff_iff, decide_eq_true_iff, List.mem_map]
  simp only [List.mem_filter]
  constructor
  · rintro ⟨other, ⟨hother, hkeep⟩, hindex⟩
    have hread : state.validators[entry.2]? = some other.1 := hindex ▸ List.mem_zipIdx_iff_getElem?.mp hother
    have hsame : other = entry :=
      Prod.ext (Option.some.inj (hread.symm.trans (List.mem_zipIdx_iff_getElem?.mp hentry))) hindex
    exact hsame ▸ hkeep
  · intro hkeep
    exact ⟨entry, ⟨hentry, hkeep⟩, rfl⟩

/-- The specification's total of the same indices: each read succeeds, and the total is the
    code's. -/
theorem Spec.getTotalBalance_filter (state : BeaconState) (keep : Validator × Nat → Bool) :
    Spec.getTotalBalance spec.toEpochSpec state ((state.validators.zipIdx.filter keep).map (·.2)) =
      some (max spec.effectiveBalanceIncrement ((state.validators.zipIdx.filter keep).map (·.1.effectiveBalance)).sum) := by
  have hreads : ∀ entry ∈ state.validators.zipIdx.filter keep,
      ((fun index => (·.effectiveBalance) <$> state.validators[index]?) ∘ (·.2)) entry = some entry.1.effectiveBalance := by
    intro entry hentry
    simp [List.mem_zipIdx_iff_getElem?.mp (List.mem_filter.mp hentry).1]
  unfold Spec.getTotalBalance
  rw [List.mapM_map, mapM_eq_some_map hreads]
  rfl

/-- Where the finalized epoch is not past the previous one, the specification's `uint64`
    difference does not fail and the leak is the code's. -/
theorem Spec.isInInactivityLeak_eq {state : BeaconState}
    (hfinalized : state.finalizedCheckpoint.epoch ≤ state.previousEpoch spec.toEpochSpec) :
    Spec.isInInactivityLeak spec state = some (inInactivityLeak? spec state) := by
  simp only [Spec.isInInactivityLeak, Spec.getFinalityDelay, if_pos hfinalized, inInactivityLeak?, StateTransition.getFinalityDelay,
    Option.bind_eq_bind, Option.bind_some, Option.pure_def, Option.some.injEq]
  have hdelay : state.previousEpoch spec.toEpochSpec - state.finalizedCheckpoint.epoch > spec.minEpochsToInactivityPenalty ↔
      (state.previousEpoch spec.toEpochSpec : Int) - state.finalizedCheckpoint.epoch > spec.minEpochsToInactivityPenalty := by
    omega
  exact decide_eq_decide.mpr hdelay

/-! ## The deltas -/

/-- A reward and penalty pair computed entry by entry, where each entry's signed delta is the
    code's: the code's list is the pair's signed deltas. -/
theorem mapM_pair_eq_signedDeltas {α : Type} {entries : List α} {n : Nat} {pair : α → Option (Nat × Nat)}
    {signed : α → Int} (hlength : entries.length = n)
    (hentries : ∀ entry ∈ entries, ∃ reward penalty, pair entry = some (reward, penalty) ∧
      signed entry = (reward : Int) - penalty) :
    ∃ deltas, (entries.mapM pair).bind (fun pairs => pure (pairs.map (·.1), pairs.map (·.2))) = some deltas ∧
      entries.map signed = signedDeltas deltas ∧ deltas.1.length = n ∧ deltas.2.length = n := by
  let value (entry : α) : Nat × Nat := (pair entry).getD (0, 0)
  have hpairs : ∀ entry ∈ entries, pair entry = some (value entry) := by
    intro entry hentry
    obtain ⟨reward, penalty, hpair, -⟩ := hentries entry hentry
    simp [value, hpair]
  refine ⟨((entries.map value).map (·.1), (entries.map value).map (·.2)), by rw [mapM_eq_some_map hpairs]; rfl, ?_,
    by simp [hlength], by simp [hlength]⟩
  rw [signedDeltas, List.zipWith_map, List.zipWith_self, List.map_map]
  apply List.map_congr_left
  intro entry hentry
  obtain ⟨reward, penalty, hpair, hsigned⟩ := hentries entry hentry
  simp [value, hpair, hsigned]

/-- Each flag's deltas: where the previous epoch's participation has an entry per validator and
    the finalized epoch is not past the previous one, the specification's pair exists and the
    code's list is its signed deltas. The code's branches are the specification's: eligible,
    participating, leaking, and the head flag, which has no penalty. -/
theorem getFlagIndexDeltas_eq_signedDeltas (state : RewardsState spec) {flagIndex weight : Nat}
    (hweight : participationFlagWeights[flagIndex]? = some weight)
    (hepoch : state.currentEpoch spec.toChainSpec ≠ Constants.genesisEpoch)
    (hparticipation : state.validators.length ≤ state.previousEpochParticipation.length)
    (hfinalized : state.finalizedCheckpoint.epoch ≤ state.previousEpoch spec.toEpochSpec) :
    ∃ deltas, Spec.getFlagIndexDeltas spec state flagIndex = some deltas ∧
      getFlagIndexDeltas spec state weight flagIndex = some (signedDeltas deltas) ∧
      deltas.1.length = state.validators.length ∧ deltas.2.length = state.validators.length := by
  simp only [Spec.getFlagIndexDeltas, getFlagIndexDeltas, getUnslashedParticipatingIndices_previousEpoch spec flagIndex hepoch hparticipation,
    Spec.getUnslashedParticipatingIndices_previousEpoch spec flagIndex hepoch hparticipation,
    Option.bind_eq_bind, Option.bind_some, hweight, Spec.getTotalBalance_filter, getTotalBalance_filter,
    Spec.isInInactivityLeak_eq spec hfinalized, Option.some.injEq]
  refine mapM_pair_eq_signedDeltas (by simp) ?_
  rintro ⟨validator, index⟩ -
  dsimp only
  split_ifs <;> simp_all

/-- A pair with no rewards: the signed deltas are the penalties taken off. -/
theorem signedDeltas_replicate_zero {penalties : List Nat} :
    signedDeltas (List.replicate penalties.length 0, penalties) = penalties.map fun (penalty : Nat) => -(penalty : Int) := by
  apply List.ext_getElem (by simp [signedDeltas])
  intro i h₁ h₂
  simp [signedDeltas]

/-- The inactivity deltas, where the inactivity scores also have an entry per validator: the
    specification's rewards are zero and its penalties the code's, negated. -/
theorem getInactivityPenaltyDeltas_eq_signedDeltas (state : RewardsState spec)
    (hepoch : state.currentEpoch spec.toChainSpec ≠ Constants.genesisEpoch)
    (hparticipation : state.validators.length ≤ state.previousEpochParticipation.length)
    (hscores : state.validators.length ≤ state.inactivityScores.length) :
    ∃ deltas, Spec.getInactivityPenaltyDeltas spec state = some deltas ∧
      getInactivityPenaltyDeltas spec state = some (signedDeltas deltas) ∧
      deltas.1.length = state.validators.length ∧ deltas.2.length = state.validators.length := by
  let missedTarget (entry : Validator × Nat) : Prop :=
    entry.1.eligible? (state.previousEpoch spec.toEpochSpec) ∧
      entry.2 ∉ (state.validators.zipIdx.filter (participating state.previousEpochParticipation
        Constants.timelyTargetFlagIndex (state.previousEpoch spec.toEpochSpec))).map (·.2)
  let penalty (entry : Validator × Nat) : Nat :=
    if missedTarget entry then
      entry.1.effectiveBalance * state.inactivityScores.getD entry.2 0 /
        (spec.inactivityScoreBias * spec.inactivityPenaltyQuotientBellatrix)
    else 0
  have hlength : (state.validators.zipIdx.map penalty).length = state.validators.length := by simp
  refine ⟨(List.replicate state.validators.length 0, state.validators.zipIdx.map penalty), ?_, ?_, by simp, hlength⟩
  · simp only [Spec.getInactivityPenaltyDeltas,
      Spec.getUnslashedParticipatingIndices_previousEpoch spec _ hepoch hparticipation, Option.bind_eq_bind,
      Option.bind_some]
    rw [@mapM_eq_some_map _ _ _ penalty _ (fun entry hentry => ?_)]
    · rfl
    · -- the score read succeeds at every validator's index
      have hlt : entry.2 < state.inactivityScores.length := by
        have := List.snd_lt_of_mem_zipIdx hentry
        omega
      simp only [penalty, missedTarget]
      split_ifs <;> simp [List.getElem?_eq_getElem hlt, List.getD_eq_getElem?_getD]
  · simp only [getInactivityPenaltyDeltas, getUnslashedParticipatingIndices_previousEpoch spec _ hepoch hparticipation]
    rw [zipIdx_zip 0 hscores, List.map_map, ← hlength, signedDeltas_replicate_zero, List.map_map]
    congr 1
    apply List.map_congr_left
    intro entry _
    simp only [Function.comp, penalty, missedTarget]
    split_ifs <;> simp

/-- The three flags' deltas, in order: the specification's pairs and the code's lists. -/
theorem flagDeltas_eq_signedDeltas (state : RewardsState spec)
    (hepoch : state.currentEpoch spec.toChainSpec ≠ Constants.genesisEpoch)
    (hparticipation : state.validators.length ≤ state.previousEpochParticipation.length)
    (hfinalized : state.finalizedCheckpoint.epoch ≤ state.previousEpoch spec.toEpochSpec) :
    ∃ flagDeltas, (List.range participationFlagWeights.length).mapM (Spec.getFlagIndexDeltas spec state) = some flagDeltas ∧
      participationFlagWeights.zipIdx.mapM (fun (weight, index) => getFlagIndexDeltas spec state weight index) =
        some (flagDeltas.map signedDeltas) ∧
      ∀ deltas ∈ flagDeltas, deltas.1.length = state.validators.length ∧ deltas.2.length = state.validators.length := by
  obtain ⟨source, hsource, hsource', hsource₁, hsource₂⟩ :=
    getFlagIndexDeltas_eq_signedDeltas spec state (show participationFlagWeights[0]? = some 14 from rfl) hepoch
      hparticipation hfinalized
  obtain ⟨target, htarget, htarget', htarget₁, htarget₂⟩ :=
    getFlagIndexDeltas_eq_signedDeltas spec state (show participationFlagWeights[1]? = some 26 from rfl) hepoch
      hparticipation hfinalized
  obtain ⟨head, hhead, hhead', hhead₁, hhead₂⟩ :=
    getFlagIndexDeltas_eq_signedDeltas spec state (show participationFlagWeights[2]? = some 14 from rfl) hepoch
      hparticipation hfinalized
  have hindices : List.range participationFlagWeights.length = [0, 1, 2] := rfl
  have hweights : participationFlagWeights.zipIdx = [(14, 0), (26, 1), (14, 2)] := rfl
  refine ⟨[source, target, head], ?_, ?_, ?_⟩
  · simp [hindices, hsource, htarget, hhead]
  · simp [hweights, hsource', htarget', hhead']
  · simp [hsource₁, hsource₂, htarget₁, htarget₂, hhead₁, hhead₂]

/-! ## The stray balance -/

/-- A state of the minimal preset in epoch 1: one validator, with every flag in epoch 0, and a
    second balance past it. -/
def strayBalanceState : RewardsState RewardsSpec.minimal where
  slot := 8
  validators := [⟨[0], [1], 32000000000, false, 0, farFutureEpoch, farFutureEpoch⟩]
  balances := [32000000000, 32000000000]
  previousEpochParticipation := [7]
  currentEpochParticipation := [0]
  nextWithdrawalIndex := 0
  nextWithdrawalValidatorIndex := 0
  pendingPartialWithdrawals := []
  currentJustifiedCheckpoint := ⟨0, 0⟩
  finalizedCheckpoint := ⟨0, 0⟩
  justificationBits := [false, false, false, false]
  previousJustifiedCheckpoint := ⟨0, 0⟩
  blockRoots := Vector.replicate 64 0
  inactivityScores := [0]

/-- The code zips the balances with the validators' deltas and drops the second balance; the
    specification updates the validators' entries and keeps it. -/
theorem processRewardsAndPenalties_drops_balance :
    (processRewardsAndPenalties RewardsSpec.minimal strayBalanceState).map (·.balances) = some [32009659817] ∧
      (Spec.processRewardsAndPenalties RewardsSpec.minimal strayBalanceState).map (·.balances) =
        some [32009659817, 32000000000] :=
  ⟨rfl, rfl⟩

/-! ## The refinement -/

/-- Where the balances have one entry per validator, the previous epoch's participation and the
    inactivity scores at least one, and the finalized epoch is not past the previous one, the
    code's rewards and penalties are the specification's. -/
theorem processRewardsAndPenalties_eq_spec (state : RewardsState spec)
    (hbalances : state.balances.length = state.validators.length)
    (hparticipation : state.validators.length ≤ state.previousEpochParticipation.length)
    (hscores : state.validators.length ≤ state.inactivityScores.length)
    (hfinalized : state.finalizedCheckpoint.epoch ≤ state.previousEpoch spec.toEpochSpec) :
    processRewardsAndPenalties spec state = Spec.processRewardsAndPenalties spec state := by
  unfold processRewardsAndPenalties Spec.processRewardsAndPenalties
  by_cases hepoch : state.currentEpoch spec.toChainSpec = Constants.genesisEpoch
  · rw [if_pos hepoch, if_pos hepoch]
  · rw [if_neg hepoch, if_neg hepoch]
    obtain ⟨flagDeltas, hspecFlags, hcodeFlags, hflagLengths⟩ :=
      flagDeltas_eq_signedDeltas spec state hepoch hparticipation hfinalized
    obtain ⟨inactivity, hspecInactivity, hcodeInactivity, hrewards, hpenalties⟩ :=
      getInactivityPenaltyDeltas_eq_signedDeltas spec state hepoch hparticipation hscores
    have hlengths : ∀ deltas ∈ flagDeltas ++ [inactivity],
        deltas.1.length = state.validators.length ∧ deltas.2.length = state.validators.length := by
      intro deltas hdeltas
      rcases List.mem_append.mp hdeltas with hflag | hlast
      · exact hflagLengths deltas hflag
      · rw [List.mem_singleton.mp hlast]
        exact ⟨hrewards, hpenalties⟩
    simp only [hspecFlags, hcodeFlags, hspecInactivity, hcodeInactivity, Option.bind_eq_bind, Option.bind_some,
      foldlM_applyDeltas_eq_zipWith (flagDeltas ++ [inactivity]) (by simp) hlengths state.balances hbalances,
      List.map_append, List.map_singleton]

theorem processRewardsAndPenalties_eq_spec_minimal :
    processRewardsAndPenalties RewardsSpec.minimal { strayBalanceState with balances := [32000000000] } =
      Spec.processRewardsAndPenalties RewardsSpec.minimal { strayBalanceState with balances := [32000000000] } :=
  processRewardsAndPenalties_eq_spec RewardsSpec.minimal _ rfl (by decide) (by decide) (by decide)

end LambdaEthereumConsensus.StateTransition
