import Mathlib

/-
  LambdaEthereumConsensus.StateTransition.Types — the part of the beacon state and of the
  block operations that the modelled state transition reads (`types/beacon_chain/*.ex`),
  the presets it takes from `ChainSpec`, `Constants`, and the validator predicates of
  `Types.Validator` and `Predicates`.

  Gwei amounts, epochs, slots and indices are `Nat`; keys, signatures, credentials and
  signing roots are binaries, and a block's root is the number its 32 bytes spell (`Root`). An `Aja.Vector` is a list: `at!`, `update_at!` and `replace_at!`
  raise past its end (`none`), `at` gives `nil`.
-/

namespace LambdaEthereumConsensus.StateTransition

/-! ## Presets and constants -/

/-- `ChainSpec.get/1` on the preset values this model reads. -/
structure ChainSpec where
  slotsPerEpoch : Nat
  effectiveBalanceIncrement : Nat
  baseRewardFactor : Nat
  minActivationBalance : Nat
  maxEffectiveBalanceElectra : Nat
  maxPendingPartialsPerWithdrawalsSweep : Nat
  maxValidatorsPerWithdrawalsSweep : Nat
  maxWithdrawalsPerPayload : Nat
  secondsPerSlot : Nat
  proposerScoreBoost : Nat
  /-- `div/2` and `rem/2` by a zero slot length or epoch length would raise. -/
  secondsPerSlot_pos : 0 < secondsPerSlot
  slotsPerEpoch_pos : 0 < slotsPerEpoch

/-- `config/presets/mainnet` and `config/networks/mainnet/config.yaml`. -/
def ChainSpec.mainnet : ChainSpec where
  slotsPerEpoch := 32
  effectiveBalanceIncrement := 1000000000
  baseRewardFactor := 64
  minActivationBalance := 32000000000
  maxEffectiveBalanceElectra := 2048000000000
  maxPendingPartialsPerWithdrawalsSweep := 8
  maxValidatorsPerWithdrawalsSweep := 16384
  maxWithdrawalsPerPayload := 16
  secondsPerSlot := 12
  proposerScoreBoost := 40
  secondsPerSlot_pos := by decide
  slotsPerEpoch_pos := by decide

/-- `config/presets/minimal` and `config/networks/minimal/config.yaml`. -/
def ChainSpec.minimal : ChainSpec where
  slotsPerEpoch := 8
  effectiveBalanceIncrement := 1000000000
  baseRewardFactor := 64
  minActivationBalance := 32000000000
  maxEffectiveBalanceElectra := 2048000000000
  maxPendingPartialsPerWithdrawalsSweep := 2
  maxValidatorsPerWithdrawalsSweep := 16
  maxWithdrawalsPerPayload := 4
  secondsPerSlot := 6
  proposerScoreBoost := 40
  secondsPerSlot_pos := by decide
  slotsPerEpoch_pos := by decide

/-- `Constants.far_future_epoch/0`. -/
def farFutureEpoch : Nat := 2 ^ 64 - 1

/-- `Constants.participation_flag_weights/0`: timely source, target and head. -/
def participationFlagWeights : List Nat := [14, 26, 14]

/-- `Constants.weight_denominator/0`. -/
def weightDenominator : Nat := 64

/-- `Constants.proposer_weight/0`. -/
def proposerWeight : Nat := 8

/-- `Constants.eth1_address_withdrawal_prefix/0`. -/
def eth1AddressWithdrawalPrefix : UInt8 := 1

/-- `Constants.compounding_withdrawal_prefix/0`. -/
def compoundingWithdrawalPrefix : UInt8 := 2

/-! ## Vectors -/

/-- `Aja.Vector.update_at!/3`. -/
def updateAt! {α : Type} (v : List α) (index : Nat) (f : α → α) : Option (List α) :=
  if index < v.length then some (v.modify index f) else none

theorem getD_of_updateAt! {α : Type} {v v' : List α} {index : Nat} {f : α → α}
    (h : updateAt! v index f = some v') (i : Nat) (d : α) :
    v'.getD i d = if i = index then f (v.getD i d) else v.getD i d := by
  unfold updateAt! at h
  split at h
  · rename_i hlt
    cases h
    by_cases hi : i = index
    · subst hi
      simp [List.getD_eq_getElem?_getD, hlt]
    · simp [List.getD_eq_getElem?_getD, List.getElem?_modify_ne _ _ (Ne.symm hi), hi]
  · cases h

/-- The value of entry `index` after the updates `us`, each `(i, f)` applying `f` at `i`,
    from `x`: the functions addressed to `index`, in order. -/
def updatesAt {α : Type} (us : List (Nat × (α → α))) (index : Nat) (x : α) : α :=
  us.foldl (fun x u => if u.1 = index then u.2 x else x) x

@[simp] theorem updatesAt_nil {α : Type} (index : Nat) (x : α) : updatesAt [] index x = x := rfl

@[simp] theorem updatesAt_cons {α : Type} (u : Nat × (α → α)) (us : List (Nat × (α → α))) (index : Nat) (x : α) :
    updatesAt (u :: us) index x = updatesAt us index (if u.1 = index then u.2 x else x) := rfl

@[simp] theorem updatesAt_append {α : Type} (us vs : List (Nat × (α → α))) (index : Nat) (x : α) :
    updatesAt (us ++ vs) index x = updatesAt vs index (updatesAt us index x) :=
  List.foldl_append

/-- `update_at!` after `update_at!`: all succeed when every index is in range, and each entry
    then sees the updates addressed to it, in order. -/
theorem foldlM_updateAt! {α : Type} (us : List (Nat × (α → α))) (v : List α) :
    us.foldlM (fun v u => updateAt! v u.1 u.2) v =
      if ∀ u ∈ us, u.1 < v.length then some (v.mapIdx fun index x => updatesAt us index x) else none := by
  induction us generalizing v with
  | nil =>
    have hid : v.mapIdx (fun _ x => x) = v := List.mapIdx_eq_iff.mpr (by simp)
    simp [hid]
  | cons u rest ih =>
    by_cases hu : u.1 < v.length
    · -- the first update lands, and the rest see the modified entry
      have hmodify : (v.modify u.1 u.2).mapIdx (fun index x => updatesAt rest index x) =
          v.mapIdx fun index x => updatesAt (u :: rest) index x := by
        apply List.ext_getElem (by simp)
        intro j h1 h2
        simp only [List.getElem_mapIdx, List.getElem_modify, updatesAt, List.foldl_cons]
      have hfirst : updateAt! v u.1 u.2 = some (v.modify u.1 u.2) := if_pos hu
      rw [List.foldlM_cons, hfirst, Option.bind_eq_bind, Option.bind_some, ih, List.length_modify, hmodify]
      have hcons := List.forall_mem_cons (p := fun u : Nat × (α → α) => u.1 < v.length) (a := u) (l := rest)
      by_cases hrest : ∀ u ∈ rest, u.1 < v.length
      · rw [if_pos hrest, if_pos (hcons.mpr ⟨hu, hrest⟩)]
      · rw [if_neg hrest, if_neg fun hall => hrest (hcons.mp hall).2]
    · simp [List.foldlM_cons, updateAt!, hu]

/-- Two updates of one entry are one update by the composite. -/
theorem updateAt!_bind_updateAt! {α : Type} (v : List α) (index : Nat) (f g : α → α) :
    (updateAt! v index f).bind (updateAt! · index g) = updateAt! v index (g ∘ f) := by
  by_cases h : index < v.length
  · simp [updateAt!, h, List.modify_modify_eq]
  · simp [updateAt!, h]

/-- The updates `(i, f i)` of the indices below `n`, one per index: an entry below `n` sees its
    own function, any other none. Induction on `n`, the last index's update last. -/
theorem updatesAt_range {α : Type} (f : Nat → α → α) (n index : Nat) (x : α) :
    updatesAt ((List.range n).map fun i => (i, f i)) index x = if index < n then f index x else x := by
  induction n with
  | zero => simp
  | succ n ih =>
    rw [List.range_succ, List.map_append, updatesAt_append, ih]
    by_cases hlt : index < n
    · have hne : n ≠ index := by omega
      simp [hlt, hne, show index < n + 1 by omega]
    · by_cases heq : index = n
      · subst heq
        simp
      · have hne : n ≠ index := fun h => heq h.symm
        simp [hlt, hne, show ¬index < n + 1 by omega]

/-! ## Validators -/

/-- `%Types.Validator{}`, without `activation_eligibility_epoch`, which nothing modelled reads. -/
structure Validator where
  pubkey : List UInt8
  withdrawalCredentials : List UInt8
  effectiveBalance : Nat
  slashed : Bool
  activationEpoch : Nat
  exitEpoch : Nat
  withdrawableEpoch : Nat
  deriving DecidableEq, Repr

namespace Validator

/-- `Predicates.active_validator?/2`. -/
def active? (validator : Validator) (epoch : Nat) : Bool :=
  validator.activationEpoch ≤ epoch && epoch < validator.exitEpoch

/-- `Predicates.slashable_validator?/2`. -/
def slashable? (validator : Validator) (epoch : Nat) : Bool :=
  !validator.slashed && (validator.activationEpoch ≤ epoch && epoch < validator.withdrawableEpoch)

/-- `compounding_withdrawal_credential?/1` on the validator's credentials; an empty binary
    fails the match. -/
def hasCompoundingWithdrawalCredential (validator : Validator) : Option Bool :=
  validator.withdrawalCredentials.head?.map (· == compoundingWithdrawalPrefix)

/-- `has_eth1_withdrawal_credential/1`. -/
def hasEth1WithdrawalCredential (validator : Validator) : Option Bool :=
  validator.withdrawalCredentials.head?.map (· == eth1AddressWithdrawalPrefix)

/-- `has_execution_withdrawal_credential/1`: `||` reads the eth1 prefix only when the
    compounding one is absent. -/
def hasExecutionWithdrawalCredential (validator : Validator) : Option Bool := do
  if ← validator.hasCompoundingWithdrawalCredential then pure true
  else validator.hasEth1WithdrawalCredential

/-- `get_max_effective_balance/1`. -/
def getMaxEffectiveBalance (spec : ChainSpec) (validator : Validator) : Option Nat := do
  if ← validator.hasCompoundingWithdrawalCredential then pure spec.maxEffectiveBalanceElectra
  else pure spec.minActivationBalance

/-- `fully_withdrawable_validator?/3`; the balance is an Elixir integer, so it can be below zero. -/
def fullyWithdrawable? (validator : Validator) (balance : Int) (epoch : Nat) : Option Bool := do
  if ← validator.hasExecutionWithdrawalCredential then
    pure (decide (validator.withdrawableEpoch ≤ epoch) && decide (0 < balance))
  else pure false

/-- `partially_withdrawable_validator?/2`. -/
def partiallyWithdrawable? (spec : ChainSpec) (validator : Validator) (balance : Int) : Option Bool := do
  let maxEffectiveBalance ← validator.getMaxEffectiveBalance spec
  let hasMaxEffectiveBalance := validator.effectiveBalance == maxEffectiveBalance
  let hasExcessBalance := decide ((maxEffectiveBalance : Int) < balance)
  if ← validator.hasExecutionWithdrawalCredential then pure (hasMaxEffectiveBalance && hasExcessBalance)
  else pure false

/-- Both withdrawability checks: past the credential check, a conjunction whose last part is the
    balance's test. -/
theorem of_credential_and_eq_some_true {credential : Option Bool} {first : Bool} {p : Prop} [Decidable p]
    (h : (do if ← credential then pure (first && decide p) else pure false : Option Bool) = some true) : p := by
  obtain ⟨hexec, -, h⟩ := Option.bind_eq_some_iff.mp h
  split at h
  · simp only [pure, Option.some.injEq, Bool.and_eq_true, decide_eq_true_eq] at h
    exact h.2
  · cases h

theorem pos_of_fullyWithdrawable? {validator : Validator} {balance : Int} {epoch : Nat}
    (h : validator.fullyWithdrawable? balance epoch = some true) : 0 < balance :=
  of_credential_and_eq_some_true h

/-- A partially withdrawable validator's balance exceeds its maximum effective balance. -/
theorem lt_of_partiallyWithdrawable? {spec : ChainSpec} {validator : Validator} {balance : Int}
    {maxEffectiveBalance : Nat} (h : validator.partiallyWithdrawable? spec balance = some true)
    (hmax : validator.getMaxEffectiveBalance spec = some maxEffectiveBalance) :
    (maxEffectiveBalance : Int) < balance := by
  unfold partiallyWithdrawable? at h
  obtain ⟨m, hm, h⟩ := Option.bind_eq_some_iff.mp h
  obtain rfl : m = maxEffectiveBalance := Option.some.inj (hm.symm.trans hmax)
  exact of_credential_and_eq_some_true h

end Validator

/-! ## Operations and the state -/

/-- A root: 32 bytes, which Elixir compares as binaries of one length, i.e. as the big-endian
    number they spell; this is that number. -/
abbrev Root := Nat

/-- `%Types.Checkpoint{}`. -/
structure Checkpoint where
  epoch : Nat
  root : Root
  deriving DecidableEq, Repr

/-- `%Types.BeaconBlockHeader{}`. -/
structure BeaconBlockHeader where
  slot : Nat
  proposerIndex : Nat
  parentRoot : List UInt8
  stateRoot : List UInt8
  bodyRoot : List UInt8
  deriving DecidableEq, Repr

/-- `%Types.SignedBeaconBlockHeader{}`. -/
structure SignedBeaconBlockHeader where
  message : BeaconBlockHeader
  signature : List UInt8
  deriving DecidableEq, Repr

/-- `%Types.ProposerSlashing{}`. -/
structure ProposerSlashing where
  signedHeader1 : SignedBeaconBlockHeader
  signedHeader2 : SignedBeaconBlockHeader
  deriving DecidableEq, Repr

/-- `%Types.Withdrawal{}`. -/
structure Withdrawal where
  index : Nat
  validatorIndex : Nat
  address : List UInt8
  amount : Nat
  deriving DecidableEq, Repr

/-- `%Types.PendingPartialWithdrawal{}`. -/
structure PendingPartialWithdrawal where
  validatorIndex : Nat
  amount : Nat
  withdrawableEpoch : Nat
  deriving DecidableEq, Repr

/-- `%Types.BeaconState{}`, the fields the modelled operations read or write. -/
structure BeaconState where
  slot : Nat
  validators : List Validator
  balances : List Nat
  previousEpochParticipation : List Nat
  currentEpochParticipation : List Nat
  nextWithdrawalIndex : Nat
  nextWithdrawalValidatorIndex : Nat
  pendingPartialWithdrawals : List PendingPartialWithdrawal
  currentJustifiedCheckpoint : Checkpoint
  finalizedCheckpoint : Checkpoint
  deriving DecidableEq, Repr

/-- `Misc.compute_epoch_at_slot/1`. -/
def computeEpochAtSlot (spec : ChainSpec) (slot : Nat) : Nat := slot / spec.slotsPerEpoch

/-- `Misc.compute_start_slot_at_epoch/1`. -/
def computeStartSlotAtEpoch (spec : ChainSpec) (epoch : Nat) : Nat := epoch * spec.slotsPerEpoch

/-- `Accessors.get_current_epoch/1`. -/
def BeaconState.currentEpoch (spec : ChainSpec) (state : BeaconState) : Nat :=
  computeEpochAtSlot spec state.slot

/-- `Accessors.get_active_validator_indices/2`, whose cache holds what this computes. -/
def getActiveValidatorIndices (state : BeaconState) (epoch : Nat) : List Nat :=
  (state.validators.zipIdx.filter fun (validator, _) => validator.active? epoch).map (·.2)

/-- `BeaconState.increase_balance/3`. -/
def BeaconState.increaseBalance (state : BeaconState) (index delta : Nat) : Option BeaconState := do
  let balances ← updateAt! state.balances index (· + delta)
  pure { state with balances }

end LambdaEthereumConsensus.StateTransition
