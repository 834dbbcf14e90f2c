import LambdaEthereumConsensus.StateTransition.Withdrawals

/-
  LambdaEthereumConsensus.StateTransition.ExpectedWithdrawals — the specification's
  `get_expected_withdrawals` (`docs/specs/electra/beacon-chain.md`) beside the code's
  `get_expected_withdrawals/1` (`Withdrawals`).

  The specification stops consuming pending partial withdrawals once it has made
  `MAX_PENDING_PARTIALS_PER_WITHDRAWALS_SWEEP` withdrawals; the code stops once it has processed
  that many entries, made into withdrawals or not. An entry it skips, for a validator that is
  exiting or short of the minimum activation balance, then ends the code's loop early
  (`getExpectedWithdrawals_stops_on_processed`).
-/

namespace LambdaEthereumConsensus.StateTransition

namespace Spec

/-! ## The validator predicates -/

namespace Validator

open LambdaEthereumConsensus.StateTransition.Validator

/-- `is_compounding_withdrawal_credential`: `withdrawal_credentials[:1] == COMPOUNDING_WITHDRAWAL_PREFIX`. -/
def hasCompoundingWithdrawalCredential (validator : StateTransition.Validator) : Bool :=
  validator.withdrawalCredentials.take 1 == [compoundingWithdrawalPrefix]

/-- `has_eth1_withdrawal_credential`. -/
def hasEth1WithdrawalCredential (validator : StateTransition.Validator) : Bool :=
  validator.withdrawalCredentials.take 1 == [eth1AddressWithdrawalPrefix]

/-- `has_execution_withdrawal_credential`. -/
def hasExecutionWithdrawalCredential (validator : StateTransition.Validator) : Bool :=
  hasCompoundingWithdrawalCredential validator || hasEth1WithdrawalCredential validator

/-- `get_max_effective_balance`. -/
def getMaxEffectiveBalance (spec : ChainSpec) (validator : StateTransition.Validator) : Nat :=
  if hasCompoundingWithdrawalCredential validator then spec.maxEffectiveBalanceElectra
  else spec.minActivationBalance

/-- `is_fully_withdrawable_validator`. -/
def isFullyWithdrawableValidator (validator : StateTransition.Validator) (balance epoch : Nat) : Bool :=
  hasExecutionWithdrawalCredential validator && decide (validator.withdrawableEpoch ≤ epoch) && decide (0 < balance)

/-- `is_partially_withdrawable_validator`. -/
def isPartiallyWithdrawableValidator (spec : ChainSpec) (validator : StateTransition.Validator) (balance : Nat) : Bool :=
  let maxEffectiveBalance := getMaxEffectiveBalance spec validator
  let hasMaxEffectiveBalance := validator.effectiveBalance == maxEffectiveBalance
  let hasExcessBalance := decide (maxEffectiveBalance < balance)
  hasExecutionWithdrawalCredential validator && hasMaxEffectiveBalance && hasExcessBalance

end Validator

/-! ## The loops -/

/-- The local variables of `get_expected_withdrawals` that its loops update. -/
structure WithdrawalsLoop where
  withdrawalIndex : Nat
  validatorIndex : Nat
  withdrawals : List Withdrawal
  processedPartialWithdrawalsCount : Nat

section Withdrawals

variable (spec : ChainSpec) (state : BeaconState) (epoch : Nat)

/-- The loop over `state.pending_partial_withdrawals`. An index past the validators or the
    balances raises. -/
def consumePendingPartials : List PendingPartialWithdrawal → WithdrawalsLoop → Option WithdrawalsLoop
  | [], acc => some acc
  | withdrawal :: rest, acc =>
    if epoch < withdrawal.withdrawableEpoch ∨
        acc.withdrawals.length = spec.maxPendingPartialsPerWithdrawalsSweep then
      some acc
    else do
      let validator ← state.validators[withdrawal.validatorIndex]?
      let balance ← state.balances[withdrawal.validatorIndex]?
      let hasSufficientEffectiveBalance := decide (spec.minActivationBalance ≤ validator.effectiveBalance)
      let hasExcessBalance := decide (spec.minActivationBalance < balance)
      let acc :=
        if validator.exitEpoch = farFutureEpoch ∧ hasSufficientEffectiveBalance ∧ hasExcessBalance then
          { acc with
            withdrawals := acc.withdrawals ++ [⟨acc.withdrawalIndex, withdrawal.validatorIndex,
              validator.withdrawalCredentials.drop 12, min (balance - spec.minActivationBalance) withdrawal.amount⟩]
            withdrawalIndex := acc.withdrawalIndex + 1 }
        else acc
      consumePendingPartials rest { acc with processedPartialWithdrawalsCount := acc.processedPartialWithdrawalsCount + 1 }

/-- The body of the sweep's loop on `validator_index`. The partially withdrawn balance is a
    sum of `Gwei`, so subtracting more than the balance raises. -/
def sweepValidator (acc : WithdrawalsLoop) : Option WithdrawalsLoop := do
  let validator ← state.validators[acc.validatorIndex]?
  let balance ← state.balances[acc.validatorIndex]?
  let partiallyWithdrawnBalance := withdrawnBalance acc.withdrawals acc.validatorIndex
  if balance < partiallyWithdrawnBalance then none
  let balance := balance - partiallyWithdrawnBalance
  let address := validator.withdrawalCredentials.drop 12
  if Validator.isFullyWithdrawableValidator validator balance epoch then
    pure { acc with
      withdrawals := acc.withdrawals ++ [⟨acc.withdrawalIndex, acc.validatorIndex, address, balance⟩]
      withdrawalIndex := acc.withdrawalIndex + 1 }
  else if Validator.isPartiallyWithdrawableValidator spec validator balance then
    pure { acc with
      withdrawals := acc.withdrawals ++ [⟨acc.withdrawalIndex, acc.validatorIndex, address,
        balance - Validator.getMaxEffectiveBalance spec validator⟩]
      withdrawalIndex := acc.withdrawalIndex + 1 }
  else pure acc

/-- `for _ in range(bound)`, with its break once `MAX_WITHDRAWALS_PER_PAYLOAD` withdrawals are
    made. -/
def sweep : Nat → WithdrawalsLoop → Option WithdrawalsLoop
  | 0, acc => some acc
  | bound + 1, acc => do
    let acc ← sweepValidator spec state epoch acc
    if acc.withdrawals.length = spec.maxWithdrawalsPerPayload then pure acc
    else sweep bound { acc with validatorIndex := (acc.validatorIndex + 1) % state.validators.length }

end Withdrawals

/-- `get_expected_withdrawals`: the withdrawals and the number of pending partial withdrawals
    processed. -/
def getExpectedWithdrawals (spec : ChainSpec) (state : BeaconState) : Option (List Withdrawal × Nat) := do
  let epoch := state.currentEpoch spec
  let acc ← consumePendingPartials spec state epoch state.pendingPartialWithdrawals
    ⟨state.nextWithdrawalIndex, state.nextWithdrawalValidatorIndex, [], 0⟩
  let bound := min state.validators.length spec.maxValidatorsPerWithdrawalsSweep
  let acc ← sweep spec state epoch bound acc
  pure (acc.withdrawals, acc.processedPartialWithdrawalsCount)

end Spec

/-! ## Where the code departs from the specification -/

/-- Three validators in epoch 0 of the minimal presets with BLS credentials, so that the sweep
    withdraws nothing, each 1 ETH above the minimum activation balance; validator `0` is
    exiting. Each asks for a partial withdrawal of 1 ETH. -/
def skippedPartialState : BeaconState where
  slot := 0
  validators :=
    [⟨[0], List.replicate 32 0, 32000000000, false, 0, 5, 261⟩,
     ⟨[1], List.replicate 32 0, 32000000000, false, 0, farFutureEpoch, farFutureEpoch⟩,
     ⟨[2], List.replicate 32 0, 32000000000, false, 0, farFutureEpoch, farFutureEpoch⟩]
  balances := [33000000000, 33000000000, 33000000000]
  previousEpochParticipation := [0, 0, 0]
  currentEpochParticipation := [0, 0, 0]
  nextWithdrawalIndex := 0
  nextWithdrawalValidatorIndex := 0
  pendingPartialWithdrawals := [⟨0, 1000000000, 0⟩, ⟨1, 1000000000, 0⟩, ⟨2, 1000000000, 0⟩]
  currentJustifiedCheckpoint := ⟨0, 0⟩
  finalizedCheckpoint := ⟨0, 0⟩

/-- On `skippedPartialState` the code skips validator `0`'s entry, withdraws for validator `1`
    and stops, two entries processed; the specification goes on to validator `2`, since it has
    made one withdrawal only, and processes three. -/
theorem getExpectedWithdrawals_stops_on_processed :
    getExpectedWithdrawals ChainSpec.minimal skippedPartialState =
      some ([⟨0, 1, List.replicate 20 0, 1000000000⟩], 2) ∧
    Spec.getExpectedWithdrawals ChainSpec.minimal skippedPartialState =
      some ([⟨0, 1, List.replicate 20 0, 1000000000⟩, ⟨1, 2, List.replicate 20 0, 1000000000⟩], 3) := by
  constructor <;> decide

end LambdaEthereumConsensus.StateTransition
