import LambdaEthereumConsensus.StateTransition.ProposerSlashing
import LambdaEthereumConsensus.StateTransition.RegistryUpdates
import LambdaEthereumConsensus.StateTransition.Withdrawals

/-
  LambdaEthereumConsensus.StateTransition.WithdrawalRequests — the operations of a block that
  exit a validator or queue a partial withdrawal: `process_withdrawal_request/2` with
  `find_validator/2`, `invalid_withdrawal_credentials?/2`, `partial_withdrawal_on_full_queue?/2`
  and the three clauses of `handle_valid_withdrawal_request/6`, `process_voluntary_exit/2`, and
  `for_ops/4`, which runs one kind of operation of `process_operations/2`
  (`state_transition/operations.ex`); and `Mutators.initiate_validator_exit/2` on an index.

  A withdrawal request that fails a check of its `with` leaves the state as it is; a full exit
  goes through `initiate_validator_exit/2`; a partial one takes the exit churn of what it
  withdraws and appends a pending partial withdrawal. The signing root of a voluntary exit
  (`Misc.compute_domain/2` and `Misc.compute_signing_root/2`) and the BLS NIF are parameters.

  Proved: what a request can do, with the guards of each outcome (`processWithdrawalRequest_cases`);
  that the exit churn never moves the earliest exit epoch back (`computeExitEpochAndUpdateChurn_le`);
  and that a partial withdrawal request queues a positive amount, at most the requested one, for a
  validator of the request's key, and leaves that validator's balance covering
  `MIN_ACTIVATION_BALANCE` and everything it has pending
  (`processWithdrawalRequest_queues_within_excess`).
-/

namespace LambdaEthereumConsensus.StateTransition

open LambdaEthereumConsensus.Bls

/-! ## Presets and operations -/

/-- The presets the withdrawal requests and voluntary exits read beyond the registry's. -/
structure RequestSpec extends RegistrySpec where
  pendingPartialWithdrawalsLimit : Nat
  shardCommitteePeriod : Nat

/-- `config/presets/mainnet` and `config/networks/mainnet/config.yaml`. -/
def RequestSpec.mainnet : RequestSpec :=
  { RegistrySpec.mainnet with
    pendingPartialWithdrawalsLimit := 134217728
    shardCommitteePeriod := 256 }

/-- `config/presets/minimal` and `config/networks/minimal/config.yaml`. -/
def RequestSpec.minimal : RequestSpec :=
  { RegistrySpec.minimal with
    pendingPartialWithdrawalsLimit := 64
    shardCommitteePeriod := 64 }

/-- `Constants.full_exit_request_amount/0`. -/
def fullExitRequestAmount : Nat := 0

/-- `%Types.WithdrawalRequest{}`. -/
structure WithdrawalRequest where
  sourceAddress : List UInt8
  validatorPubkey : List UInt8
  amount : Nat
  deriving DecidableEq, Repr

/-- `%Types.VoluntaryExit{}`. -/
structure VoluntaryExit where
  epoch : Nat
  validatorIndex : Nat
  deriving DecidableEq, Repr

/-- `%Types.SignedVoluntaryExit{}`. -/
structure SignedVoluntaryExit where
  message : VoluntaryExit
  signature : List UInt8
  deriving DecidableEq, Repr

/-- The three clauses of `handle_valid_withdrawal_request/6`. -/
inductive WithdrawalRequestType where
  | fullExit
  | fullExitWithPendingBalance
  | partialExit
  deriving DecidableEq, Repr

/-! ## The code -/

/-- `find_validator/2`: the first validator of the key, with its index. -/
def findValidator (state : BeaconState) (requestPubkey : List UInt8) : Option (Validator × Nat) :=
  (state.validators.findIdx? (·.pubkey == requestPubkey)).bind fun index =>
    state.validators[index]?.map (·, index)

/-- `invalid_withdrawal_credentials?/2`: not an execution credential naming `address`; the
    credential's prefix is read first, and an empty binary fails its match. -/
def invalidWithdrawalCredentials? (validator : Validator) (address : List UInt8) : Option Bool := do
  let hasCorrectCredential ← validator.hasExecutionWithdrawalCredential
  let isCorrectSourceAddress :=
    match executionAddress validator.withdrawalCredentials with
    | some validatorAddress => validatorAddress == address
    | none => false
  pure !(hasCorrectCredential && isCorrectSourceAddress)

section Code

variable (spec : RequestSpec)

/-- `partial_withdrawal_on_full_queue?/2`. -/
def partialWithdrawalOnFullQueue? (state : BeaconState) (isFullExitRequest : Bool) : Bool :=
  state.pendingPartialWithdrawals.length == spec.pendingPartialWithdrawalsLimit && !isFullExitRequest

/-- `Mutators.initiate_validator_exit/2` on an index: `Aja.Vector.at!/2` raises past the end. -/
def initiateValidatorExitAt (state : ChurnState) (index : Nat) : ExceptT String Option (ChurnState × Validator) := do
  let validator ← (state.validators[index]? : Option Validator)
  initiateValidatorExit spec.toRegistrySpec state validator

/-- `handle_valid_withdrawal_request/6`. -/
def handleValidWithdrawalRequest (state : ChurnState) (validator : Validator)
    (validatorIndex amount pendingBalanceToWithdraw : Nat) :
    WithdrawalRequestType → ExceptT String Option ChurnState
  | .fullExit => do
    let (state, validator) ← initiateValidatorExitAt spec state validatorIndex
    pure { state with validators := state.validators.set validatorIndex validator }
  | .fullExitWithPendingBalance => pure state
  | .partialExit => do
    let minActivationBalance := spec.minActivationBalance
    let hasSufficientEffectiveBalance := decide (validator.effectiveBalance ≥ minActivationBalance)
    -- `Aja.Vector.at/2` is `nil` past the end, above every number in Erlang's term order
    let balance := state.balances[validatorIndex]?
    let hasExcessBalance := balance.all (minActivationBalance + pendingBalanceToWithdraw < ·)
    if (← validator.hasCompoundingWithdrawalCredential) && hasSufficientEffectiveBalance && hasExcessBalance then
      let balance ← balance
      let toWithdraw := min (balance - minActivationBalance - pendingBalanceToWithdraw) amount
      let state ← computeExitEpochAndUpdateChurn spec.toChurnSpec state toWithdraw
      let exitQueueEpoch := state.earliestExitEpoch
      let withdrawableEpoch := exitQueueEpoch + spec.minValidatorWithdrawabilityDelay
      let pendingPartialWithdrawal : PendingPartialWithdrawal := ⟨validatorIndex, toWithdraw, withdrawableEpoch.toNat⟩
      pure { state with pendingPartialWithdrawals := state.pendingPartialWithdrawals ++ [pendingPartialWithdrawal] }
    else pure state

/-- `process_withdrawal_request/2`: every clause of its `with` that does not match falls to
    `{:ok, state}`. -/
def processWithdrawalRequest (state : ChurnState) (withdrawalRequest : WithdrawalRequest) :
    ExceptT String Option ChurnState := do
  let amount := withdrawalRequest.amount
  let isFullExitRequest := amount == fullExitRequestAmount
  let currentEpoch := state.currentEpoch spec.toChainSpec
  if partialWithdrawalOnFullQueue? spec state.toBeaconState isFullExitRequest then pure state
  else
    match findValidator state.toBeaconState withdrawalRequest.validatorPubkey with
    | none => pure state
    | some (validator, validatorIndex) =>
      let invalid ← invalidWithdrawalCredentials? validator withdrawalRequest.sourceAddress
      if !invalid && validator.active? currentEpoch && validator.exitEpoch == farFutureEpoch &&
          decide (currentEpoch ≥ validator.activationEpoch + spec.shardCommitteePeriod) then
        let pendingBalanceToWithdraw := getPendingBalanceToWithdraw state.toBeaconState validatorIndex
        let withdrawalRequestType :=
          if isFullExitRequest && pendingBalanceToWithdraw == 0 then WithdrawalRequestType.fullExit
          else if isFullExitRequest then .fullExitWithPendingBalance
          else .partialExit
        handleValidWithdrawalRequest spec state validator validatorIndex amount pendingBalanceToWithdraw
          withdrawalRequestType
      else pure state

/-- `process_voluntary_exit/2`, with the signing root of the exit and the BLS NIF as parameters. -/
def processVoluntaryExit (verify : List UInt8 → List UInt8 → List UInt8 → Except String Bool)
    (signingRoot : BeaconState → VoluntaryExit → List UInt8) (state : ChurnState)
    (signedVoluntaryExit : SignedVoluntaryExit) : ExceptT String Option ChurnState :=
  let voluntaryExit := signedVoluntaryExit.message
  let validatorIndex := voluntaryExit.validatorIndex
  let currentEpoch := state.currentEpoch spec.toChainSpec
  -- `state.validators[i]` is `nil` past the end, which the first check rules out
  match state.validators[validatorIndex]? with
  | none => throw "invalid index"
  | some validator =>
    if !indicesAvailable? state.validators.length [validatorIndex] then throw "invalid index"
    else if !validator.active? currentEpoch then throw "validator not active"
    else if validator.exitEpoch ≠ farFutureEpoch then throw "validator already exiting"
    else if currentEpoch < voluntaryExit.epoch then throw "exit not valid yet"
    else if currentEpoch < validator.activationEpoch + spec.shardCommitteePeriod then throw "validator cannot exit yet"
    else if getPendingBalanceToWithdraw state.toBeaconState voluntaryExit.validatorIndex ≠ 0 then
      throw "validator has pending withdrawals in the queue"
    else if !valid? verify validator.pubkey (signingRoot state.toBeaconState voluntaryExit) signedVoluntaryExit.signature then
      throw "invalid signature"
    else do
      let (state, validator) ← initiateValidatorExitAt spec state validatorIndex
      pure { state with validators := state.validators.set validatorIndex validator }

end Code

/-- `for_ops/4`: the operations one after another from `acc`, halting at the first
    `{:error, _}`. -/
def forOps {σ α : Type} (acc : ExceptT String Option σ) (operations : List α)
    (func : σ → α → ExceptT String Option σ) : ExceptT String Option σ := do
  operations.foldlM func (← acc)

/-! ## What the operations do -/

/-- An entry appended to the queue adds its amount to its own validator's pending balance. -/
theorem getPendingBalanceToWithdraw_of_append {state state' : BeaconState} {w : PendingPartialWithdrawal}
    (h : state'.pendingPartialWithdrawals = state.pendingPartialWithdrawals ++ [w]) (index : Nat) :
    getPendingBalanceToWithdraw state' index =
      getPendingBalanceToWithdraw state index + if w.validatorIndex = index then w.amount else 0 := by
  by_cases hw : w.validatorIndex = index <;> simp [getPendingBalanceToWithdraw, h, hw]

/-- `find_validator/2` finds a validator of the key, at its index. -/
theorem findValidator_spec {state : BeaconState} {pubkey : List UInt8} {validator : Validator} {index : Nat}
    (h : findValidator state pubkey = some (validator, index)) :
    state.validators[index]? = some validator ∧ validator.pubkey = pubkey := by
  unfold findValidator at h
  obtain ⟨i, hi, h⟩ := Option.bind_eq_some_iff.mp h
  obtain ⟨v, hv, hpair⟩ := Option.map_eq_some_iff.mp h
  obtain ⟨rfl, rfl⟩ := Prod.mk.inj hpair
  obtain ⟨hlt, hkey, -⟩ := List.findIdx?_eq_some_iff_getElem.mp hi
  obtain rfl : state.validators[i] = v := Option.some.inj ((List.getElem?_eq_getElem hlt).symm.trans hv)
  exact ⟨hv, by simpa using hkey⟩

section Requests

variable {spec : RequestSpec}

/-- `initiate_validator_exit/2` on an index: the validator there, through the exit churn. -/
theorem initiateValidatorExitAt_le {state state' : ChurnState} {index : Nat} {validator' : Validator}
    (h : (initiateValidatorExitAt spec state index).run = some (.ok (state', validator'))) :
    state' = { state with
      exitBalanceToConsume := state'.exitBalanceToConsume
      earliestExitEpoch := state'.earliestExitEpoch } ∧
    state.earliestExitEpoch ≤ state'.earliestExitEpoch := by
  simp only [initiateValidatorExitAt, Fallible.run_bind_lift, Option.bind_eq_some_iff] at h
  obtain ⟨validator, -, h⟩ := h
  exact initiateValidatorExit_le h

/-- The partial-exit clause of `handle_valid_withdrawal_request/6`: the state as it is, or, from a
    balance above `MIN_ACTIVATION_BALANCE` and what is pending, the smaller of the excess and the
    amount taken through the exit churn and queued, withdrawable the withdrawability delay after
    the exit queue's epoch. -/
theorem handleValidWithdrawalRequest_partialExit {state state' : ChurnState} {validator : Validator}
    {index amount pending : Nat}
    (h : (handleValidWithdrawalRequest spec state validator index amount pending .partialExit).run =
      some (.ok state')) :
    state' = state ∨ ∃ balance churnState, state.balances[index]? = some balance ∧
      spec.minActivationBalance + pending < balance ∧
      computeExitEpochAndUpdateChurn spec.toChurnSpec state (min (balance - spec.minActivationBalance - pending) amount) =
        some churnState ∧
      state' = { churnState with
        pendingPartialWithdrawals := churnState.pendingPartialWithdrawals ++
          [⟨index, min (balance - spec.minActivationBalance - pending) amount,
            (churnState.earliestExitEpoch + spec.minValidatorWithdrawabilityDelay).toNat⟩] } := by
  simp only [handleValidWithdrawalRequest, Fallible.run_bind_lift, Option.bind_eq_some_iff] at h
  obtain ⟨compounding, -, h⟩ := h
  split at h
  · rename_i hcheck
    simp only [Fallible.run_bind_lift, Option.bind_eq_some_iff] at h
    obtain ⟨balance, hbalance, churnState, hchurn, h⟩ := h
    simp only [ExceptT.run_pure, Option.pure_def, Option.some.injEq, Except.ok.injEq] at h
    -- the balance past the end would be `nil`; here it is a number above the minimum and the pending
    have hexcess : spec.minActivationBalance + pending < balance := by
      simp only [hbalance, Bool.and_eq_true, decide_eq_true_eq, Option.all_some] at hcheck
      exact hcheck.2
    exact .inr ⟨balance, churnState, hbalance, hexcess, hchurn, h.symm⟩
  · simp only [ExceptT.run_pure, Option.pure_def, Option.some.injEq, Except.ok.injEq] at h
    exact .inl h.symm

/-- The full-exit clause of `handle_valid_withdrawal_request/6`: the validator at the index exits
    through `initiate_validator_exit/2`, and is written back. -/
theorem handleValidWithdrawalRequest_fullExit {state state' : ChurnState} {validator : Validator}
    {index amount pending : Nat}
    (h : (handleValidWithdrawalRequest spec state validator index amount pending .fullExit).run = some (.ok state')) :
    ∃ churnState exited, (initiateValidatorExitAt spec state index).run = some (.ok (churnState, exited)) ∧
      state' = { churnState with validators := churnState.validators.set index exited } := by
  obtain ⟨⟨churnState, exited⟩, hexit, h⟩ := Fallible.run_bind_eq_ok.mp h
  simp only [ExceptT.run_pure, Option.pure_def, Option.some.injEq, Except.ok.injEq] at h
  exact ⟨churnState, exited, hexit, h.symm⟩

/-- What a withdrawal request can do: leave the state as it is; exit the validator of its key through
    `initiate_validator_exit/2`; or, asking for a part with room in the queue and a balance above
    `MIN_ACTIVATION_BALANCE` and what is pending, take the smaller of the excess and the amount
    through the exit churn and queue it, withdrawable the withdrawability delay after the exit
    queue's epoch. -/
theorem processWithdrawalRequest_cases {state state' : ChurnState} {request : WithdrawalRequest}
    (h : (processWithdrawalRequest spec state request).run = some (.ok state')) :
    state' = state ∨
    (∃ validator index churnState exited,
      findValidator state.toBeaconState request.validatorPubkey = some (validator, index) ∧
      (initiateValidatorExitAt spec state index).run = some (.ok (churnState, exited)) ∧
      state' = { churnState with validators := churnState.validators.set index exited }) ∨
    (∃ validator index balance churnState,
      findValidator state.toBeaconState request.validatorPubkey = some (validator, index) ∧
      request.amount ≠ fullExitRequestAmount ∧
      state.pendingPartialWithdrawals.length ≠ spec.pendingPartialWithdrawalsLimit ∧
      state.balances[index]? = some balance ∧
      spec.minActivationBalance + getPendingBalanceToWithdraw state.toBeaconState index < balance ∧
      computeExitEpochAndUpdateChurn spec.toChurnSpec state
        (min (balance - spec.minActivationBalance - getPendingBalanceToWithdraw state.toBeaconState index)
          request.amount) = some churnState ∧
      state' = { churnState with
        pendingPartialWithdrawals := churnState.pendingPartialWithdrawals ++
          [⟨index, min (balance - spec.minActivationBalance - getPendingBalanceToWithdraw state.toBeaconState index)
              request.amount,
            (churnState.earliestExitEpoch + spec.minValidatorWithdrawabilityDelay).toNat⟩] }) := by
  unfold processWithdrawalRequest at h
  dsimp only at h
  split at h
  · simp only [ExceptT.run_pure, Option.pure_def, Option.some.injEq, Except.ok.injEq] at h
    exact .inl h.symm
  rename_i hroom
  split at h
  · simp only [ExceptT.run_pure, Option.pure_def, Option.some.injEq, Except.ok.injEq] at h
    exact .inl h.symm
  rename_i validator index hfind
  simp only [Fallible.run_bind_lift, Option.bind_eq_some_iff] at h
  obtain ⟨invalid, -, h⟩ := h
  split at h
  swap
  · simp only [ExceptT.run_pure, Option.pure_def, Option.some.injEq, Except.ok.injEq] at h
    exact .inl h.symm
  -- past the checks, the request's type picks the clause
  split at h
  · obtain ⟨churnState, exited, hexit, rfl⟩ := handleValidWithdrawalRequest_fullExit h
    exact .inr (.inl ⟨validator, index, churnState, exited, hfind, hexit, rfl⟩)
  split at h
  · simp only [handleValidWithdrawalRequest, ExceptT.run_pure, Option.pure_def, Option.some.injEq,
      Except.ok.injEq] at h
    exact .inl h.symm
  rename_i hpartial
  rcases handleValidWithdrawalRequest_partialExit h with rfl | ⟨balance, churnState, hbalance, hexcess, hchurn, rfl⟩
  · exact .inl rfl
  have hamount : request.amount ≠ fullExitRequestAmount := by simpa using hpartial
  have hlength : state.pendingPartialWithdrawals.length ≠ spec.pendingPartialWithdrawalsLimit := by
    simpa [partialWithdrawalOnFullQueue?, hamount] using hroom
  exact .inr (.inr ⟨validator, index, balance, churnState, hfind, hamount, hlength, hbalance, hexcess, hchurn, rfl⟩)

/-- A withdrawal request never touches a balance, and the one entry it may add to the queue is of
    a validator of the request's key: a positive amount, at most the one asked for, after which
    the validator's balance still covers `MIN_ACTIVATION_BALANCE` and everything it has pending. -/
theorem processWithdrawalRequest_queues_within_excess {state state' : ChurnState} {request : WithdrawalRequest}
    (h : (processWithdrawalRequest spec state request).run = some (.ok state')) :
    state'.balances = state.balances ∧
    (state'.pendingPartialWithdrawals = state.pendingPartialWithdrawals ∨
      ∃ w : PendingPartialWithdrawal, state'.pendingPartialWithdrawals = state.pendingPartialWithdrawals ++ [w] ∧
        0 < w.amount ∧ w.amount ≤ request.amount ∧
        state.validators[w.validatorIndex]?.map (·.pubkey) = some request.validatorPubkey ∧
        ∃ balance, state.balances[w.validatorIndex]? = some balance ∧
          spec.minActivationBalance + getPendingBalanceToWithdraw state'.toBeaconState w.validatorIndex ≤ balance) := by
  rcases processWithdrawalRequest_cases h with rfl | ⟨validator, index, churnState, exited, -, hexit, rfl⟩ |
    ⟨validator, index, balance, churnState, hfind, hamount, -, hbalance, hexcess, hchurn, rfl⟩
  · exact ⟨rfl, .inl rfl⟩
  · -- a full exit writes the validator and the exit churn only
    have hframe := (initiateValidatorExitAt_le hexit).1
    refine ⟨?_, .inl ?_⟩
    · show churnState.balances = state.balances
      rw [hframe]
    · show churnState.pendingPartialWithdrawals = state.pendingPartialWithdrawals
      rw [hframe]
  · have hframe := (computeExitEpochAndUpdateChurn_le hchurn).1
    have hbalances : churnState.balances = state.balances := by rw [hframe]
    have hqueue : churnState.pendingPartialWithdrawals = state.pendingPartialWithdrawals := by rw [hframe]
    obtain ⟨hvalidator, hpubkey⟩ := findValidator_spec hfind
    generalize hpending : getPendingBalanceToWithdraw state.toBeaconState index = pending at hexcess ⊢
    have hqueued : 0 < min (balance - spec.minActivationBalance - pending) request.amount :=
      Nat.lt_min.mpr ⟨by omega, Nat.pos_of_ne_zero hamount⟩
    refine ⟨hbalances, .inr ⟨_, by rw [← hqueue], hqueued, Nat.min_le_right _ _,
      by simp [hvalidator, hpubkey], balance, hbalance, ?_⟩⟩
    -- what is pending grows by the amount queued, which is at most the excess
    rw [getPendingBalanceToWithdraw_of_append (by exact congrArg (· ++ _) hqueue), if_pos rfl, hpending]
    have hexcess' := Nat.min_le_left (balance - spec.minActivationBalance - pending) request.amount
    dsimp only
    omega
/-- One compounding validator of 40 ETH with 1 ETH already pending, at epoch 64, the end of its
    shard committee period on the minimal preset. -/
def compoundingValidatorState : ChurnState where
  slot := 512
  validators := [⟨[7], [2, 0, 0, 0, 0, 0, 0, 0, 0, 0, 0, 0, 5], 32000000000, false, 0, farFutureEpoch, farFutureEpoch⟩]
  balances := [40000000000]
  previousEpochParticipation := [0]
  currentEpochParticipation := [0]
  nextWithdrawalIndex := 0
  nextWithdrawalValidatorIndex := 0
  pendingPartialWithdrawals := [⟨0, 1000000000, 0⟩]
  currentJustifiedCheckpoint := ⟨0, 0⟩
  finalizedCheckpoint := ⟨0, 0⟩
  exitBalanceToConsume := 0
  earliestExitEpoch := 0
  consolidationBalanceToConsume := 0
  earliestConsolidationEpoch := 0
  pendingConsolidations := []

/-- It after a request for 5 ETH: 5 ETH queued, withdrawable at epoch 325, the activation-exit epoch
    69 and the withdrawability delay of 256, out of a fresh churn of 64 ETH. -/
def compoundingValidatorQueued : ChurnState :=
  { compoundingValidatorState with
    pendingPartialWithdrawals := [⟨0, 1000000000, 0⟩, ⟨0, 5000000000, 325⟩]
    exitBalanceToConsume := 59000000000
    earliestExitEpoch := 69 }

/-- The request for 5 ETH, run. -/
theorem processWithdrawalRequest_compoundingValidatorState :
    (processWithdrawalRequest RequestSpec.minimal compoundingValidatorState ⟨[5], [7], 5000000000⟩).run =
      some (.ok compoundingValidatorQueued) := by
  decide

theorem processWithdrawalRequest_queues_within_excess_compounding :
    (processWithdrawalRequest RequestSpec.minimal compoundingValidatorState ⟨[5], [7], 5000000000⟩).run =
        some (.ok compoundingValidatorQueued) ∧
      compoundingValidatorQueued.balances = compoundingValidatorState.balances ∧
      (compoundingValidatorQueued.pendingPartialWithdrawals = compoundingValidatorState.pendingPartialWithdrawals ∨
        ∃ w : PendingPartialWithdrawal,
          compoundingValidatorQueued.pendingPartialWithdrawals = compoundingValidatorState.pendingPartialWithdrawals ++ [w] ∧
          0 < w.amount ∧ w.amount ≤ 5000000000 ∧
          compoundingValidatorState.validators[w.validatorIndex]?.map (·.pubkey) = some [7] ∧
          ∃ balance, compoundingValidatorState.balances[w.validatorIndex]? = some balance ∧
            RequestSpec.minimal.minActivationBalance +
              getPendingBalanceToWithdraw compoundingValidatorQueued.toBeaconState w.validatorIndex ≤ balance) :=
  ⟨processWithdrawalRequest_compoundingValidatorState,
    processWithdrawalRequest_queues_within_excess processWithdrawalRequest_compoundingValidatorState⟩

/-- A voluntary exit that goes through exits the validator at its index through
    `initiate_validator_exit/2`, and writes it back. -/
theorem processVoluntaryExit_exits {verify : List UInt8 → List UInt8 → List UInt8 → Except String Bool}
    {signingRoot : BeaconState → VoluntaryExit → List UInt8} {state state' : ChurnState}
    {signedVoluntaryExit : SignedVoluntaryExit}
    (h : (processVoluntaryExit spec verify signingRoot state signedVoluntaryExit).run = some (.ok state')) :
    ∃ churnState exited,
      (initiateValidatorExitAt spec state signedVoluntaryExit.message.validatorIndex).run = some (.ok (churnState, exited)) ∧
      state' = { churnState with
        validators := churnState.validators.set signedVoluntaryExit.message.validatorIndex exited } := by
  unfold processVoluntaryExit at h
  dsimp only at h
  split at h
  · cases h
  -- every check that fails throws; past them the validator exits
  split_ifs at h <;> try cases h
  obtain ⟨⟨churnState, exited⟩, hexit, h⟩ := Fallible.run_bind_eq_ok.mp h
  simp only [ExceptT.run_pure, Option.pure_def, Option.some.injEq, Except.ok.injEq] at h
  exact ⟨churnState, exited, hexit, h.symm⟩

end Requests

end LambdaEthereumConsensus.StateTransition
