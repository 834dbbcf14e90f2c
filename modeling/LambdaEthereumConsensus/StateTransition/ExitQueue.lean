import LambdaEthereumConsensus.Queue.Ordered
import LambdaEthereumConsensus.StateTransition.WithdrawalRequests

/-
  LambdaEthereumConsensus.StateTransition.ExitQueue — the queue of pending partial withdrawals and
  the exit churn across every operation of the state transition.

  Three functions of the code write `pending_partial_withdrawals`, `earliest_exit_epoch` and
  `exit_balance_to_consume`: `process_withdrawal_request/2` appends to the queue,
  `process_withdrawals/2` drops its front, and `compute_exit_epoch_and_update_churn/2` moves the
  exit churn; the latter is reached through `initiate_validator_exit/2` from voluntary exits,
  full exit requests, slashings and the registry updates. Every other operation leaves the three
  fields as they are. `ExitStep` is one of these, and the queue's invariant (`ExitQueueInv`) is that
  the withdrawable epochs stand in the order of the queue, none past the earliest exit epoch plus
  `MIN_VALIDATOR_WITHDRAWABILITY_DELAY`, and that the queue keeps to
  `PENDING_PARTIAL_WITHDRAWALS_LIMIT`: `get_expected_withdrawals/1` expects the order ("We expect
  partial withdrawals to be ordered by withdrawable epoch") and nothing checks it.

  Proved: each step keeps the invariant (`exitQueueInv_step`), and so does every run of steps, a
  block's `for_ops/4` over its withdrawal requests among them (`forOps_processWithdrawalRequest`):
  - the queue stays ordered, below the exit churn's epoch, and within its limit
    (`exitStep_keeps_queue_ordered`);
  - so `process_withdrawals/2`, which stops at the first pending partial withdrawal not yet due,
    leaves none due behind it, unless it took as many as `MAX_PENDING_PARTIALS_PER_WITHDRAWALS_SWEEP`
    (`processWithdrawals_leaves_none_due`).
-/

namespace LambdaEthereumConsensus.StateTransition

open Queue

/-! ## The invariant and the steps -/

section Steps

variable (spec : RequestSpec)

/-- The withdrawable epoch of a pending partial withdrawal, as the exit churn's epochs are:
    an Elixir integer. -/
def withdrawableKey (withdrawal : PendingPartialWithdrawal) : Int := withdrawal.withdrawableEpoch

/-- The queue of pending partial withdrawals in the order of their withdrawable epochs, none past
    the earliest exit epoch and the withdrawability delay, and within its limit. -/
structure ExitQueueInv (state : ChurnState) : Prop where
  ordered : OrderedBelow withdrawableKey (state.earliestExitEpoch + spec.minValidatorWithdrawabilityDelay)
    state.pendingPartialWithdrawals
  length_le : state.pendingPartialWithdrawals.length ≤ spec.pendingPartialWithdrawalsLimit

/-- One operation of the state transition, as it acts on the exit queue: a withdrawal request, a
    voluntary exit, an exit through `initiate_validator_exit/2` (a slashing's first step), the
    registry updates of an epoch, the withdrawals of a payload, or any other operation, which
    leaves the queue and the earliest exit epoch as they are. -/
inductive ExitStep : ChurnState → ChurnState → Prop
  | withdrawalRequest {state state' : ChurnState} (request : WithdrawalRequest) :
      (processWithdrawalRequest spec state request).run = some (.ok state') → ExitStep state state'
  | voluntaryExit {state state' : ChurnState} (verify : List UInt8 → List UInt8 → List UInt8 → Except String Bool)
      (signingRoot : BeaconState → VoluntaryExit → List UInt8) (signedVoluntaryExit : SignedVoluntaryExit) :
      (processVoluntaryExit spec verify signingRoot state signedVoluntaryExit).run = some (.ok state') →
      ExitStep state state'
  | exit {state churnState : ChurnState} {exited : Validator} (index : Nat) :
      (initiateValidatorExitAt spec state index).run = some (.ok (churnState, exited)) →
      ExitStep state { churnState with validators := churnState.validators.set index exited }
  | registryUpdates {state : ChurnState} {final : RegistryState} (activationEligibilityEpochs : Nat → Nat) :
      (processRegistryUpdates spec.toRegistrySpec ⟨state, activationEligibilityEpochs⟩).run = some (.ok final) →
      ExitStep state final.toChurnState
  | withdrawals {state : ChurnState} {state' : BeaconState} (withdrawals : List Withdrawal) :
      processWithdrawals spec.toChainSpec state.toBeaconState withdrawals = some (.ok state') →
      ExitStep state { state with toBeaconState := state' }
  | other {state state' : ChurnState} :
      state'.pendingPartialWithdrawals = state.pendingPartialWithdrawals →
      state'.earliestExitEpoch = state.earliestExitEpoch → ExitStep state state'

end Steps

/-! ## Each step keeps the invariant -/

section Keep

variable {spec : RequestSpec} {state : ChurnState}

/-- A step that keeps the queue and moves the earliest exit epoch forward keeps the invariant. -/
theorem ExitQueueInv.forward (hinv : ExitQueueInv spec state) {state' : ChurnState}
    (hqueue : state'.pendingPartialWithdrawals = state.pendingPartialWithdrawals)
    (hearliest : state.earliestExitEpoch ≤ state'.earliestExitEpoch) : ExitQueueInv spec state' where
  ordered := hqueue ▸ hinv.ordered.mono (by omega)
  length_le := hqueue ▸ hinv.length_le

/-- An exit through `initiate_validator_exit/2` keeps the invariant. -/
theorem ExitQueueInv.exit (hinv : ExitQueueInv spec state) {churnState : ChurnState} {index : Nat}
    {exited : Validator} (h : (initiateValidatorExitAt spec state index).run = some (.ok (churnState, exited))) :
    ExitQueueInv spec { churnState with validators := churnState.validators.set index exited } := by
  obtain ⟨hframe, hearliest⟩ := initiateValidatorExitAt_le h
  refine hinv.forward ?_ hearliest
  show churnState.pendingPartialWithdrawals = state.pendingPartialWithdrawals
  rw [hframe]

/-- A partial withdrawal queued at the exit churn's new epoch, in a queue with room, keeps the
    invariant: the churn moved the epoch forward, to the activation-exit epoch at least. -/
theorem ExitQueueInv.queue (hinv : ExitQueueInv spec state) {churnState : ChurnState} {amount index toWithdraw : Nat}
    (hroom : state.pendingPartialWithdrawals.length ≠ spec.pendingPartialWithdrawalsLimit)
    (hchurn : computeExitEpochAndUpdateChurn spec.toChurnSpec state amount = some churnState) :
    ExitQueueInv spec { churnState with
      pendingPartialWithdrawals := churnState.pendingPartialWithdrawals ++
        [⟨index, toWithdraw, (churnState.earliestExitEpoch + spec.minValidatorWithdrawabilityDelay).toNat⟩] } := by
  obtain ⟨hframe, hearliest⟩ := computeExitEpochAndUpdateChurn_le hchurn
  have hqueue : churnState.pendingPartialWithdrawals = state.pendingPartialWithdrawals := by rw [hframe]
  -- the new epoch is past the activation-exit epoch, so its withdrawable epoch is its own key
  have hkey : withdrawableKey ⟨index, toWithdraw, (churnState.earliestExitEpoch + spec.minValidatorWithdrawabilityDelay).toNat⟩ =
      churnState.earliestExitEpoch + spec.minValidatorWithdrawabilityDelay := by
    have hfloor := le_trans (le_max_right _ _) hearliest
    simp only [withdrawableKey]
    omega
  refine ⟨?_, ?_⟩
  · rw [hqueue]
    exact hinv.ordered.push (by rw [hkey]; omega) hkey.le
  · simp only [List.length_append, List.length_singleton, hqueue]
    have hle := hinv.length_le
    omega

/-- A withdrawal request keeps the invariant. -/
theorem ExitQueueInv.withdrawalRequest (hinv : ExitQueueInv spec state) {state' : ChurnState}
    {request : WithdrawalRequest} (h : (processWithdrawalRequest spec state request).run = some (.ok state')) :
    ExitQueueInv spec state' := by
  rcases processWithdrawalRequest_cases h with rfl | ⟨-, index, churnState, exited, -, hexit, rfl⟩ |
    ⟨-, index, balance, churnState, -, -, hroom, -, -, hchurn, rfl⟩
  · exact hinv
  · exact hinv.exit hexit
  · exact hinv.queue hroom hchurn

/-- The payload's withdrawals take entries off the front of the queue, which keeps it ordered. -/
theorem ExitQueueInv.withdrawals (hinv : ExitQueueInv spec state) {state' : BeaconState}
    {withdrawals : List Withdrawal} (h : processWithdrawals spec.toChainSpec state.toBeaconState withdrawals = some (.ok state')) :
    ExitQueueInv spec { state with toBeaconState := state' } := by
  obtain ⟨-, count, -, hdrop⟩ := processWithdrawals_pendingPartialWithdrawals spec.toChainSpec h
  refine ⟨?_, ?_⟩
  · show OrderedBelow withdrawableKey _ state'.pendingPartialWithdrawals
    rw [hdrop]
    exact hinv.ordered.drop count
  · show state'.pendingPartialWithdrawals.length ≤ _
    rw [hdrop, List.length_drop]
    exact le_trans (Nat.sub_le _ _) hinv.length_le

/-- One step keeps the invariant. -/
theorem exitQueueInv_step (hinv : ExitQueueInv spec state) {state' : ChurnState} (h : ExitStep spec state state') :
    ExitQueueInv spec state' := by
  cases h with
  | withdrawalRequest request h => exact hinv.withdrawalRequest h
  | voluntaryExit verify signingRoot signedVoluntaryExit h =>
    obtain ⟨churnState, exited, hexit, rfl⟩ := processVoluntaryExit_exits h
    exact hinv.exit hexit
  | exit index h => exact hinv.exit h
  | registryUpdates activationEligibilityEpochs h =>
    obtain ⟨hqueue, hearliest⟩ := processRegistryUpdates_le h
    exact hinv.forward hqueue hearliest
  | withdrawals withdrawals h => exact hinv.withdrawals h
  | other hqueue hearliest => exact hinv.forward hqueue hearliest.ge

/-- Every run of steps keeps the invariant. -/
theorem exitQueueInv_run (hinv : ExitQueueInv spec state) {state' : ChurnState}
    (h : Relation.ReflTransGen (ExitStep spec) state state') : ExitQueueInv spec state' := by
  induction h with
  | refl => exact hinv
  | tail _ hstep ih => exact exitQueueInv_step ih hstep

end Keep

/-! ## Runs -/

section Runs

variable {spec : RequestSpec}

/-- A block's withdrawal requests, one after another through `for_ops/4`, are a run of steps. -/
theorem forOps_processWithdrawalRequest {state state' : ChurnState} {requests : List WithdrawalRequest}
    (h : (forOps (pure state) requests (processWithdrawalRequest spec)).run = some (.ok state')) :
    Relation.ReflTransGen (ExitStep spec) state state' := by
  simp only [forOps, pure_bind] at h
  exact Fallible.foldlM_reflTransGen (ExitStep spec)
    (fun request _ state state' hstep => .withdrawalRequest request hstep) h

/-- Across every run of the operations, from a queue ordered below the exit churn's epoch and
    within its limit, the queue of pending partial withdrawals stays in the order of its withdrawable
    epochs, none past the earliest exit epoch and the withdrawability delay, and within
    `PENDING_PARTIAL_WITHDRAWALS_LIMIT`. -/
theorem exitStep_keeps_queue_ordered {start state : ChurnState} (hstart : ExitQueueInv spec start)
    (hrun : Relation.ReflTransGen (ExitStep spec) start state) :
    state.pendingPartialWithdrawals.Pairwise (fun w w' => w.withdrawableEpoch ≤ w'.withdrawableEpoch) ∧
    (∀ w ∈ state.pendingPartialWithdrawals,
      (w.withdrawableEpoch : Int) ≤ state.earliestExitEpoch + spec.minValidatorWithdrawabilityDelay) ∧
    state.pendingPartialWithdrawals.length ≤ spec.pendingPartialWithdrawalsLimit := by
  have hinv := exitQueueInv_run hstart hrun
  refine ⟨hinv.ordered.sorted.imp fun hle => ?_, hinv.ordered.le_clock, hinv.length_le⟩
  simpa [withdrawableKey] using hle

/-- The one compounding validator's queue is ordered below the exit churn. -/
theorem exitQueueInv_compoundingValidatorState : ExitQueueInv RequestSpec.minimal compoundingValidatorState :=
  ⟨⟨List.pairwise_singleton _ _, by simp [compoundingValidatorState, withdrawableKey]⟩, by decide⟩

/-- Its partial withdrawal request is a step. -/
theorem reach_compoundingValidatorQueued :
    Relation.ReflTransGen (ExitStep RequestSpec.minimal) compoundingValidatorState compoundingValidatorQueued :=
  .single (.withdrawalRequest _ processWithdrawalRequest_compoundingValidatorState)

/-- After the request, the queue stays ordered with the new entry at epoch 325. -/
theorem exitStep_keeps_queue_ordered_compounding :
    ExitQueueInv RequestSpec.minimal compoundingValidatorState ∧
      Relation.ReflTransGen (ExitStep RequestSpec.minimal) compoundingValidatorState compoundingValidatorQueued ∧
      compoundingValidatorQueued.pendingPartialWithdrawals.Pairwise
        (fun w w' => w.withdrawableEpoch ≤ w'.withdrawableEpoch) ∧
      (∀ w ∈ compoundingValidatorQueued.pendingPartialWithdrawals,
        (w.withdrawableEpoch : Int) ≤
          compoundingValidatorQueued.earliestExitEpoch + RequestSpec.minimal.minValidatorWithdrawabilityDelay) ∧
      compoundingValidatorQueued.pendingPartialWithdrawals.length ≤ RequestSpec.minimal.pendingPartialWithdrawalsLimit :=
  ⟨exitQueueInv_compoundingValidatorState, reach_compoundingValidatorQueued,
    exitStep_keeps_queue_ordered exitQueueInv_compoundingValidatorState reach_compoundingValidatorQueued⟩

/-- In every state a run reaches, `process_withdrawals/2` leaves no pending partial withdrawal due at
    the current epoch behind the ones it takes, unless it took as many as
    `MAX_PENDING_PARTIALS_PER_WITHDRAWALS_SWEEP`: `get_expected_withdrawals/1` stops at the first one
    not yet due, and the queue's order puts every later one no earlier. -/
theorem processWithdrawals_leaves_none_due {start state : ChurnState} (hstart : ExitQueueInv spec start)
    (hrun : Relation.ReflTransGen (ExitStep spec) start state) {state' : BeaconState} {withdrawals : List Withdrawal}
    (h : processWithdrawals spec.toChainSpec state.toBeaconState withdrawals = some (.ok state')) :
    state'.pendingPartialWithdrawals.length + spec.maxPendingPartialsPerWithdrawalsSweep =
        state.pendingPartialWithdrawals.length ∨
      ∀ w ∈ state'.pendingPartialWithdrawals, state.currentEpoch spec.toChainSpec < w.withdrawableEpoch := by
  have hinv := exitQueueInv_run hstart hrun
  obtain ⟨expected, count, hexpected, hdrop⟩ := processWithdrawals_pendingPartialWithdrawals spec.toChainSpec h
  obtain ⟨hcount, hstop⟩ := getExpectedWithdrawals_count spec.toChainSpec hexpected
  rw [hdrop]
  rcases hstop with hcap | hend | ⟨p, hp, hdue⟩
  · -- the sweep's cap: it took `MAX_PENDING_PARTIALS_PER_WITHDRAWALS_SWEEP` of them
    left
    rw [List.length_drop]
    omega
  · -- the whole queue
    right
    rw [hend, List.drop_length]
    exact fun w hw => absurd hw List.not_mem_nil
  · -- it stopped at `p`, not yet due, and every later entry stands behind it in the queue
    right
    intro w hw
    obtain ⟨j, hj⟩ := List.mem_iff_getElem?.mp hw
    rw [List.getElem?_drop] at hj
    have hlater := hinv.ordered.not_due_of_le (Nat.le_add_right count j) hp hj
      (show ((state.currentEpoch spec.toChainSpec : Nat) : Int) < withdrawableKey p by simpa [withdrawableKey] using hdue)
    simpa [withdrawableKey] using hlater

/-- The queue after the request with its due entry withdrawn: 1 ETH paid out of the balance, and the
    entry not due before epoch 325 left. -/
def compoundingValidatorWithdrawn : BeaconState :=
  { compoundingValidatorQueued.toBeaconState with
    balances := [39000000000]
    nextWithdrawalIndex := 1
    pendingPartialWithdrawals := [⟨0, 5000000000, 325⟩] }

theorem processWithdrawals_leaves_none_due_compounding :
    ExitQueueInv RequestSpec.minimal compoundingValidatorState ∧
      Relation.ReflTransGen (ExitStep RequestSpec.minimal) compoundingValidatorState compoundingValidatorQueued ∧
      processWithdrawals RequestSpec.minimal.toChainSpec compoundingValidatorQueued.toBeaconState
          [⟨0, 0, [5], 1000000000⟩] = some (.ok compoundingValidatorWithdrawn) ∧
      (compoundingValidatorWithdrawn.pendingPartialWithdrawals.length +
          RequestSpec.minimal.maxPendingPartialsPerWithdrawalsSweep =
          compoundingValidatorQueued.pendingPartialWithdrawals.length ∨
        ∀ w ∈ compoundingValidatorWithdrawn.pendingPartialWithdrawals,
          compoundingValidatorQueued.currentEpoch RequestSpec.minimal.toChainSpec < w.withdrawableEpoch) := by
  have hwithdrawals : processWithdrawals RequestSpec.minimal.toChainSpec compoundingValidatorQueued.toBeaconState
      [⟨0, 0, [5], 1000000000⟩] = some (.ok compoundingValidatorWithdrawn) := by
    decide
  exact ⟨exitQueueInv_compoundingValidatorState, reach_compoundingValidatorQueued, hwithdrawals,
    processWithdrawals_leaves_none_due exitQueueInv_compoundingValidatorState reach_compoundingValidatorQueued
      hwithdrawals⟩

end Runs

end LambdaEthereumConsensus.StateTransition
