import LambdaEthereumConsensus.Bls
import LambdaEthereumConsensus.Fallible.List
import LambdaEthereumConsensus.StateTransition.Attestations

/-
  LambdaEthereumConsensus.StateTransition.PendingDeposits — `process_pending_deposits/1`,
  `handle_pending_deposit/7` and `apply_pending_deposit/2` (`state_transition/epoch_processing.ex`),
  with `Mutators.add_validator_to_registry/4`, `Deposit.get_validator_from_deposit/3` and the
  churn limits of `Accessors`; and the specification's `process_pending_deposits`
  (`docs/specs/electra/beacon-chain.md`).

  `Bls.verify/3` and the signing root of a deposit message (`Misc.compute_domain/1`,
  `Misc.compute_signing_root/2`) are parameters. The specification's `apply_pending_deposit`
  reads as the code's: the first validator with the key is credited, a new key with a valid
  signature joins the registry, so both loops call `applyPendingDeposit`.

  `handle_pending_deposit/7` takes the current epoch for the specification's next epoch. A deposit
  to an exited validator whose withdrawable epoch is the current epoch is then postponed, where the
  specification applies it without consuming churn (`processPendingDeposits_postpones_withdrawable`).
  Nothing else differs: on a state where no validator's withdrawable epoch is the current epoch,
  the code returns the specification's state (`processPendingDeposits_eq_spec`), with the same
  deposits applied, the queue's unprocessed suffix followed by the postponed deposits, and the
  churn carried over only when the limit was hit.
-/

namespace LambdaEthereumConsensus.StateTransition

open LambdaEthereumConsensus.Bls

/-- `ChainSpec.get/1` on the Electra presets of the churn and of the deposit queue. -/
structure ElectraSpec extends ChainSpec where
  minPerEpochChurnLimitElectra : Nat
  churnLimitQuotient : Nat
  maxPerEpochActivationExitChurnLimit : Nat
  maxPendingDepositsPerEpoch : Nat

/-- `config/presets/mainnet/electra.yaml` and `config/networks/mainnet/config.yaml`. -/
def ElectraSpec.mainnet : ElectraSpec :=
  { ChainSpec.mainnet with
    minPerEpochChurnLimitElectra := 128000000000
    churnLimitQuotient := 65536
    maxPerEpochActivationExitChurnLimit := 256000000000
    maxPendingDepositsPerEpoch := 16 }

/-- `Constants.genesis_slot/0`. -/
def genesisSlot : Nat := 0

/-- `%Types.PendingDeposit{}`. -/
structure PendingDeposit where
  pubkey : List UInt8
  withdrawalCredentials : List UInt8
  amount : Nat
  signature : List UInt8
  slot : Nat
  deriving DecidableEq, Repr

/-- The beacon state with the fields of the Electra deposit queue, and the inactivity scores
    that `add_validator_to_registry/4` extends with the registry. -/
structure DepositState extends BeaconState where
  inactivityScores : List Nat
  eth1DepositIndex : Nat
  depositRequestsStartIndex : Nat
  depositBalanceToConsume : Nat
  pendingDeposits : List PendingDeposit
  deriving DecidableEq, Repr

/-! ## Churn and the registry -/

/-- `Accessors.get_balance_churn_limit/1`. -/
def getBalanceChurnLimit (spec : ElectraSpec) (state : BeaconState) : Nat :=
  let churn := max spec.minPerEpochChurnLimitElectra (getTotalActiveBalance spec.toChainSpec state / spec.churnLimitQuotient)
  churn - churn % spec.effectiveBalanceIncrement

/-- `Accessors.get_activation_exit_churn_limit/1`. -/
def getActivationExitChurnLimit (spec : ElectraSpec) (state : BeaconState) : Nat :=
  min spec.maxPerEpochActivationExitChurnLimit (getBalanceChurnLimit spec state)

/-- `Deposit.get_validator_from_deposit/3`: a validator of far-future epochs whose effective
    balance is the amount down to an increment, at most its credentials' maximum;
    `get_max_effective_balance/1` raises on empty credentials. -/
def getValidatorFromDeposit (spec : ChainSpec) (pubkey withdrawalCredentials : List UInt8) (amount : Nat) :
    Option Validator := do
  let validator : Validator := ⟨pubkey, withdrawalCredentials, 0, false, farFutureEpoch, farFutureEpoch, farFutureEpoch⟩
  let maxEffectiveBalance ← validator.getMaxEffectiveBalance spec
  pure { validator with effectiveBalance := min (amount - amount % spec.effectiveBalanceIncrement) maxEffectiveBalance }

/-- `Mutators.add_validator_to_registry/4`. -/
def addValidatorToRegistry (spec : ChainSpec) (state : DepositState) (pubkey withdrawalCredentials : List UInt8)
    (amount : Nat) : Option DepositState := do
  let validator ← getValidatorFromDeposit spec pubkey withdrawalCredentials amount
  pure { state with
    validators := state.validators ++ [validator]
    balances := state.balances ++ [amount]
    previousEpochParticipation := state.previousEpochParticipation ++ [0]
    currentEpochParticipation := state.currentEpochParticipation ++ [0]
    inactivityScores := state.inactivityScores ++ [0] }

section Apply

variable (spec : ChainSpec) (verify : List UInt8 → List UInt8 → List UInt8 → Except String Bool)
  (depositSigningRoot : List UInt8 → List UInt8 → Nat → List UInt8)

/-- `DepositMessage.valid_deposit_signature?/4`. -/
def validDepositSignature? (pubkey withdrawalCredentials : List UInt8) (amount : Nat) (signature : List UInt8) : Bool :=
  valid? verify pubkey (depositSigningRoot pubkey withdrawalCredentials amount) signature

/-- `apply_pending_deposit/2`: the first validator with the key is credited
    (`BeaconState.increase_balance/3`), a new key with a valid signature joins the registry, and
    any other deposit is dropped. -/
def applyPendingDeposit (state : DepositState) (deposit : PendingDeposit) : Option DepositState :=
  match state.validators.findIdx? (·.pubkey = deposit.pubkey) with
  | some index => do
    let balances ← updateAt! state.balances index (· + deposit.amount)
    pure { state with balances }
  | none =>
    if validDepositSignature? verify depositSigningRoot deposit.pubkey deposit.withdrawalCredentials deposit.amount
        deposit.signature then
      addValidatorToRegistry spec state deposit.pubkey deposit.withdrawalCredentials deposit.amount
    else some state

end Apply

/-! ## The code -/

/-- Whether the first validator with a key has exited, and whether it is withdrawable before
    `nextEpoch`; `false` for both without one (the `case Enum.find(...)` of
    `handle_pending_deposit/7`, the `if deposit.pubkey in validator_pubkeys` of the
    specification). -/
def validatorExitedWithdrawn (validators : List Validator) (pubkey : List UInt8) (nextEpoch : Nat) : Bool × Bool :=
  match validators.find? (·.pubkey = pubkey) with
  | some validator => (decide (validator.exitEpoch < farFutureEpoch), decide (validator.withdrawableEpoch < nextEpoch))
  | none => (false, false)


/-- The accumulator of the `Enum.reduce_while/3` of `process_pending_deposits/1`. The last
    processed index starts at 0, and a halting deposit leaves the index before its own, so it
    can be -1. -/
structure DepositLoop where
  state : DepositState
  churnLimitReached : Bool
  processedAmount : Nat
  depositsToPostpone : List PendingDeposit
  lastProcessedIndex : Int

section Code

variable (spec : ElectraSpec) (verify : List UInt8 → List UInt8 → List UInt8 → Except String Bool)
  (depositSigningRoot : List UInt8 → List UInt8 → Nat → List UInt8)

/-- `handle_pending_deposit/7`; `next_epoch` is the current epoch. -/
def handlePendingDeposit (deposit : PendingDeposit) (acc : DepositLoop) (index availableForProcessing : Nat) :
    Option (ForInStep DepositLoop) :=
  let nextEpoch := acc.state.currentEpoch spec.toChainSpec
  let (isValidatorExited, isValidatorWithdrawn) :=
    validatorExitedWithdrawn acc.state.validators deposit.pubkey nextEpoch
  if isValidatorWithdrawn then do
    let state ← applyPendingDeposit spec.toChainSpec verify depositSigningRoot acc.state deposit
    pure (.yield { acc with state, lastProcessedIndex := index })
  else if isValidatorExited then
    some (.yield { acc with depositsToPostpone := acc.depositsToPostpone ++ [deposit], lastProcessedIndex := index })
  else if acc.processedAmount + deposit.amount > availableForProcessing then
    some (.done { acc with churnLimitReached := true, lastProcessedIndex := index - 1 })
  else do
    let state ← applyPendingDeposit spec.toChainSpec verify depositSigningRoot acc.state deposit
    pure (.yield { acc with
      state, churnLimitReached := false, processedAmount := acc.processedAmount + deposit.amount
      lastProcessedIndex := index })

/-- One deposit of `process_pending_deposits/1`: a deposit request before the Eth1 bridge
    deposits are in, a deposit after the finalized slot, or the deposit past the epoch's number
    halts; any other goes to `handle_pending_deposit/7`. -/
def processPendingDeposit (finalizedSlot availableForProcessing : Nat) (entry : PendingDeposit × Nat)
    (acc : DepositLoop) : Option (ForInStep DepositLoop) :=
  let (deposit, index) := entry
  if deposit.slot > genesisSlot ∧ acc.state.eth1DepositIndex < acc.state.depositRequestsStartIndex then
    some (.done { acc with lastProcessedIndex := index - 1 })
  else if deposit.slot > finalizedSlot then
    some (.done { acc with lastProcessedIndex := index - 1 })
  else if index ≥ spec.maxPendingDepositsPerEpoch then
    some (.done { acc with lastProcessedIndex := index - 1 })
  else handlePendingDeposit spec verify depositSigningRoot deposit acc index availableForProcessing

/-- `process_pending_deposits/1`; `{:ok, state} = apply_pending_deposit(...)` raises when a new
    validator's credentials are empty, and `increase_balance/3` past the balances. -/
def processPendingDeposits (state : DepositState) : Option DepositState := do
  let availableForProcessing := state.depositBalanceToConsume + getActivationExitChurnLimit spec state.toBeaconState
  let finalizedSlot := computeStartSlotAtEpoch spec.toChainSpec state.finalizedCheckpoint.epoch
  let acc ← forIn state.pendingDeposits.zipIdx (⟨state, false, 0, [], 0⟩ : DepositLoop)
    (processPendingDeposit spec verify depositSigningRoot finalizedSlot availableForProcessing)
  let depositBalanceToConsume := if acc.churnLimitReached then availableForProcessing - acc.processedAmount else 0
  pure { acc.state with
    pendingDeposits := acc.state.pendingDeposits.drop (acc.lastProcessedIndex + 1).toNat ++ acc.depositsToPostpone
    depositBalanceToConsume }

end Code

/-! ## The specification -/

namespace Spec

/-- The loop variables of `process_pending_deposits`. -/
structure DepositLoop where
  state : DepositState
  processedAmount : Nat
  nextDepositIndex : Nat
  depositsToPostpone : List PendingDeposit
  isChurnLimitReached : Bool

section Deposits

variable (spec : ElectraSpec) (verify : List UInt8 → List UInt8 → List UInt8 → Except String Bool)
  (depositSigningRoot : List UInt8 → List UInt8 → Nat → List UInt8)

/-- The `for` loop of `process_pending_deposits`; `break` returns the loop variables. -/
def depositLoop (finalizedSlot availableForProcessing : Nat) : List PendingDeposit → DepositLoop → Option DepositLoop
  | [], acc => some acc
  | deposit :: rest, acc =>
    if deposit.slot > genesisSlot ∧ acc.state.eth1DepositIndex < acc.state.depositRequestsStartIndex then some acc
    else if deposit.slot > finalizedSlot then some acc
    else if acc.nextDepositIndex ≥ spec.maxPendingDepositsPerEpoch then some acc
    else
      let nextEpoch := acc.state.currentEpoch spec.toChainSpec + 1
      let (isValidatorExited, isValidatorWithdrawn) :=
        validatorExitedWithdrawn acc.state.validators deposit.pubkey nextEpoch
      if isValidatorWithdrawn then do
        let state ← applyPendingDeposit spec.toChainSpec verify depositSigningRoot acc.state deposit
        depositLoop finalizedSlot availableForProcessing rest
          { acc with state, nextDepositIndex := acc.nextDepositIndex + 1 }
      else if isValidatorExited then
        depositLoop finalizedSlot availableForProcessing rest
          { acc with depositsToPostpone := acc.depositsToPostpone ++ [deposit], nextDepositIndex := acc.nextDepositIndex + 1 }
      else if acc.processedAmount + deposit.amount > availableForProcessing then
        some { acc with isChurnLimitReached := true }
      else do
        let state ← applyPendingDeposit spec.toChainSpec verify depositSigningRoot acc.state deposit
        depositLoop finalizedSlot availableForProcessing rest
          { acc with state, isChurnLimitReached := false, processedAmount := acc.processedAmount + deposit.amount
                     nextDepositIndex := acc.nextDepositIndex + 1 }

/-- `process_pending_deposits`. -/
def processPendingDeposits (state : DepositState) : Option DepositState := do
  let availableForProcessing := state.depositBalanceToConsume + getActivationExitChurnLimit spec state.toBeaconState
  let finalizedSlot := computeStartSlotAtEpoch spec.toChainSpec state.finalizedCheckpoint.epoch
  let acc ← depositLoop spec verify depositSigningRoot finalizedSlot availableForProcessing state.pendingDeposits
    ⟨state, 0, 0, [], false⟩
  pure { acc.state with
    pendingDeposits := acc.state.pendingDeposits.drop acc.nextDepositIndex ++ acc.depositsToPostpone
    depositBalanceToConsume := if acc.isChurnLimitReached then availableForProcessing - acc.processedAmount else 0 }

end Deposits

end Spec

/-! ## Away from the boundary the code is the specification -/

/-- No validator is withdrawable exactly at the current epoch, which is before the far future. -/
def WithdrawableApart (spec : ChainSpec) (state : DepositState) : Prop :=
  state.currentEpoch spec < farFutureEpoch ∧
    ∀ validator ∈ state.validators, validator.withdrawableEpoch ≠ state.currentEpoch spec

instance (spec : ChainSpec) (state : DepositState) : Decidable (WithdrawableApart spec state) := by
  unfold WithdrawableApart
  infer_instance

/-- Away from the boundary, withdrawable before the next epoch is withdrawable before the
    current one. -/
theorem validatorExitedWithdrawn_succ {spec : ChainSpec} {state : DepositState} (hapart : WithdrawableApart spec state)
    (pubkey : List UInt8) :
    validatorExitedWithdrawn state.validators pubkey (state.currentEpoch spec + 1) =
      validatorExitedWithdrawn state.validators pubkey (state.currentEpoch spec) := by
  unfold validatorExitedWithdrawn
  split
  · rename_i validator hfind
    have hne := hapart.2 validator (List.mem_of_find?_eq_some hfind)
    simp only [Prod.mk.injEq, true_and, decide_eq_decide]
    omega
  · rfl

theorem getValidatorFromDeposit_withdrawableEpoch {spec : ChainSpec} {pubkey withdrawalCredentials : List UInt8}
    {amount : Nat} {validator : Validator} (h : getValidatorFromDeposit spec pubkey withdrawalCredentials amount = some validator) :
    validator.withdrawableEpoch = farFutureEpoch := by
  simp only [getValidatorFromDeposit, Option.bind_eq_bind, Option.bind_eq_some_iff, Option.pure_def,
    Option.some.injEq] at h
  obtain ⟨_, -, rfl⟩ := h
  rfl

/-- `apply_pending_deposit/2` keeps the slot and adds only validators withdrawable in the far
    future. -/
theorem applyPendingDeposit_withdrawableApart {spec : ChainSpec}
    {verify : List UInt8 → List UInt8 → List UInt8 → Except String Bool}
    {depositSigningRoot : List UInt8 → List UInt8 → Nat → List UInt8} {state state' : DepositState}
    {deposit : PendingDeposit} (hapart : WithdrawableApart spec state)
    (h : applyPendingDeposit spec verify depositSigningRoot state deposit = some state') :
    WithdrawableApart spec state' := by
  unfold applyPendingDeposit at h
  split at h
  · simp only [Option.bind_eq_bind, Option.bind_eq_some_iff, Option.pure_def, Option.some.injEq] at h
    obtain ⟨balances, -, rfl⟩ := h
    exact hapart
  · split at h
    · simp only [addValidatorToRegistry, Option.bind_eq_bind, Option.bind_eq_some_iff, Option.pure_def,
        Option.some.injEq] at h
      obtain ⟨validator, hvalidator, rfl⟩ := h
      refine ⟨hapart.1, fun v hv => ?_⟩
      rcases List.mem_append.mp hv with hv | hv
      · exact hapart.2 v hv
      · rw [List.mem_singleton.mp hv, getValidatorFromDeposit_withdrawableEpoch hvalidator]
        exact (Nat.ne_of_lt hapart.1).symm
    · cases h
      exact hapart

/-- The code's accumulator as the specification's loop variables, `n` deposits in. -/
def DepositLoop.toSpec (acc : DepositLoop) (n : Nat) : Spec.DepositLoop :=
  ⟨acc.state, acc.processedAmount, n, acc.depositsToPostpone, acc.churnLimitReached⟩

/-- A mainnet state in epoch 257: validator `0` exited at epoch 1 and is withdrawable at epoch
    257, with 32 ETH, and an Eth1 deposit of 1 ETH for its key waits in the queue. -/
def withdrawableState : DepositState where
  slot := 8224
  validators := [⟨[1], [1], 32000000000, false, 0, 1, 257⟩]
  balances := [32000000000]
  previousEpochParticipation := [0]
  currentEpochParticipation := [0]
  nextWithdrawalIndex := 0
  nextWithdrawalValidatorIndex := 0
  pendingPartialWithdrawals := []
  currentJustifiedCheckpoint := ⟨256, 0⟩
  finalizedCheckpoint := ⟨255, 0⟩
  inactivityScores := [0]
  eth1DepositIndex := 0
  depositRequestsStartIndex := 0
  depositBalanceToConsume := 0
  pendingDeposits := [⟨[1], [1], 1000000000, [], 0⟩]

section Refinement

variable (spec : ElectraSpec) (verify : List UInt8 → List UInt8 → List UInt8 → Except String Bool)
  (depositSigningRoot : List UInt8 → List UInt8 → Nat → List UInt8)

/-- One deposit: the code halts where the specification breaks, leaving the index before its
    own, and goes on where the specification goes on, leaving its own. -/
theorem processPendingDeposit_cases {finalizedSlot availableForProcessing n : Nat} {deposit : PendingDeposit}
    (rest : List PendingDeposit) {acc : DepositLoop} (hapart : WithdrawableApart spec.toChainSpec acc.state) :
    (processPendingDeposit spec verify depositSigningRoot finalizedSlot availableForProcessing (deposit, n) acc = none ∧
      Spec.depositLoop spec verify depositSigningRoot finalizedSlot availableForProcessing (deposit :: rest)
        (acc.toSpec n) = none) ∨
    (∃ acc', processPendingDeposit spec verify depositSigningRoot finalizedSlot availableForProcessing (deposit, n) acc =
        some (.done acc') ∧ acc'.lastProcessedIndex + 1 = n ∧
      Spec.depositLoop spec verify depositSigningRoot finalizedSlot availableForProcessing (deposit :: rest)
        (acc.toSpec n) = some (acc'.toSpec n)) ∨
    (∃ acc', processPendingDeposit spec verify depositSigningRoot finalizedSlot availableForProcessing (deposit, n) acc =
        some (.yield acc') ∧ acc'.lastProcessedIndex = n ∧ WithdrawableApart spec.toChainSpec acc'.state ∧
      Spec.depositLoop spec verify depositSigningRoot finalizedSlot availableForProcessing (deposit :: rest)
        (acc.toSpec n) =
        Spec.depositLoop spec verify depositSigningRoot finalizedSlot availableForProcessing rest (acc'.toSpec (n + 1))) := by
  simp only [processPendingDeposit, Spec.depositLoop, DepositLoop.toSpec]
  by_cases hrequest : deposit.slot > genesisSlot ∧ acc.state.eth1DepositIndex < acc.state.depositRequestsStartIndex
  · simp only [hrequest, and_self, if_true]
    exact .inr (.inl ⟨_, rfl, Int.sub_add_cancel _ _, rfl⟩)
  by_cases hfinalized : deposit.slot > finalizedSlot
  · simp only [hrequest, hfinalized, if_true, if_false]
    exact .inr (.inl ⟨_, rfl, Int.sub_add_cancel _ _, rfl⟩)
  by_cases hlimit : n ≥ spec.maxPendingDepositsPerEpoch
  · simp only [hrequest, hfinalized, hlimit, if_true, if_false]
    exact .inr (.inl ⟨_, rfl, Int.sub_add_cancel _ _, rfl⟩)
  simp only [hrequest, hfinalized, hlimit, if_false, handlePendingDeposit, validatorExitedWithdrawn_succ hapart]
  obtain ⟨exited, withdrawn⟩ := validatorExitedWithdrawn acc.state.validators deposit.pubkey
    (acc.state.currentEpoch spec.toChainSpec)
  cases withdrawn
  · cases exited
    · by_cases hchurn : acc.processedAmount + deposit.amount > availableForProcessing
      · simp only [hchurn, Bool.false_eq_true, if_true, if_false]
        exact .inr (.inl ⟨_, rfl, Int.sub_add_cancel _ _, rfl⟩)
      · simp only [hchurn, Bool.false_eq_true, if_false]
        rcases happly : applyPendingDeposit spec.toChainSpec verify depositSigningRoot acc.state deposit with _ | state
        · exact .inl ⟨rfl, rfl⟩
        · exact .inr (.inr ⟨_, rfl, rfl, applyPendingDeposit_withdrawableApart hapart happly, rfl⟩)
    · simp only [Bool.false_eq_true, if_false, if_true]
      exact .inr (.inr ⟨_, rfl, rfl, hapart, rfl⟩)
  · simp only [if_true]
    rcases happly : applyPendingDeposit spec.toChainSpec verify depositSigningRoot acc.state deposit with _ | state
    · exact .inl ⟨rfl, rfl⟩
    · exact .inr (.inr ⟨_, rfl, rfl, applyPendingDeposit_withdrawableApart hapart happly, rfl⟩)

/-- The code's loop from the deposit at index `n` ends in the specification's loop variables,
    its last processed index one before the specification's next deposit index; induction on
    the deposits left, one `processPendingDeposit_cases` a deposit. -/
theorem forIn_processPendingDeposit {finalizedSlot availableForProcessing : Nat} (deposits : List PendingDeposit) :
    ∀ (n : Nat) (acc : DepositLoop), WithdrawableApart spec.toChainSpec acc.state → acc.lastProcessedIndex + 1 = n →
      (forIn (deposits.zipIdx n) acc
          (processPendingDeposit spec verify depositSigningRoot finalizedSlot availableForProcessing)).map
          (fun acc => acc.toSpec (acc.lastProcessedIndex + 1).toNat) =
        Spec.depositLoop spec verify depositSigningRoot finalizedSlot availableForProcessing deposits (acc.toSpec n) := by
  induction deposits with
  | nil =>
    intro n acc _ hlast
    simp [hlast, Spec.depositLoop]
  | cons deposit rest ih =>
    intro n acc hapart hlast
    rw [List.zipIdx_cons, List.forIn_cons]
    rcases processPendingDeposit_cases spec verify depositSigningRoot rest hapart with
      ⟨hcode, hspec⟩ | ⟨acc', hcode, hlast', hspec⟩ | ⟨acc', hcode, hlast', hapart', hspec⟩
    · rw [hcode, hspec]
      rfl
    · rw [hcode, hspec]
      simp [hlast']
    · rw [hcode, hspec]
      exact ih (n + 1) acc' hapart' (by rw [hlast']; rfl)

/-- On a state where no validator is withdrawable exactly at the current epoch, which is before
    the far future, `process_pending_deposits/1` returns the specification's state. -/
theorem processPendingDeposits_eq_spec {state : DepositState} (hapart : WithdrawableApart spec.toChainSpec state) :
    processPendingDeposits spec verify depositSigningRoot state =
      Spec.processPendingDeposits spec verify depositSigningRoot state := by
  simp only [processPendingDeposits, Spec.processPendingDeposits]
  generalize computeStartSlotAtEpoch spec.toChainSpec state.finalizedCheckpoint.epoch = finalizedSlot
  generalize state.depositBalanceToConsume + getActivationExitChurnLimit spec state.toBeaconState = available
  cases hdeposits : state.pendingDeposits with
  | nil => simp [Spec.depositLoop, hdeposits]
  | cons deposit rest =>
    have hfirst : forIn ((deposit :: rest).zipIdx) (⟨state, false, 0, [], 0⟩ : DepositLoop)
          (processPendingDeposit spec verify depositSigningRoot finalizedSlot available) =
        forIn ((deposit :: rest).zipIdx) ⟨state, false, 0, [], -1⟩
          (processPendingDeposit spec verify depositSigningRoot finalizedSlot available) := by
      rw [List.zipIdx_cons, List.forIn_cons, List.forIn_cons]
      rfl
    have hsim := @forIn_processPendingDeposit spec verify depositSigningRoot finalizedSlot available
      (deposit :: rest) 0 ⟨state, false, 0, [], -1⟩ hapart rfl
    rw [hfirst, show (⟨state, 0, 0, [], false⟩ : Spec.DepositLoop) = DepositLoop.toSpec ⟨state, false, 0, [], -1⟩ 0
      from rfl, ← hsim]
    simp only [Option.bind_eq_bind, Option.bind_map]
    rfl

end Refinement

/-- A validator withdrawable at epoch 256 is away from the boundary of epoch 257: the deposit for
    its key is credited, by the code as by the specification. -/
theorem processPendingDeposits_credits_withdrawn :
    WithdrawableApart ElectraSpec.mainnet.toChainSpec
        { withdrawableState with validators := [⟨[1], [1], 32000000000, false, 0, 1, 256⟩] } ∧
      processPendingDeposits ElectraSpec.mainnet (fun _ _ _ => .ok true) (fun _ _ _ => [])
          { withdrawableState with validators := [⟨[1], [1], 32000000000, false, 0, 1, 256⟩] } =
        Spec.processPendingDeposits ElectraSpec.mainnet (fun _ _ _ => .ok true) (fun _ _ _ => [])
          { withdrawableState with validators := [⟨[1], [1], 32000000000, false, 0, 1, 256⟩] } :=
  have hapart : WithdrawableApart ElectraSpec.mainnet.toChainSpec
      { withdrawableState with validators := [⟨[1], [1], 32000000000, false, 0, 1, 256⟩] } := by decide
  ⟨hapart, processPendingDeposits_eq_spec ElectraSpec.mainnet _ _ hapart⟩

/-! ## Where the code departs from the specification -/

/-- On `withdrawableState` the code postpones the deposit, since 257 is not below the current
    epoch 257, and leaves the state as it was; the specification credits it, since 257 is below
    the next epoch 258, and empties the queue. -/
theorem processPendingDeposits_postpones_withdrawable :
    processPendingDeposits ElectraSpec.mainnet (fun _ _ _ => .ok true) (fun _ _ _ => []) withdrawableState =
      some withdrawableState ∧
    Spec.processPendingDeposits ElectraSpec.mainnet (fun _ _ _ => .ok true) (fun _ _ _ => []) withdrawableState =
      some { withdrawableState with balances := [33000000000], pendingDeposits := [] } := by
  constructor <;> decide

end LambdaEthereumConsensus.StateTransition
