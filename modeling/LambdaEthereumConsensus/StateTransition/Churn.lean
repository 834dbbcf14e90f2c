import LambdaEthereumConsensus.StateTransition.PendingDeposits

/-
  LambdaEthereumConsensus.StateTransition.Churn — the exit and consolidation churn of Electra:
  `Mutators.compute_exit_epoch_and_update_churn/2` and
  `Mutators.compute_consolidation_epoch_and_update_churn/2` (`state_transition/mutators.ex`),
  `Accessors.get_consolidation_churn_limit/1` and the checks of
  `verify_consolidation_request/2` (`state_transition/operations.ex`), its only caller's guard.

  The two mutators are one computation on their own pair of fields (`computeEpochAndUpdateChurn`):
  the earliest epoch moves up to the activation-exit epoch, where a fresh epoch's churn is
  available, and then by as many epochs of churn as the balance needs. The balances are Elixir
  integers, and `div/2` raises on a churn of zero.

  Proved: from a balance left to consume that is not negative, the new earliest epoch is the
  old one (or the activation-exit epoch) plus the least number of epochs whose churn covers the
  balance, and what is left to consume is not negative (`computeEpochAndUpdateChurn_spec`). The
  exit churn is positive on every preset (`getActivationExitChurnLimit_pos`); the consolidation
  churn, a difference of two limits, can be zero, and is positive wherever the request's checks
  pass (`getConsolidationChurnLimit_pos`).
-/

namespace LambdaEthereumConsensus.StateTransition

/-! ## Presets and state -/

/-- The Electra presets with what the churn reads beyond them, and the relations between
    the values that every configuration has: an increment, a quotient and a per-epoch maximum
    that are positive, and a per-epoch minimum of at least one increment. -/
structure ChurnSpec extends ElectraSpec where
  maxSeedLookahead : Nat
  pendingConsolidationsLimit : Nat
  effectiveBalanceIncrement_pos : 0 < effectiveBalanceIncrement
  churnLimitQuotient_pos : 0 < churnLimitQuotient
  effectiveBalanceIncrement_le_minPerEpochChurnLimitElectra : effectiveBalanceIncrement ≤ minPerEpochChurnLimitElectra
  maxPerEpochActivationExitChurnLimit_pos : 0 < maxPerEpochActivationExitChurnLimit

/-- `config/presets/mainnet` and `config/networks/mainnet/config.yaml`. -/
def ChurnSpec.mainnet : ChurnSpec :=
  { ElectraSpec.mainnet with
    maxSeedLookahead := 4
    pendingConsolidationsLimit := 262144
    effectiveBalanceIncrement_pos := by decide
    churnLimitQuotient_pos := by decide
    effectiveBalanceIncrement_le_minPerEpochChurnLimitElectra := by decide
    maxPerEpochActivationExitChurnLimit_pos := by decide }

/-- `config/presets/minimal` and `config/networks/minimal/config.yaml`. -/
def ChurnSpec.minimal : ChurnSpec :=
  { ChainSpec.minimal with
    minPerEpochChurnLimitElectra := 64000000000
    churnLimitQuotient := 32
    maxPerEpochActivationExitChurnLimit := 128000000000
    maxPendingDepositsPerEpoch := 16
    maxSeedLookahead := 4
    pendingConsolidationsLimit := 64
    effectiveBalanceIncrement_pos := by decide
    churnLimitQuotient_pos := Nat.two_pow_pos 5
    effectiveBalanceIncrement_le_minPerEpochChurnLimitElectra := by decide
    maxPerEpochActivationExitChurnLimit_pos := by decide }

/-- `%Types.PendingConsolidation{}`. -/
structure PendingConsolidation where
  sourceIndex : Nat
  targetIndex : Nat
  deriving DecidableEq, Repr

/-- `%Types.ConsolidationRequest{}`. -/
structure ConsolidationRequest where
  sourceAddress : List UInt8
  sourcePubkey : List UInt8
  targetPubkey : List UInt8
  deriving DecidableEq, Repr

/-- The beacon state with the churn fields of Electra, Elixir integers, and the queue of pending
    consolidations. -/
structure ChurnState extends BeaconState where
  exitBalanceToConsume : Int
  earliestExitEpoch : Int
  consolidationBalanceToConsume : Int
  earliestConsolidationEpoch : Int
  pendingConsolidations : List PendingConsolidation
  deriving DecidableEq, Repr

/-! ## The code -/

/-- `Kernel.div/2`: division truncated toward zero, raising on a zero divisor. -/
def kernelDiv (dividend divisor : Int) : Option Int :=
  if divisor = 0 then none else some (dividend.tdiv divisor)

variable (spec : ChurnSpec)

/-- `Misc.compute_activation_exit_epoch/1`. -/
def computeActivationExitEpoch (epoch : Nat) : Nat := epoch + 1 + spec.maxSeedLookahead

/-- `Accessors.get_consolidation_churn_limit/1`. -/
def getConsolidationChurnLimit (state : BeaconState) : Nat :=
  getBalanceChurnLimit spec.toElectraSpec state - getActivationExitChurnLimit spec.toElectraSpec state

/-- The body both churn mutators share, on their own earliest epoch, balance to consume and
    per-epoch churn: the new earliest epoch and balance to consume. -/
def computeEpochAndUpdateChurn (currentEpoch : Nat) (earliestEpoch balanceToConsume : Int)
    (perEpochChurn balance : Nat) : Option (Int × Int) := do
  let earliest : Int := max earliestEpoch (computeActivationExitEpoch spec currentEpoch)
  let toConsume : Int := if earliestEpoch < earliest then perEpochChurn else balanceToConsume
  let (earliest, toConsume) ←
    if (balance : Int) > toConsume then do
      let balanceToProcess := (balance : Int) - toConsume
      let additionalEpochs := (← kernelDiv (balanceToProcess - 1) perEpochChurn) + 1
      pure (earliest + additionalEpochs, toConsume + additionalEpochs * perEpochChurn)
    else pure (earliest, toConsume)
  pure (earliest, toConsume - balance)

/-- `Mutators.compute_exit_epoch_and_update_churn/2`. -/
def computeExitEpochAndUpdateChurn (state : ChurnState) (exitBalance : Nat) : Option ChurnState := do
  let (earliestExitEpoch, exitBalanceToConsume) ←
    computeEpochAndUpdateChurn spec (state.currentEpoch spec.toChainSpec) state.earliestExitEpoch
      state.exitBalanceToConsume (getActivationExitChurnLimit spec.toElectraSpec state.toBeaconState) exitBalance
  pure { state with exitBalanceToConsume, earliestExitEpoch }

/-- `Mutators.compute_consolidation_epoch_and_update_churn/2`. -/
def computeConsolidationEpochAndUpdateChurn (state : ChurnState) (consolidationBalance : Nat) :
    Option ChurnState := do
  let (earliestConsolidationEpoch, consolidationBalanceToConsume) ←
    computeEpochAndUpdateChurn spec (state.currentEpoch spec.toChainSpec) state.earliestConsolidationEpoch
      state.consolidationBalanceToConsume (getConsolidationChurnLimit spec state.toBeaconState) consolidationBalance
  pure { state with consolidationBalanceToConsume, earliestConsolidationEpoch }

/-- The errors of `verify_consolidation_request/2`. -/
inductive ConsolidationRequestError where
  | sourceTargetSame
  | queueFull
  | churnLimitNotMet
  deriving DecidableEq, Repr

/-- `verify_consolidation_request/2`, which `do_process_consolidation_request/3` passes before
    it calls `compute_consolidation_epoch_and_update_churn/2`. -/
def verifyConsolidationRequest (state : ChurnState) (request : ConsolidationRequest) :
    Except ConsolidationRequestError Unit :=
  if request.sourcePubkey = request.targetPubkey then .error .sourceTargetSame
  else if state.pendingConsolidations.length ≥ spec.pendingConsolidationsLimit then .error .queueFull
  else if getConsolidationChurnLimit spec state.toBeaconState ≤ spec.minActivationBalance then .error .churnLimitNotMet
  else .ok ()

/-! ## Ceiling division -/

/-- A positive amount fits in `k` chunks of a positive size exactly when `k` exceeds the
    number of whole chunks below it. -/
theorem le_mul_iff_div_lt {n d k : Nat} (hd : 0 < d) (hn : 0 < n) : n ≤ k * d ↔ (n - 1) / d < k := by
  rw [Nat.div_lt_iff_lt_mul hd]
  omega

/-- The least number of chunks that cover a positive amount. -/
theorem isLeast_chunks {n d : Nat} (hd : 0 < d) (hn : 0 < n) : IsLeast {k | n ≤ k * d} ((n - 1) / d + 1) := by
  refine ⟨?_, fun k hk => ?_⟩
  · show n ≤ ((n - 1) / d + 1) * d
    exact (le_mul_iff_div_lt hd hn).mpr (Nat.lt_succ_self _)
  · exact (le_mul_iff_div_lt hd hn).mp hk

/-! ## The churn limits -/

/-- The balance churn is at least one increment: the minimum is, and rounding down to an
    increment keeps it. -/
theorem getBalanceChurnLimit_pos (state : BeaconState) : 0 < getBalanceChurnLimit spec.toElectraSpec state := by
  have hinc := spec.effectiveBalanceIncrement_pos
  unfold getBalanceChurnLimit
  dsimp only
  generalize hchurn : max spec.minPerEpochChurnLimitElectra
    (getTotalActiveBalance spec.toChainSpec state / spec.churnLimitQuotient) = churn
  have hle : spec.effectiveBalanceIncrement ≤ churn :=
    hchurn ▸ le_max_of_le_left spec.effectiveBalanceIncrement_le_minPerEpochChurnLimitElectra
  have hsplit := Nat.div_add_mod churn spec.effectiveBalanceIncrement
  have hwhole := Nat.mul_pos hinc (Nat.div_pos hle hinc)
  omega

/-- The exit churn is positive on every configuration. -/
theorem getActivationExitChurnLimit_pos (state : BeaconState) :
    0 < getActivationExitChurnLimit spec.toElectraSpec state :=
  lt_min spec.maxPerEpochActivationExitChurnLimit_pos (getBalanceChurnLimit_pos spec state)

/-- Past the checks of a consolidation request, the consolidation churn exceeds the minimum
    activation balance. -/
theorem getConsolidationChurnLimit_pos {state : ChurnState} {request : ConsolidationRequest}
    (h : verifyConsolidationRequest spec state request = .ok ()) :
    spec.minActivationBalance < getConsolidationChurnLimit spec state.toBeaconState := by
  unfold verifyConsolidationRequest at h
  split at h
  · cases h
  · split at h
    · cases h
    · split at h
      · cases h
      · next hchurn => exact Nat.lt_of_not_le hchurn

/-! ## The churn mutators -/

section Mutators

variable {spec}

/-- `Kernel.div/2` of an amount that is not negative by a positive divisor is the natural
    division. -/
theorem kernelDiv_natCast (n : Nat) {d : Nat} (hd : 0 < d) : kernelDiv (n : Int) d = some ((n / d : Nat) : Int) := by
  rw [kernelDiv, if_neg (by omega), Int.tdiv_eq_ediv_of_nonneg (Int.natCast_nonneg n), Int.natCast_div]

/-- From a balance left to consume that is not negative, with a positive churn, the mutators'
    body moves the earliest epoch up to the activation-exit epoch, and then by the least number
    of epochs whose churn covers the balance; what is left to consume is not negative. -/
theorem computeEpochAndUpdateChurn_spec (currentEpoch : Nat) (earliestEpoch : Int) {balanceToConsume : Int}
    (hconsume : 0 ≤ balanceToConsume) {perEpochChurn : Nat} (hchurn : 0 < perEpochChurn) (balance : Nat) :
    let earliest : Int := max earliestEpoch (computeActivationExitEpoch spec currentEpoch)
    let toConsume : Int := if earliestEpoch < earliest then perEpochChurn else balanceToConsume
    ∃ k : Nat, IsLeast {k : Nat | (balance : Int) ≤ toConsume + k * perEpochChurn} k ∧
      computeEpochAndUpdateChurn spec currentEpoch earliestEpoch balanceToConsume perEpochChurn balance =
        some (earliest + k, toConsume + k * perEpochChurn - balance) ∧
      0 ≤ toConsume + k * perEpochChurn - balance := by
  dsimp only
  have hstart : 0 ≤ (if earliestEpoch < max earliestEpoch (computeActivationExitEpoch spec currentEpoch : Int)
      then (perEpochChurn : Int) else balanceToConsume) := by
    split <;> omega
  simp only [computeEpochAndUpdateChurn]
  generalize max earliestEpoch (computeActivationExitEpoch spec currentEpoch : Int) = earliest at hstart ⊢
  generalize (if earliestEpoch < earliest then (perEpochChurn : Int) else balanceToConsume) = toConsume at hstart ⊢
  obtain ⟨m, rfl⟩ := Int.eq_ofNat_of_zero_le hstart
  by_cases hover : (balance : Int) > m
  · -- the balance takes the least number of epochs beyond what is left
    have hn : 0 < balance - m := by omega
    have hdiv : kernelDiv ((balance : Int) - m - 1) perEpochChurn = some (((balance - m - 1) / perEpochChurn : Nat) : Int) := by
      rw [show (balance : Int) - m - 1 = ((balance - m - 1 : Nat) : Int) by omega]
      exact kernelDiv_natCast _ hchurn
    have hset : {k : Nat | (balance : Int) ≤ m + k * perEpochChurn} = {k | balance - m ≤ k * perEpochChurn} := by
      ext k
      simp only [Set.mem_ofPred_eq]
      have hcast : ((k * perEpochChurn : Nat) : Int) = (k : Int) * perEpochChurn := Nat.cast_mul k perEpochChurn
      omega
    have hleast := isLeast_chunks hchurn hn
    refine ⟨(balance - m - 1) / perEpochChurn + 1, hset ▸ hleast, ?_, ?_⟩
    · simp only [if_pos hover, hdiv, Option.bind_eq_bind, Option.bind_some, Option.pure_def]
      push_cast
      rfl
    · have hcover : balance - m ≤ ((balance - m - 1) / perEpochChurn + 1) * perEpochChurn := hleast.1
      have hcast : ((((balance - m - 1) / perEpochChurn + 1) * perEpochChurn : Nat) : Int) =
          (((balance - m - 1) / perEpochChurn + 1 : Nat) : Int) * perEpochChurn := Nat.cast_mul _ _
      omega
  · -- what is left covers the balance: no epoch is added
    refine ⟨0, ⟨?_, fun k _ => Nat.zero_le k⟩, ?_, ?_⟩
    · show (balance : Int) ≤ m + ((0 : Nat) : Int) * perEpochChurn
      omega
    · simp only [if_neg hover, Option.bind_eq_bind, Option.bind_some, Option.pure_def, Nat.cast_zero, zero_mul,
        add_zero]
    · omega

/-- The churn mutators never divide by zero, and from a balance left to consume that is not
    negative they move the earliest epoch by the least number of epochs whose churn covers the
    balance, leaving a balance to consume that is not negative: the exit churn on every state,
    the consolidation churn past the checks of its only caller. -/
theorem churn_least_epochs (state : ChurnState) (balance : Nat) :
    (0 ≤ state.exitBalanceToConsume →
      let churn := getActivationExitChurnLimit spec.toElectraSpec state.toBeaconState
      let earliest : Int :=
        max state.earliestExitEpoch (computeActivationExitEpoch spec (state.currentEpoch spec.toChainSpec))
      let toConsume : Int := if state.earliestExitEpoch < earliest then churn else state.exitBalanceToConsume
      ∃ k : Nat, IsLeast {k : Nat | (balance : Int) ≤ toConsume + k * churn} k ∧
        computeExitEpochAndUpdateChurn spec state balance =
          some { state with earliestExitEpoch := earliest + k, exitBalanceToConsume := toConsume + k * churn - balance } ∧
        0 ≤ toConsume + k * churn - balance) ∧
    (∀ request, verifyConsolidationRequest spec state request = .ok () → 0 ≤ state.consolidationBalanceToConsume →
      let churn := getConsolidationChurnLimit spec state.toBeaconState
      let earliest : Int :=
        max state.earliestConsolidationEpoch (computeActivationExitEpoch spec (state.currentEpoch spec.toChainSpec))
      let toConsume : Int :=
        if state.earliestConsolidationEpoch < earliest then churn else state.consolidationBalanceToConsume
      ∃ k : Nat, IsLeast {k : Nat | (balance : Int) ≤ toConsume + k * churn} k ∧
        computeConsolidationEpochAndUpdateChurn spec state balance =
          some { state with
            earliestConsolidationEpoch := earliest + k
            consolidationBalanceToConsume := toConsume + k * churn - balance } ∧
        0 ≤ toConsume + k * churn - balance) := by
  constructor
  · intro hconsume
    obtain ⟨k, hleast, hstep, hleft⟩ := computeEpochAndUpdateChurn_spec (state.currentEpoch spec.toChainSpec)
      state.earliestExitEpoch hconsume (getActivationExitChurnLimit_pos spec state.toBeaconState) balance
    refine ⟨k, hleast, ?_, hleft⟩
    rw [computeExitEpochAndUpdateChurn, hstep]
    rfl
  · intro request hverify hconsume
    have hchurn : 0 < getConsolidationChurnLimit spec state.toBeaconState :=
      Nat.lt_of_le_of_lt (Nat.zero_le _) (getConsolidationChurnLimit_pos spec hverify)
    obtain ⟨k, hleast, hstep, hleft⟩ := computeEpochAndUpdateChurn_spec (state.currentEpoch spec.toChainSpec)
      state.earliestConsolidationEpoch hconsume hchurn balance
    refine ⟨k, hleast, ?_, hleft⟩
    rw [computeConsolidationEpochAndUpdateChurn, hstep]
    rfl

end Mutators

/-- Three validators of the largest effective balance, active from genesis, on a state with
    nothing yet consumed: enough stake for a consolidation churn above the minimum activation
    balance on the minimal preset. -/
def threeCompoundingValidators : ChurnState where
  slot := 0
  validators := List.replicate 3 ⟨[0], [2], 2048000000000, false, 0, farFutureEpoch, farFutureEpoch⟩
  balances := List.replicate 3 2048000000000
  previousEpochParticipation := [0, 0, 0]
  currentEpochParticipation := [0, 0, 0]
  nextWithdrawalIndex := 0
  nextWithdrawalValidatorIndex := 0
  pendingPartialWithdrawals := []
  currentJustifiedCheckpoint := ⟨0, 0⟩
  finalizedCheckpoint := ⟨0, 0⟩
  exitBalanceToConsume := 0
  earliestExitEpoch := 0
  consolidationBalanceToConsume := 0
  earliestConsolidationEpoch := 0
  pendingConsolidations := []

/-- An exit and a consolidation of 100 ETH on the minimal preset: both go through. -/
theorem churn_least_epochs_minimal :
    verifyConsolidationRequest ChurnSpec.minimal threeCompoundingValidators ⟨[], [1], [2]⟩ = .ok () ∧
      (∃ state', computeExitEpochAndUpdateChurn ChurnSpec.minimal threeCompoundingValidators 100000000000 =
        some state') ∧
      ∃ state', computeConsolidationEpochAndUpdateChurn ChurnSpec.minimal threeCompoundingValidators 100000000000 =
        some state' := by
  have hverify : verifyConsolidationRequest ChurnSpec.minimal threeCompoundingValidators ⟨[], [1], [2]⟩ = .ok () := rfl
  have h := @churn_least_epochs ChurnSpec.minimal threeCompoundingValidators 100000000000
  obtain ⟨k, -, hexit, -⟩ := h.1 (le_refl 0)
  obtain ⟨k', -, hconsolidation, -⟩ := h.2 ⟨[], [1], [2]⟩ hverify (le_refl 0)
  exact ⟨hverify, ⟨_, hexit⟩, ⟨_, hconsolidation⟩⟩

end LambdaEthereumConsensus.StateTransition
