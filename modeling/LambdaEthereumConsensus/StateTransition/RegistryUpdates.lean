import LambdaEthereumConsensus.Fallible.List
import LambdaEthereumConsensus.StateTransition.Churn

/-
  LambdaEthereumConsensus.StateTransition.RegistryUpdates — `process_registry_updates/1` and
  `handle_validator_registry_update/6` (`state_transition/epoch_processing.ex`), with
  `Mutators.initiate_validator_exit/2` (`state_transition/mutators.ex`) and the predicates
  `eligible_for_activation_queue?/1` and `eligible_for_activation?/2`
  (`state_transition/predicates.ex`).

  The pass goes through the validators in the order of their indices, the state threaded through
  `Enum.reduce_while/3`: each validator is put in the activation queue, ejected, or activated,
  whichever applies first. An ejection takes the exit churn of Electra
  (`computeExitEpochAndUpdateChurn`), and its `{:error, _}` halts the pass: the pass is a fold in
  `ExceptT String Option`, whose `none` is a raise. The `activation_eligibility_epoch` that only
  this pass reads is kept beside the validators, by index.

  The pass is proved through one invariant of its position (`PassInv`): each step keeps it
  (`passInv_step`, one lemma for each branch of the `cond`), so it holds where a pass that
  succeeds ends (`processRegistryUpdates_spec`). The exit queue's account in it is one lemma about
  an exit of any balance (`queue_admit`). Read off it, from a current epoch below the far future and
  a balance to consume that is not negative:
  - the exits keep to the exit churn: by any epoch, what the pass has exited is within the balance
    the queue had at its first epoch and one churn per epoch after that, and nothing exits before
    that epoch (`processRegistryUpdates_exits_within_churn`);
  - the exits are served in the order of the indices (`processRegistryUpdates_exits_in_order`);
  - the validators active at the current epoch, the effective balances and the total active balance
    are the start's, which the code's caches keyed by the epoch and its root rely on
    (`processRegistryUpdates_keeps_active_balance`);
  - every validator active with at most the ejection balance ends exiting, and one already exiting
    keeps its epochs (`processRegistryUpdates_ejects`).
  Every exit the pass makes goes through the exit churn, which writes nothing but its two fields
  and never moves the earliest exit epoch back (`computeExitEpochAndUpdateChurn_le`,
  `initiateValidatorExit_le`); so a pass leaves the pending partial withdrawals as they are and the
  earliest exit epoch where it was or later (`processRegistryUpdates_le`).
  The overflow check of `initiate_validator_exit/2` is `> 2 ** 64`: a withdrawable epoch of
  exactly `2 ^ 64`, one past the largest `uint64`, goes through (`Updated.ejected`).
-/

namespace LambdaEthereumConsensus.StateTransition

/-! ## Presets and state -/

/-- The presets the registry updates read beyond the churn's, and the relations between them
    that every configuration has: an ejection balance below the minimum activation balance, and
    a withdrawability delay of more than one epoch. -/
structure RegistrySpec extends ChurnSpec where
  ejectionBalance : Nat
  minValidatorWithdrawabilityDelay : Nat
  ejectionBalance_lt_minActivationBalance : ejectionBalance < minActivationBalance
  one_lt_minValidatorWithdrawabilityDelay : 1 < minValidatorWithdrawabilityDelay

/-- `config/presets/mainnet` and `config/networks/mainnet/config.yaml`. -/
def RegistrySpec.mainnet : RegistrySpec :=
  { ChurnSpec.mainnet with
    ejectionBalance := 16000000000
    minValidatorWithdrawabilityDelay := 256
    ejectionBalance_lt_minActivationBalance := by decide
    one_lt_minValidatorWithdrawabilityDelay := by decide }

/-- `config/presets/minimal` and `config/networks/minimal/config.yaml`. -/
def RegistrySpec.minimal : RegistrySpec :=
  { ChurnSpec.minimal with
    ejectionBalance := 16000000000
    minValidatorWithdrawabilityDelay := 256
    ejectionBalance_lt_minActivationBalance := by decide
    one_lt_minValidatorWithdrawabilityDelay := by decide }

/-- `%Types.Validator{}` with `activation_eligibility_epoch`. -/
structure RegistryValidator extends Validator where
  activationEligibilityEpoch : Nat
  deriving DecidableEq, Repr

/-- The state with the exit churn of Electra and the `activation_eligibility_epoch` of the
    validator at each index. -/
structure RegistryState extends ChurnState where
  activationEligibilityEpochs : Nat → Nat

/-- The validators with their eligibility epochs: the code's `state.validators`. -/
def RegistryState.registry (state : RegistryState) : List RegistryValidator :=
  state.validators.zipIdx.map fun (validator, idx) => ⟨validator, state.activationEligibilityEpochs idx⟩

namespace RegistryValidator

/-- `Predicates.eligible_for_activation_queue?/1`. -/
def eligibleForActivationQueue? (spec : ChainSpec) (validator : RegistryValidator) : Bool :=
  validator.activationEligibilityEpoch == farFutureEpoch && validator.effectiveBalance ≥ spec.minActivationBalance

/-- `Predicates.eligible_for_activation?/2`. -/
def eligibleForActivation? (state : BeaconState) (validator : RegistryValidator) : Bool :=
  validator.activationEligibilityEpoch ≤ state.finalizedCheckpoint.epoch && validator.activationEpoch == farFutureEpoch

end RegistryValidator

/-! ## The code -/

section Code

variable (spec : RegistrySpec)

/-- `Mutators.initiate_validator_exit/2` on a validator: the validator as it is if it is already
    exiting; otherwise the state with the exit churn consumed and the validator with the exit
    queue's epoch and its withdrawable epoch, unless that overflows. -/
def initiateValidatorExit (state : ChurnState) (validator : Validator) :
    ExceptT String Option (ChurnState × Validator) := do
  if validator.exitEpoch ≠ farFutureEpoch then pure (state, validator)
  else
    let state ← computeExitEpochAndUpdateChurn spec.toChurnSpec state validator.effectiveBalance
    let exitQueueEpoch := state.earliestExitEpoch
    if exitQueueEpoch + spec.minValidatorWithdrawabilityDelay > 2 ^ 64 then throw "withdrawable_epoch overflow"
    else
      pure (state, { validator with
        exitEpoch := exitQueueEpoch.toNat
        withdrawableEpoch := (exitQueueEpoch + spec.minValidatorWithdrawabilityDelay).toNat })

/-- `handle_validator_registry_update/6`: the first of the activation queue, the ejection and the
    activation that applies to the validator at `idx`. -/
def handleValidatorRegistryUpdate (state : RegistryState) (validator : RegistryValidator)
    (idx currentEpoch activationExitEpoch ejectionBalance : Nat) : ExceptT String Option RegistryState := do
  if validator.eligibleForActivationQueue? spec.toChainSpec then
    pure { state with
      activationEligibilityEpochs := Function.update state.activationEligibilityEpochs idx (currentEpoch + 1) }
  else if validator.active? currentEpoch && validator.effectiveBalance ≤ ejectionBalance then
    let (churnState, ejectedValidator) ← initiateValidatorExit spec state.toChurnState validator.toValidator
    pure { state with toChurnState := { churnState with validators := churnState.validators.set idx ejectedValidator } }
  else if validator.eligibleForActivation? state.toBeaconState then
    pure { state with validators := state.validators.set idx { validator.toValidator with activationEpoch := activationExitEpoch } }
  else pure state

/-- `process_registry_updates/1`. -/
def processRegistryUpdates (state : RegistryState) : ExceptT String Option RegistryState :=
  let currentEpoch := state.currentEpoch spec.toChainSpec
  let activationExitEpoch := computeActivationExitEpoch spec.toChurnSpec currentEpoch
  state.registry.zipIdx.foldlM (fun state (validator, idx) =>
    handleValidatorRegistryUpdate spec state validator idx currentEpoch activationExitEpoch spec.ejectionBalance) state

end Code

/-! ## The exit queue -/

/-- The epoch at which the exit queue takes its next exit: its earliest epoch, raised to the
    activation-exit epoch `floor`. -/
def queueEpoch (floor : Nat) (earliest : Int) : Int := max earliest floor

/-- The balance the exit queue has left at `queueEpoch`: a fresh churn if the epoch was raised. -/
def queueBalance (floor churn : Nat) (earliest toConsume : Int) : Int :=
  if earliest < queueEpoch floor earliest then churn else toConsume

/-- From the queue's epoch on, the queue is where the next exit finds it. -/
theorem queueEpoch_of_le {floor : Nat} {earliest : Int} (h : floor ≤ earliest) : queueEpoch floor earliest = earliest :=
  max_eq_left h

theorem queueBalance_of_le {floor churn : Nat} {earliest : Int} (h : floor ≤ earliest) (toConsume : Int) :
    queueBalance floor churn earliest toConsume = toConsume := by
  rw [queueBalance, queueEpoch_of_le h, if_neg (lt_irrefl earliest)]

theorem floor_le_queueEpoch (floor : Nat) (earliest : Int) : (floor : Int) ≤ queueEpoch floor earliest :=
  le_max_right earliest floor

/-- The account of an exit queue that started at epoch `P` with `Q` left there, and takes `c` a
    epoch: what has exited by any epoch (`exited`), with what the queue has left at its epoch
    `epoch`, is within `Q` and one churn for each epoch since `P`; and what has exited by an epoch
    `e` from `P` on is within `Q` and one churn for each epoch up to `e`. An exit of `b` that
    takes `k` more epochs of churn at the queue's epoch keeps the account. -/
theorem queue_admit {P Q epoch balance c : Int} (hc : 0 ≤ c) {exited exited' : Nat → Nat} {b k x : Nat}
    (hqueue : ∀ e, (exited e : Int) + balance ≤ Q + (epoch - P) * c)
    (hlimit : ∀ e : Nat, P ≤ e → (exited e : Int) ≤ Q + (e - P) * c)
    (hcover : (b : Int) ≤ balance + k * c) (hx : (x : Int) = epoch + k)
    (hexited : ∀ e, exited' e = exited e + if x ≤ e then b else 0) :
    (∀ e, (exited' e : Int) + (balance + k * c - b) ≤ Q + (x - P) * c) ∧
      ∀ e : Nat, P ≤ e → (exited' e : Int) ≤ Q + (e - P) * c := by
  have hqueue' : ∀ e, (exited' e : Int) + (balance + k * c - b) ≤ Q + (x - P) * c := by
    intro e
    have hgrow : (exited' e : Int) ≤ exited e + b := by
      rw [hexited e]
      split <;> omega
    have hsplit : ((x : Int) - P) * c = (epoch - P) * c + k * c := by
      rw [hx]
      ring
    linarith [hqueue e]
  refine ⟨hqueue', fun e he => ?_⟩
  by_cases hxe : x ≤ e
  · -- the exit is by `e`: what the queue has left at `x` is not negative, and `x ≤ e`
    have hlater : ((x : Int) - P) * c ≤ ((e : Int) - P) * c :=
      mul_le_mul_of_nonneg_right (by omega) hc
    linarith [hqueue' e]
  · rw [hexited e, if_neg hxe, Nat.add_zero]
    exact hlimit e he

section Exit

variable (spec : RegistrySpec)

/-- A validator already exiting leaves `initiate_validator_exit/2` as it is, with the state. -/
theorem initiateValidatorExit_exiting (state : ChurnState) {validator : Validator}
    (hexiting : validator.exitEpoch ≠ farFutureEpoch) :
    (initiateValidatorExit spec state validator).run = some (.ok (state, validator)) := by
  simp [initiateValidatorExit, hexiting]

/-- A validator not yet exiting takes the least number of epochs of churn past the queue's epoch
    that covers its effective balance, and the withdrawability delay after that, unless the
    withdrawable epoch passes `2 ^ 64`. -/
theorem initiateValidatorExit_far {state : ChurnState} (hconsume : 0 ≤ state.exitBalanceToConsume)
    {validator : Validator} (hfar : validator.exitEpoch = farFutureEpoch) {floor churn : Nat}
    (hfloor : computeActivationExitEpoch spec.toChurnSpec (state.currentEpoch spec.toChainSpec) = floor)
    (hchurn : getActivationExitChurnLimit spec.toElectraSpec state.toBeaconState = churn) :
    let epoch := queueEpoch floor state.earliestExitEpoch
    let balance := queueBalance floor churn state.earliestExitEpoch state.exitBalanceToConsume
    ∃ k : Nat, (validator.effectiveBalance : Int) ≤ balance + k * churn ∧
      (initiateValidatorExit spec state validator).run =
        if epoch + k + spec.minValidatorWithdrawabilityDelay > 2 ^ 64 then some (.error "withdrawable_epoch overflow")
        else some (.ok ({ state with
            earliestExitEpoch := epoch + k
            exitBalanceToConsume := balance + k * churn - validator.effectiveBalance },
          { validator with
            exitEpoch := (epoch + k).toNat
            withdrawableEpoch := (epoch + k + spec.minValidatorWithdrawabilityDelay).toNat })) := by
  intro epoch balance
  have hpos : 0 < churn := hchurn ▸ getActivationExitChurnLimit_pos spec.toChurnSpec state.toBeaconState
  obtain ⟨k, hleast, hstep, -⟩ := computeEpochAndUpdateChurn_spec (state.currentEpoch spec.toChainSpec)
    state.earliestExitEpoch hconsume hpos validator.effectiveBalance
  rw [hfloor] at hleast hstep
  refine ⟨k, hleast.1, ?_⟩
  have hexit : computeExitEpochAndUpdateChurn spec.toChurnSpec state validator.effectiveBalance =
      some { state with
        earliestExitEpoch := epoch + k
        exitBalanceToConsume := balance + k * churn - validator.effectiveBalance } := by
    rw [computeExitEpochAndUpdateChurn, hchurn, hstep]
    rfl
  rw [initiateValidatorExit, if_neg (not_not.mpr hfar), hexit, Fallible.run_bind_lift_some]
  by_cases hover : epoch + k + spec.minValidatorWithdrawabilityDelay > 2 ^ 64
  · simp only [if_pos hover]
    rfl
  · simp only [if_neg hover]
    rfl

/-- What one step of the pass can do: queue the validator, hand it to
    `initiate_validator_exit/2` and write what that returns, activate it, or leave the state. -/
theorem handleValidatorRegistryUpdate_cases {state state' : RegistryState} {validator : RegistryValidator}
    {idx current floor ejection : Nat}
    (h : (handleValidatorRegistryUpdate spec state validator idx current floor ejection).run = some (.ok state')) :
    (validator.eligibleForActivationQueue? spec.toChainSpec = true ∧
      state' = { state with
        activationEligibilityEpochs := Function.update state.activationEligibilityEpochs idx (current + 1) }) ∨
    (validator.eligibleForActivationQueue? spec.toChainSpec = false ∧ validator.active? current = true ∧
      validator.effectiveBalance ≤ ejection ∧ ∃ churnState ejected,
        (initiateValidatorExit spec state.toChurnState validator.toValidator).run = some (.ok (churnState, ejected)) ∧
        state' = { state with toChurnState := { churnState with validators := churnState.validators.set idx ejected } }) ∨
    (validator.eligibleForActivationQueue? spec.toChainSpec = false ∧
      ¬(validator.active? current = true ∧ validator.effectiveBalance ≤ ejection) ∧
      validator.eligibleForActivation? state.toBeaconState = true ∧
      state' = { state with validators := state.validators.set idx { validator.toValidator with activationEpoch := floor } }) ∨
    (validator.eligibleForActivationQueue? spec.toChainSpec = false ∧
      ¬(validator.active? current = true ∧ validator.effectiveBalance ≤ ejection) ∧
      validator.eligibleForActivation? state.toBeaconState = false ∧ state' = state) := by
  unfold handleValidatorRegistryUpdate at h
  by_cases hqueue : validator.eligibleForActivationQueue? spec.toChainSpec = true
  · simp only [hqueue, if_true, ExceptT.run_pure, Option.pure_def, Option.some.injEq, Except.ok.injEq] at h
    exact .inl ⟨hqueue, h.symm⟩
  simp only [hqueue, Bool.false_eq_true, if_false] at h
  have hqueue' : validator.eligibleForActivationQueue? spec.toChainSpec = false := by simpa using hqueue
  by_cases heject : validator.active? current = true ∧ validator.effectiveBalance ≤ ejection
  · simp only [heject, decide_true, Bool.and_self, if_true, ExceptT.run_bind, Option.bind_eq_bind,
      Option.bind_eq_some_iff] at h
    obtain ⟨res, hexit, hrest⟩ := h
    cases res with
    | error e => cases hrest
    | ok res =>
      obtain ⟨churnState, ejected⟩ := res
      simp only [ExceptT.run_pure, Option.pure_def, Option.some.injEq, Except.ok.injEq] at hrest
      exact .inr (.inl ⟨hqueue', heject.1, heject.2, churnState, ejected, hexit, hrest.symm⟩)
  have heject' : (validator.active? current && decide (validator.effectiveBalance ≤ ejection)) = false := by
    simpa using heject
  simp only [heject', Bool.false_eq_true, if_false] at h
  by_cases hactivate : validator.eligibleForActivation? state.toBeaconState = true
  · simp only [hactivate, if_true, ExceptT.run_pure, Option.pure_def, Option.some.injEq, Except.ok.injEq] at h
    exact .inr (.inr (.inl ⟨hqueue', heject, hactivate, h.symm⟩))
  · simp only [hactivate, Bool.false_eq_true, if_false, ExceptT.run_pure, Option.pure_def, Option.some.injEq,
      Except.ok.injEq] at h
    exact .inr (.inr (.inr ⟨hqueue', heject, by simpa using hactivate, h.symm⟩))

end Exit

/-! ## What the pass reads and writes -/

/-- The validators with their eligibility epochs read by index. -/
theorem RegistryState.registry_getElem? (state : RegistryState) (i : Nat) :
    state.registry[i]? = state.validators[i]?.map fun validator => ⟨validator, state.activationEligibilityEpochs i⟩ := by
  simp [RegistryState.registry, List.getElem?_zipIdx, Function.comp_def]

/-- Two registries that agree at an index agree on the validator there. -/
theorem RegistryState.getElem?_eq_of_registry {state state' : RegistryState} {i : Nat}
    (h : state.registry[i]? = state'.registry[i]?) : state.validators[i]? = state'.validators[i]? := by
  have hvalidators := congrArg (Option.map RegistryValidator.toValidator) h
  simpa [RegistryState.registry_getElem?, Option.map_map, Function.comp_def] using hvalidators

@[simp] theorem RegistryState.length_registry (state : RegistryState) : state.registry.length = state.validators.length := by
  simp [RegistryState.registry]

/-- What the exit churn reads of a validator at an epoch: whether it is active, and its effective
    balance. -/
def activity (epoch : Nat) (validator : Validator) : Bool × Nat := (validator.active? epoch, validator.effectiveBalance)

/-- The total active balance reads the validators' activity only. -/
theorem getTotalActiveBalance_congr (spec : ChainSpec) {state state' : BeaconState} (hslot : state'.slot = state.slot)
    (hactivity : state'.validators.map (activity (state.currentEpoch spec)) =
      state.validators.map (activity (state.currentEpoch spec))) :
    getTotalActiveBalance spec state' = getTotalActiveBalance spec state := by
  have hsum : ∀ l : List Validator, ((l.filter (·.active? (state.currentEpoch spec))).map (·.effectiveBalance)).sum =
      (((l.map (activity (state.currentEpoch spec))).filter (·.1)).map (·.2)).sum := by
    intro l
    simp [List.filter_map, Function.comp_def, activity]
  have hepoch : state'.currentEpoch spec = state.currentEpoch spec := by
    simp only [BeaconState.currentEpoch, hslot]
  simp only [getTotalActiveBalance, hepoch, hsum, hactivity]

/-- The active indices read the validators' activity only. -/
theorem getActiveValidatorIndices_congr {state state' : BeaconState} {epoch : Nat}
    (hactivity : state'.validators.map (activity epoch) = state.validators.map (activity epoch)) :
    getActiveValidatorIndices state' epoch = getActiveValidatorIndices state epoch := by
  have hread : ∀ l : List Validator, (l.zipIdx.filter fun (validator, _) => validator.active? epoch).map (·.2) =
      (((l.map (activity epoch)).zipIdx).filter (·.1.1)).map (·.2) := by
    intro l
    simp [List.zipIdx_map, List.filter_map, Function.comp_def, activity]
  simp only [getActiveValidatorIndices, hread, hactivity]

/-- The effective balance of the validators that go from a far-future exit epoch in `before` to
    an exit epoch of at most `epoch` in `after`. -/
def exitedBalance (before after : List Validator) (epoch : Nat) : Nat :=
  (List.zipWith (fun validator validator' =>
    if validator.exitEpoch = farFutureEpoch ∧ validator'.exitEpoch ≠ farFutureEpoch ∧ validator'.exitEpoch ≤ epoch
    then validator'.effectiveBalance else 0) before after).sum

/-- Writing a validator whose image the map keeps leaves the map as it is. -/
theorem map_set_of_eq {α β : Type} {f : α → β} {l : List α} {i : Nat} {a a' : α} (ha : l[i]? = some a)
    (h : f a' = f a) : (l.set i a').map f = l.map f := by
  apply List.ext_getElem?
  intro j
  rw [List.getElem?_map, List.getElem?_map, List.getElem?_set]
  split
  · rename_i hij
    subst hij
    rw [if_pos (List.getElem?_eq_some_iff.mp ha).1, ha, Option.map_some, Option.map_some, h]
  · rfl

/-- The validator at `i` goes from a far-future exit epoch in `before` to the exit epoch `epoch`
    in `after`. -/
def ExitsAt (before after : List Validator) (i epoch : Nat) : Prop :=
  ∃ validator validator' : Validator, before[i]? = some validator ∧ after[i]? = some validator' ∧
    validator.exitEpoch = farFutureEpoch ∧ validator'.exitEpoch ≠ farFutureEpoch ∧ validator'.exitEpoch = epoch

theorem not_exitsAt_of_getElem?_eq {before after : List Validator} {i epoch : Nat} (h : after[i]? = before[i]?) :
    ¬ExitsAt before after i epoch := by
  rintro ⟨validator, validator', hvalidator, hvalidator', hfar, hexit, -⟩
  rw [h, hvalidator, Option.some.injEq] at hvalidator'
  exact hexit (hvalidator' ▸ hfar)

/-- Writing at `k` a validator the pass has not reached, with its exit epoch, exits no one new. -/
theorem exitsAt_of_set {before after : List Validator} {k i epoch : Nat} {validator validator' : Validator}
    (hbefore : before[k]? = some validator) (hafter : after[k]? = some validator)
    (h : ExitsAt before (after.set k validator') i epoch) (hexit : validator'.exitEpoch = validator.exitEpoch) :
    ExitsAt before after i epoch := by
  obtain ⟨validator₀, validator'', hvalidator₀, hvalidator'', hfar, hexiting, hepoch⟩ := h
  by_cases hik : k = i
  · subst hik
    rw [List.getElem?_set_self (List.getElem?_eq_some_iff.mp hafter).1, Option.some.injEq] at hvalidator''
    rw [hbefore, Option.some.injEq] at hvalidator₀
    subst hvalidator₀ hvalidator''
    exact absurd (hexit ▸ hfar) hexiting
  · rw [List.getElem?_set_ne hik] at hvalidator''
    exact ⟨validator₀, validator'', hvalidator₀, hvalidator'', hfar, hexiting, hepoch⟩

theorem exitedBalance_self (validators : List Validator) (epoch : Nat) : exitedBalance validators validators epoch = 0 := by
  simp only [exitedBalance, List.zipWith_self]
  apply List.sum_eq_zero
  intro x hx
  obtain ⟨validator, -, rfl⟩ := List.mem_map.mp hx
  exact if_neg fun h => h.2.1 h.1

/-- Setting the second list at an index whose term is zero adds the new term to the sum. -/
theorem sum_zipWith_set_of_eq_zero {α β : Type} {f : α → β → Nat} {l : List α} {l' : List β} {i : Nat}
    (hi : i < l.length) (hi' : i < l'.length) (hzero : f l[i] l'[i] = 0) (b : β) :
    (List.zipWith f l (l'.set i b)).sum = (List.zipWith f l l').sum + f l[i] b := by
  induction l generalizing i l' with
  | nil => simp at hi
  | cons a l ih =>
    cases l' with
    | nil => simp at hi'
    | cons a' l' =>
      cases i with
      | zero =>
        simp only [List.getElem_cons_zero] at hzero
        simp only [List.set_cons_zero, List.zipWith_cons_cons, List.sum_cons, hzero, List.getElem_cons_zero]
        omega
      | succ i =>
        simp only [List.length_cons, Nat.add_lt_add_iff_right] at hi hi'
        simp only [List.getElem_cons_succ] at hzero
        simp only [List.set_cons_succ, List.zipWith_cons_cons, List.sum_cons, ih hi hi' hzero, List.getElem_cons_succ]
        omega

/-- A validator of the registry read by index, with its eligibility epoch. -/
theorem RegistryState.getElem?_of_registry {state : RegistryState} {i : Nat} {validator : RegistryValidator}
    (h : state.registry[i]? = some validator) :
    state.validators[i]? = some validator.toValidator ∧ state.activationEligibilityEpochs i = validator.activationEligibilityEpoch := by
  rw [RegistryState.registry_getElem?, Option.map_eq_some_iff] at h
  obtain ⟨validator', hvalidator', rfl⟩ := h
  exact ⟨hvalidator', rfl⟩

/-- Nothing has exited by an epoch before every exit. -/
theorem exitedBalance_eq_zero {before after : List Validator} {epoch : Nat}
    (h : ∀ (i : Nat) (validator validator' : Validator), before[i]? = some validator → after[i]? = some validator' →
      validator.exitEpoch = farFutureEpoch → validator'.exitEpoch ≠ farFutureEpoch → epoch < validator'.exitEpoch) :
    exitedBalance before after epoch = 0 := by
  apply List.sum_eq_zero
  intro x hx
  obtain ⟨i, hi, rfl⟩ := List.getElem_of_mem hx
  have hi' : i < before.length ∧ i < after.length := by simpa using hi
  rw [List.getElem_zipWith]
  have hlater := h i before[i] after[i] (List.getElem?_eq_getElem hi'.1) (List.getElem?_eq_getElem hi'.2)
  split
  · rename_i hexited
    exact absurd (hlater hexited.1 hexited.2.1) (by omega)
  · rfl

/-- Writing a validator the pass has not reached adds its term to the exited balance. -/
theorem exitedBalance_set {before after : List Validator} {i : Nat} {validator : Validator}
    (hbefore : before[i]? = some validator) (hafter : after[i]? = some validator) (validator' : Validator) (epoch : Nat) :
    exitedBalance before (after.set i validator') epoch = exitedBalance before after epoch +
      if validator.exitEpoch = farFutureEpoch ∧ validator'.exitEpoch ≠ farFutureEpoch ∧ validator'.exitEpoch ≤ epoch
      then validator'.effectiveBalance else 0 := by
  obtain ⟨hi, rfl⟩ := List.getElem?_eq_some_iff.mp hbefore
  obtain ⟨hi', hafter⟩ := List.getElem?_eq_some_iff.mp hafter
  rw [exitedBalance, sum_zipWith_set_of_eq_zero hi hi' (by rw [hafter, if_neg fun h => h.2.1 h.1]),
    exitedBalance]

/-- Writing a validator the pass has not reached, with its exit epoch, leaves the exited balance. -/
theorem exitedBalance_set_of_exitEpoch_eq {before after : List Validator} {i : Nat} {validator : Validator}
    (hbefore : before[i]? = some validator) (hafter : after[i]? = some validator) (validator' : Validator)
    (hexit : validator'.exitEpoch = validator.exitEpoch) (epoch : Nat) :
    exitedBalance before (after.set i validator') epoch = exitedBalance before after epoch := by
  rw [exitedBalance_set hbefore hafter, hexit, if_neg fun h => h.2.1 h.1, Nat.add_zero]

/-! ## The pass -/

section Pass

variable (spec : RegistrySpec)

/-- The activation-exit epoch of a pass from `state`: where it activates, and below which it
    exits no one. -/
def RegistryState.exitFloor (state : RegistryState) : Nat :=
  computeActivationExitEpoch spec.toChurnSpec (state.currentEpoch spec.toChainSpec)

/-- The exit churn of a pass from `state`. -/
def RegistryState.exitChurn (state : RegistryState) : Nat :=
  getActivationExitChurnLimit spec.toElectraSpec state.toBeaconState

/-- What the pass does to one validator, in the order of the code's `cond`: it enters the
    activation queue; or, active with at most the ejection balance, it keeps the exit it has or is
    given one from the activation-exit epoch on; or, eligible, it is activated at the
    activation-exit epoch; or it is left as it is. -/
inductive Updated (finalized current : Nat) : RegistryValidator → RegistryValidator → Prop
  | queued {validator : RegistryValidator} :
      validator.eligibleForActivationQueue? spec.toChainSpec = true →
      Updated finalized current validator { validator with activationEligibilityEpoch := current + 1 }
  | exiting {validator : RegistryValidator} :
      validator.eligibleForActivationQueue? spec.toChainSpec = false → validator.active? current = true →
      validator.effectiveBalance ≤ spec.ejectionBalance → validator.exitEpoch ≠ farFutureEpoch →
      Updated finalized current validator validator
  | ejected {validator : RegistryValidator} (exitEpoch : Nat) :
      validator.eligibleForActivationQueue? spec.toChainSpec = false → validator.active? current = true →
      validator.effectiveBalance ≤ spec.ejectionBalance → validator.exitEpoch = farFutureEpoch →
      computeActivationExitEpoch spec.toChurnSpec current ≤ exitEpoch →
      exitEpoch + spec.minValidatorWithdrawabilityDelay ≤ 2 ^ 64 →
      Updated finalized current validator
        { validator with exitEpoch := exitEpoch, withdrawableEpoch := exitEpoch + spec.minValidatorWithdrawabilityDelay }
  | activated {validator : RegistryValidator} :
      validator.eligibleForActivationQueue? spec.toChainSpec = false →
      ¬(validator.active? current = true ∧ validator.effectiveBalance ≤ spec.ejectionBalance) →
      validator.activationEligibilityEpoch ≤ finalized → validator.activationEpoch = farFutureEpoch →
      Updated finalized current validator
        { validator with activationEpoch := computeActivationExitEpoch spec.toChurnSpec current }
  | unchanged {validator : RegistryValidator} :
      validator.eligibleForActivationQueue? spec.toChainSpec = false →
      ¬(validator.active? current = true ∧ validator.effectiveBalance ≤ spec.ejectionBalance) →
      ¬(validator.activationEligibilityEpoch ≤ finalized ∧ validator.activationEpoch = farFutureEpoch) →
      Updated finalized current validator validator

/-- The invariant of a pass from `start` that has handled the validators below `k`: the state is
    the start's but for the validators, their eligibility epochs and the exit churn; the
    validators from `k` on are untouched, and each one below `k` is `Updated`; every validator
    keeps its activity at the current epoch; and the exit queue keeps its account
    (`queue_admit`), with every exit the pass made between the start's queue epoch and its own. -/
structure PassInv (start : RegistryState) (k : Nat) (state : RegistryState) : Prop where
  frame : { state with
    validators := start.validators
    activationEligibilityEpochs := start.activationEligibilityEpochs
    exitBalanceToConsume := start.exitBalanceToConsume
    earliestExitEpoch := start.earliestExitEpoch } = start
  length : state.validators.length = start.validators.length
  later : ∀ i, k ≤ i → state.registry[i]? = start.registry[i]?
  earlier : ∀ i < k, ∀ (validator validator' : RegistryValidator), start.registry[i]? = some validator → state.registry[i]? = some validator' →
    Updated spec start.finalizedCheckpoint.epoch (start.currentEpoch spec.toChainSpec) validator validator'
  active : state.validators.map (activity (start.currentEpoch spec.toChainSpec)) =
    start.validators.map (activity (start.currentEpoch spec.toChainSpec))
  consume : 0 ≤ state.exitBalanceToConsume
  floor : queueEpoch (start.exitFloor spec) start.earliestExitEpoch ≤ queueEpoch (start.exitFloor spec) state.earliestExitEpoch
  exits : ∀ (i : Nat) (validator validator' : Validator), start.validators[i]? = some validator → state.validators[i]? = some validator' →
    validator.exitEpoch = farFutureEpoch → validator'.exitEpoch ≠ farFutureEpoch →
    queueEpoch (start.exitFloor spec) start.earliestExitEpoch ≤ validator'.exitEpoch ∧
      (validator'.exitEpoch : Int) ≤ queueEpoch (start.exitFloor spec) state.earliestExitEpoch
  queue : ∀ epoch, (exitedBalance start.validators state.validators epoch : Int) +
      queueBalance (start.exitFloor spec) (start.exitChurn spec) state.earliestExitEpoch state.exitBalanceToConsume ≤
    queueBalance (start.exitFloor spec) (start.exitChurn spec) start.earliestExitEpoch start.exitBalanceToConsume +
      (queueEpoch (start.exitFloor spec) state.earliestExitEpoch -
        queueEpoch (start.exitFloor spec) start.earliestExitEpoch) * start.exitChurn spec
  limit : ∀ epoch : Nat, queueEpoch (start.exitFloor spec) start.earliestExitEpoch ≤ epoch →
    (exitedBalance start.validators state.validators epoch : Int) ≤
      queueBalance (start.exitFloor spec) (start.exitChurn spec) start.earliestExitEpoch start.exitBalanceToConsume +
        (epoch - queueEpoch (start.exitFloor spec) start.earliestExitEpoch) * start.exitChurn spec
  ordered : ∀ i j x y, i < j → ExitsAt start.validators state.validators i x →
    ExitsAt start.validators state.validators j y → x ≤ y

variable {spec} {start : RegistryState}

/-- What the pass does to the exit of one validator: one already exiting keeps its exit and
    withdrawable epochs, and one active at the current epoch with at most the ejection balance
    ends exiting, from the activation-exit epoch on if it was not. The queue and the activation
    need a balance above the ejection balance, or a validator the ejection did not take. -/
theorem Updated.exit_spec {finalized current : Nat} {validator validator' : RegistryValidator}
    (hupdated : Updated spec finalized current validator validator') :
    (validator.exitEpoch ≠ farFutureEpoch →
      validator'.exitEpoch = validator.exitEpoch ∧ validator'.withdrawableEpoch = validator.withdrawableEpoch) ∧
    (validator.active? current = true → validator.effectiveBalance ≤ spec.ejectionBalance →
      validator'.exitEpoch ≠ farFutureEpoch ∧
        (validator.exitEpoch = farFutureEpoch →
          computeActivationExitEpoch spec.toChurnSpec current ≤ validator'.exitEpoch ∧
          validator'.withdrawableEpoch = validator'.exitEpoch + spec.minValidatorWithdrawabilityDelay)) := by
  have hdelay := spec.one_lt_minValidatorWithdrawabilityDelay
  have hminimum := spec.ejectionBalance_lt_minActivationBalance
  cases hupdated with
  | queued hqueue =>
    simp only [RegistryValidator.eligibleForActivationQueue?, Bool.and_eq_true, decide_eq_true_eq] at hqueue
    exact ⟨fun _ => ⟨rfl, rfl⟩, fun _ hejection => absurd hqueue.2 (by omega)⟩
  | exiting _ _ _ hexiting =>
    exact ⟨fun _ => ⟨rfl, rfl⟩, fun _ _ => ⟨hexiting, fun hfar => absurd hfar hexiting⟩⟩
  | ejected exitEpoch _ _ _ hfar hfloor hbound =>
    refine ⟨fun hexiting => absurd hfar hexiting, fun _ _ => ⟨?_, fun _ => ⟨hfloor, rfl⟩⟩⟩
    show exitEpoch ≠ farFutureEpoch
    unfold farFutureEpoch
    omega
  | activated _ heject =>
    exact ⟨fun _ => ⟨rfl, rfl⟩, fun hactive hejection => absurd ⟨hactive, hejection⟩ heject⟩
  | unchanged _ heject =>
    exact ⟨fun _ => ⟨rfl, rfl⟩, fun hactive hejection => absurd ⟨hactive, hejection⟩ heject⟩

theorem passInv_start (hconsume : 0 ≤ start.exitBalanceToConsume) : PassInv spec start 0 start where
  frame := rfl
  length := rfl
  later _ _ := rfl
  earlier _ h := absurd h (Nat.not_lt_zero _)
  active := rfl
  consume := hconsume
  floor := le_refl _
  exits _ validator validator' hvalidator hvalidator' hfar hexit := by
    rw [hvalidator, Option.some.injEq] at hvalidator'
    exact absurd (hvalidator' ▸ hfar) hexit
  queue epoch := by simp [exitedBalance_self]
  limit epoch hepoch := by
    have hbalance : 0 ≤ queueBalance (start.exitFloor spec) (start.exitChurn spec) start.earliestExitEpoch
        start.exitBalanceToConsume := by
      unfold queueBalance
      split <;> omega
    rw [exitedBalance_self, Nat.cast_zero]
    exact add_nonneg hbalance (mul_nonneg (by omega) (Int.natCast_nonneg _))
  ordered _ _ _ _ _ hexits := absurd hexits (not_exitsAt_of_getElem?_eq rfl)

section Frame

variable {k : Nat} {state : RegistryState} (hinv : PassInv spec start k state)
include hinv

theorem PassInv.slot_eq : state.slot = start.slot := congrArg (·.slot) hinv.frame

theorem PassInv.finalizedCheckpoint_eq : state.finalizedCheckpoint = start.finalizedCheckpoint :=
  congrArg (·.finalizedCheckpoint) hinv.frame

theorem PassInv.currentEpoch_eq : state.currentEpoch spec.toChainSpec = start.currentEpoch spec.toChainSpec := by
  simp only [BeaconState.currentEpoch, hinv.slot_eq]

theorem PassInv.exitFloor_eq : state.exitFloor spec = start.exitFloor spec := by
  simp only [RegistryState.exitFloor, hinv.currentEpoch_eq]

/-- The pass leaves the total active balance as it is, and with it the exit churn. -/
theorem PassInv.exitChurn_eq : state.exitChurn spec = start.exitChurn spec := by
  have htotal : getTotalActiveBalance spec.toChainSpec state.toBeaconState =
      getTotalActiveBalance spec.toChainSpec start.toBeaconState :=
    getTotalActiveBalance_congr spec.toChainSpec hinv.slot_eq hinv.active
  simp only [RegistryState.exitChurn, getActivationExitChurnLimit, getBalanceChurnLimit, htotal]

/-- The validator the pass reaches at `k` is the start's. -/
theorem PassInv.reached {validator : RegistryValidator} (hvalidator : start.registry[k]? = some validator) :
    state.validators[k]? = some validator.toValidator ∧
      state.activationEligibilityEpochs k = validator.activationEligibilityEpoch :=
  RegistryState.getElem?_of_registry (hvalidator ▸ hinv.later k le_rfl)

end Frame

section Steps

variable {k : Nat} {state : RegistryState} {validator : RegistryValidator}

/-- A step that leaves the state as it is, with the validator at `k` `Updated` to itself. -/
theorem PassInv.advance (hinv : PassInv spec start k state) (hvalidator : start.registry[k]? = some validator)
    (hupdated : Updated spec start.finalizedCheckpoint.epoch (start.currentEpoch spec.toChainSpec) validator validator) :
    PassInv spec start (k + 1) state :=
  { hinv with
    later := fun i hi => hinv.later i (by omega)
    earlier := fun i hi validator₀ validator' hvalidator₀ hvalidator' => by
      rcases Nat.lt_succ_iff_lt_or_eq.mp hi with hi | rfl
      · exact hinv.earlier i hi validator₀ validator' hvalidator₀ hvalidator'
      · rw [hvalidator, Option.some.injEq] at hvalidator₀
        rw [hinv.later i le_rfl, hvalidator, Option.some.injEq] at hvalidator'
        subst hvalidator₀ hvalidator'
        exact hupdated }

/-- Queueing the validator at `k` writes its eligibility epoch only. -/
theorem PassInv.queued (hinv : PassInv spec start k state) (hvalidator : start.registry[k]? = some validator)
    (hqueue : validator.eligibleForActivationQueue? spec.toChainSpec = true) :
    PassInv spec start (k + 1) { state with
      activationEligibilityEpochs :=
        Function.update state.activationEligibilityEpochs k (start.currentEpoch spec.toChainSpec + 1) } :=
  { hinv with
    later := fun i hi => by
      rw [← hinv.later i (by omega), RegistryState.registry_getElem?, RegistryState.registry_getElem?]
      simp [Function.update_of_ne (show i ≠ k by omega)]
    earlier := fun i hi validator₀ validator' hvalidator₀ hvalidator' => by
      rcases Nat.lt_succ_iff_lt_or_eq.mp hi with hi | rfl
      · refine hinv.earlier i hi validator₀ validator' hvalidator₀ ?_
        rw [← hvalidator', RegistryState.registry_getElem?, RegistryState.registry_getElem?]
        simp [Function.update_of_ne (show i ≠ k by omega)]
      · rw [hvalidator, Option.some.injEq] at hvalidator₀
        subst hvalidator₀
        rw [RegistryState.registry_getElem?] at hvalidator'
        simp only [(hinv.reached hvalidator).1, Function.update_self, Option.map_some, Option.some.injEq] at hvalidator'
        subst hvalidator'
        exact .queued hqueue }

section Write

variable {state' : RegistryState} {validator' : Validator}
  (hvalidators : state'.validators = state.validators.set k validator')
  (heligibility : state'.activationEligibilityEpochs = state.activationEligibilityEpochs)
include hvalidators heligibility

/-- Writing a validator at `k` keeps the registry elsewhere. -/
theorem RegistryState.registry_set_ne {i : Nat} (hik : k ≠ i) :
    state'.registry[i]? = state.registry[i]? := by
  rw [RegistryState.registry_getElem?, RegistryState.registry_getElem?, hvalidators, heligibility,
    List.getElem?_set_ne hik]

/-- The validator written at `k`, read back with its eligibility epoch. -/
theorem PassInv.registry_set (hinv : PassInv spec start k state) (hvalidator : start.registry[k]? = some validator) :
    state'.registry[k]? = some { validator with toValidator := validator' } := by
  obtain ⟨hreached, heligible⟩ := hinv.reached hvalidator
  rw [RegistryState.registry_getElem?, hvalidators, heligibility]
  simp [(List.getElem?_eq_some_iff.mp hreached).1, heligible]

theorem PassInv.later_set (hinv : PassInv spec start k state) :
    ∀ i, k + 1 ≤ i → state'.registry[i]? = start.registry[i]? := fun i hi => by
  rw [RegistryState.registry_set_ne hvalidators heligibility (by omega), hinv.later i (by omega)]

/-- A step that writes an `Updated` validator at `k` carries the validators below `k + 1`. -/
theorem PassInv.earlier_set (hinv : PassInv spec start k state) (hvalidator : start.registry[k]? = some validator)
    (hupdated : Updated spec start.finalizedCheckpoint.epoch (start.currentEpoch spec.toChainSpec) validator
      { validator with toValidator := validator' }) :
    ∀ i < k + 1, ∀ (validator₀ validator'' : RegistryValidator), start.registry[i]? = some validator₀ →
      state'.registry[i]? = some validator'' →
      Updated spec start.finalizedCheckpoint.epoch (start.currentEpoch spec.toChainSpec) validator₀ validator'' := by
  intro i hi validator₀ validator'' hvalidator₀ hvalidator''
  rcases Nat.lt_succ_iff_lt_or_eq.mp hi with hi | rfl
  · rw [RegistryState.registry_set_ne hvalidators heligibility (by omega)] at hvalidator''
    exact hinv.earlier i hi validator₀ validator'' hvalidator₀ hvalidator''
  · rw [hvalidator, Option.some.injEq] at hvalidator₀
    rw [hinv.registry_set hvalidators heligibility hvalidator, Option.some.injEq] at hvalidator''
    subst hvalidator₀ hvalidator''
    exact hupdated

omit heligibility in
/-- A validator written at `k` that keeps its exit epoch keeps the pass's exits. -/
theorem PassInv.exits_set (hinv : PassInv spec start k state) (hvalidator : start.registry[k]? = some validator)
    (hexit : validator'.exitEpoch = validator.exitEpoch)
    (hearliest : state'.earliestExitEpoch = state.earliestExitEpoch) :
    ∀ (i : Nat) (validator₀ validator'' : Validator), start.validators[i]? = some validator₀ →
      state'.validators[i]? = some validator'' → validator₀.exitEpoch = farFutureEpoch →
      validator''.exitEpoch ≠ farFutureEpoch →
      queueEpoch (start.exitFloor spec) start.earliestExitEpoch ≤ validator''.exitEpoch ∧
        (validator''.exitEpoch : Int) ≤ queueEpoch (start.exitFloor spec) state'.earliestExitEpoch := by
  intro i validator₀ validator'' hvalidator₀ hvalidator'' hfar hexiting
  rw [hearliest]
  obtain ⟨hreached, -⟩ := hinv.reached hvalidator
  rw [hvalidators, List.getElem?_set] at hvalidator''
  split at hvalidator''
  · rename_i hik
    subst hik
    rw [(RegistryState.getElem?_of_registry hvalidator).1, Option.some.injEq] at hvalidator₀
    simp only [(List.getElem?_eq_some_iff.mp hreached).1, if_true, Option.some.injEq] at hvalidator''
    subst hvalidator₀ hvalidator''
    exact absurd (hexit ▸ hfar) hexiting
  · exact hinv.exits i validator₀ validator'' hvalidator₀ hvalidator'' hfar hexiting

end Write

/-- Activating the validator at `k` writes its activation epoch only. -/
theorem PassInv.activated (hcurrent : start.currentEpoch spec.toChainSpec < farFutureEpoch)
    (hinv : PassInv spec start k state) (hvalidator : start.registry[k]? = some validator)
    (hqueue : validator.eligibleForActivationQueue? spec.toChainSpec = false)
    (heject : ¬(validator.active? (start.currentEpoch spec.toChainSpec) = true ∧
      validator.effectiveBalance ≤ spec.ejectionBalance))
    (hactivate : validator.eligibleForActivation? state.toBeaconState = true) :
    PassInv spec start (k + 1) { state with
      validators := state.validators.set k { validator.toValidator with activationEpoch := start.exitFloor spec } } := by
  obtain ⟨hreached, -⟩ := hinv.reached hvalidator
  have hstart := (RegistryState.getElem?_of_registry hvalidator).1
  simp only [RegistryValidator.eligibleForActivation?, hinv.finalizedCheckpoint_eq, Bool.and_eq_true,
    decide_eq_true_eq, beq_iff_eq] at hactivate
  obtain ⟨heligible, hfar⟩ := hactivate
  -- not active before, at a far-future activation epoch, nor after, at the activation-exit epoch
  have hinactive : activity (start.currentEpoch spec.toChainSpec)
      { validator.toValidator with activationEpoch := start.exitFloor spec } =
      activity (start.currentEpoch spec.toChainSpec) validator.toValidator := by
    have hbefore : ¬farFutureEpoch ≤ start.currentEpoch spec.toChainSpec := by omega
    have hafter : ¬start.exitFloor spec ≤ start.currentEpoch spec.toChainSpec := by
      simp only [RegistryState.exitFloor, computeActivationExitEpoch]
      omega
    simp [activity, Validator.active?, hfar, hbefore, hafter]
  exact
    { frame := hinv.frame
      length := by simp [hinv.length]
      later := hinv.later_set (by rfl) (by rfl)
      earlier := hinv.earlier_set (by rfl) (by rfl) hvalidator (.activated hqueue heject heligible hfar)
      active := by rw [map_set_of_eq hreached hinactive, hinv.active]
      consume := hinv.consume
      floor := hinv.floor
      exits := hinv.exits_set (by rfl) hvalidator (by rfl) (by rfl)
      ordered := fun i j x y hij hi hj => hinv.ordered i j x y hij (exitsAt_of_set hstart hreached hi rfl)
        (exitsAt_of_set hstart hreached hj rfl)
      queue := fun epoch => by
        dsimp only
        rw [exitedBalance_set_of_exitEpoch_eq hstart hreached
          { validator.toValidator with activationEpoch := start.exitFloor spec } rfl]
        exact hinv.queue epoch
      limit := fun epoch hepoch => by
        dsimp only
        rw [exitedBalance_set_of_exitEpoch_eq hstart hreached
          { validator.toValidator with activationEpoch := start.exitFloor spec } rfl]
        exact hinv.limit epoch hepoch }

/-- A validator already exiting is written back as it is. -/
theorem PassInv.exiting (hinv : PassInv spec start k state) (hvalidator : start.registry[k]? = some validator)
    (hqueue : validator.eligibleForActivationQueue? spec.toChainSpec = false)
    (hactive : validator.active? (start.currentEpoch spec.toChainSpec) = true)
    (hejection : validator.effectiveBalance ≤ spec.ejectionBalance) (hexiting : validator.exitEpoch ≠ farFutureEpoch)
    {churnState : ChurnState} {ejected : Validator}
    (hexit : (initiateValidatorExit spec state.toChurnState validator.toValidator).run = some (.ok (churnState, ejected))) :
    PassInv spec start (k + 1)
      { state with toChurnState := { churnState with validators := churnState.validators.set k ejected } } := by
  rw [initiateValidatorExit_exiting spec _ hexiting, Option.some.injEq, Except.ok.injEq, Prod.mk.injEq] at hexit
  obtain ⟨rfl, rfl⟩ := hexit
  obtain ⟨hreached, -⟩ := hinv.reached hvalidator
  have hset : state.validators.set k validator.toValidator = state.validators := by
    obtain ⟨hk, hget⟩ := List.getElem?_eq_some_iff.mp hreached
    rw [← hget, List.set_getElem_self]
  rw [hset]
  exact hinv.advance hvalidator (.exiting hqueue hactive hejection hexiting)

/-- Ejecting a validator not yet exiting takes its effective balance through the exit queue: it
    gets the queue's new epoch, from the activation-exit epoch on, stays active at the current
    epoch, and the queue keeps its account. -/
theorem PassInv.ejected (hcurrent : start.currentEpoch spec.toChainSpec < farFutureEpoch)
    (hinv : PassInv spec start k state) (hvalidator : start.registry[k]? = some validator)
    (hqueue : validator.eligibleForActivationQueue? spec.toChainSpec = false)
    (hactive : validator.active? (start.currentEpoch spec.toChainSpec) = true)
    (hejection : validator.effectiveBalance ≤ spec.ejectionBalance) (hfar : validator.exitEpoch = farFutureEpoch)
    {churnState : ChurnState} {ejected : Validator}
    (hexit : (initiateValidatorExit spec state.toChurnState validator.toValidator).run = some (.ok (churnState, ejected))) :
    PassInv spec start (k + 1)
      { state with toChurnState := { churnState with validators := churnState.validators.set k ejected } } := by
  obtain ⟨epochs, hcover, hrun⟩ := initiateValidatorExit_far spec hinv.consume hfar hinv.exitFloor_eq hinv.exitChurn_eq
  rw [hrun] at hexit
  split at hexit
  · cases hexit
  rename_i hover
  rw [Option.some.injEq, Except.ok.injEq, Prod.mk.injEq] at hexit
  obtain ⟨rfl, rfl⟩ := hexit
  clear hrun
  obtain ⟨hreached, -⟩ := hinv.reached hvalidator
  have hstart := (RegistryState.getElem?_of_registry hvalidator).1
  have hqueue₀ := hinv.queue
  have hstartEpoch := hinv.floor
  have hfloor := floor_le_queueEpoch (start.exitFloor spec) state.earliestExitEpoch
  generalize hepoch : queueEpoch (start.exitFloor spec) state.earliestExitEpoch = epoch at *
  generalize hexitEpoch : (epoch + epochs).toNat = exitEpoch
  have hexitEpoch' : (exitEpoch : Int) = epoch + epochs := by omega
  have hdelay := spec.one_lt_minValidatorWithdrawabilityDelay
  have hwithdrawable : (epoch + epochs + spec.minValidatorWithdrawabilityDelay).toNat =
      exitEpoch + spec.minValidatorWithdrawabilityDelay := by omega
  have hbound : exitEpoch + spec.minValidatorWithdrawabilityDelay ≤ 2 ^ 64 := by omega
  have hnotfar : exitEpoch ≠ farFutureEpoch := by
    unfold farFutureEpoch
    omega
  have hcurrent_lt : start.currentEpoch spec.toChainSpec < exitEpoch := by
    have : (start.currentEpoch spec.toChainSpec : Int) < start.exitFloor spec := by
      simp only [RegistryState.exitFloor, computeActivationExitEpoch]
      omega
    omega
  have hqueueEpoch : queueEpoch (start.exitFloor spec) (epoch + epochs) = epoch + epochs :=
    queueEpoch_of_le (by omega)
  have hexited : ∀ e, exitedBalance start.validators (state.validators.set k { validator.toValidator with
        exitEpoch := exitEpoch
        withdrawableEpoch := (epoch + epochs + spec.minValidatorWithdrawabilityDelay).toNat }) e =
      exitedBalance start.validators state.validators e + if exitEpoch ≤ e then validator.effectiveBalance else 0 := by
    intro e
    rw [exitedBalance_set hstart hreached]
    simp only [hfar, hnotfar, ne_eq, not_false_eq_true, true_and]
  obtain ⟨hqueue', hlimit'⟩ := queue_admit (Int.natCast_nonneg (start.exitChurn spec)) hqueue₀ hinv.limit hcover
    hexitEpoch' hexited
  refine
    { frame := hinv.frame
      length := by simp [hinv.length]
      later := hinv.later_set (by rfl) (by rfl)
      earlier := hinv.earlier_set (by rfl) (by rfl) hvalidator ?_
      active := ?_
      consume := by
        simp only
        omega
      floor := by
        simp only
        rw [hqueueEpoch]
        omega
      exits := fun i validator₀ validator' hvalidator₀ hvalidator' hfar₀ hexit => ?_
      queue := fun e => ?_
      limit := hlimit'
      ordered := fun i j x y hij hi hj => ?_ }
  · rw [hwithdrawable]
    exact .ejected exitEpoch hqueue hactive hejection hfar (show start.exitFloor spec ≤ exitEpoch by omega) hbound
  · -- the ejected validator stays active at the current epoch, now below its exit epoch
    refine (map_set_of_eq hreached ?_).trans hinv.active
    simp [activity, Validator.active?, hfar, hcurrent, hcurrent_lt]
  · simp only [List.getElem?_set] at hvalidator' ⊢
    rw [hqueueEpoch]
    split at hvalidator'
    · rename_i hik
      subst hik
      rw [hstart, Option.some.injEq] at hvalidator₀
      rw [if_pos (List.getElem?_eq_some_iff.mp hreached).1, Option.some.injEq] at hvalidator'
      subst hvalidator₀ hvalidator'
      exact ⟨by simp only; omega, by simp only; omega⟩
    · obtain ⟨hafter, hbefore⟩ := hinv.exits i validator₀ validator' hvalidator₀ hvalidator' hfar₀ hexit
      rw [hepoch] at hbefore
      exact ⟨hafter, by omega⟩
  · simp only
    rw [hqueueEpoch, queueBalance_of_le (by omega)]
    have hqueue_e := hqueue' e
    rw [hexitEpoch'] at hqueue_e
    exact hqueue_e
  · -- the ejection at `k` comes after every exit so far, and before none: the later validators
    -- are untouched
    have hnew : ∀ i x, ExitsAt start.validators (state.validators.set k { validator.toValidator with
        exitEpoch := exitEpoch
        withdrawableEpoch := (epoch + epochs + spec.minValidatorWithdrawabilityDelay).toNat }) i x →
        (i = k ∧ x = exitEpoch) ∨ (i ≠ k ∧ ExitsAt start.validators state.validators i x) := by
      rintro i x ⟨validator₀, validator', hvalidator₀, hvalidator', hfar₀, hexiting, rfl⟩
      by_cases hik : k = i
      · subst hik
        rw [List.getElem?_set_self (List.getElem?_eq_some_iff.mp hreached).1, Option.some.injEq] at hvalidator'
        exact .inl ⟨rfl, hvalidator' ▸ rfl⟩
      · rw [List.getElem?_set_ne hik] at hvalidator'
        exact .inr ⟨Ne.symm hik, validator₀, validator', hvalidator₀, hvalidator', hfar₀, hexiting, rfl⟩
    have huntouched : ∀ j y, k < j → ¬ExitsAt start.validators state.validators j y := fun j y hkj =>
      not_exitsAt_of_getElem?_eq (RegistryState.getElem?_eq_of_registry (hinv.later j hkj.le))
    rcases hnew i x hi with ⟨rfl, rfl⟩ | ⟨hik, hi'⟩ <;> rcases hnew j y hj with ⟨rfl, rfl⟩ | ⟨hjk, hj'⟩
    · omega
    · exact absurd hj' (huntouched j y (by omega))
    · obtain ⟨validator₀, validator', hvalidator₀, hvalidator', hfar₀, hexiting, rfl⟩ := hi'
      have hbefore := (hinv.exits i validator₀ validator' hvalidator₀ hvalidator' hfar₀ hexiting).2
      rw [hepoch] at hbefore
      omega
    · exact hinv.ordered i j x y hij hi' hj'

end Steps

/-- One step of the pass keeps the invariant, with the validator it reaches handled. -/
theorem passInv_step (hcurrent : start.currentEpoch spec.toChainSpec < farFutureEpoch) {k : Nat}
    {state state' : RegistryState} (hinv : PassInv spec start k state) (hk : k < start.registry.length)
    (h : (handleValidatorRegistryUpdate spec state start.registry[k] k (start.currentEpoch spec.toChainSpec)
      (start.exitFloor spec) spec.ejectionBalance).run = some (.ok state')) :
    PassInv spec start (k + 1) state' := by
  have hvalidator : start.registry[k]? = some start.registry[k] := List.getElem?_eq_getElem hk
  rcases handleValidatorRegistryUpdate_cases spec h with
    ⟨hqueue, rfl⟩ | ⟨hqueue, hactive, hejection, churnState, ejected, hexit, rfl⟩ |
      ⟨hqueue, heject, hactivate, rfl⟩ | ⟨hqueue, heject, hactivate, rfl⟩
  · exact hinv.queued hvalidator hqueue
  · by_cases hfar : start.registry[k].exitEpoch = farFutureEpoch
    · exact hinv.ejected hcurrent hvalidator hqueue hactive hejection hfar hexit
    · exact hinv.exiting hvalidator hqueue hactive hejection hfar hexit
  · exact hinv.activated hcurrent hvalidator hqueue heject hactivate
  · refine hinv.advance hvalidator (.unchanged hqueue heject ?_)
    simpa [RegistryValidator.eligibleForActivation?, hinv.finalizedCheckpoint_eq] using hactivate

/-- A pass that succeeds ends in the invariant with every validator handled. -/
theorem processRegistryUpdates_spec (hcurrent : start.currentEpoch spec.toChainSpec < farFutureEpoch)
    (hconsume : 0 ≤ start.exitBalanceToConsume) {final : RegistryState}
    (h : (processRegistryUpdates spec start).run = some (.ok final)) :
    PassInv spec start start.validators.length final := by
  have hrun := Fallible.foldlM_zipIdx_invariant (PassInv spec start) (passInv_start hconsume)
    (fun k hk state state' hinv hstep => by
      rw [Nat.zero_add] at hinv hstep ⊢
      exact passInv_step hcurrent hinv hk hstep) h
  simpa using hrun

/-! ## Results of a whole pass -/

/-- Five validators at genesis on the minimal preset: two active at the ejection balance, one
    waiting to enter the activation queue, one eligible for activation, and one active at the
    minimum activation balance. -/
def genesisRegistry : RegistryState where
  slot := 0
  validators :=
    [⟨[0], [1], 16000000000, false, 0, farFutureEpoch, farFutureEpoch⟩,
      ⟨[1], [1], 16000000000, false, 0, farFutureEpoch, farFutureEpoch⟩,
      ⟨[2], [1], 32000000000, false, farFutureEpoch, farFutureEpoch, farFutureEpoch⟩,
      ⟨[3], [1], 32000000000, false, farFutureEpoch, farFutureEpoch, farFutureEpoch⟩,
      ⟨[4], [1], 32000000000, false, 0, farFutureEpoch, farFutureEpoch⟩]
  balances := [16000000000, 16000000000, 32000000000, 32000000000, 32000000000]
  previousEpochParticipation := [0, 0, 0, 0, 0]
  currentEpochParticipation := [0, 0, 0, 0, 0]
  nextWithdrawalIndex := 0
  nextWithdrawalValidatorIndex := 0
  pendingPartialWithdrawals := []
  currentJustifiedCheckpoint := ⟨0, 0⟩
  finalizedCheckpoint := ⟨0, 0⟩
  exitBalanceToConsume := 0
  earliestExitEpoch := 0
  consolidationBalanceToConsume := 0
  earliestConsolidationEpoch := 0
  pendingConsolidations := []
  activationEligibilityEpochs := fun idx => if idx = 2 then farFutureEpoch else 0

/-- The two validators at the ejection balance exit at the activation-exit epoch, within one
    epoch's churn, and become withdrawable the delay after it. -/
example : ((processRegistryUpdates RegistrySpec.minimal genesisRegistry).run.map fun result =>
    result.toOption.map fun final => final.validators.map fun validator => (validator.exitEpoch, validator.withdrawableEpoch)) =
    some (some [(5, 261), (5, 261), (farFutureEpoch, farFutureEpoch), (farFutureEpoch, farFutureEpoch),
      (farFutureEpoch, farFutureEpoch)]) := by
  decide

variable (hcurrent : start.currentEpoch spec.toChainSpec < farFutureEpoch)
  (hconsume : 0 ≤ start.exitBalanceToConsume) {final : RegistryState}
  (h : (processRegistryUpdates spec start).run = some (.ok final))
include hcurrent hconsume h

/-- The exits of a pass keep to the exit churn: the validators it moves from a far-future exit
    epoch to one at most `epoch` hold together at most what the exit queue has left at its first
    epoch (`queueBalance`, a fresh churn if the activation-exit epoch raised it) and one churn for
    each epoch after it, and none of them exits before that first epoch (`queueEpoch`). -/
theorem processRegistryUpdates_exits_within_churn :
    (∀ epoch : Nat, queueEpoch (start.exitFloor spec) start.earliestExitEpoch ≤ epoch →
      (exitedBalance start.validators final.validators epoch : Int) ≤
        queueBalance (start.exitFloor spec) (start.exitChurn spec) start.earliestExitEpoch start.exitBalanceToConsume +
          (epoch - queueEpoch (start.exitFloor spec) start.earliestExitEpoch) * start.exitChurn spec) ∧
    ∀ epoch : Nat, epoch < queueEpoch (start.exitFloor spec) start.earliestExitEpoch →
      exitedBalance start.validators final.validators epoch = 0 := by
  have hinv := processRegistryUpdates_spec hcurrent hconsume h
  refine ⟨hinv.limit, fun epoch hepoch => exitedBalance_eq_zero ?_⟩
  intro i validator validator' hvalidator hvalidator' hfar hexit
  have hafter := (hinv.exits i validator validator' hvalidator hvalidator' hfar hexit).1
  omega

omit hcurrent hconsume h in
theorem processRegistryUpdates_exits_within_churn_genesis :
    ∃ final : RegistryState, (processRegistryUpdates RegistrySpec.minimal genesisRegistry).run = some (.ok final) ∧
      (∀ epoch : Nat, (5 : Int) ≤ epoch →
        (exitedBalance genesisRegistry.validators final.validators epoch : Int) ≤ 64000000000 + (epoch - 5) * 64000000000) ∧
      ∀ epoch : Nat, (epoch : Int) < 5 → exitedBalance genesisRegistry.validators final.validators epoch = 0 := by
  obtain ⟨final, hfinal⟩ : ∃ final, (processRegistryUpdates RegistrySpec.minimal genesisRegistry).run =
      some (.ok final) := ⟨_, rfl⟩
  exact ⟨final, hfinal, processRegistryUpdates_exits_within_churn (by decide) (le_refl 0) hfinal⟩

/-- A pass serves its exits in the order of the validators' indices: of two validators it moves
    from a far-future exit epoch, the one of the lower index never exits later. -/
theorem processRegistryUpdates_exits_in_order :
    ∀ i j x y, i < j → ExitsAt start.validators final.validators i x → ExitsAt start.validators final.validators j y →
      x ≤ y :=
  (processRegistryUpdates_spec hcurrent hconsume h).ordered

omit hcurrent hconsume h in
theorem processRegistryUpdates_exits_in_order_genesis :
    ∃ final : RegistryState, (processRegistryUpdates RegistrySpec.minimal genesisRegistry).run = some (.ok final) ∧
      ExitsAt genesisRegistry.validators final.validators 0 5 ∧ ExitsAt genesisRegistry.validators final.validators 1 5 ∧
      ∀ i j x y, i < j → ExitsAt genesisRegistry.validators final.validators i x →
        ExitsAt genesisRegistry.validators final.validators j y → x ≤ y := by
  refine ⟨_, rfl,
    ⟨⟨[0], [1], 16000000000, false, 0, farFutureEpoch, farFutureEpoch⟩, ⟨[0], [1], 16000000000, false, 0, 5, 261⟩,
      rfl, rfl, rfl, by decide, rfl⟩,
    ⟨⟨[1], [1], 16000000000, false, 0, farFutureEpoch, farFutureEpoch⟩, ⟨[1], [1], 16000000000, false, 0, 5, 261⟩,
      rfl, rfl, rfl, by decide, rfl⟩, ?_⟩
  exact @processRegistryUpdates_exits_in_order RegistrySpec.minimal genesisRegistry (by decide) (le_refl 0) _ rfl

/-- A pass keeps the validators active at the current epoch and every effective balance, and so
    the total active balance: what the code's caches of `get_active_validator_indices/2` and
    `get_total_active_balance/1`, keyed by the epoch and its root, hold for the pass's state. -/
theorem processRegistryUpdates_keeps_active_balance :
    getActiveValidatorIndices final.toBeaconState (start.currentEpoch spec.toChainSpec) =
      getActiveValidatorIndices start.toBeaconState (start.currentEpoch spec.toChainSpec) ∧
    final.validators.map (·.effectiveBalance) = start.validators.map (·.effectiveBalance) ∧
    getTotalActiveBalance spec.toChainSpec final.toBeaconState = getTotalActiveBalance spec.toChainSpec start.toBeaconState := by
  have hinv := processRegistryUpdates_spec hcurrent hconsume h
  have hbalances := congrArg (List.map Prod.snd) hinv.active
  simp only [List.map_map] at hbalances
  exact ⟨getActiveValidatorIndices_congr hinv.active, hbalances,
    getTotalActiveBalance_congr spec.toChainSpec hinv.slot_eq hinv.active⟩

omit hcurrent hconsume h in
theorem processRegistryUpdates_keeps_active_balance_genesis :
    ∃ final : RegistryState, (processRegistryUpdates RegistrySpec.minimal genesisRegistry).run = some (.ok final) ∧
      getActiveValidatorIndices final.toBeaconState 0 = [0, 1, 4] ∧
      final.validators.map (·.effectiveBalance) =
        [16000000000, 16000000000, 32000000000, 32000000000, 32000000000] ∧
      getTotalActiveBalance ChainSpec.minimal final.toBeaconState = 64000000000 := by
  obtain ⟨final, hfinal⟩ : ∃ final, (processRegistryUpdates RegistrySpec.minimal genesisRegistry).run =
      some (.ok final) := ⟨_, rfl⟩
  exact ⟨final, hfinal, processRegistryUpdates_keeps_active_balance (by decide) (le_refl 0) hfinal⟩

/-- After a pass, every validator active at the current epoch with at most the ejection balance
    is exiting: one already exiting keeps its exit and withdrawable epochs, and one that was not
    is given an exit epoch from the activation-exit epoch on, below the far future, and a
    withdrawable epoch the withdrawability delay after it. -/
theorem processRegistryUpdates_ejects :
    ∀ (i : Nat) (validator : Validator), start.validators[i]? = some validator →
      (validator.exitEpoch ≠ farFutureEpoch →
        final.validators[i]?.map (fun validator' : Validator => (validator'.exitEpoch, validator'.withdrawableEpoch)) =
          some (validator.exitEpoch, validator.withdrawableEpoch)) ∧
      (validator.active? (start.currentEpoch spec.toChainSpec) = true → validator.effectiveBalance ≤ spec.ejectionBalance →
        ∃ validator' : Validator, final.validators[i]? = some validator' ∧ validator'.exitEpoch ≠ farFutureEpoch ∧
          (validator.exitEpoch = farFutureEpoch →
            computeActivationExitEpoch spec.toChurnSpec (start.currentEpoch spec.toChainSpec) ≤ validator'.exitEpoch ∧
            validator'.withdrawableEpoch = validator'.exitEpoch + spec.minValidatorWithdrawabilityDelay)) := by
  have hinv := processRegistryUpdates_spec hcurrent hconsume h
  intro i validator hvalidator
  have hi : i < start.validators.length := (List.getElem?_eq_some_iff.mp hvalidator).1
  obtain ⟨validator', hvalidator'⟩ : ∃ validator' : Validator, final.validators[i]? = some validator' :=
    ⟨_, List.getElem?_eq_getElem (by rw [hinv.length]; exact hi)⟩
  have hupdated := hinv.earlier i hi ⟨validator, start.activationEligibilityEpochs i⟩
    ⟨validator', final.activationEligibilityEpochs i⟩ (by simp [RegistryState.registry_getElem?, hvalidator])
    (by simp [RegistryState.registry_getElem?, hvalidator'])
  obtain ⟨hkept, hejected⟩ := hupdated.exit_spec
  rw [hvalidator']
  refine ⟨fun hexiting => ?_, fun hactive hejection => ⟨validator', rfl, hejected hactive hejection⟩⟩
  rw [Option.map_some, (hkept hexiting).1, (hkept hexiting).2]

omit hcurrent hconsume h in
theorem processRegistryUpdates_ejects_genesis :
    ∃ final : RegistryState, (processRegistryUpdates RegistrySpec.minimal genesisRegistry).run = some (.ok final) ∧
      ∃ validator', final.validators[0]? = some validator' ∧ validator'.exitEpoch ≠ farFutureEpoch ∧
        5 ≤ validator'.exitEpoch ∧ validator'.withdrawableEpoch = validator'.exitEpoch + 256 := by
  obtain ⟨final, hfinal⟩ : ∃ final, (processRegistryUpdates RegistrySpec.minimal genesisRegistry).run =
      some (.ok final) := ⟨_, rfl⟩
  obtain ⟨validator', hvalidator', hexit, hejected⟩ :=
    (processRegistryUpdates_ejects (by decide) (le_refl 0) hfinal 0 _ rfl).2 rfl (by decide)
  exact ⟨final, hfinal, validator', hvalidator', hexit, hejected rfl⟩

end Pass

/-! ## The exit queue moves forward -/

section Forward

variable {spec : ChurnSpec}

/-- The churn mutators' body never moves the earliest epoch below where it was or below the
    activation-exit epoch: past that floor it adds a whole number of epochs. -/
theorem computeEpochAndUpdateChurn_le {currentEpoch : Nat} {earliestEpoch balanceToConsume : Int}
    {perEpochChurn balance : Nat} {earliest toConsume : Int}
    (h : computeEpochAndUpdateChurn spec currentEpoch earliestEpoch balanceToConsume perEpochChurn balance =
      some (earliest, toConsume)) :
    max earliestEpoch (computeActivationExitEpoch spec currentEpoch) ≤ earliest := by
  simp only [computeEpochAndUpdateChurn] at h
  generalize max earliestEpoch (computeActivationExitEpoch spec currentEpoch : Int) = floor at h ⊢
  generalize (if earliestEpoch < floor then (perEpochChurn : Int) else balanceToConsume) = left at h
  split at h
  · -- one epoch more than a division of an amount that is not negative
    rename_i hover
    simp only [kernelDiv] at h
    split at h
    · cases h
    · simp only [Option.bind_eq_bind, Option.bind_some, Option.pure_def, Option.some.injEq, Prod.mk.injEq] at h
      have hdiv : 0 ≤ ((balance : Int) - left - 1).tdiv perEpochChurn :=
        Int.tdiv_nonneg (by omega) (Int.natCast_nonneg _)
      omega
  · simp only [Option.bind_eq_bind, Option.bind_some, Option.pure_def, Option.some.injEq, Prod.mk.injEq] at h
    omega

/-- `compute_exit_epoch_and_update_churn/2` writes the exit churn's two fields only, and moves the
    earliest exit epoch forward, to the activation-exit epoch at least. -/
theorem computeExitEpochAndUpdateChurn_le {state state' : ChurnState} {exitBalance : Nat}
    (h : computeExitEpochAndUpdateChurn spec state exitBalance = some state') :
    state' = { state with
      exitBalanceToConsume := state'.exitBalanceToConsume
      earliestExitEpoch := state'.earliestExitEpoch } ∧
    max state.earliestExitEpoch (computeActivationExitEpoch spec (state.currentEpoch spec.toChainSpec)) ≤
      state'.earliestExitEpoch := by
  unfold computeExitEpochAndUpdateChurn at h
  obtain ⟨⟨earliest, toConsume⟩, hbody, h⟩ := Option.bind_eq_some_iff.mp h
  cases h
  exact ⟨rfl, computeEpochAndUpdateChurn_le hbody⟩

end Forward

/-- `initiate_validator_exit/2` writes the exit churn's two fields of the state only, and never
    moves the earliest exit epoch back. -/
theorem initiateValidatorExit_le {spec : RegistrySpec} {state state' : ChurnState} {validator validator' : Validator}
    (h : (initiateValidatorExit spec state validator).run = some (.ok (state', validator'))) :
    state' = { state with
      exitBalanceToConsume := state'.exitBalanceToConsume
      earliestExitEpoch := state'.earliestExitEpoch } ∧
    state.earliestExitEpoch ≤ state'.earliestExitEpoch := by
  unfold initiateValidatorExit at h
  split at h
  · simp only [ExceptT.run_pure, Option.pure_def, Option.some.injEq, Except.ok.injEq, Prod.mk.injEq] at h
    obtain ⟨rfl, -⟩ := h
    exact ⟨rfl, le_refl _⟩
  · simp only [Fallible.run_bind_lift, Option.bind_eq_some_iff] at h
    obtain ⟨churnState, hchurn, h⟩ := h
    split at h
    · cases h
    · simp only [ExceptT.run_pure, Option.pure_def, Option.some.injEq, Except.ok.injEq, Prod.mk.injEq] at h
      obtain ⟨rfl, -⟩ := h
      have hforward := computeExitEpochAndUpdateChurn_le hchurn
      exact ⟨hforward.1, le_trans (le_max_left _ _) hforward.2⟩

/-- A pass leaves the pending partial withdrawals as they are, and never moves the earliest exit
    epoch back: its ejections go through `initiate_validator_exit/2`. -/
theorem processRegistryUpdates_le {spec : RegistrySpec} {start final : RegistryState}
    (h : (processRegistryUpdates spec start).run = some (.ok final)) :
    final.pendingPartialWithdrawals = start.pendingPartialWithdrawals ∧
      start.earliestExitEpoch ≤ final.earliestExitEpoch := by
  refine Fallible.foldlM_zipIdx_invariant
    (fun _ state => state.pendingPartialWithdrawals = start.pendingPartialWithdrawals ∧
      start.earliestExitEpoch ≤ state.earliestExitEpoch) ⟨rfl, le_refl _⟩ ?_ h
  intro k hk state state' ⟨hpending, hearliest⟩ hstep
  rcases handleValidatorRegistryUpdate_cases spec hstep with
    ⟨-, rfl⟩ | ⟨-, -, -, churnState, ejected, hexit, rfl⟩ | ⟨-, -, -, rfl⟩ | ⟨-, -, -, rfl⟩
  · exact ⟨hpending, hearliest⟩
  · -- the ejection's state is the step's but for the exit churn
    obtain ⟨hframe, hforward⟩ := initiateValidatorExit_le hexit
    refine ⟨?_, le_trans hearliest hforward⟩
    show churnState.pendingPartialWithdrawals = _
    rw [hframe]
    exact hpending
  · exact ⟨hpending, hearliest⟩
  · exact ⟨hpending, hearliest⟩

end LambdaEthereumConsensus.StateTransition
