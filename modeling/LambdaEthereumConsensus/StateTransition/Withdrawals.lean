import LambdaEthereumConsensus.Fallible.List
import LambdaEthereumConsensus.StateTransition.Types

/-
  LambdaEthereumConsensus.StateTransition.Withdrawals — `get_expected_withdrawals/1`,
  `process_partial_withdrawal/5`, `do_process_partial_withdrawal/5` and
  `process_withdrawals/2` with its helpers (`state_transition/operations.ex`).

  The expected withdrawals are the pending partial withdrawals due this epoch, each capped
  at the validator's balance above `MIN_ACTIVATION_BALANCE`, then a sweep over at most
  `MAX_VALIDATORS_PER_WITHDRAWALS_SWEEP` validators from `next_withdrawal_validator_index`,
  which withdraws what remains of a balance after the pending partial amounts of the same
  validator; the first `MAX_WITHDRAWALS_PER_PAYLOAD` of them are kept.

  Each pending partial withdrawal is capped against the balance in the state, not against
  what earlier ones of the same validator already took. So two of them for one validator
  withdraw more than its balance, and `decrease_balances/2` clamps the debit at zero
  (`getExpectedWithdrawals_overdraws`). Where every validator's pending partial amounts
  (`Accessors.get_pending_balance_to_withdraw/2`) add up to at most its balance, the pending
  amounts are positive and there are as many balances as validators, no validator is
  overdrawn and every amount is positive (`getExpectedWithdrawals_within_balance`): each
  withdrawal made from a pending one takes at most its amount (`withdrawnBalance_le_pending`),
  and the sweep visits each validator at most once (`sweepIndices_nodup`).
-/

namespace LambdaEthereumConsensus.StateTransition

open Fallible

/-- `<<_::binary-size(12), address::binary>> = withdrawal_credentials`. -/
def executionAddress (withdrawalCredentials : List UInt8) : Option (List UInt8) :=
  if 12 ≤ withdrawalCredentials.length then some (withdrawalCredentials.drop 12) else none

/-- The sweep's comprehension: the amounts of the withdrawals from validator `index`. -/
def withdrawnBalance (withdrawals : List Withdrawal) (index : Nat) : Nat :=
  ((withdrawals.filter (·.validatorIndex = index)).map (·.amount)).sum

@[simp] theorem withdrawnBalance_nil (index : Nat) : withdrawnBalance [] index = 0 := rfl

@[simp] theorem withdrawnBalance_cons (w : Withdrawal) (ws : List Withdrawal) (index : Nat) :
    withdrawnBalance (w :: ws) index =
      (if w.validatorIndex = index then w.amount else 0) + withdrawnBalance ws index := by
  by_cases h : w.validatorIndex = index <;> simp [withdrawnBalance, h]

@[simp] theorem withdrawnBalance_append (ws ws' : List Withdrawal) (index : Nat) :
    withdrawnBalance (ws ++ ws') index = withdrawnBalance ws index + withdrawnBalance ws' index := by
  simp [withdrawnBalance]

theorem withdrawnBalance_take_le (n : Nat) (ws : List Withdrawal) (index : Nat) :
    withdrawnBalance (ws.take n) index ≤ withdrawnBalance ws index := by
  conv_rhs => rw [← List.take_append_drop n ws]
  rw [withdrawnBalance_append]
  exact Nat.le_add_right _ _

theorem withdrawnBalance_eq_zero {ws : List Withdrawal} {index : Nat}
    (h : index ∉ ws.map (·.validatorIndex)) : withdrawnBalance ws index = 0 := by
  induction ws with
  | nil => rfl
  | cons w ws ih =>
    simp only [List.map_cons, List.mem_cons, not_or] at h
    simp [Ne.symm h.1, ih h.2]

/-- `Accessors.get_pending_balance_to_withdraw/2`. -/
def getPendingBalanceToWithdraw (state : BeaconState) (validatorIndex : Nat) : Nat :=
  ((state.pendingPartialWithdrawals.filter (·.validatorIndex == validatorIndex)).map (·.amount)).sum

/-- Where no two withdrawals name one validator, each validator's total is its one
    withdrawal's amount, so a bound on every amount bounds every total. -/
theorem withdrawnBalance_le_of_nodup {ws : List Withdrawal} {bound : Nat → Nat}
    (hnodup : (ws.map (·.validatorIndex)).Nodup) (hle : ∀ w ∈ ws, w.amount ≤ bound w.validatorIndex)
    (index : Nat) : withdrawnBalance ws index ≤ bound index := by
  induction ws with
  | nil => simp
  | cons w ws ih =>
    simp only [List.map_cons, List.nodup_cons] at hnodup
    rw [withdrawnBalance_cons]
    by_cases hw : w.validatorIndex = index
    · have hrest : withdrawnBalance ws index = 0 := withdrawnBalance_eq_zero (hw ▸ hnodup.1)
      simpa [hw, hrest] using hle w List.mem_cons_self
    · simpa [hw] using ih hnodup.2 (fun w' hw' => hle w' (List.mem_cons_of_mem w hw'))

/-- `{processed_partial_withdrawals_count, withdrawal_index, withdrawals}` of the pending
    partial withdrawals' loop. -/
structure PartialWithdrawals where
  processedPartialWithdrawalsCount : Nat
  withdrawalIndex : Nat
  withdrawals : List Withdrawal

section Withdrawals

variable (spec : ChainSpec)

/-! ## Pending partial withdrawals -/

/-- `do_process_partial_withdrawal/5`. -/
def doProcessPartialWithdrawal (state : BeaconState) (withdrawal : PendingPartialWithdrawal)
    (acc : PartialWithdrawals) : Option PartialWithdrawals := do
  -- `Aja.Vector.at/2` is `nil` past the end, and `nil.effective_balance` raises
  let validator ← state.validators[withdrawal.validatorIndex]?
  let hasSufficientEffectiveBalance := decide (spec.minActivationBalance ≤ validator.effectiveBalance)
  -- a `nil` balance is above every number in Erlang's term order; `nil - min` raises below
  let balance := state.balances[withdrawal.validatorIndex]?
  let hasExcessBalance := balance.all (spec.minActivationBalance < ·)
  if validator.exitEpoch == farFutureEpoch && hasSufficientEffectiveBalance && hasExcessBalance then
    let balance ← balance
    let withdrawableBalance := min (balance - spec.minActivationBalance) withdrawal.amount
    let address ← executionAddress validator.withdrawalCredentials
    pure ⟨acc.processedPartialWithdrawalsCount + 1, acc.withdrawalIndex + 1,
      acc.withdrawals ++ [⟨acc.withdrawalIndex, withdrawal.validatorIndex, address, withdrawableBalance⟩]⟩
  else pure { acc with processedPartialWithdrawalsCount := acc.processedPartialWithdrawalsCount + 1 }

/-- `process_partial_withdrawal/5`, the step of an `Enum.reduce_while/3`: `done` is its `:halt`. -/
def processPartialWithdrawal (state : BeaconState) (withdrawal : PendingPartialWithdrawal)
    (acc : PartialWithdrawals) : Option (ForInStep PartialWithdrawals) :=
  if state.currentEpoch spec < withdrawal.withdrawableEpoch ∨
      acc.processedPartialWithdrawalsCount = spec.maxPendingPartialsPerWithdrawalsSweep then
    pure (.done acc)
  else .yield <$> doProcessPartialWithdrawal spec state withdrawal acc

/-- A withdrawal made from a pending partial withdrawal: of its validator, and the smaller of
    its amount and the validator's balance above the minimum activation balance. -/
def PartialWithdrawalOf (state : BeaconState) (p : PendingPartialWithdrawal) (w : Withdrawal) : Prop :=
  w.validatorIndex = p.validatorIndex ∧ ∃ balance, state.balances[p.validatorIndex]? = some balance ∧
    spec.minActivationBalance < balance ∧ w.amount = min (balance - spec.minActivationBalance) p.amount

/-- What one pending partial withdrawal adds to the loop's withdrawals: nothing, or one
    withdrawal made from it. -/
theorem doProcessPartialWithdrawal_spec {state : BeaconState} {p : PendingPartialWithdrawal}
    {acc acc' : PartialWithdrawals} (h : doProcessPartialWithdrawal spec state p acc = some acc') :
    acc'.withdrawals = acc.withdrawals ∨
      ∃ w, acc'.withdrawals = acc.withdrawals ++ [w] ∧ PartialWithdrawalOf spec state p w := by
  unfold doProcessPartialWithdrawal at h
  obtain ⟨validator, -, h⟩ := Option.bind_eq_some_iff.mp h
  dsimp only at h
  split at h
  · rename_i hcond
    obtain ⟨balance, hbalance, h⟩ := Option.bind_eq_some_iff.mp h
    obtain ⟨address, -, h⟩ := Option.bind_eq_some_iff.mp h
    cases h
    have hexcess : spec.minActivationBalance < balance := by
      simp only [hbalance, Option.all_some, Bool.and_eq_true, decide_eq_true_eq] at hcond
      exact hcond.2
    exact .inr ⟨_, rfl, rfl, balance, hbalance, hexcess, rfl⟩
  · cases h
    exact .inl rfl

/-- The loop over the pending partial withdrawals appends withdrawals made from some of them,
    one from each, in order. -/
theorem forIn_processPartialWithdrawal {state : BeaconState} :
    ∀ {ps : List PendingPartialWithdrawal} {acc r : PartialWithdrawals},
      forIn ps acc (processPartialWithdrawal spec state) = some r →
      ∃ taken ws, r.withdrawals = acc.withdrawals ++ ws ∧ taken.Sublist ps ∧
        List.Forall₂ (PartialWithdrawalOf spec state) taken ws
  | [], acc, r, h => by
    simp only [List.forIn_nil, pure, Option.some.injEq] at h
    exact ⟨[], [], by simp [h], List.Sublist.slnil, .nil⟩
  | p :: ps, acc, r, h => by
    by_cases hhalt : state.currentEpoch spec < p.withdrawableEpoch ∨
        acc.processedPartialWithdrawalsCount = spec.maxPendingPartialsPerWithdrawalsSweep
    · -- `:halt`: the loop returns the accumulator
      have hstep : processPartialWithdrawal spec state p acc = some (.done acc) := by
        simp [processPartialWithdrawal, hhalt]
      rw [forIn_cons_done hstep] at h
      cases h
      exact ⟨[], [], by simp, List.nil_sublist _, .nil⟩
    · cases hacc' : doProcessPartialWithdrawal spec state p acc with
      | none => simp [List.forIn_cons, processPartialWithdrawal, hhalt, hacc'] at h
      | some acc' =>
        have hstep : processPartialWithdrawal spec state p acc = some (.yield acc') := by
          simp [processPartialWithdrawal, hhalt, hacc']
        rw [forIn_cons_yield hstep] at h
        obtain ⟨taken, ws, hr, hsub, hrel⟩ := forIn_processPartialWithdrawal h
        rcases doProcessPartialWithdrawal_spec spec hacc' with hsame | ⟨w, hw, hpw⟩
        · exact ⟨taken, ws, by rw [hr, hsame], hsub.cons p, hrel⟩
        · exact ⟨p :: taken, w :: ws, by simp [hr, hw], hsub.cons_cons p, .cons hpw hrel⟩

/-- Each pending partial withdrawal the loop reaches counts as processed, withdrawn from or not. -/
theorem doProcessPartialWithdrawal_count {state : BeaconState} {p : PendingPartialWithdrawal}
    {acc acc' : PartialWithdrawals} (h : doProcessPartialWithdrawal spec state p acc = some acc') :
    acc'.processedPartialWithdrawalsCount = acc.processedPartialWithdrawalsCount + 1 := by
  unfold doProcessPartialWithdrawal at h
  obtain ⟨validator, -, h⟩ := Option.bind_eq_some_iff.mp h
  dsimp only at h
  split at h
  · obtain ⟨balance, -, h⟩ := Option.bind_eq_some_iff.mp h
    obtain ⟨address, -, h⟩ := Option.bind_eq_some_iff.mp h
    cases h
    rfl
  · cases h
    rfl

/-- The loop over the pending partial withdrawals takes them from the front: it counts `k` of
    them, within the cap, and stops at the cap, at the end, or at the first one not yet due. -/
theorem forIn_processPartialWithdrawal_count {state : BeaconState} :
    ∀ {ps : List PendingPartialWithdrawal} {acc r : PartialWithdrawals},
      acc.processedPartialWithdrawalsCount ≤ spec.maxPendingPartialsPerWithdrawalsSweep →
      forIn ps acc (processPartialWithdrawal spec state) = some r →
      ∃ k ≤ ps.length, r.processedPartialWithdrawalsCount = acc.processedPartialWithdrawalsCount + k ∧
        r.processedPartialWithdrawalsCount ≤ spec.maxPendingPartialsPerWithdrawalsSweep ∧
        (r.processedPartialWithdrawalsCount = spec.maxPendingPartialsPerWithdrawalsSweep ∨ k = ps.length ∨
          ∃ p, ps[k]? = some p ∧ state.currentEpoch spec < p.withdrawableEpoch)
  | [], acc, r, hcap, h => by
    simp only [List.forIn_nil, pure, Option.some.injEq] at h
    subst h
    exact ⟨0, le_refl 0, rfl, hcap, .inr (.inl rfl)⟩
  | p :: ps, acc, r, hcap, h => by
    by_cases hhalt : state.currentEpoch spec < p.withdrawableEpoch ∨
        acc.processedPartialWithdrawalsCount = spec.maxPendingPartialsPerWithdrawalsSweep
    · -- `:halt` before `p`: nothing more is counted
      have hstep : processPartialWithdrawal spec state p acc = some (.done acc) := by
        simp [processPartialWithdrawal, hhalt]
      rw [forIn_cons_done hstep] at h
      cases h
      refine ⟨0, Nat.zero_le _, rfl, hcap, ?_⟩
      rcases hhalt with hdue | hfull
      · exact .inr (.inr ⟨p, rfl, hdue⟩)
      · exact .inl hfull
    · cases hacc' : doProcessPartialWithdrawal spec state p acc with
      | none => simp [List.forIn_cons, processPartialWithdrawal, hhalt, hacc'] at h
      | some acc' =>
        have hstep : processPartialWithdrawal spec state p acc = some (.yield acc') := by
          simp [processPartialWithdrawal, hhalt, hacc']
        rw [forIn_cons_yield hstep] at h
        have hcount := doProcessPartialWithdrawal_count spec hacc'
        have hcap' : acc'.processedPartialWithdrawalsCount ≤ spec.maxPendingPartialsPerWithdrawalsSweep := by
          omega
        obtain ⟨k, hk, hr, hrcap, hstop⟩ := forIn_processPartialWithdrawal_count hcap' h
        refine ⟨k + 1, by simpa using hk, by omega, hrcap, ?_⟩
        rcases hstop with hfull | hend | ⟨p', hp', hdue⟩
        · exact .inl hfull
        · exact .inr (.inl (by simp [hend]))
        · exact .inr (.inr ⟨p', by simpa using hp', hdue⟩)

/-! ## The sweep -/

/-- The entries that `Stream.cycle/1 |> Stream.drop(start) |> Stream.take(bound)` visits in a
    stream of `n` entries, by position. `Stream.take/2` of none reads nothing, and
    `Stream.cycle/1` raises on an empty stream. -/
def sweepIndices (n start bound : Nat) : Option (List Nat) :=
  if bound = 0 then some []
  else if n = 0 then none
  else some ((List.range bound).map fun k => (start + k) % n)

/-- A sweep no longer than the validators visits no validator twice. -/
theorem sweepIndices_nodup {n start bound : Nat} {indices : List Nat} (hbound : bound ≤ n)
    (h : sweepIndices n start bound = some indices) : indices.Nodup := by
  unfold sweepIndices at h
  split at h
  · cases h
    exact List.nodup_nil
  · split at h
    · cases h
    · cases h
      refine (List.nodup_range).map_on ?_
      intro a ha b hb hab
      have hmod : a ≡ b [MOD n] := Nat.ModEq.add_left_cancel' start hab
      have ha' : a < n := lt_of_lt_of_le (List.mem_range.mp ha) hbound
      have hb' : b < n := lt_of_lt_of_le (List.mem_range.mp hb) hbound
      simpa [Nat.ModEq, Nat.mod_eq_of_lt ha', Nat.mod_eq_of_lt hb'] using hmod

/-- The sweep's first map on validator `index`: `{validator, amount, index}` if it withdraws,
    `nil` if not. The amount is what the balance holds beyond the pending partial withdrawals'
    amounts: all of it for a fully withdrawable validator, the part above its maximum effective
    balance for a partially withdrawable one. -/
def sweepWithdrawal (state : BeaconState) (epoch : Nat) (pendingPartialWithdrawals : List Withdrawal)
    (index : Nat) : Option (Option (Validator × Int × Nat)) := do
  let validator ← state.validators[index]?
  let balance ← state.balances[index]?
  let balance : Int := balance - withdrawnBalance pendingPartialWithdrawals index
  if ← validator.fullyWithdrawable? balance epoch then pure (some (validator, balance, index))
  else if ← validator.partiallyWithdrawable? spec balance then
    pure (some (validator, balance - (← validator.getMaxEffectiveBalance spec), index))
  else pure none

/-- The sweep's second map: the withdrawal of an entry, numbered after the pending partial
    ones. The amount is an Elixir integer; it is positive (`sweepWithdrawal_spec`). -/
def sweepToWithdrawal (withdrawalIndex : Nat) (entry : (Validator × Int × Nat) × Nat) : Option Withdrawal := do
  let ((validator, balance, validatorIndex), index) := entry
  let address ← executionAddress validator.withdrawalCredentials
  pure ⟨index + withdrawalIndex, validatorIndex, address, balance.toNat⟩

/-- `get_expected_withdrawals/1`: the withdrawals and the number of pending partial
    withdrawals processed. -/
def getExpectedWithdrawals (state : BeaconState) : Option (List Withdrawal × Nat) := do
  let epoch := state.currentEpoch spec
  let acc ← forIn state.pendingPartialWithdrawals ⟨0, state.nextWithdrawalIndex, []⟩
    (processPartialWithdrawal spec state)
  let bound := min state.validators.length spec.maxValidatorsPerWithdrawalsSweep
  -- `Stream.zip/1` stops at the shorter of the validators and the balances
  let indices ← sweepIndices (min state.validators.length state.balances.length)
    state.nextWithdrawalValidatorIndex bound
  let entries ← indices.mapM (sweepWithdrawal spec state epoch acc.withdrawals)
  let nonPartialWithdrawals ← entries.reduceOption.zipIdx.mapM (sweepToWithdrawal acc.withdrawalIndex)
  pure ((acc.withdrawals ++ nonPartialWithdrawals).take spec.maxWithdrawalsPerPayload,
    acc.processedPartialWithdrawalsCount)

/-- `get_expected_withdrawals/1` counts the pending partial withdrawals it takes from the front of
    the queue: it stops at the cap, at the end of the queue, or at the first one not yet due. -/
theorem getExpectedWithdrawals_count {state : BeaconState} {withdrawals : List Withdrawal} {count : Nat}
    (h : getExpectedWithdrawals spec state = some (withdrawals, count)) :
    count ≤ state.pendingPartialWithdrawals.length ∧
      (count = spec.maxPendingPartialsPerWithdrawalsSweep ∨ count = state.pendingPartialWithdrawals.length ∨
        ∃ p, state.pendingPartialWithdrawals[count]? = some p ∧ state.currentEpoch spec < p.withdrawableEpoch) := by
  unfold getExpectedWithdrawals at h
  obtain ⟨acc, hacc, h⟩ := Option.bind_eq_some_iff.mp h
  obtain ⟨indices, -, h⟩ := Option.bind_eq_some_iff.mp h
  obtain ⟨entries, -, h⟩ := Option.bind_eq_some_iff.mp h
  obtain ⟨rest, -, h⟩ := Option.bind_eq_some_iff.mp h
  cases h
  obtain ⟨k, hk, hcount, -, hstop⟩ := forIn_processPartialWithdrawal_count spec (Nat.zero_le _) hacc
  rw [Nat.zero_add] at hcount
  rw [hcount]
  exact ⟨hk, hstop.imp_left (hcount ▸ ·)⟩

/-! ## Applying withdrawals -/

/-- `check_withdrawals/2`. -/
def checkWithdrawals (withdrawals expectedWithdrawals : List Withdrawal) : Except String Unit :=
  if withdrawals.length ≠ expectedWithdrawals.length then
    .error "expected withdrawals don't match the state withdrawals in length"
  else if (expectedWithdrawals.zip withdrawals).all fun (expected, withdrawal) => expected == withdrawal then .ok ()
  else .error "withdrawal doesn't match expected withdrawal"

/-- `decrease_balances/2`: `max(balance - amount, 0)` is the natural subtraction. -/
def decreaseBalances (balances : List Nat) (withdrawals : List Withdrawal) : Option (List Nat) :=
  withdrawals.foldlM (fun balances withdrawal => updateAt! balances withdrawal.validatorIndex (· - withdrawal.amount))
    balances

/-- `update_next_withdrawal_index/2`. -/
def updateNextWithdrawalIndex (state : BeaconState) (withdrawals : List Withdrawal) : BeaconState :=
  match withdrawals.getLast? with
  | none => state
  | some latestWithdrawal => { state with nextWithdrawalIndex := latestWithdrawal.index + 1 }

/-- `update_next_withdrawal_validator_index/3`; `List.last([])` is `nil`, whose
    `validator_index` raises, and so does `rem/2` by zero. -/
def updateNextWithdrawalValidatorIndex (state : BeaconState) (withdrawals : List Withdrawal)
    (validatorLen : Nat) : Option BeaconState := do
  let nextIndex ←
    if withdrawals.length = spec.maxWithdrawalsPerPayload then
      withdrawals.getLast?.map (·.validatorIndex + 1)
    else pure (state.nextWithdrawalValidatorIndex + spec.maxValidatorsPerWithdrawalsSweep)
  if validatorLen = 0 then none
  else pure { state with nextWithdrawalValidatorIndex := nextIndex % validatorLen }

/-- `update_next_withdrawal_index/2` writes its one field. -/
theorem updateNextWithdrawalIndex_frame (state : BeaconState) (withdrawals : List Withdrawal) :
    updateNextWithdrawalIndex state withdrawals =
      { state with nextWithdrawalIndex := (updateNextWithdrawalIndex state withdrawals).nextWithdrawalIndex } := by
  unfold updateNextWithdrawalIndex
  split <;> rfl

theorem updateNextWithdrawalIndex_balances (state : BeaconState) (withdrawals : List Withdrawal) :
    (updateNextWithdrawalIndex state withdrawals).balances = state.balances := by
  rw [updateNextWithdrawalIndex_frame]

/-- `update_next_withdrawal_validator_index/3` writes its one field. -/
theorem updateNextWithdrawalValidatorIndex_frame {state state' : BeaconState} {withdrawals : List Withdrawal}
    {validatorLen : Nat} (h : updateNextWithdrawalValidatorIndex spec state withdrawals validatorLen = some state') :
    state' = { state with nextWithdrawalValidatorIndex := state'.nextWithdrawalValidatorIndex } := by
  unfold updateNextWithdrawalValidatorIndex at h
  dsimp only at h
  split at h
  · obtain ⟨nextIndex, -, h⟩ := Option.bind_eq_some_iff.mp h
    split at h
    · cases h
    · cases h
      rfl
  · split at h
    · cases h
    · cases h
      rfl

theorem updateNextWithdrawalValidatorIndex_balances {state state' : BeaconState} {withdrawals : List Withdrawal}
    {validatorLen : Nat} (h : updateNextWithdrawalValidatorIndex spec state withdrawals validatorLen = some state') :
    state'.balances = state.balances := by
  rw [updateNextWithdrawalValidatorIndex_frame spec h]

/-- `process_withdrawals/2` on the payload's withdrawals. -/
def processWithdrawals (state : BeaconState) (withdrawals : List Withdrawal) :
    Option (Except String BeaconState) := do
  let (expectedWithdrawals, processedPartialWithdrawalsCount) ← getExpectedWithdrawals spec state
  match checkWithdrawals withdrawals expectedWithdrawals with
  | .error e => pure (.error e)
  | .ok () =>
    let balances ← decreaseBalances state.balances withdrawals
    let state' := { state with
      balances
      pendingPartialWithdrawals := state.pendingPartialWithdrawals.drop processedPartialWithdrawalsCount }
    let state' ← updateNextWithdrawalValidatorIndex spec (updateNextWithdrawalIndex state' withdrawals) withdrawals
      state.validators.length
    pure (.ok state')

/-- `process_withdrawals/2` takes the pending partial withdrawals that `get_expected_withdrawals/1`
    counted off the front of the queue, and adds none. -/
theorem processWithdrawals_pendingPartialWithdrawals {state state' : BeaconState} {withdrawals : List Withdrawal}
    (h : processWithdrawals spec state withdrawals = some (.ok state')) :
    ∃ expectedWithdrawals count, getExpectedWithdrawals spec state = some (expectedWithdrawals, count) ∧
      state'.pendingPartialWithdrawals = state.pendingPartialWithdrawals.drop count := by
  unfold processWithdrawals at h
  obtain ⟨⟨expectedWithdrawals, processedCount⟩, hexpected, h⟩ := Option.bind_eq_some_iff.mp h
  dsimp only at h
  split at h
  · cases h
  · obtain ⟨balances, -, h⟩ := Option.bind_eq_some_iff.mp h
    obtain ⟨state'', hstate'', h⟩ := Option.bind_eq_some_iff.mp h
    cases h
    refine ⟨expectedWithdrawals, processedCount, hexpected, ?_⟩
    rw [updateNextWithdrawalValidatorIndex_frame spec hstate'', updateNextWithdrawalIndex_frame]

/-- An entry of the sweep is of the validator it visits, and its amount is positive and at
    most what the balance holds beyond the pending partial withdrawals' amounts. -/
theorem sweepWithdrawal_spec {state : BeaconState} {epoch : Nat} {pending : List Withdrawal}
    {index : Nat} {validator : Validator} {amount : Int} {validatorIndex : Nat}
    (h : sweepWithdrawal spec state epoch pending index = some (some (validator, amount, validatorIndex))) :
    validatorIndex = index ∧ 0 < amount ∧
      withdrawnBalance pending index + amount.toNat ≤ state.balances.getD index 0 := by
  unfold sweepWithdrawal at h
  obtain ⟨v, -, h⟩ := Option.bind_eq_some_iff.mp h
  obtain ⟨balance, hbalance, h⟩ := Option.bind_eq_some_iff.mp h
  have hget : state.balances.getD index 0 = balance := by simp [List.getD_eq_getElem?_getD, hbalance]
  obtain ⟨fully, hfully, h⟩ := Option.bind_eq_some_iff.mp h
  split at h
  next hfullyTrue =>
    -- fully withdrawable: all that remains of the balance
    cases h
    rw [hfullyTrue] at hfully
    have hpos : (0 : Int) < balance - withdrawnBalance pending index :=
      Validator.pos_of_fullyWithdrawable? hfully
    refine ⟨rfl, hpos, ?_⟩
    omega
  next =>
    obtain ⟨partially, hpartially, h⟩ := Option.bind_eq_some_iff.mp h
    split at h
    next hpartiallyTrue =>
      -- partially withdrawable: the part above the maximum effective balance
      obtain ⟨maxEffectiveBalance, hmax, h⟩ := Option.bind_eq_some_iff.mp h
      cases h
      rw [hpartiallyTrue] at hpartially
      have hexcess : (maxEffectiveBalance : Int) < balance - withdrawnBalance pending index :=
        Validator.lt_of_partiallyWithdrawable? hpartially hmax
      refine ⟨rfl, by omega, ?_⟩
      omega
    next => cases h

/-- The sweep's withdrawals: of distinct validators, positive, and each within what its
    validator's balance holds beyond the pending partial withdrawals' amounts. -/
theorem sweep_spec {state : BeaconState} {epoch withdrawalIndex : Nat} {pending : List Withdrawal}
    {indices : List Nat} {entries : List (Option (Validator × Int × Nat))} {withdrawals : List Withdrawal}
    (hindices : indices.Nodup)
    (hentries : indices.mapM (sweepWithdrawal spec state epoch pending) = some entries)
    (hwithdrawals : entries.reduceOption.zipIdx.mapM (sweepToWithdrawal withdrawalIndex) = some withdrawals) :
    (withdrawals.map (·.validatorIndex)).Nodup ∧ ∀ w ∈ withdrawals, 0 < w.amount ∧
      withdrawnBalance pending w.validatorIndex + w.amount ≤ state.balances.getD w.validatorIndex 0 := by
  -- each withdrawal carries its entry's validator and amount
  have hstep : ∀ e w, sweepToWithdrawal withdrawalIndex e = some w →
      (w.validatorIndex, w.amount) = (e.1.2.2, e.1.2.1.toNat) := by
    rintro ⟨⟨validator, amount, validatorIndex⟩, i⟩ w hw
    simp only [sweepToWithdrawal, Option.bind_eq_bind, Option.bind_eq_some_iff, pure] at hw
    obtain ⟨_, -, hw⟩ := hw
    cases hw
    rfl
  have hmap : withdrawals.map (fun w => (w.validatorIndex, w.amount)) =
      entries.reduceOption.map (fun e => (e.2.2, e.2.1.toNat)) := by
    rw [map_of_mapM_eq_some hwithdrawals hstep]
    conv_rhs => rw [← List.zipIdx_map_fst 0 entries.reduceOption]
    rw [List.map_map]
    rfl
  -- and the entries are of distinct validators, those the sweep visits
  have hsub : (entries.reduceOption.map (·.2.2)).Sublist indices :=
    reduceOption_map_sublist (fun _ _ h => (sweepWithdrawal_spec spec h).1) (forall₂_of_mapM_eq_some hentries)
  have hindex : withdrawals.map (·.validatorIndex) = entries.reduceOption.map (·.2.2) := by
    have := congrArg (List.map Prod.fst) hmap
    simpa [List.map_map, Function.comp_def] using this
  refine ⟨hindex ▸ hindices.sublist hsub, fun w hw => ?_⟩
  have hmem : (w.validatorIndex, w.amount) ∈ withdrawals.map (fun w => (w.validatorIndex, w.amount)) :=
    List.mem_map_of_mem hw
  rw [hmap] at hmem
  obtain ⟨e, he, hew⟩ := List.mem_map.mp hmem
  obtain ⟨index, -, hindex⟩ := exists_of_mapM_eq_some hentries (List.reduceOption_mem_iff.mp he)
  obtain ⟨rfl, hpos, hle⟩ := sweepWithdrawal_spec spec hindex
  simp only [Prod.mk.injEq] at hew
  rw [← hew.1, ← hew.2]
  exact ⟨Int.lt_toNat.mpr hpos, hle⟩

theorem PartialWithdrawalOf.amount_pos {state : BeaconState} {p : PendingPartialWithdrawal} {w : Withdrawal}
    (h : PartialWithdrawalOf spec state p w) (hp : 0 < p.amount) : 0 < w.amount := by
  obtain ⟨-, balance, -, hexcess, hamount⟩ := h
  rw [hamount]
  omega

/-- Withdrawals made one from each of some pending partial withdrawals take from each validator
    at most what those pending ones ask of it; induction on the pairing. -/
theorem withdrawnBalance_le_pending {state : BeaconState} {taken : List PendingPartialWithdrawal}
    {ws : List Withdrawal} (hrel : List.Forall₂ (PartialWithdrawalOf spec state) taken ws) (index : Nat) :
    withdrawnBalance ws index ≤ ((taken.filter (·.validatorIndex == index)).map (·.amount)).sum := by
  induction hrel with
  | nil => simp
  | @cons p w taken ws hpw _ ih =>
    obtain ⟨hindex, balance, -, -, hamount⟩ := hpw
    have hle : w.amount ≤ p.amount := hamount ▸ Nat.min_le_right _ _
    rw [withdrawnBalance_cons, hindex]
    by_cases hp : p.validatorIndex = index
    · simp only [hp, if_true, List.filter_cons, beq_self_eq_true, List.map_cons, List.sum_cons]
      omega
    · simpa [List.filter_cons, hp] using ih

/-- Those withdrawals are positive where the pending ones are. -/
theorem PartialWithdrawalOf.forall₂_pos {state : BeaconState} {taken : List PendingPartialWithdrawal}
    {ws : List Withdrawal} (hrel : List.Forall₂ (PartialWithdrawalOf spec state) taken ws)
    (hpos : ∀ p ∈ taken, 0 < p.amount) : ∀ w ∈ ws, 0 < w.amount := by
  induction hrel with
  | nil => simp
  | @cons p w taken ws hpw _ ih =>
    rintro w' (_ | ⟨_, hw'⟩)
    · exact hpw.amount_pos spec (hpos p List.mem_cons_self)
    · exact ih (fun p' hp' => hpos p' (List.mem_cons_of_mem p hp')) w' hw'

/-! ## Expected withdrawals -/

/-- Where every validator's pending partial amounts add up to at most its balance, the pending
    amounts are positive and every validator has a balance, the expected withdrawals are
    positive and no validator's add up to more than its balance: those made from pending ones
    take at most the pending amounts, and the sweep at most what they leave. -/
theorem getExpectedWithdrawals_within_balance {state : BeaconState} {withdrawals : List Withdrawal}
    {processedCount : Nat} (hlen : state.balances.length = state.validators.length)
    (hpending : ∀ index, getPendingBalanceToWithdraw state index ≤ state.balances.getD index 0)
    (hpos : ∀ p ∈ state.pendingPartialWithdrawals, 0 < p.amount)
    (h : getExpectedWithdrawals spec state = some (withdrawals, processedCount)) :
    (∀ index, withdrawnBalance withdrawals index ≤ state.balances.getD index 0) ∧
      ∀ w ∈ withdrawals, 0 < w.amount := by
  unfold getExpectedWithdrawals at h
  obtain ⟨acc, hacc, h⟩ := Option.bind_eq_some_iff.mp h
  obtain ⟨indices, hindices, h⟩ := Option.bind_eq_some_iff.mp h
  obtain ⟨entries, hentries, h⟩ := Option.bind_eq_some_iff.mp h
  obtain ⟨sweep, hsweep, h⟩ := Option.bind_eq_some_iff.mp h
  simp only [pure, Option.some.injEq, Prod.mk.injEq] at h
  obtain ⟨rfl, -⟩ := h
  -- those made from pending partial withdrawals: within the pending amounts, so the balance
  obtain ⟨taken, ws, hws, hsub, hrel⟩ := forIn_processPartialWithdrawal spec hacc
  rw [List.nil_append] at hws
  have hpartial : ∀ index, withdrawnBalance ws index ≤ state.balances.getD index 0 := by
    intro index
    calc withdrawnBalance ws index
        ≤ ((taken.filter (·.validatorIndex == index)).map (·.amount)).sum := withdrawnBalance_le_pending spec hrel index
      _ ≤ getPendingBalanceToWithdraw state index :=
        ((hsub.filter _).map _).sum_le_sum fun _ _ => Nat.zero_le _
      _ ≤ state.balances.getD index 0 := hpending index
  -- the sweep: one per validator, each within what the pending ones leave
  have hbound : min state.validators.length spec.maxValidatorsPerWithdrawalsSweep ≤
      min state.validators.length state.balances.length := by omega
  obtain ⟨hsweepNodup, hsweepOk⟩ := sweep_spec spec (sweepIndices_nodup hbound hindices) hentries hsweep
  rw [hws] at hsweepOk
  have hswept : ∀ index, withdrawnBalance sweep index ≤ state.balances.getD index 0 - withdrawnBalance ws index :=
    withdrawnBalance_le_of_nodup hsweepNodup fun w hw => by
      have := (hsweepOk w hw).2
      omega
  constructor
  · intro index
    calc withdrawnBalance ((acc.withdrawals ++ sweep).take spec.maxWithdrawalsPerPayload) index
        ≤ withdrawnBalance (acc.withdrawals ++ sweep) index := withdrawnBalance_take_le _ _ _
      _ = withdrawnBalance ws index + withdrawnBalance sweep index := by rw [withdrawnBalance_append, hws]
      _ ≤ state.balances.getD index 0 := by
        have := hpartial index
        have := hswept index
        omega
  · intro w hw
    rcases List.mem_append.mp (List.mem_of_mem_take hw) with hw | hw
    · rw [hws] at hw
      exact PartialWithdrawalOf.forall₂_pos spec hrel (fun p hp => hpos p (hsub.subset hp)) w hw
    · exact (hsweepOk w hw).1

/-- A validator of 100 ETH, 32 ETH of them staked, with two pending partial withdrawals of
    30 ETH, 60 ETH pending in all. -/
def twoPendingState : BeaconState :=
  ⟨0, [⟨[7], [1, 0, 0, 0, 0, 0, 0, 0, 0, 0, 0, 0, 5], 32000000000, false, 0, farFutureEpoch, farFutureEpoch⟩],
    [100000000000], [], [], 0, 0, [⟨0, 30000000000, 0⟩, ⟨0, 30000000000, 0⟩], ⟨0, 0⟩, ⟨0, 0⟩⟩

/-- The 60 ETH pending for validator 0 are within its 100 ETH; no other validator has any. -/
theorem twoPendingState_pending_le (index : Nat) :
    getPendingBalanceToWithdraw twoPendingState index ≤ twoPendingState.balances.getD index 0 := by
  by_cases hindex : index = 0
  · subst hindex
    decide
  · simp [getPendingBalanceToWithdraw, twoPendingState, Ne.symm hindex]

/-- Its expected withdrawals: the two pending ones, then the sweep's 8 ETH above the 32 ETH
    maximum effective balance, 68 ETH in all. -/
def twoPendingWithdrawals : List Withdrawal :=
  [⟨0, 0, [5], 30000000000⟩, ⟨1, 0, [5], 30000000000⟩, ⟨2, 0, [5], 8000000000⟩]

theorem two_pending_withdrawals_within_balance :
    getExpectedWithdrawals ChainSpec.mainnet twoPendingState = some (twoPendingWithdrawals, 2) ∧
    (∀ index, withdrawnBalance twoPendingWithdrawals index ≤ twoPendingState.balances.getD index 0) ∧
    ∀ w ∈ twoPendingWithdrawals, 0 < w.amount := by
  have h : getExpectedWithdrawals ChainSpec.mainnet twoPendingState = some (twoPendingWithdrawals, 2) := by decide
  exact ⟨h, getExpectedWithdrawals_within_balance ChainSpec.mainnet rfl twoPendingState_pending_le (by decide) h⟩

/-- Two pending partial withdrawals of 60 ETH for a validator of 100 ETH, 32 ETH of them
    staked: each is capped at the 68 ETH above the minimum, so the two withdraw 120 ETH, and
    applying them leaves the balance at zero, a debit of 100 ETH. -/
theorem getExpectedWithdrawals_overdraws :
    getExpectedWithdrawals ChainSpec.mainnet
        ⟨0, [⟨[7], [1, 0, 0, 0, 0, 0, 0, 0, 0, 0, 0, 0, 5], 32000000000, false, 0, farFutureEpoch, farFutureEpoch⟩],
          [100000000000], [], [], 0, 0, [⟨0, 60000000000, 0⟩, ⟨0, 60000000000, 0⟩], ⟨0, 0⟩, ⟨0, 0⟩⟩ =
      some ([⟨0, 0, [5], 60000000000⟩, ⟨1, 0, [5], 60000000000⟩], 2) ∧
    withdrawnBalance [⟨0, 0, [5], 60000000000⟩, ⟨1, 0, [5], 60000000000⟩] 0 = 120000000000 ∧
    processWithdrawals ChainSpec.mainnet
        ⟨0, [⟨[7], [1, 0, 0, 0, 0, 0, 0, 0, 0, 0, 0, 0, 5], 32000000000, false, 0, farFutureEpoch, farFutureEpoch⟩],
          [100000000000], [], [], 0, 0, [⟨0, 60000000000, 0⟩, ⟨0, 60000000000, 0⟩], ⟨0, 0⟩, ⟨0, 0⟩⟩
        [⟨0, 0, [5], 60000000000⟩, ⟨1, 0, [5], 60000000000⟩] =
      some (.ok ⟨0, [⟨[7], [1, 0, 0, 0, 0, 0, 0, 0, 0, 0, 0, 0, 5], 32000000000, false, 0, farFutureEpoch, farFutureEpoch⟩],
        [0], [], [], 2, 0, [], ⟨0, 0⟩, ⟨0, 0⟩⟩) := by
  refine ⟨?_, rfl, ?_⟩ <;> decide

/-! ## Applying the expected withdrawals -/

theorem checkWithdrawals_eq_ok {withdrawals expectedWithdrawals : List Withdrawal}
    (h : checkWithdrawals withdrawals expectedWithdrawals = .ok ()) : withdrawals = expectedWithdrawals := by
  unfold checkWithdrawals at h
  split at h
  · cases h
  · rename_i hlen
    split at h
    · rename_i hall
      rw [not_ne_iff] at hlen
      rw [List.all_eq_true] at hall
      refine List.ext_getElem hlen fun i hi hi' => ?_
      have hmem : (expectedWithdrawals[i], withdrawals[i]) ∈ expectedWithdrawals.zip withdrawals := by
        rw [List.mem_iff_getElem]
        exact ⟨i, by simp only [List.length_zip]; omega, by simp⟩
      have hi_eq : expectedWithdrawals[i] = withdrawals[i] := by simpa using hall _ hmem
      exact hi_eq.symm
    · cases h

/-- Withdrawals that overdraw no validator are debited in full: the clamp at zero never acts. -/
theorem decreaseBalances_exact {balances balances' : List Nat} {withdrawals : List Withdrawal}
    (hle : ∀ index, withdrawnBalance withdrawals index ≤ balances.getD index 0)
    (h : decreaseBalances balances withdrawals = some balances') :
    ∀ index, balances'.getD index 0 + withdrawnBalance withdrawals index = balances.getD index 0 := by
  induction withdrawals generalizing balances with
  | nil =>
    simp only [decreaseBalances, List.foldlM_nil, pure, Option.some.injEq] at h
    simp [h]
  | cons w ws ih =>
    simp only [decreaseBalances, List.foldlM_cons, Option.bind_eq_bind, Option.bind_eq_some_iff] at h
    obtain ⟨balances₁, hbalances₁, hrest⟩ := h
    have hget := getD_of_updateAt! hbalances₁
    -- the rest of the withdrawals overdraw nothing either, after the first is debited
    have hle₁ : ∀ index, withdrawnBalance ws index ≤ balances₁.getD index 0 := by
      intro index
      have hw := hle index
      rw [withdrawnBalance_cons] at hw
      rw [hget]
      by_cases hi : index = w.validatorIndex
      · subst hi
        rw [if_pos rfl] at hw ⊢
        omega
      · rw [if_neg (Ne.symm hi)] at hw
        rw [if_neg hi]
        omega
    intro index
    have hrestEq := ih hle₁ hrest index
    have hw := hle index
    rw [withdrawnBalance_cons] at hw ⊢
    rw [hget] at hrestEq
    by_cases hi : index = w.validatorIndex
    · subst hi
      rw [if_pos rfl] at hw hrestEq ⊢
      omega
    · rw [if_neg hi] at hrestEq
      rw [if_neg (Ne.symm hi)] at hw ⊢
      omega

/-- Under the hypotheses of `getExpectedWithdrawals_within_balance`, a block's withdrawals that
    `process_withdrawals/2` accepts are debited in full from every balance. -/
theorem processWithdrawals_debits_exactly {state state' : BeaconState} {withdrawals : List Withdrawal}
    (hlen : state.balances.length = state.validators.length)
    (hpending : ∀ index, getPendingBalanceToWithdraw state index ≤ state.balances.getD index 0)
    (hpos : ∀ p ∈ state.pendingPartialWithdrawals, 0 < p.amount)
    (h : processWithdrawals spec state withdrawals = some (.ok state')) :
    ∀ index, state'.balances.getD index 0 + withdrawnBalance withdrawals index = state.balances.getD index 0 := by
  unfold processWithdrawals at h
  obtain ⟨⟨expectedWithdrawals, processedCount⟩, hexpected, h⟩ := Option.bind_eq_some_iff.mp h
  dsimp only at h
  split at h
  · cases h
  · rename_i hcheck
    obtain rfl := checkWithdrawals_eq_ok hcheck
    obtain ⟨balances, hbalances, h⟩ := Option.bind_eq_some_iff.mp h
    obtain ⟨state'', hstate'', h⟩ := Option.bind_eq_some_iff.mp h
    cases h
    -- neither index update touches the balances
    have hframe : state'.balances = balances :=
      (updateNextWithdrawalValidatorIndex_balances spec hstate'').trans (updateNextWithdrawalIndex_balances _ _)
    rw [hframe]
    exact decreaseBalances_exact
      (getExpectedWithdrawals_within_balance spec hlen hpending hpos hexpected).1 hbalances

/-- The block of `twoPendingWithdrawals`: 68 ETH are debited, leaving 32 ETH. -/
theorem two_pending_withdrawals_debited :
    processWithdrawals ChainSpec.mainnet twoPendingState twoPendingWithdrawals =
      some (.ok ⟨0, [⟨[7], [1, 0, 0, 0, 0, 0, 0, 0, 0, 0, 0, 0, 5], 32000000000, false, 0, farFutureEpoch,
        farFutureEpoch⟩], [32000000000], [], [], 3, 0, [], ⟨0, 0⟩, ⟨0, 0⟩⟩) ∧
    ∀ index, [32000000000].getD index 0 + withdrawnBalance twoPendingWithdrawals index =
      twoPendingState.balances.getD index 0 := by
  have h : processWithdrawals ChainSpec.mainnet twoPendingState twoPendingWithdrawals =
      some (.ok ⟨0, [⟨[7], [1, 0, 0, 0, 0, 0, 0, 0, 0, 0, 0, 0, 5], 32000000000, false, 0, farFutureEpoch,
        farFutureEpoch⟩], [32000000000], [], [], 3, 0, [], ⟨0, 0⟩, ⟨0, 0⟩⟩) := by decide
  exact ⟨h, processWithdrawals_debits_exactly ChainSpec.mainnet rfl twoPendingState_pending_le (by decide) h⟩

end Withdrawals

end LambdaEthereumConsensus.StateTransition
