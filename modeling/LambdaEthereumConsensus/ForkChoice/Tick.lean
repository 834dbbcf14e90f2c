import LambdaEthereumConsensus.ForkChoice.Handlers

/-
  LambdaEthereumConsensus.ForkChoice.Tick — `Handlers.on_tick/2` against the specification's
  `on_tick` (`docs/specs/fork-choice.md`).

  The specification catches the store up one slot at a time: while the store's slot is behind
  the tick's, it runs `on_tick_per_slot` at the start of the store's next slot,
  `genesis_time + (slot + 1) * SECONDS_PER_SLOT`, and then runs it at the tick. Its
  `on_tick_per_slot` and `update_checkpoints` read as the code's on times after genesis, so
  `Spec.onTick` runs the code's `onTickPerSlot`. Each round moves the store exactly one slot
  on (`getCurrentSlot_onTickPerSlot_slotStart`), so the loop ends after the slots in between:
  more rounds change nothing (`Spec.catchUp_add`), and the rounds are a fold over the slot
  starts (`Spec.catchUp_eq_foldl`).

  The code runs `on_tick_per_slot/2` at `(current_slot + 1) * SECONDS_PER_SLOT` and on, the slot
  starts counted from zero (`intRange_slotStarts`), without the genesis time. With a genesis
  time of zero those are the specification's times, and the two agree on every store and every
  tick (`onTick_eq_spec_of_genesisTime_zero`). With any other genesis time the catch-up times
  are not the store's slot starts: on the minimal preset, a store with genesis time 12 in the
  last slot of epoch 0, ticked two slots on, past the start of epoch 1, goes back in time
  during the catch-up and never sees that start, so the code leaves the justified checkpoint
  where the specification pulls the unrealized one up (`onTick_skips_epoch_start`).
-/

namespace LambdaEthereumConsensus.ForkChoice

open LambdaEthereumConsensus.StateTransition

/-! ## The specification -/

namespace Spec

variable (env : Env)

/-- The specification's loop in `on_tick`, with at most `rounds` rounds: while the store's slot is
    behind `tickSlot`, `on_tick_per_slot` at the start of the store's next slot. -/
def catchUp (tickSlot : Int) : Nat → ForkChoice.Store → ForkChoice.Store
  | 0, store => store
  | rounds + 1, store =>
    if store.getCurrentSlot env < tickSlot then
      catchUp tickSlot rounds
        (onTickPerSlot env store (store.genesisTime + (store.getCurrentSlot env + 1) * env.spec.secondsPerSlot))
    else store

/-- The specification's `on_tick`: the loop, given as many rounds as there are slots between the
    store and the tick (`catchUp_add`), then `on_tick_per_slot` at the tick. -/
def onTick (store : ForkChoice.Store) (time : Int) : ForkChoice.Store :=
  let tickSlot := Int.tdiv (time - store.genesisTime) env.spec.secondsPerSlot
  onTickPerSlot env (catchUp env tickSlot (tickSlot - store.getCurrentSlot env).toNat store) time

end Spec

/-! ## Catching up -/

section Ticks

variable (env : Env)

theorem secondsPerSlot_ne_zero : (env.spec.secondsPerSlot : Int) ≠ 0 := by
  have := env.spec.secondsPerSlot_pos
  omega

/-- After `on_tick_per_slot` at the start of a slot, counted from the genesis time, the store is in
    that slot. -/
theorem getCurrentSlot_onTickPerSlot_slotStart (store : Store) (slot : Int) :
    (onTickPerSlot env store (store.genesisTime + slot * env.spec.secondsPerSlot)).getCurrentSlot env = slot := by
  rw [Store.getCurrentSlot, onTickPerSlot_time, onTickPerSlot_genesisTime, add_sub_cancel_left,
    Int.mul_tdiv_cancel _ (secondsPerSlot_ne_zero env)]

/-- Rounds beyond the slots between the store and the tick change nothing: the loop has ended.
    Induction on those slots. -/
theorem Spec.catchUp_add (tickSlot : Int) :
    ∀ (rounds extra : Nat) (store : Store), store.getCurrentSlot env + rounds = tickSlot →
      Spec.catchUp env tickSlot (rounds + extra) store = Spec.catchUp env tickSlot rounds store
  | 0, 0, _, _ => rfl
  | 0, extra + 1, store, hcaught => by
    rw [Nat.zero_add]
    show Spec.catchUp env tickSlot (extra + 1) store = store
    rw [Spec.catchUp, if_neg (by omega)]
  | rounds + 1, extra, store, hslots => by
    have hbehind : store.getCurrentSlot env < tickSlot := by omega
    rw [Nat.add_right_comm]
    simp only [Spec.catchUp, if_pos hbehind]
    exact Spec.catchUp_add tickSlot rounds extra _ (by rw [getCurrentSlot_onTickPerSlot_slotStart]; omega)

/-- The rounds of the loop from a store at least `rounds` slots behind the tick: a fold of
    `on_tick_per_slot` over the starts of the store's next `rounds` slots. Induction on the
    rounds. -/
theorem Spec.catchUp_eq_foldl (tickSlot : Int) :
    ∀ (rounds : Nat) (store : Store), store.getCurrentSlot env + rounds ≤ tickSlot →
      Spec.catchUp env tickSlot rounds store =
        (List.range rounds).foldl (fun store' (k : Nat) => onTickPerSlot env store'
          (store.genesisTime + (store.getCurrentSlot env + 1 + k) * env.spec.secondsPerSlot)) store
  | 0, _, _ => rfl
  | rounds + 1, store, hslots => by
    have hbehind : store.getCurrentSlot env < tickSlot := by omega
    set next := onTickPerSlot env store (store.genesisTime + (store.getCurrentSlot env + 1) * env.spec.secondsPerSlot)
    have hnext : next.getCurrentSlot env = store.getCurrentSlot env + 1 :=
      getCurrentSlot_onTickPerSlot_slotStart env store _
    rw [Spec.catchUp, if_pos hbehind, Spec.catchUp_eq_foldl tickSlot rounds next (by omega), List.range_succ_eq_map,
      List.foldl_cons, List.foldl_map, hnext, onTickPerSlot_genesisTime]
    congr 1
    · funext store' k
      congr 2
      push_cast
      ring
    · simp [next]

/-- The code's catch-up times: the starts of the slots after `slot` up to `tickSlot`, counted from
    zero. -/
theorem intRange_slotStarts {secondsPerSlot : Int} (hpos : 0 < secondsPerSlot) (slot tickSlot : Int) :
    intRange ((slot + 1) * secondsPerSlot) (tickSlot * secondsPerSlot) secondsPerSlot =
      (List.range (tickSlot - slot).toNat).map fun (k : Nat) => (slot + 1 + k) * secondsPerSlot := by
  unfold intRange
  by_cases hle : (slot + 1) * secondsPerSlot ≤ tickSlot * secondsPerSlot
  · have hslots : slot + 1 ≤ tickSlot := le_of_mul_le_mul_right hle hpos
    have hcount : (Int.tdiv (tickSlot * secondsPerSlot - (slot + 1) * secondsPerSlot) secondsPerSlot).toNat + 1 =
        (tickSlot - slot).toNat := by
      rw [← Int.sub_mul, Int.mul_tdiv_cancel _ (by omega)]
      omega
    -- the definition's indices are cast to integers as a list
    have hcast : (do let k ← List.range (tickSlot - slot).toNat; pure (k : Int) : List Int) =
        (List.range (tickSlot - slot).toNat).map (Nat.cast : Nat → Int) :=
      List.flatMap_pure_eq_map _ _
    rw [if_pos hle, hcount, hcast, List.map_map]
    apply List.map_congr_left
    intro k _
    simp only [Function.comp]
    ring
  · have hslots : tickSlot - slot ≤ 0 := by
      by_contra hgt
      exact hle (Int.mul_le_mul_of_nonneg_right (by omega) hpos.le)
    rw [if_neg hle, Int.toNat_of_nonpos hslots]
    rfl

/-- With a genesis time of zero the code's catch-up times are the specification's, and `on_tick`
    is the specification's on every store and every tick. -/
theorem onTick_eq_spec_of_genesisTime_zero (store : Store) (time : Int) (hgenesis : store.genesisTime = 0) :
    onTick env store time = Spec.onTick env store time := by
  have hpos : (0 : Int) < env.spec.secondsPerSlot := by
    have := env.spec.secondsPerSlot_pos
    omega
  unfold onTick Spec.onTick
  dsimp only
  rw [intRange_slotStarts hpos, List.foldl_map]
  congr 1
  by_cases hbehind : store.getCurrentSlot env ≤ Int.tdiv (time - store.genesisTime) env.spec.secondsPerSlot
  · rw [Spec.catchUp_eq_foldl env _ _ store (by omega), hgenesis]
    simp
  · rw [Int.toNat_of_nonpos (by omega)]
    rfl

end Ticks

/-! ## A genesis time other than zero -/

/-- The minimal preset; on_tick reads nothing else of the node. -/
def tickEnv : Env where
  spec := ChainSpec.minimal
  db := ⟨∅, fun hblock _ => by simp at hblock⟩
  getStateInfo _ := none
  futureSlot? _ _ := false
  dataAvailable? _ := true
  verifiedTransition stateInfo _ := .ok stateInfo
  verifyAndNotifyNewPayload _ := .ok .valid
  processJustificationAndFinalization := .ok
  processSlots state _ := .ok state
  getAttestingIndices _ _ := .ok []
  validIndexedAttestation? _ _ := true

/-- A store with genesis time 12 in slot 7, the last of epoch 0, justified at genesis, whose
    unrealized justified checkpoint is in epoch 1. -/
def lateStore : Store where
  time := 54
  genesisTime := 12
  justifiedCheckpoint := ⟨0, 1⟩
  finalizedCheckpoint := ⟨0, 1⟩
  unrealizedJustifiedCheckpoint := ⟨1, 2⟩
  unrealizedFinalizedCheckpoint := ⟨0, 1⟩
  proposerBoostRoot := 2
  equivocatingIndices := ∅
  latestMessages _ := none
  unrealizedJustifications _ := none
  treeCache := Tree.new 1
  states _ := none
  checkpointStates _ := none

theorem onTick_eq_spec_of_genesisTime_zero_minimal :
    onTick tickEnv { lateStore with genesisTime := 0 } 66 = Spec.onTick tickEnv { lateStore with genesisTime := 0 } 66 :=
  onTick_eq_spec_of_genesisTime_zero tickEnv _ 66 rfl

/-- A tick at 66, slot 9: the specification runs `on_tick_per_slot` at 60, the start of slot 8
    and of epoch 1, and pulls the unrealized justified checkpoint up; the code runs it at 48 and
    54, slots 6 and 7 of the store's clock, and never at the epoch's start. -/
theorem onTick_skips_epoch_start :
    (onTick tickEnv lateStore 66).justifiedCheckpoint = ⟨0, 1⟩ ∧
      (Spec.onTick tickEnv lateStore 66).justifiedCheckpoint = ⟨1, 2⟩ :=
  ⟨rfl, rfl⟩

end LambdaEthereumConsensus.ForkChoice
