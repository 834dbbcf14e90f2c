import LambdaEthereumConsensus.ForkChoice.Store

/-
  LambdaEthereumConsensus.ForkChoice.Handlers — `ForkChoice.Handlers`
  (`fork_choice/handlers.ex`): `on_tick/2`, `on_block/2`, `on_attestation/3` and
  `on_attester_slashing/2`, and the store as a state machine driven by them.

  A handler returns `{:ok, store}` or `{:error, reason}`, `none` where it raises. Its callers
  (`ForkChoice.on_attestation/2`, `on_attester_slashing/2`, `apply_handler/3`) keep the store
  they had when it fails, so a step (`step`) is the new store or the old one.

  Every checkpoint the handlers write goes through `update_checkpoints/3` or
  `update_unrealized_checkpoints/3`, which replace a checkpoint by one of a strictly greater
  epoch only; `update_latest_messages/3` skips equivocating validators and replaces a message
  by one of a greater epoch only; `on_attester_slashing/2` only adds equivocating indices.
  So along any run, successful and failing steps alike, none of the four checkpoint epochs
  and no validator's latest message epoch goes down, the equivocating indices only grow,
  and an equivocating validator's latest message is frozen (`run_monotone`).
-/

namespace LambdaEthereumConsensus.ForkChoice

open LambdaEthereumConsensus.StateTransition

/-- `Utils.if_then_update/3`. -/
def ifThenUpdate {α : Type} (value : α) (pred : Bool) (f : α → α) : α := if pred then f value else value

/-- `Constants.intervals_per_slot/0`. -/
def intervalsPerSlot : Nat := 3

/-- `Constants.genesis_epoch/0`. -/
def genesisEpoch : Nat := 0

/-- The zero root `<<0::256>>`. -/
def zeroRoot : Root := 0

/-- `a..b//step` for a positive step, as a list. -/
def intRange (first last step : Int) : List Int :=
  (List.range (if first ≤ last then (Int.tdiv (last - first) step).toNat + 1 else 0)).map fun k => first + k * step

section Handlers

variable (env : Env)

/-! ## Checkpoints -/

/-- `update_checkpoints/3`. -/
def updateCheckpoints (store : Store) (justifiedCheckpoint finalizedCheckpoint : Checkpoint) : Store :=
  ifThenUpdate
    (ifThenUpdate store (justifiedCheckpoint.epoch > store.justifiedCheckpoint.epoch)
      ({ · with justifiedCheckpoint }))
    -- the condition reads the store passed in; the justified update leaves its finalized one
    (finalizedCheckpoint.epoch > store.finalizedCheckpoint.epoch) ({ · with finalizedCheckpoint })

/-- `update_unrealized_checkpoints/3`. -/
def updateUnrealizedCheckpoints (store : Store) (unrealizedJustifiedCheckpoint unrealizedFinalizedCheckpoint : Checkpoint) :
    Store :=
  ifThenUpdate
    (ifThenUpdate store (unrealizedJustifiedCheckpoint.epoch > store.unrealizedJustifiedCheckpoint.epoch)
      ({ · with unrealizedJustifiedCheckpoint }))
    (unrealizedFinalizedCheckpoint.epoch > store.unrealizedFinalizedCheckpoint.epoch)
    ({ · with unrealizedFinalizedCheckpoint })

/-! ## Ticks -/

/-- `compute_slots_since_epoch_start/1`. -/
def computeSlotsSinceEpochStart (slot : Int) : Int :=
  slot - Int.tdiv slot env.spec.slotsPerEpoch * env.spec.slotsPerEpoch

/-- `on_tick_per_slot/2`. -/
def onTickPerSlot (store : Store) (time : Int) : Store :=
  let previousSlot := store.getCurrentSlot env
  let store := { store with time }
  let currentSlot := store.getCurrentSlot env
  ifThenUpdate store (currentSlot > previousSlot) fun store =>
    ifThenUpdate { store with proposerBoostRoot := zeroRoot } (computeSlotsSinceEpochStart env currentSlot == 0)
      fun store => updateCheckpoints store store.unrealizedJustifiedCheckpoint store.unrealizedFinalizedCheckpoint

@[simp] theorem updateCheckpoints_time (store : Store) (justifiedCheckpoint finalizedCheckpoint : Checkpoint) :
    (updateCheckpoints store justifiedCheckpoint finalizedCheckpoint).time = store.time := by
  unfold updateCheckpoints ifThenUpdate
  split_ifs <;> rfl

@[simp] theorem updateCheckpoints_genesisTime (store : Store) (justifiedCheckpoint finalizedCheckpoint : Checkpoint) :
    (updateCheckpoints store justifiedCheckpoint finalizedCheckpoint).genesisTime = store.genesisTime := by
  unfold updateCheckpoints ifThenUpdate
  split_ifs <;> rfl

@[simp] theorem onTickPerSlot_time (store : Store) (time : Int) : (onTickPerSlot env store time).time = time := by
  unfold onTickPerSlot ifThenUpdate
  dsimp only
  split_ifs <;> simp

@[simp] theorem onTickPerSlot_genesisTime (store : Store) (time : Int) :
    (onTickPerSlot env store time).genesisTime = store.genesisTime := by
  unfold onTickPerSlot ifThenUpdate
  dsimp only
  split_ifs <;> simp

/-- `on_tick/2`. The catch-up ticks are the slot starts counted from genesis, without the
    genesis time that the specification's `on_tick` adds. -/
def onTick (store : Store) (time : Int) : Store :=
  let secondsPerSlot : Int := env.spec.secondsPerSlot
  let tickSlot := Int.tdiv (time - store.genesisTime) secondsPerSlot
  let currentSlot := store.getCurrentSlot env
  let nextSlotStart := (currentSlot + 1) * secondsPerSlot
  let lastSlotStart := tickSlot * secondsPerSlot
  onTickPerSlot env ((intRange nextSlotStart lastSlotStart secondsPerSlot).foldl (onTickPerSlot env) store) time

/-! ## Blocks -/

/-- `handle_verify_payload_result/1`. -/
def handleVerifyPayloadResult : Except String PayloadStatus → Except String PayloadStatus
  | .ok .valid => .ok .valid
  | .ok .optimistic => .ok .optimistic
  | .ok .invalid => .error "Invalid execution payload"
  | .error error => .error s!"Error when calling execution client: {error}"

/-- `compute_pulled_up_tip/4`. -/
def computePulledUpTip (store : Store) (blockRoot : Root) (block : BeaconBlock) (state : BeaconState) :
    Except String Store := do
  let state ← env.processJustificationAndFinalization state
  let blockEpoch := computeEpochAtSlot env.spec block.slot
  let currentEpoch := store.getCurrentEpoch env
  let unrealizedJustifications :=
    Function.update store.unrealizedJustifications blockRoot (some state.currentJustifiedCheckpoint)
  pure (ifThenUpdate
    (updateUnrealizedCheckpoints { store with unrealizedJustifications } state.currentJustifiedCheckpoint
      state.finalizedCheckpoint)
    (blockEpoch < currentEpoch) (updateCheckpoints · state.currentJustifiedCheckpoint state.finalizedCheckpoint))

/-- `compute_post_state/3`. -/
def computePostState (store : Store) (blockInfo : BlockInfo) (stateInfo : StateInfo) :
    Option (Except String Store) :=
  let block := blockInfo.block
  match env.verifiedTransition stateInfo blockInfo, handleVerifyPayloadResult (env.verifyAndNotifyNewPayload blockInfo) with
  | .error e, _ | .ok _, .error e => some (.error e)
  | .ok newStateInfo, .ok _ => do
    let secondsPerSlot : Int := env.spec.secondsPerSlot
    let timeIntoSlot := Int.tmod (store.time - store.genesisTime) secondsPerSlot
    let isBeforeAttestingInterval := decide (timeIntoSlot < Int.tdiv secondsPerSlot intervalsPerSlot)
    let newStore := store.storeState newStateInfo.blockRoot newStateInfo
    let isFirstBlock := newStore.proposerBoostRoot == zeroRoot
    let isTimely := newStore.getCurrentSlot env == block.slot && isBeforeAttestingInterval
    let state := newStateInfo.beaconState
    let newStore ← newStore.storeBlockInfo blockInfo
    let newStore := ifThenUpdate newStore (isTimely && isFirstBlock) ({ · with proposerBoostRoot := blockInfo.root })
    let newStore := updateCheckpoints newStore state.currentJustifiedCheckpoint state.finalizedCheckpoint
    pure (computePulledUpTip env newStore blockInfo.root block state)

/-- `Base.encode16/1` of a root's 32 bytes. -/
def encodeRoot (root : Root) : String := Binary.encode16 (Binary.natToLE 32 root).reverse

/-- `on_block/2`. -/
def onBlock (store : Store) (blockInfo : BlockInfo) : Option (Except String Store) := do
  let block := blockInfo.block
  let finalizedSlot := computeStartSlotAtEpoch env.spec store.finalizedCheckpoint.epoch
  match store.getState env block.parentRoot with
  | none => pure (.error s!"parent state (block root = {encodeRoot block.parentRoot}) not found in store")
  | some baseState =>
    if env.futureSlot? store block.slot then pure (.error "block is from the future")
    else if block.slot ≤ finalizedSlot then pure (.error "block is prior to last finalized epoch")
    -- `get_ancestor/3` raises on a root not in the database
    else match getCheckpointBlock env.spec env.db block.parentRoot store.finalizedCheckpoint.epoch with
      | none => none
      | some checkpointBlock =>
        if store.finalizedCheckpoint.root ≠ checkpointBlock then
          pure (.error "block isn't descendant of latest finalized block")
        else if !env.dataAvailable? blockInfo then pure (.error "blob data not available")
        else computePostState env store blockInfo baseState

/-! ## Attestations -/

/-- What `check_attestation_valid/3` returns: `:ok`, `{:error, reason}` or `{:unknown_block, root}`. -/
inductive AttestationCheck where
  | ok
  | error (reason : String)
  | unknownBlock (root : Root)
  deriving DecidableEq, Repr

/-- `target_epoch_against_current_time_valid?/2`. -/
def targetEpochAgainstCurrentTimeValid? (store : Store) (attestation : Attestation) : AttestationCheck :=
  let target := attestation.data.target
  let currentEpoch := store.getCurrentEpoch env
  let previousEpoch := max (currentEpoch - 1) genesisEpoch
  if (target.epoch : Int) ∈ [currentEpoch, previousEpoch] then .ok else .error "future epoch"

/-- The clause of `check_attestation_valid/3` for an attestation from a block. -/
def checkAttestationValidFromBlock (store : Store) (attestation : Attestation) : Option AttestationCheck :=
  let target := attestation.data.target
  let blockRoot := attestation.data.beaconBlockRoot
  let headBlock := env.db.getBlock blockRoot
  if target.epoch ≠ computeEpochAtSlot env.spec attestation.data.slot then some (.error "mismatched epoch and slot")
  else if (env.db.getBlock target.root).isNone then some (.unknownBlock target.root)
  else match headBlock with
    | none => some (.unknownBlock blockRoot)
    | some headBlock =>
      if headBlock.slot > attestation.data.slot then some (.error "future head block")
      else match getCheckpointBlock env.spec env.db blockRoot target.epoch with
        | none => none
        | some checkpointBlock =>
          if target.root ≠ checkpointBlock then some (.error "mismatched head and target blocks")
          else if env.futureSlot? store (attestation.data.slot - 1) then
            some (.error "attestation is for a future slot")
          else some .ok

/-- `check_attestation_valid/3`: from the wire, the target epoch is checked first. -/
def checkAttestationValid (store : Store) (attestation : Attestation) (isFromBlock : Bool) :
    Option AttestationCheck :=
  if isFromBlock then checkAttestationValidFromBlock env store attestation
  else match targetEpochAgainstCurrentTimeValid? env store attestation with
    | .ok => checkAttestationValidFromBlock env store attestation
    | check => some check

/-- `Accessors.get_indexed_attestation/2`. -/
def getIndexedAttestation (state : BeaconState) (attestation : Attestation) : Except String IndexedAttestation := do
  let indices ← env.getAttestingIndices state attestation
  pure ⟨indices.mergeSort (· ≤ ·), attestation.data, attestation.signature⟩

/-- `update_latest_messages/3`: the filters read the messages the store had. -/
def updateLatestMessages (store : Store) (attestingIndices : List Nat) (attestation : Attestation) : Store :=
  let target := attestation.data.target
  let messages := store.latestMessages
  let message : Checkpoint := ⟨target.epoch, attestation.data.beaconBlockRoot⟩
  let latestMessages := ((attestingIndices.filter (· ∉ store.equivocatingIndices)).filter fun i =>
      match messages i with
      | none => true
      | some m => target.epoch > m.epoch).foldl
    (fun messages i => Function.update messages i (some message)) messages
  { store with latestMessages }

/-- `on_attestation/3`. -/
def onAttestation (store : Store) (attestation : Attestation) (isFromBlock : Bool) :
    Option (Except String Store) := do
  match ← checkAttestationValid env store attestation isFromBlock with
  | .error reason => pure (.error reason)
  -- a block whose attestations name an unknown block is still processed
  | .unknownBlock _ => pure (if isFromBlock then .ok store else .error "unknown block")
  | .ok =>
    -- `{new_store, target_state}` matches `{store, nil}` too, and `get_indexed_attestation/2`
    -- then raises
    let (newStore, targetState) ← store.getCheckpointState env attestation.data.target
    let targetState ← targetState
    match getIndexedAttestation env targetState attestation with
    | .error e => pure (.error e)
    | .ok indexedAttestation =>
      if !env.validIndexedAttestation? targetState indexedAttestation then pure (.error "invalid indexed attestation")
      else pure (.ok (updateLatestMessages newStore indexedAttestation.attestingIndices attestation))

/-- `on_attester_slashing/2`; `Store.get_state!/2` raises on a justified root without a state. -/
def onAttesterSlashing (store : Store) (attesterSlashing : AttesterSlashing) : Option (Except String Store) := do
  let stateInfo ← store.getState env store.justifiedCheckpoint.root
  let state := stateInfo.beaconState
  let attestation1 := attesterSlashing.attestation1
  let attestation2 := attesterSlashing.attestation2
  if !slashableAttestationData? attestation1.data attestation2.data then pure (.error "attestation is not slashable")
  else if !env.validIndexedAttestation? state attestation1 then pure (.error "attestation 1 is not valid")
  else if !env.validIndexedAttestation? state attestation2 then pure (.error "attestation 2 is not valid")
  else
    let indices1 := attestation1.attestingIndices.toFinset
    let indices2 := attestation2.attestingIndices.toFinset
    pure (.ok { store with equivocatingIndices := indices1 ∩ indices2 ∪ store.equivocatingIndices })

/-! ## The store as a state machine -/

/-- A call of a handler. -/
inductive Event where
  | tick (time : Int)
  | block (blockInfo : BlockInfo)
  | attestation (attestation : Attestation) (isFromBlock : Bool)
  | attesterSlashing (attesterSlashing : AttesterSlashing)

/-- The handler of an event. -/
def handle (store : Store) : Event → Option (Except String Store)
  | .tick time => some (.ok (onTick env store time))
  | .block blockInfo => onBlock env store blockInfo
  | .attestation attestation isFromBlock => onAttestation env store attestation isFromBlock
  | .attesterSlashing attesterSlashing => onAttesterSlashing env store attesterSlashing

/-- A step: the handler's store, or the old one where it fails. -/
def step (store : Store) (event : Event) : Store :=
  match handle env store event with
  | some (.ok store') => store'
  | _ => store

/-- A run of steps. -/
def run (store : Store) (events : List Event) : Store := events.foldl (step env) store

/-! ## What never goes back -/

/-- From `store` to `store'`: no checkpoint epoch and no latest message epoch went down, no
    latest message was dropped, no equivocating index was dropped, and an equivocating
    validator's latest message stayed as it was. -/
structure Monotone (store store' : Store) : Prop where
  justified : store.justifiedCheckpoint.epoch ≤ store'.justifiedCheckpoint.epoch
  finalized : store.finalizedCheckpoint.epoch ≤ store'.finalizedCheckpoint.epoch
  unrealizedJustified : store.unrealizedJustifiedCheckpoint.epoch ≤ store'.unrealizedJustifiedCheckpoint.epoch
  unrealizedFinalized : store.unrealizedFinalizedCheckpoint.epoch ≤ store'.unrealizedFinalizedCheckpoint.epoch
  equivocating : store.equivocatingIndices ⊆ store'.equivocatingIndices
  latestMessages : ∀ i m, store.latestMessages i = some m →
    ∃ m', store'.latestMessages i = some m' ∧ m.epoch ≤ m'.epoch
  frozen : ∀ i ∈ store.equivocatingIndices, store'.latestMessages i = store.latestMessages i

namespace Monotone

theorem refl (store : Store) : Monotone store store :=
  ⟨le_rfl, le_rfl, le_rfl, le_rfl, subset_rfl, fun _ m h => ⟨m, h, le_rfl⟩, fun _ _ => rfl⟩

theorem trans {s₁ s₂ s₃ : Store} (h₁₂ : Monotone s₁ s₂) (h₂₃ : Monotone s₂ s₃) : Monotone s₁ s₃ where
  justified := h₁₂.justified.trans h₂₃.justified
  finalized := h₁₂.finalized.trans h₂₃.finalized
  unrealizedJustified := h₁₂.unrealizedJustified.trans h₂₃.unrealizedJustified
  unrealizedFinalized := h₁₂.unrealizedFinalized.trans h₂₃.unrealizedFinalized
  equivocating := h₁₂.equivocating.trans h₂₃.equivocating
  latestMessages i m h := by
    obtain ⟨m₂, hm₂, hle₂⟩ := h₁₂.latestMessages i m h
    obtain ⟨m₃, hm₃, hle₃⟩ := h₂₃.latestMessages i m₂ hm₂
    exact ⟨m₃, hm₃, hle₂.trans hle₃⟩
  frozen i hi := (h₂₃.frozen i (h₁₂.equivocating hi)).trans (h₁₂.frozen i hi)

/-- A store that differs in none of the tracked fields. -/
theorem of_frame {store store' : Store} (hj : store'.justifiedCheckpoint = store.justifiedCheckpoint)
    (hf : store'.finalizedCheckpoint = store.finalizedCheckpoint)
    (huj : store'.unrealizedJustifiedCheckpoint = store.unrealizedJustifiedCheckpoint)
    (huf : store'.unrealizedFinalizedCheckpoint = store.unrealizedFinalizedCheckpoint)
    (he : store'.equivocatingIndices = store.equivocatingIndices)
    (hl : store'.latestMessages = store.latestMessages) : Monotone store store' where
  justified := hj ▸ le_rfl
  finalized := hf ▸ le_rfl
  unrealizedJustified := huj ▸ le_rfl
  unrealizedFinalized := huf ▸ le_rfl
  equivocating := he ▸ subset_rfl
  latestMessages _ m h := ⟨m, hl ▸ h, le_rfl⟩
  frozen _ _ := hl ▸ rfl

theorem ifThenUpdate {store : Store} {pred : Bool} {f : Store → Store}
    (h : pred = true → Monotone store (f store)) : Monotone store (ifThenUpdate store pred f) := by
  unfold LambdaEthereumConsensus.ForkChoice.ifThenUpdate
  split
  · exact h ‹_›
  · exact refl store

theorem foldl {α : Type} {f : Store → α → Store} (hf : ∀ store a, Monotone store (f store a)) :
    ∀ (xs : List α) (store : Store), Monotone store (xs.foldl f store)
  | [], store => refl store
  | x :: xs, store => (hf store x).trans (foldl hf xs (f store x))

end Monotone

/-! ## Checkpoint updates -/

theorem updateCheckpoints_monotone (store : Store) (justifiedCheckpoint finalizedCheckpoint : Checkpoint) :
    Monotone store (updateCheckpoints store justifiedCheckpoint finalizedCheckpoint) := by
  unfold updateCheckpoints
  -- the finalized update reads the store passed in, whose finalized checkpoint the
  -- justified update kept
  have hjustified : Monotone store
      (LambdaEthereumConsensus.ForkChoice.ifThenUpdate store (justifiedCheckpoint.epoch > store.justifiedCheckpoint.epoch)
        ({ · with justifiedCheckpoint })) := by
    refine Monotone.ifThenUpdate fun h => ?_
    exact { Monotone.refl store with justified := le_of_lt (of_decide_eq_true h) }
  refine hjustified.trans (Monotone.ifThenUpdate fun h => ?_)
  have hfinalized : (LambdaEthereumConsensus.ForkChoice.ifThenUpdate store
      (justifiedCheckpoint.epoch > store.justifiedCheckpoint.epoch)
      ({ · with justifiedCheckpoint })).finalizedCheckpoint = store.finalizedCheckpoint := by
    unfold LambdaEthereumConsensus.ForkChoice.ifThenUpdate
    split <;> rfl
  exact { Monotone.refl _ with finalized := by rw [hfinalized]; exact le_of_lt (of_decide_eq_true h) }

theorem updateUnrealizedCheckpoints_monotone (store : Store) (justifiedCheckpoint finalizedCheckpoint : Checkpoint) :
    Monotone store (updateUnrealizedCheckpoints store justifiedCheckpoint finalizedCheckpoint) := by
  unfold updateUnrealizedCheckpoints
  have hjustified : Monotone store
      (LambdaEthereumConsensus.ForkChoice.ifThenUpdate store
        (justifiedCheckpoint.epoch > store.unrealizedJustifiedCheckpoint.epoch)
        ({ · with unrealizedJustifiedCheckpoint := justifiedCheckpoint })) := by
    refine Monotone.ifThenUpdate fun h => ?_
    exact { Monotone.refl store with unrealizedJustified := le_of_lt (of_decide_eq_true h) }
  refine hjustified.trans (Monotone.ifThenUpdate fun h => ?_)
  have hfinalized : (LambdaEthereumConsensus.ForkChoice.ifThenUpdate store
      (justifiedCheckpoint.epoch > store.unrealizedJustifiedCheckpoint.epoch)
      ({ · with unrealizedJustifiedCheckpoint := justifiedCheckpoint })).unrealizedFinalizedCheckpoint =
        store.unrealizedFinalizedCheckpoint := by
    unfold LambdaEthereumConsensus.ForkChoice.ifThenUpdate
    split <;> rfl
  exact { Monotone.refl _ with unrealizedFinalized := by rw [hfinalized]; exact le_of_lt (of_decide_eq_true h) }

/-! ## Each handler -/

theorem onTickPerSlot_monotone (store : Store) (time : Int) : Monotone store (onTickPerSlot env store time) := by
  unfold onTickPerSlot
  dsimp only
  -- setting the time and clearing the proposer boost touch nothing tracked
  have htime : Monotone store { store with time } := Monotone.of_frame rfl rfl rfl rfl rfl rfl
  refine htime.trans (Monotone.ifThenUpdate fun _ => ?_)
  have hboost : Monotone { store with time } { store with time, proposerBoostRoot := zeroRoot } :=
    Monotone.of_frame rfl rfl rfl rfl rfl rfl
  exact hboost.trans (Monotone.ifThenUpdate fun _ => updateCheckpoints_monotone _ _ _)

theorem onTick_monotone (store : Store) (time : Int) : Monotone store (onTick env store time) := by
  unfold onTick
  exact (Monotone.foldl (onTickPerSlot_monotone env) _ store).trans (onTickPerSlot_monotone env _ time)

theorem computePulledUpTip_monotone {store store' : Store} {blockRoot : Root} {block : BeaconBlock}
    {state : BeaconState} (h : computePulledUpTip env store blockRoot block state = .ok store') :
    Monotone store store' := by
  unfold computePulledUpTip at h
  cases hstate : env.processJustificationAndFinalization state with
  | error e => simp [hstate, bind, Except.bind] at h
  | ok state' =>
    simp only [hstate, bind, Except.bind, pure, Except.pure, Except.ok.injEq] at h
    subst h
    -- recording the block's unrealized justification touches nothing tracked
    let justifications := Function.update store.unrealizedJustifications blockRoot
      (some state'.currentJustifiedCheckpoint)
    have hjustifications : Monotone store { store with unrealizedJustifications := justifications } :=
      Monotone.of_frame rfl rfl rfl rfl rfl rfl
    exact hjustifications.trans ((updateUnrealizedCheckpoints_monotone _ _ _).trans
      (Monotone.ifThenUpdate fun _ => updateCheckpoints_monotone _ _ _))

theorem storeBlockInfo_monotone {store store' : Store} {blockInfo : BlockInfo}
    (h : store.storeBlockInfo blockInfo = some store') : Monotone store store' := by
  unfold Store.storeBlockInfo Store.updateTree at h
  obtain ⟨tree, -, h⟩ := Option.bind_eq_some_iff.mp h
  split at h
  · cases h
    exact Monotone.of_frame rfl rfl rfl rfl rfl rfl
  · cases h
    exact Monotone.refl store

theorem computePostState_monotone {store store' : Store} {blockInfo : BlockInfo} {stateInfo : StateInfo}
    (h : computePostState env store blockInfo stateInfo = some (.ok store')) : Monotone store store' := by
  unfold computePostState at h
  split at h
  · cases h
  · cases h
  · rename_i newStateInfo _ _ _
    obtain ⟨stored, hstored, h⟩ := Option.bind_eq_some_iff.mp h
    simp only [pure, Option.some.injEq] at h
    -- storing the state and the block, and the proposer boost, touch nothing tracked; then
    -- the checkpoints only rise
    have hstate : Monotone store (store.storeState newStateInfo.blockRoot newStateInfo) :=
      Monotone.of_frame rfl rfl rfl rfl rfl rfl
    have hboost (pred : Bool) : Monotone stored
        (LambdaEthereumConsensus.ForkChoice.ifThenUpdate stored pred
          ({ · with proposerBoostRoot := blockInfo.root })) :=
      Monotone.ifThenUpdate fun _ => Monotone.of_frame rfl rfl rfl rfl rfl rfl
    exact hstate.trans ((storeBlockInfo_monotone hstored).trans ((hboost _).trans
      ((updateCheckpoints_monotone _ _ _).trans (computePulledUpTip_monotone env h))))

theorem onBlock_monotone {store store' : Store} {blockInfo : BlockInfo}
    (h : onBlock env store blockInfo = some (.ok store')) : Monotone store store' := by
  unfold onBlock at h
  dsimp only at h
  cases hbase : store.getState env blockInfo.block.parentRoot with
  | none => simp [hbase] at h
  | some baseState =>
    simp only [hbase] at h
    -- every check that fails gives an error; only the last branch computes a store
    split at h
    · cases h
    split at h
    · cases h
    split at h
    · cases h
    split at h
    · cases h
    split at h
    · cases h
    exact computePostState_monotone env h

/-- Each index the update writes passed both filters: it is not equivocating and its message,
    if any, was older. -/
theorem updateLatestMessages_monotone (store : Store) (attestingIndices : List Nat) (attestation : Attestation) :
    Monotone store (updateLatestMessages store attestingIndices attestation) := by
  let message : Checkpoint := ⟨attestation.data.target.epoch, attestation.data.beaconBlockRoot⟩
  -- the invariant of the reduction: each entry is the old one, or the new message where the
  -- filters let it through
  let Written (messages : Nat → Option Checkpoint) : Prop := ∀ i, messages i = store.latestMessages i ∨
    (messages i = some message ∧ i ∉ store.equivocatingIndices ∧
      ∀ m, store.latestMessages i = some m → m.epoch < message.epoch)
  have hwritten : ∀ (indices : List Nat), (∀ i ∈ indices, i ∉ store.equivocatingIndices ∧
      ∀ m, store.latestMessages i = some m → m.epoch < message.epoch) →
      ∀ messages, Written messages →
        Written (indices.foldl (fun messages i => Function.update messages i (some message)) messages) := by
    intro indices
    induction indices with
    | nil => intro _ messages h; exact h
    | cons j indices ih =>
      intro hindices messages h
      refine ih (fun i hi => hindices i (List.mem_cons_of_mem j hi)) _ fun i => ?_
      by_cases hij : i = j
      · subst hij
        exact .inr ⟨by simp, hindices i List.mem_cons_self⟩
      · simpa [Function.update_of_ne hij] using h i
  have hfiltered : ∀ i ∈ (attestingIndices.filter (· ∉ store.equivocatingIndices)).filter (fun i =>
      match store.latestMessages i with
      | none => true
      | some m => decide (attestation.data.target.epoch > m.epoch)),
      i ∉ store.equivocatingIndices ∧ ∀ m, store.latestMessages i = some m → m.epoch < message.epoch := by
    intro i hi
    simp only [List.mem_filter, decide_eq_true_eq] at hi
    refine ⟨hi.1.2, fun m hm => ?_⟩
    have := hi.2
    rw [hm] at this
    simpa using this
  have hresult := hwritten _ hfiltered store.latestMessages fun _ => .inl rfl
  refine ⟨le_rfl, le_rfl, le_rfl, le_rfl, subset_rfl, fun i m hm => ?_, fun i hi => ?_⟩
  · rcases hresult i with hsame | ⟨hnew, -, hlt⟩
    · exact ⟨m, hsame.trans hm, le_rfl⟩
    · exact ⟨message, hnew, (hlt m hm).le⟩
  · rcases hresult i with hsame | ⟨-, hnot, -⟩
    · exact hsame
    · exact absurd hi hnot

/-- Computing a checkpoint state only caches it. -/
theorem getCheckpointState_monotone {store store' : Store} {checkpoint : Checkpoint}
    {state : Option BeaconState} (h : store.getCheckpointState env checkpoint = some (store', state)) :
    Monotone store store' := by
  unfold Store.getCheckpointState Store.computeCheckpointState at h
  split at h
  · dsimp only at h
    split at h
    · cases h
      exact Monotone.refl store
    · split at h
      · split at h
        · cases h
        · cases h
          exact Monotone.of_frame rfl rfl rfl rfl rfl rfl
      · cases h
        exact Monotone.refl store
  · cases h
    exact Monotone.refl store

theorem onAttestation_monotone {store store' : Store} {attestation : Attestation} {isFromBlock : Bool}
    (h : onAttestation env store attestation isFromBlock = some (.ok store')) : Monotone store store' := by
  unfold onAttestation at h
  obtain ⟨check, -, h⟩ := Option.bind_eq_some_iff.mp h
  split at h
  · cases h
  · -- an unknown block in a block's attestation keeps the store
    simp only [pure] at h
    split at h
    · cases h
      exact Monotone.refl store
    · cases h
  · obtain ⟨⟨newStore, targetState⟩, hcheckpoint, h⟩ := Option.bind_eq_some_iff.mp h
    obtain ⟨state, -, h⟩ := Option.bind_eq_some_iff.mp h
    split at h
    · cases h
    · split at h
      · cases h
      · cases h
        exact (getCheckpointState_monotone env hcheckpoint).trans (updateLatestMessages_monotone _ _ _)

theorem onAttesterSlashing_monotone {store store' : Store} {attesterSlashing : AttesterSlashing}
    (h : onAttesterSlashing env store attesterSlashing = some (.ok store')) : Monotone store store' := by
  unfold onAttesterSlashing at h
  obtain ⟨stateInfo, -, h⟩ := Option.bind_eq_some_iff.mp h
  dsimp only at h
  split at h
  · cases h
  split at h
  · cases h
  split at h
  · cases h
  cases h
  -- the union only adds indices, and the latest messages are untouched
  exact { Monotone.refl store with equivocating := Finset.subset_union_right }

/-! ## Runs -/

theorem handle_monotone {store store' : Store} {event : Event} (h : handle env store event = some (.ok store')) :
    Monotone store store' := by
  cases event with
  | tick time =>
    cases h
    exact onTick_monotone env store time
  | block blockInfo => exact onBlock_monotone env h
  | attestation attestation isFromBlock => exact onAttestation_monotone env h
  | attesterSlashing attesterSlashing => exact onAttesterSlashing_monotone env h

theorem step_monotone (store : Store) (event : Event) : Monotone store (step env store event) := by
  unfold step
  split
  · exact handle_monotone env ‹_›
  · exact Monotone.refl store

/-- Along every run of the handlers, whichever steps fail: the justified, finalized,
    unrealized justified and unrealized finalized epochs never go down, nor does any
    validator's latest message epoch, which is never dropped; the equivocating indices only
    grow, and the latest message of an equivocating validator never changes again. -/
theorem run_monotone (store : Store) (events : List Event) : Monotone store (run env store events) :=
  Monotone.foldl (step_monotone env) events store

end Handlers

end LambdaEthereumConsensus.ForkChoice
