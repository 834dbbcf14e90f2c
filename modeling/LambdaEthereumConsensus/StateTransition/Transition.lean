import LambdaEthereumConsensus.StateTransition.Types
import LambdaEthereumConsensus.Validator.BlockBuilder

/-
  LambdaEthereumConsensus.StateTransition.Transition — `StateTransition.verified_transition/2`
  (`state_transition/state_transition.ex`) and the roots it caches: a `%StateInfo{}` carries its
  state's root and a block root, and `verified_transition/2` on it hands the two to the first
  `process_slot/2` in place of `Ssz.hash_tree_root!` of the state and of the latest header.

  Roots are those of the native codec, which follows the specification: `Spec.hashTreeRoot`
  with the hash a parameter. A body is its values in the order of `BeaconBlockBody.schema/0`.
  What the transition does besides the slots and the block header is a parameter
  (`TransitionEnv`): the state's root, the epoch processing, the proposer's index, the block's
  operations past its header, which leave the latest header alone, and the signature check.

  The cache is transparent for a `%StateInfo{}` whose roots are the ones `process_slot/2` would
  compute (`CachedRoots`, `verifiedTransition_of_cachedRoots`). Those that `verified_transition/2`
  builds have them (`cachedRoots_of_verifiedTransitionState`): the post state's latest header is
  the block's, its state root filled in by the check against the block, and a header with the
  body's root has the block's root (`BeaconBlock.root_eq_header_root`). The anchor of
  `Store.get_forkchoice_store/2` is checked on its state root only; its block root is its
  block's, so the cache is transparent when the anchor state's latest header is the anchor
  block's (`Built`, `verifiedTransition_cache_transparent`). An anchor state whose header is
  another block's passes the check, and a transition from it keeps the anchor block's root
  where the uncached path keeps its header's (`anchor_cache_not_transparent`).
-/

namespace LambdaEthereumConsensus.StateTransition

open LambdaEthereumConsensus.SszEx LambdaEthereumConsensus.SszEx.Merkleization

/-- `BeaconBlockHeader.schema/0`. -/
def BeaconBlockHeader.schema : List (String × Schema) :=
  [("slot", .int 64), ("proposer_index", .int 64), ("parent_root", .byteVector 32), ("state_root", .byteVector 32),
   ("body_root", .byteVector 32)]

/-- A header as a value of its schema. -/
def BeaconBlockHeader.value (header : BeaconBlockHeader) : Value :=
  .container [.int header.slot, .int header.proposerIndex, .binary header.parentRoot, .binary header.stateRoot,
    .binary header.bodyRoot]

/-- `Ssz.hash_tree_root/1` of a header. -/
def BeaconBlockHeader.root (hash : List UInt8 → List UInt8) (header : BeaconBlockHeader) : List UInt8 :=
  Spec.hashTreeRoot hash header.value (.container "Types.BeaconBlockHeader" BeaconBlockHeader.schema)

end LambdaEthereumConsensus.StateTransition

namespace LambdaEthereumConsensus.Types

open LambdaEthereumConsensus.SszEx LambdaEthereumConsensus.SszEx.Merkleization
open LambdaEthereumConsensus.StateTransition

/-- `%Types.BeaconBlock{}`, the body as the values of its fields. -/
structure BeaconBlock where
  slot : Nat
  proposerIndex : Nat
  parentRoot : List UInt8
  stateRoot : List UInt8
  body : List Value
  deriving DecidableEq

/-- `%Types.SignedBeaconBlock{}`. -/
structure SignedBeaconBlock where
  message : BeaconBlock
  signature : List UInt8
  deriving DecidableEq

/-- `%Types.BlockInfo{}`, the fields `verified_transition/2` reads. -/
structure BlockInfo where
  root : List UInt8
  signedBlock : SignedBeaconBlock
  deriving DecidableEq

/-- The beacon state with the fields `process_slot/2` and `process_block_header/2` keep. -/
structure TransitionState extends BeaconState where
  latestBlockHeader : BeaconBlockHeader
  stateRoots : List (List UInt8)
  blockRoots : List (List UInt8)
  deriving DecidableEq

/-- `%Types.StateInfo{}` without its encoding, which no transition reads. -/
structure StateInfo where
  root : List UInt8
  beaconState : TransitionState
  blockRoot : List UInt8
  deriving DecidableEq

/-- `BeaconBlock.schema/0`, the body's schema given. -/
def BeaconBlock.schema (body : Schema) : List (String × Schema) :=
  [("slot", .int 64), ("proposer_index", .int 64), ("parent_root", .byteVector 32), ("state_root", .byteVector 32),
   ("body", body)]

/-- A block as a value of its schema. -/
def BeaconBlock.value (block : BeaconBlock) : Value :=
  .container [.int block.slot, .int block.proposerIndex, .binary block.parentRoot, .binary block.stateRoot,
    .container block.body]

section Roots

variable (hash : List UInt8 → List UInt8) (bodySchemas : Validator.BodySchemas)

/-- The schema of `Types.BeaconBlockBody`. -/
def bodySchema : Schema := .container "Types.BeaconBlockBody" (Validator.BeaconBlockBody.schema bodySchemas)

/-- `Ssz.hash_tree_root/1` of a block's body. -/
def BeaconBlock.bodyRoot (block : BeaconBlock) : List UInt8 :=
  Spec.hashTreeRoot hash (.container block.body) (bodySchema bodySchemas)

/-- `Ssz.hash_tree_root/1` of a block. -/
def BeaconBlock.root (block : BeaconBlock) : List UInt8 :=
  Spec.hashTreeRoot hash block.value (.container "Types.BeaconBlock" (BeaconBlock.schema (bodySchema bodySchemas)))

/-- The header of a block, with the body's root in place of the body. -/
def BeaconBlock.header (block : BeaconBlock) : BeaconBlockHeader :=
  ⟨block.slot, block.proposerIndex, block.parentRoot, block.stateRoot, block.bodyRoot hash bodySchemas⟩

/-- The body's root is a hash: the body has 13 fields. -/
theorem BeaconBlock.bodyRoot_length (hhash : ∀ bytes, (hash bytes).length = bytesPerChunk) (block : BeaconBlock) :
    (block.bodyRoot hash bodySchemas).length = bytesPerChunk :=
  Spec.hashTreeRoot_container_length hash hhash _ _ (by simp [Validator.BeaconBlockBody.schema])

/-- A block and its header have one root: the header's last field is the body's root, a chunk,
    and a chunk is its own root. -/
theorem BeaconBlock.root_eq_header_root (hhash : ∀ bytes, (hash bytes).length = bytesPerChunk) (block : BeaconBlock) :
    block.root hash bodySchemas = (block.header hash bodySchemas).root hash := by
  have hbody := Spec.hashTreeRoot_binary_chunk hash (block.bodyRoot_length hash bodySchemas hhash) 32
  simp only [BeaconBlock.root, BeaconBlockHeader.root, BeaconBlock.value, BeaconBlockHeader.value, BeaconBlock.header,
    BeaconBlock.schema, BeaconBlockHeader.schema, Spec.hashTreeRoot_container, Spec.fieldRoots_cons, hbody]
  rfl

end Roots

end LambdaEthereumConsensus.Types

namespace LambdaEthereumConsensus.StateTransition

open LambdaEthereumConsensus.SszEx.Merkleization LambdaEthereumConsensus.Types

/-! ## The transition -/

/-- What the transition reads besides the slots and the block header: the chain spec's lengths,
    the hash, the body's schemas, `Ssz.hash_tree_root!/1` of a state, the epoch processing,
    `Accessors.get_beacon_proposer_index/1`, the block's operations past its header, which leave
    the latest header alone, and `block_signature_valid?/2`. -/
structure TransitionEnv where
  slotsPerEpoch : Nat
  slotsPerHistoricalRoot : Nat
  hash : List UInt8 → List UInt8
  bodySchemas : Validator.BodySchemas
  stateRoot : TransitionState → List UInt8
  processEpoch : TransitionState → Option (Except String TransitionState)
  getBeaconProposerIndex : TransitionState → Except String Nat
  processOperations : TransitionState → BeaconBlock → Option (Except String TransitionState)
  blockSignatureValid? : TransitionState → SignedBeaconBlock → Bool
  /-- SHA-256 gives 32 bytes. -/
  hash_length : ∀ bytes, (hash bytes).length = bytesPerChunk
  /-- Only `process_block_header/2` sets the latest header. -/
  processOperations_latestBlockHeader : ∀ state block state',
    processOperations state block = some (.ok state') → state'.latestBlockHeader = state.latestBlockHeader

/-- `Utils.map_ok/2`, on an outcome that may raise. -/
def mapOk {α β : Type} (outcome : Option (Except String α)) (f : α → Option (Except String β)) :
    Option (Except String β) :=
  outcome.bind fun
    | .ok value => f value
    | .error e => some (.error e)

/-- The roots `verified_transition/2` keeps for the slot of a `%StateInfo{}`. -/
structure PreviousRoots where
  stateRoot : List UInt8
  blockRoot : List UInt8
  deriving DecidableEq

/-- The latest header with a zero state root filled in, as `process_slot/2` does. -/
def fillStateRoot (header : BeaconBlockHeader) (stateRoot : List UInt8) : BeaconBlockHeader :=
  if header.stateRoot = List.replicate 32 0 then { header with stateRoot } else header

section Transition

variable (env : TransitionEnv)

/-- `process_slot/2`, the cached roots looked up by the state's slot. -/
def processSlot (previousRoots : Nat → Option PreviousRoots) (state : TransitionState) : TransitionState :=
  let slotPreviousRoots := previousRoots state.slot
  let previousStateRoot := match slotPreviousRoots with
    | some roots => roots.stateRoot
    | none => env.stateRoot state
  let cacheIndex := state.slot % env.slotsPerHistoricalRoot
  let state := { state with
    stateRoots := state.stateRoots.set cacheIndex previousStateRoot
    latestBlockHeader := fillStateRoot state.latestBlockHeader previousStateRoot }
  let previousBlockRoot := match slotPreviousRoots with
    | some roots => roots.blockRoot
    | none => state.latestBlockHeader.root env.hash
  { state with blockRoots := state.blockRoots.set cacheIndex previousBlockRoot }

/-- One slot of `process_slots/3`: `process_slot/2`, the epoch at an epoch's first slot, then the
    new slot. -/
def slotStep (previousRoots : Nat → Option PreviousRoots) (outcome : Option (Except String TransitionState))
    (nextSlot : Nat) : Option (Except String TransitionState) :=
  mapOk (mapOk (mapOk outcome fun state => some (.ok (processSlot env previousRoots state)))
      fun state => if nextSlot % env.slotsPerEpoch = 0 then env.processEpoch state else some (.ok state))
    fun state => some (.ok { state with slot := nextSlot })

/-- `process_slots/3`. -/
def processSlots (previousRoots : Nat → Option PreviousRoots) (state : TransitionState) (slot : Nat) :
    Option (Except String TransitionState) :=
  if slot ≤ state.slot then some (.error "slot is older than state")
  else (List.range' (state.slot + 1) (slot - state.slot)).foldl (slotStep env previousRoots) (some (.ok state))

/-- `Operations.process_block_header/2`. `Aja.Vector.at!/2` raises on a proposer index past the
    validators. -/
def processBlockHeader (state : TransitionState) (block : BeaconBlock) : Option (Except String TransitionState) :=
  if block.slot ≠ state.slot then some (.error "slots don't match")
  else if ¬block.slot > state.latestBlockHeader.slot then some (.error "block is not newer than latest block header")
  else match env.getBeaconProposerIndex state with
    | .error e => some (.error e)
    | .ok proposerIndex =>
      if block.proposerIndex ≠ proposerIndex then some (.error "proposer index is incorrect")
      else if block.parentRoot ≠ state.latestBlockHeader.root env.hash then some (.error "parent roots mismatch")
      else
        -- `cache_current_block/2`
        let state := { state with latestBlockHeader :=
          ⟨block.slot, block.proposerIndex, block.parentRoot, List.replicate 32 0, block.bodyRoot env.hash env.bodySchemas⟩ }
        match state.validators[block.proposerIndex]? with
        | none => none
        | some proposer => if proposer.slashed then some (.error "proposer is slashed") else some (.ok state)

/-- `process_block/2`: the header, then the rest. -/
def processBlock (state : TransitionState) (block : BeaconBlock) : Option (Except String TransitionState) :=
  mapOk (processBlockHeader env state block) fun state => env.processOperations state block

/-- `transition/3`. -/
def transition (state : TransitionState) (signedBlock : SignedBeaconBlock) (previousRoots : Nat → Option PreviousRoots) :
    Option (Except String TransitionState) :=
  mapOk (processSlots env previousRoots state signedBlock.message.slot) fun state =>
    processBlock env state signedBlock.message

/-- `StateInfo.from_beacon_state/2` with a block root given. -/
def fromBeaconState (state : TransitionState) (blockRoot : List UInt8) : StateInfo :=
  ⟨env.stateRoot state, state, blockRoot⟩

/-- `verified_transition/3` on a state, with the roots cached by slot. -/
def verifiedTransitionState (state : TransitionState) (blockInfo : BlockInfo)
    (previousRoots : Nat → Option PreviousRoots) : Option (Except String StateInfo) :=
  mapOk (mapOk (transition env state blockInfo.signedBlock previousRoots) fun st =>
      if env.blockSignatureValid? st blockInfo.signedBlock then some (.ok st) else some (.error "invalid block signature"))
    fun newState =>
      let newStateInfo := fromBeaconState env newState blockInfo.root
      if blockInfo.signedBlock.message.stateRoot = newStateInfo.root then some (.ok newStateInfo)
      else some (.error "mismatched state roots")

/-- The `previous_roots` map of `verified_transition/2` on a `%StateInfo{}`: its roots, kept for its
    state's slot. -/
def previousRootsOf (stateInfo : StateInfo) (slot : Nat) : Option PreviousRoots :=
  if slot = stateInfo.beaconState.slot then some ⟨stateInfo.root, stateInfo.blockRoot⟩ else none

/-- `verified_transition/2` on a `%StateInfo{}`. -/
def verifiedTransition (stateInfo : StateInfo) (blockInfo : BlockInfo) : Option (Except String StateInfo) :=
  verifiedTransitionState env stateInfo.beaconState blockInfo (previousRootsOf stateInfo)

/-- The `%StateInfo{}` `Store.get_forkchoice_store/2` stores for its anchor: the block's root from
    `BlockInfo.from_block/2`, and `none` for the `{:error, _}` of a state root that is not the
    block's. -/
def anchorStateInfo (anchorState : TransitionState) (signedBlock : SignedBeaconBlock) : Option StateInfo :=
  let stateInfo := fromBeaconState env anchorState (signedBlock.message.root env.hash env.bodySchemas)
  if signedBlock.message.stateRoot = stateInfo.root then some stateInfo else none

end Transition

/-! ## The cache -/

@[simp]
theorem mapOk_some_ok {α β : Type} (value : α) (f : α → Option (Except String β)) :
    mapOk (some (.ok value)) f = f value :=
  rfl

theorem mapOk_eq_ok {α β : Type} {outcome : Option (Except String α)} {f : α → Option (Except String β)} {b : β} :
    mapOk outcome f = some (.ok b) ↔ ∃ a, outcome = some (.ok a) ∧ f a = some (.ok b) := by
  cases outcome with
  | none => simp [mapOk]
  | some result => cases result <;> simp [mapOk]

section Cache

variable {env : TransitionEnv}

/-- The roots a `%StateInfo{}` carries are the ones `process_slot/2` computes on its state. -/
structure CachedRoots (env : TransitionEnv) (stateInfo : StateInfo) : Prop where
  root_eq : stateInfo.root = env.stateRoot stateInfo.beaconState
  blockRoot_eq : stateInfo.blockRoot = (fillStateRoot stateInfo.beaconState.latestBlockHeader stateInfo.root).root env.hash

/-- A slot the cache does not hold is computed as without a cache. -/
theorem processSlot_of_none {previousRoots : Nat → Option PreviousRoots} {state : TransitionState}
    (hnone : previousRoots state.slot = none) :
    processSlot env previousRoots state = processSlot env (fun _ => none) state := by
  simp [processSlot, hnone]

/-- The slot a `%StateInfo{}` holds is computed as without a cache when its roots are the ones
    `process_slot/2` computes. -/
theorem processSlot_of_cachedRoots {stateInfo : StateInfo} (hcached : CachedRoots env stateInfo) :
    processSlot env (previousRootsOf stateInfo) stateInfo.beaconState = processSlot env (fun _ => none) stateInfo.beaconState := by
  simp [processSlot, previousRootsOf, hcached.blockRoot_eq, hcached.root_eq]

/-- A slot step reads the cache through `process_slot/2` only. -/
theorem slotStep_congr {previousRoots previousRoots' : Nat → Option PreviousRoots}
    {outcome : Option (Except String TransitionState)} (nextSlot : Nat)
    (hslot : ∀ state, outcome = some (.ok state) → processSlot env previousRoots state = processSlot env previousRoots' state) :
    slotStep env previousRoots outcome nextSlot = slotStep env previousRoots' outcome nextSlot := by
  rcases outcome with _ | _ | state
  · rfl
  · rfl
  · simp only [slotStep, mapOk_some_ok]
    rw [hslot state rfl]

/-- A slot step ends in the slot it is for. -/
theorem slotStep_slot {previousRoots : Nat → Option PreviousRoots} {outcome : Option (Except String TransitionState)}
    {nextSlot : Nat} {state : TransitionState} (hstep : slotStep env previousRoots outcome nextSlot = some (.ok state)) :
    state.slot = nextSlot := by
  obtain ⟨_, -, hslot⟩ := mapOk_eq_ok.mp hstep
  cases hslot
  rfl

/-- Past the slot a `%StateInfo{}` holds, the cache is never read. Induction on the slots. -/
theorem foldl_slotStep_of_above (stateInfo : StateInfo) :
    ∀ (slots : List Nat) (outcome : Option (Except String TransitionState)),
      (∀ n ∈ slots, stateInfo.beaconState.slot < n) →
      (∀ state, outcome = some (.ok state) → stateInfo.beaconState.slot < state.slot) →
        slots.foldl (slotStep env (previousRootsOf stateInfo)) outcome =
          slots.foldl (slotStep env (fun _ => none)) outcome
  | [], _, _, _ => rfl
  | n :: slots, outcome, hslots, houtcome => by
    have hstep : slotStep env (previousRootsOf stateInfo) outcome n = slotStep env (fun _ => none) outcome n := by
      refine slotStep_congr n fun state hstate => processSlot_of_none ?_
      have := houtcome state hstate
      simp only [previousRootsOf]
      rw [if_neg (by omega)]
    rw [List.foldl_cons, List.foldl_cons, hstep]
    refine foldl_slotStep_of_above stateInfo slots _ (fun m hm => hslots m (List.mem_cons_of_mem n hm)) ?_
    intro state hstate
    rw [slotStep_slot hstate]
    exact hslots n List.mem_cons_self

/-- `process_slots/3` from a `%StateInfo{}` whose roots are the computed ones is the uncached one:
    the cache is read at the first slot, where it holds what the code would compute, and never
    after. -/
theorem processSlots_of_cachedRoots {stateInfo : StateInfo} (hcached : CachedRoots env stateInfo) (slot : Nat) :
    processSlots env (previousRootsOf stateInfo) stateInfo.beaconState slot =
      processSlots env (fun _ => none) stateInfo.beaconState slot := by
  unfold processSlots
  split_ifs with hold
  · rfl
  · obtain ⟨k, hk⟩ : ∃ k, slot - stateInfo.beaconState.slot = k + 1 := ⟨_, (Nat.succ_pred_eq_of_pos (by omega)).symm⟩
    -- the first slot is the one the cache holds
    have hfirst : slotStep env (previousRootsOf stateInfo) (some (.ok stateInfo.beaconState)) (stateInfo.beaconState.slot + 1) =
        slotStep env (fun _ => none) (some (.ok stateInfo.beaconState)) (stateInfo.beaconState.slot + 1) := by
      refine slotStep_congr _ fun state hstate => ?_
      cases hstate
      exact processSlot_of_cachedRoots hcached
    rw [hk, List.range'_succ, List.foldl_cons, List.foldl_cons, hfirst]
    apply foldl_slotStep_of_above
    · intro n hn
      have := List.mem_range'_1.mp hn
      omega
    · intro state hstate
      rw [slotStep_slot hstate]
      omega

/-- `verified_transition/2` on a `%StateInfo{}` whose roots are the computed ones is
    `verified_transition/3` on its state without a cache. -/
theorem verifiedTransition_of_cachedRoots {stateInfo : StateInfo} (hcached : CachedRoots env stateInfo)
    (blockInfo : BlockInfo) :
    verifiedTransition env stateInfo blockInfo = verifiedTransitionState env stateInfo.beaconState blockInfo (fun _ => none) := by
  unfold verifiedTransition verifiedTransitionState transition
  rw [processSlots_of_cachedRoots hcached]

/-- `process_block_header/2` sets the latest header to the block's, its state root zero. -/
theorem processBlockHeader_latestBlockHeader {state state' : TransitionState} {block : BeaconBlock}
    (hheader : processBlockHeader env state block = some (.ok state')) :
    state'.latestBlockHeader = { block.header env.hash env.bodySchemas with stateRoot := List.replicate 32 0 } := by
  unfold processBlockHeader at hheader
  -- every check but the last passes, and the proposer is not slashed
  repeat (split at hheader; · cases hheader)
  simp only at hheader
  repeat (split at hheader; · cases hheader)
  cases hheader
  rfl

/-- A `%StateInfo{}` that `verified_transition/3` builds, from a block info whose root is its
    block's, holds the roots `process_slot/2` computes: its state's latest header is the block's,
    with the state root the check compared filled in. -/
theorem cachedRoots_of_verifiedTransitionState {state : TransitionState} {blockInfo : BlockInfo}
    {previousRoots : Nat → Option PreviousRoots} {stateInfo : StateInfo}
    (hroot : blockInfo.root = blockInfo.signedBlock.message.root env.hash env.bodySchemas)
    (htransition : verifiedTransitionState env state blockInfo previousRoots = some (.ok stateInfo)) :
    CachedRoots env stateInfo := by
  set block := blockInfo.signedBlock.message
  obtain ⟨signed, hsigned, hchecked⟩ := mapOk_eq_ok.mp htransition
  obtain ⟨processed, hprocessed, hsignature⟩ := mapOk_eq_ok.mp hsigned
  obtain ⟨slotted, -, hblock⟩ := mapOk_eq_ok.mp hprocessed
  obtain ⟨headed, hheader, hoperations⟩ := mapOk_eq_ok.mp hblock
  -- the signature check and the state root check keep the state
  have hsignedEq : signed = processed := by
    split_ifs at hsignature
    · cases hsignature
      rfl
    · cases hsignature
  have hcheck : block.stateRoot = env.stateRoot signed ∧ stateInfo = fromBeaconState env signed blockInfo.root := by
    dsimp only at hchecked
    split_ifs at hchecked with hstateRoot
    · cases hchecked
      exact ⟨hstateRoot, rfl⟩
    · cases hchecked
  obtain ⟨hstateRoot, rfl⟩ := hcheck
  have hlatest : signed.latestBlockHeader = { block.header env.hash env.bodySchemas with stateRoot := List.replicate 32 0 } := by
    rw [hsignedEq, env.processOperations_latestBlockHeader _ _ _ hoperations, processBlockHeader_latestBlockHeader hheader]
  refine ⟨rfl, ?_⟩
  have hfill : fillStateRoot signed.latestBlockHeader (env.stateRoot signed) = block.header env.hash env.bodySchemas := by
    rw [hlatest, fillStateRoot, if_pos rfl, ← hstateRoot]
    rfl
  show blockInfo.root = (fillStateRoot signed.latestBlockHeader (env.stateRoot signed)).root env.hash
  rw [hfill, hroot, BeaconBlock.root_eq_header_root _ _ env.hash_length]

/-- The `%StateInfo{}` of an anchor holds the computed roots when the anchor state's latest
    header, its zero state root filled with the block's, is the anchor block's header. -/
theorem cachedRoots_of_anchorStateInfo {anchorState : TransitionState} {signedBlock : SignedBeaconBlock}
    {stateInfo : StateInfo} (hanchor : anchorStateInfo env anchorState signedBlock = some stateInfo)
    (hheader : fillStateRoot anchorState.latestBlockHeader signedBlock.message.stateRoot =
      signedBlock.message.header env.hash env.bodySchemas) :
    CachedRoots env stateInfo := by
  unfold anchorStateInfo at hanchor
  dsimp only at hanchor
  split_ifs at hanchor with hstateRoot
  cases hanchor
  refine ⟨rfl, ?_⟩
  show signedBlock.message.root env.hash env.bodySchemas =
    (fillStateRoot anchorState.latestBlockHeader (env.stateRoot anchorState)).root env.hash
  rw [← show signedBlock.message.stateRoot = env.stateRoot anchorState from hstateRoot, hheader,
    BeaconBlock.root_eq_header_root _ _ env.hash_length]

/-- The `%StateInfo{}`s `verified_transition/2` is given: one that `verified_transition/3` built
    from a block info whose root is its block's, and the anchor of `Store.get_forkchoice_store/2`
    whose state's latest header is the anchor block's, its state root filled in. -/
inductive Built (env : TransitionEnv) : StateInfo → Prop
  | transition {state : TransitionState} {blockInfo : BlockInfo} {previousRoots : Nat → Option PreviousRoots}
      {stateInfo : StateInfo} (hroot : blockInfo.root = blockInfo.signedBlock.message.root env.hash env.bodySchemas)
      (htransition : verifiedTransitionState env state blockInfo previousRoots = some (.ok stateInfo)) :
      Built env stateInfo
  | anchor {anchorState : TransitionState} {signedBlock : SignedBeaconBlock} {stateInfo : StateInfo}
      (hanchor : anchorStateInfo env anchorState signedBlock = some stateInfo)
      (hheader : fillStateRoot anchorState.latestBlockHeader signedBlock.message.stateRoot =
        signedBlock.message.header env.hash env.bodySchemas) :
      Built env stateInfo

theorem Built.cachedRoots {stateInfo : StateInfo} : Built env stateInfo → CachedRoots env stateInfo
  | .transition hroot htransition => cachedRoots_of_verifiedTransitionState hroot htransition
  | .anchor hanchor hheader => cachedRoots_of_anchorStateInfo hanchor hheader

/-- On every `%StateInfo{}` built for it, `verified_transition/2` returns what `verified_transition/3`
    returns on its state without the cached roots. -/
theorem verifiedTransition_cache_transparent {stateInfo : StateInfo} (hbuilt : Built env stateInfo)
    (blockInfo : BlockInfo) :
    verifiedTransition env stateInfo blockInfo = verifiedTransitionState env stateInfo.beaconState blockInfo (fun _ => none) :=
  verifiedTransition_of_cachedRoots hbuilt.cachedRoots blockInfo

end Cache

/-! ## An anchor whose header is another block's -/

/-- A stand-in for SHA-256 that gives one chunk and reads every byte of two: the halves added
    bytewise, plus one. -/
def halvesSum (bytes : List UInt8) : List UInt8 :=
  (List.zipWith (fun a b => a + b + 1) (bytes.take 32 ++ zeroChunk) (bytes.drop 32 ++ zeroChunk)).take 32

theorem halvesSum_length (bytes : List UInt8) : (halvesSum bytes).length = bytesPerChunk := by
  simp [halvesSum, zeroChunk, bytesPerChunk]

/-- A transition that checks the slots and the header only, on the body of `Validator.BlockBuilder`'s
    example, with the state's first block root as its root. -/
def headerOnlyEnv : TransitionEnv where
  slotsPerEpoch := 8
  slotsPerHistoricalRoot := 8
  hash := halvesSum
  bodySchemas := Validator.booleanBodySchemas
  stateRoot state := state.blockRoots.headD []
  processEpoch state := some (.ok state)
  getBeaconProposerIndex _ := .ok 0
  processOperations state _ := some (.ok state)
  blockSignatureValid? _ _ := true
  hash_length := halvesSum_length
  processOperations_latestBlockHeader := by
    intro _ _ _ hoperations
    cases hoperations
    rfl

/-- An anchor block at slot 0 over zero roots. -/
def anchorBlock : SignedBeaconBlock :=
  ⟨⟨0, 0, List.replicate 32 0, List.replicate 32 0, Validator.oneCommitmentBody⟩, []⟩

/-- A state at slot 0 with one validator, zero roots and the given latest header. -/
def anchorState (header : BeaconBlockHeader) : TransitionState where
  slot := 0
  validators := [⟨[], [], 0, false, 0, 0, 0⟩]
  balances := [0]
  previousEpochParticipation := []
  currentEpochParticipation := []
  nextWithdrawalIndex := 0
  nextWithdrawalValidatorIndex := 0
  pendingPartialWithdrawals := []
  currentJustifiedCheckpoint := ⟨0, 0⟩
  finalizedCheckpoint := ⟨0, 0⟩
  latestBlockHeader := header
  stateRoots := List.replicate 8 (List.replicate 32 0)
  blockRoots := List.replicate 8 (List.replicate 32 0)

/-- The block of slot 1 on a latest header, whose state root is the anchor block's root, and its
    block info. -/
def nextBlockInfo (header : BeaconBlockHeader) : BlockInfo :=
  let block : BeaconBlock :=
    ⟨1, 0, header.root halvesSum, anchorBlock.message.root halvesSum Validator.booleanBodySchemas, Validator.oneCommitmentBody⟩
  ⟨block.root halvesSum Validator.booleanBodySchemas, ⟨block, []⟩⟩

/-- The anchor block's own header, its state root zero. -/
def anchorHeader : BeaconBlockHeader :=
  { anchorBlock.message.header halvesSum Validator.booleanBodySchemas with stateRoot := List.replicate 32 0 }

theorem verifiedTransition_cache_transparent_at_anchor :
    verifiedTransition headerOnlyEnv
        (fromBeaconState headerOnlyEnv (anchorState anchorHeader) (anchorBlock.message.root halvesSum Validator.booleanBodySchemas))
        (nextBlockInfo anchorHeader) =
      verifiedTransitionState headerOnlyEnv (anchorState anchorHeader) (nextBlockInfo anchorHeader) (fun _ => none) :=
  verifiedTransition_cache_transparent
    (@Built.anchor headerOnlyEnv (anchorState anchorHeader) anchorBlock _ (by decide +kernel) (by decide +kernel))
    (nextBlockInfo anchorHeader)

/-- The header of another block at slot 0, whose body root is zero. -/
def otherHeader : BeaconBlockHeader := ⟨0, 0, List.replicate 32 0, List.replicate 32 0, List.replicate 32 0⟩

/-- An anchor state whose latest header is another block's passes the anchor's check; the next
    block, whose root is its message's, is accepted with the anchor block's root cached and
    refused without the cache, which keeps the header's root. -/
theorem anchor_cache_not_transparent :
    ∃ stateInfo, anchorStateInfo headerOnlyEnv (anchorState otherHeader) anchorBlock = some stateInfo ∧
      (nextBlockInfo otherHeader).root =
        (nextBlockInfo otherHeader).signedBlock.message.root halvesSum Validator.booleanBodySchemas ∧
      (verifiedTransition headerOnlyEnv stateInfo (nextBlockInfo otherHeader)).map Except.isOk = some true ∧
      verifiedTransitionState headerOnlyEnv stateInfo.beaconState (nextBlockInfo otherHeader) (fun _ => none) =
        some (.error "mismatched state roots") :=
  ⟨fromBeaconState headerOnlyEnv (anchorState otherHeader) (anchorBlock.message.root halvesSum Validator.booleanBodySchemas),
    by decide +kernel, by decide +kernel, by decide +kernel, by decide +kernel⟩

end LambdaEthereumConsensus.StateTransition
