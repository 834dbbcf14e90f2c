import LambdaEthereumConsensus.Fallible.List
import LambdaEthereumConsensus.StateTransition.Types

/-
  LambdaEthereumConsensus.Beacon.PendingBlocks — the pipeline that hands blocks to the fork choice
  (`beacon/pending_blocks.ex`), over the block store (`store/blocks.ex`), the status sets of the
  block database (`store/block_db.ex`) and the blob store (`store/blobs.ex`, `store/blob_db.ex`),
  driven by `Libp2pPort`'s gossip, responses and start.

  A block info carries a status. `add_block/2` stores a new block `:pending`, or
  `:download_blobs` while blobs are missing; `process_block/2` hands a pending block whose parent
  is `:transitioned` to `ForkChoice.on_block/2` and marks it `:transitioned` or `:invalid`, marks
  it `:invalid` under an invalid parent, and queues an unknown parent for download; after a
  decision, `process_blocks/1` runs every pending block once, by slot. The block database keeps,
  beside the infos, the set of roots of each status, which `new_block_info/1` and
  `change_status/2` move a root between. The block store is the `LRUCache` in front of the
  database, read one operation at a time here (where `Store.LRUCache` is the database); the fork choice is a
  parameter (`Env.onBlock`), and so are the SSZ roots and the order in which a `MapSet` lists its
  roots. The calls to the fork choice are logged (`State.onBlockCalls`).

  The code expects a `%Store{}` where `process_blobs/2`'s reduction passes its accumulator,
  which is `{:ok, _}` around the store from the second root on; so what the node holds is a
  `StoreTerm`, and the fork choice's match fails on a tuple.

  `new_block_info/1` and `change_status/2` make one write (`write`), which keeps the invariant
  `Inv` over an undecided root (`write_spec`): the status sets agree with the infos (`Indexed`;
  the anchor is stored `:transitioned` in no set), every info is keyed and has its block unless
  queued for download (`Keyed`), every transitioned block but an anchor has a transitioned parent
  (`Closed`), and the fork choice was handed each block once, decided, under a transitioned parent
  (`Handed`). From it, proved:
  - every event keeps `Inv` and undoes no decision (`handle_spec`), so over every run
    (`reach_inv`), and a decided block keeps its info for good (`reach_decided_final`);
  - with a fork choice that never raises, every reachable node holds a store and handles gossip,
    a synced range and the pending check without raising (`reach_gossip_never_raises`), which
    rests on `Keyed`: `process_block/2` matches the block of every pending info;
  - a new gossiped block without blobs, under a transitioned parent, that the fork choice accepts
    is handed to it and stored `:transitioned` (`handle_gossipBlock_accepted`), which drives the
    examples' runs from the anchor;
  - a gossiped sidecar that completes a block the fork choice then accepts leaves the node the
    store from before the block, while the block is stored `:transitioned`
    (`gossipBlob_drops_accepted_store`).
-/

namespace LambdaEthereumConsensus.Beacon.PendingBlocks

open LambdaEthereumConsensus.StateTransition (Root BeaconBlockHeader SignedBeaconBlockHeader)

/-! ## Blocks, blobs and the block store -/

/-- `Types.BlockInfo.block_status`. -/
inductive BlockStatus where
  | pending
  | invalid
  | download
  | downloadBlobs
  | unknown
  | transitioned
  deriving DecidableEq, Repr

/-- `%Types.SignedBeaconBlock{}`: what the pipeline reads of its `message`. -/
structure SignedBeaconBlock where
  slot : Nat
  parentRoot : Root
  blobKzgCommitments : List (List UInt8)
  deriving DecidableEq, Repr

/-- `%Types.BlockInfo{}`; `signed_block` is `nil` for a root queued for download. -/
structure BlockInfo where
  root : Root
  signedBlock : Option SignedBeaconBlock
  status : BlockStatus
  deriving DecidableEq, Repr

/-- `%Types.BlobSidecar{}`: what the blob store reads of it. -/
structure BlobSidecar where
  index : Nat
  kzgCommitment : List UInt8
  signedBlockHeader : SignedBeaconBlockHeader
  deriving DecidableEq, Repr

/-- `%Types.BlobIdentifier{}`. -/
structure BlobIdentifier where
  blockRoot : Root
  index : Nat
  deriving DecidableEq, Repr

/-- A request the pipeline sends: `BlockDownloader.request_blocks_by_root/3` and
    `BlobDownloader.request_blobs_by_root/3`. -/
inductive Request where
  | blocksByRoot (roots : List Root)
  | blobsByRoot (identifiers : List BlobIdentifier)
  deriving DecidableEq, Repr

/-- What the pipeline reads and writes beside the fork-choice store: the block infos by root
    (`Blocks.get_block_info/1`), the roots of each status (`BlockDb.get_roots_with_status/1`),
    the commitment of each stored blob sidecar by block root and index
    (`BlobDb.get_blob_sidecar/2`), the requests sent, and the calls to the fork choice. -/
structure State where
  infos : Root → Option BlockInfo
  statusRoots : BlockStatus → Finset Root
  blobs : Root → Nat → Option (List UInt8)
  requests : List Request
  onBlockCalls : List BlockInfo

/-- The databases of a node that has stored nothing. -/
def State.empty : State := ⟨fun _ => none, fun _ => ∅, fun _ _ => none, [], []⟩

/-- What the node holds where the code expects a `%Store{}`: a store, or `{:ok, _}` around what
    it held. -/
inductive StoreTerm (σ : Type) where
  | store (store : σ)
  | ok (term : StoreTerm σ)

/-- What the pipeline takes from the rest of the node: the roots `Ssz.hash_tree_root/1` gives a
    block's message and a blob's block header, the order in which a `MapSet` of roots lists them
    (each once), and `ForkChoice.on_block/2`, which gives the new store or an error with the store
    it was given, or raises (`none`). -/
structure Env (σ : Type) where
  blockRoot : SignedBeaconBlock → Root
  headerRoot : BeaconBlockHeader → Root
  listRoots : Finset Root → List Root
  mem_listRoots : ∀ roots root, root ∈ listRoots roots ↔ root ∈ roots
  nodup_listRoots : ∀ roots, (listRoots roots).Nodup
  onBlock : σ → BlockInfo → Option (Except String σ)

variable {σ : Type} (env : Env σ)

/-- `Blocks.store_block_info/1`: the cache's `put/3`, which writes the info under its root. -/
def storeBlockInfo (st : State) (blockInfo : BlockInfo) : State :=
  { st with infos := Function.update st.infos blockInfo.root (some blockInfo) }

/-- `BlockDb.change_root_status/3`: the root out of one status's set, then into another's. -/
def changeRootStatus (st : State) (root : Root) (fromStatus toStatus : BlockStatus) : State :=
  let statusRoots := Function.update st.statusRoots fromStatus ((st.statusRoots fromStatus).erase root)
  { st with statusRoots := Function.update statusRoots toStatus (insert root (statusRoots toStatus)) }

/-- `Blocks.new_block_info/1`: the info stored, its root moved from the `:download` set. -/
def newBlockInfo (st : State) (blockInfo : BlockInfo) : State :=
  changeRootStatus (storeBlockInfo st blockInfo) blockInfo.root .download blockInfo.status

/-- `Blocks.change_status/2`: the info stored with its new status, its root moved from its old
    status's set; the metrics it reports read the block, and raise on an info without one. -/
def changeStatus (st : State) (blockInfo : BlockInfo) (status : BlockStatus) : Option (BlockInfo × State) := do
  let _ ← blockInfo.signedBlock
  let newBlockInfo := { blockInfo with status := status }
  pure (newBlockInfo, changeRootStatus (storeBlockInfo st newBlockInfo) blockInfo.root blockInfo.status status)

/-- `Blocks.add_block_to_download/1`. -/
def addBlockToDownload (st : State) (root : Root) : State := newBlockInfo st ⟨root, none, .download⟩

/-- `Blocks.get_blocks_with_status/1`: the infos of a status's roots, in the set's order; the first
    root without an info ends it with the error, which names that root. -/
def getBlocksWithStatus (st : State) (status : BlockStatus) : Except Root (List BlockInfo) :=
  (env.listRoots (st.statusRoots status)).mapM fun root =>
    match st.infos root with
    | some blockInfo => .ok blockInfo
    | none => .error root

/-- `Blobs.missing_for_block/1`: the identifiers of the block's commitments that no stored
    sidecar carries; an info without a block raises. -/
def missingForBlock (st : State) (blockInfo : BlockInfo) : Option (List BlobIdentifier) :=
  blockInfo.signedBlock.map fun signedBlock =>
    (signedBlock.blobKzgCommitments.zipIdx.filter fun entry => st.blobs blockInfo.root entry.2 != some entry.1).map
      fun entry => ⟨blockInfo.root, entry.2⟩

/-- `BlobDb.store_blob/1`: the sidecar's commitment stored under its block's root and its index. -/
def storeBlob (st : State) (sidecar : BlobSidecar) : State :=
  let blockRoot := env.headerRoot sidecar.signedBlockHeader.message
  let stored := Function.update (st.blobs blockRoot) sidecar.index (some sidecar.kzgCommitment)
  { st with blobs := Function.update st.blobs blockRoot stored }

/-- `Blobs.add_blobs/1`: every sidecar stored, and the roots of their blocks, each once, in order. -/
def addBlobs (st : State) (sidecars : List BlobSidecar) : List Root × State :=
  ((sidecars.map fun sidecar => env.headerRoot sidecar.signedBlockHeader.message).eraseDups,
    sidecars.foldl (storeBlob env) st)

/-! ## The pipeline -/

/-- `ForkChoice.on_block/2` on what the node holds: a store goes to the fork choice, a tuple
    fails the function's `%Store{}` match. -/
def forkChoiceOnBlock : StoreTerm σ → BlockInfo → Option (Except String (StoreTerm σ))
  | .store store, blockInfo => (env.onBlock store blockInfo).map fun result => result.map .store
  | .ok _, _ => none

/-- What `process_block/2` reports beside the store. -/
inductive Outcome where
  | downloadPending
  | invalid
  | transitioned
  | ok
  deriving DecidableEq, Repr

/-- `process_block/2`. -/
def processBlock (store : StoreTerm σ) (blockInfo : BlockInfo) (st : State) :
    Option ((StoreTerm σ × Outcome) × State) := do
  let signedBlock ← blockInfo.signedBlock
  let parentRoot := signedBlock.parentRoot
  match st.infos parentRoot with
  | none =>
    let st := addBlockToDownload st parentRoot
    pure ((store, .downloadPending), { st with requests := st.requests ++ [.blocksByRoot [parentRoot]] })
  | some parent =>
    match parent.status with
    | .invalid => do
      let changed ← changeStatus st blockInfo .invalid
      pure ((store, .invalid), changed.2)
    | .transitioned => do
      let st := { st with onBlockCalls := st.onBlockCalls ++ [blockInfo] }
      match ← forkChoiceOnBlock env store blockInfo with
      | .ok store => do
        let changed ← changeStatus st blockInfo .transitioned
        pure ((store, .transitioned), changed.2)
      | .error _ => do
        -- `{:error, reason, store}` carries the store `on_block/2` was given
        let changed ← changeStatus st blockInfo .invalid
        pure ((store, .invalid), changed.2)
    | _ => pure ((store, .ok), st)

/-- The reduction of `process_blocks/1`: each block processed with the store the last left. -/
def processSorted (store : StoreTerm σ) (st : State) : List (Nat × BlockInfo) → Option (StoreTerm σ × State)
  | [] => some (store, st)
  | entry :: rest => do
    let processed ← processBlock env store entry.2 st
    processSorted processed.1.1 processed.2 rest

/-- `process_blocks/1`: every pending block, by slot (`Enum.sort_by/2` is stable); a pending root
    without an info leaves everything as it is. -/
def processBlocks (store : StoreTerm σ) (st : State) : Option (StoreTerm σ × State) :=
  match getBlocksWithStatus env st .pending with
  | .error _ => some (store, st)
  | .ok blocks => do
    let keyed ← blocks.mapM fun blockInfo => blockInfo.signedBlock.map fun signedBlock => (signedBlock.slot, blockInfo)
    processSorted env store st (keyed.mergeSort fun a b => a.1 ≤ b.1)

/-- `process_block_and_check_children/2`. -/
def processBlockAndCheckChildren (store : StoreTerm σ) (blockInfo : BlockInfo) (st : State) :
    Option (StoreTerm σ × State) := do
  let processed ← processBlock env store blockInfo st
  if processed.1.2 = .transitioned ∨ processed.1.2 = .invalid then processBlocks env processed.1.1 processed.2
  else pure (processed.1.1, processed.2)

/-- `add_block/2`: a block not known, or known only as a root to download, is stored and processed,
    or stored `:download_blobs` with its missing blobs requested. -/
def addBlock (store : StoreTerm σ) (signedBlock : SignedBeaconBlock) (st : State) : Option (StoreTerm σ × State) :=
  let blockInfo : BlockInfo := ⟨env.blockRoot signedBlock, some signedBlock, .pending⟩
  if (st.infos blockInfo.root).all (·.status == .download) then do
    let missing ← missingForBlock st blockInfo
    if missing.isEmpty then processBlockAndCheckChildren env store blockInfo (newBlockInfo st blockInfo)
    else
      pure (store, newBlockInfo { st with requests := st.requests ++ [.blobsByRoot missing] }
        { blockInfo with status := .downloadBlobs })
  else pure (store, st)

/-- One root of `process_blobs/2`'s reduction: a block waiting for its blobs that has them all is
    marked pending and processed; the store that comes back is dropped, and the accumulator is
    returned inside `{:ok, _}`. -/
def processBlobsStep (acc : StoreTerm σ) (root : Root) (st : State) : Option (StoreTerm σ × State) :=
  match st.infos root with
  | some blockInfo =>
    if blockInfo.status = .downloadBlobs then do
      let missing ← missingForBlock st blockInfo
      if missing.isEmpty then do
        let changed ← changeStatus st blockInfo .pending
        let processed ← processBlockAndCheckChildren env acc changed.1 changed.2
        pure (.ok acc, processed.2)
      else pure (.ok acc, st)
    else pure (.ok acc, st)
  | none => pure (.ok acc, st)

/-- The reduction of `process_blobs/2` over the roots `add_blobs/1` returns. -/
def processBlobRoots (acc : StoreTerm σ) (st : State) : List Root → Option (StoreTerm σ × State)
  | [] => some (acc, st)
  | root :: roots => do
    let stepped ← processBlobsStep env acc root st
    processBlobRoots stepped.1 stepped.2 roots

/-- `process_blobs/2`: `{:ok, store}` on an error, else what the reduction returns. -/
def processBlobs (store : StoreTerm σ) (response : Except String (List BlobSidecar)) (st : State) :
    Option (StoreTerm σ × State) :=
  match response with
  | .error _ => some (.ok store, st)
  | .ok sidecars =>
    let added := addBlobs env st sidecars
    processBlobRoots env store added.2 added.1

/-- `process_downloaded_block/2`: `{:ok, _}` around what `add_block/2` returns for a response of
    one block, `{:ok, store}` on an error; no clause takes another number of blocks. -/
def processDownloadedBlock (store : StoreTerm σ) (response : Except String (List SignedBeaconBlock)) (st : State) :
    Option (StoreTerm σ × State) :=
  match response with
  | .ok [block] => (addBlock env store block st).map fun added => (.ok added.1, added.2)
  | .error _ => some (.ok store, st)
  | .ok _ => none

/-! ## The node -/

/-- `Libp2pPort`'s store and the databases. -/
structure Node (σ : Type) where
  store : StoreTerm σ
  state : State

/-- What reaches the pipeline: a gossiped block (`Gossip.BeaconBlock`) or blob sidecar
    (`Gossip.BlobSideCar`), the responses its downloads are handed, a range of blocks from the
    sync (`handle_cast({:add_blocks, ...})`), and the port's start (`handle_continue/2`). -/
inductive Event where
  | gossipBlock (signedBlock : SignedBeaconBlock)
  | gossipBlob (sidecar : BlobSidecar)
  | blocksByRoot (response : Except String (List SignedBeaconBlock))
  | blobsByRoot (response : Except String (List BlobSidecar))
  | addBlocks (blocks : List SignedBeaconBlock)
  | checkPendingBlocks

/-- `handle_response/3` on a handler's result: `{:ok, %Store{}}` becomes the store; the handlers
    here return no `{:error, _}`, and anything else matches no clause. -/
def handleResponse : StoreTerm σ → Option (StoreTerm σ)
  | .ok (.store store) => some (.store store)
  | _ => none

/-- `add_block/2` on the node. -/
def addBlockTo (node : Node σ) (signedBlock : SignedBeaconBlock) : Option (Node σ) :=
  (addBlock env node.store signedBlock node.state).map fun added => ⟨added.1, added.2⟩

/-- The port handling one event. -/
def handle (node : Node σ) : Event → Option (Node σ)
  | .gossipBlock signedBlock => addBlockTo env node signedBlock
  | .gossipBlob sidecar => do
    let processed ← processBlobs env node.store (.ok [sidecar]) node.state
    -- `elem(_, 1)`, which raises on anything but a tuple
    match processed.1 with
    | .ok store => pure ⟨store, processed.2⟩
    | .store _ => none
  | .blocksByRoot response => do
    let processed ← processDownloadedBlock env node.store response node.state
    let store ← handleResponse processed.1
    pure ⟨store, processed.2⟩
  | .blobsByRoot response => do
    let processed ← processBlobs env node.store response node.state
    let store ← handleResponse processed.1
    pure ⟨store, processed.2⟩
  | .addBlocks blocks => blocks.foldlM (addBlockTo env) node
  | .checkPendingBlocks => (processBlocks env node.store node.state).map fun processed => ⟨processed.1, processed.2⟩

/-- The nodes the port reaches from a start, event by event. -/
inductive Reach (start : Node σ) : Node σ → Prop
  | start : Reach start start
  | step {node node' : Node σ} (event : Event) : Reach start node → handle env node event = some node' → Reach start node'

/-! ## The invariant -/

/-- A status no event changes: `:transitioned` and `:invalid`. -/
def Decided (status : BlockStatus) : Prop := status = .transitioned ∨ status = .invalid

/-- The status sets agree with the infos: a root is in a status's set only when its info has that
    status, and in its info's status's set unless that is `:transitioned`, which the fork choice's
    anchor is stored as without a set (`Store.get_forkchoice_store/2` writes it with
    `Blocks.store_block_info/1`). -/
structure Indexed (st : State) : Prop where
  sound : ∀ status root, root ∈ st.statusRoots status → ∃ blockInfo, st.infos root = some blockInfo ∧ blockInfo.status = status
  complete : ∀ root blockInfo, st.infos root = some blockInfo → blockInfo.status ≠ .transitioned →
    root ∈ st.statusRoots blockInfo.status

/-- Every info is stored under its own root, and has a block unless it is queued for download. -/
def Keyed (st : State) : Prop :=
  ∀ root blockInfo, st.infos root = some blockInfo →
    blockInfo.root = root ∧ (blockInfo.signedBlock = none ↔ blockInfo.status = .download)

/-- The block's parent is stored as transitioned. -/
def ParentTransitioned (st : State) (blockInfo : BlockInfo) : Prop :=
  ∃ signedBlock parent, blockInfo.signedBlock = some signedBlock ∧ st.infos signedBlock.parentRoot = some parent ∧
    parent.status = .transitioned

/-- Every transitioned block but an anchor has a transitioned parent. -/
def Closed (anchors : Set Root) (st : State) : Prop :=
  ∀ root blockInfo, st.infos root = some blockInfo → blockInfo.status = .transitioned →
    root ∈ anchors ∨ ParentTransitioned st blockInfo

/-- The fork choice was handed each block once, each is decided, and each has a transitioned
    parent. -/
def Handed (st : State) : Prop :=
  (st.onBlockCalls.map (·.root)).Nodup ∧ ∀ blockInfo ∈ st.onBlockCalls,
    (∃ decided, st.infos blockInfo.root = some decided ∧ Decided decided.status) ∧ ParentTransitioned st blockInfo

/-- What the pipeline keeps of the block store, from anchors on. -/
structure Inv (anchors : Set Root) (st : State) : Prop where
  indexed : Indexed st
  keyed : Keyed st
  closed : Closed anchors st
  handed : Handed st

/-- What the pipeline never undoes: a decided info stays, and calls are only added. -/
structure Grows (st st' : State) : Prop where
  decided : ∀ root blockInfo, st.infos root = some blockInfo → Decided blockInfo.status → st'.infos root = some blockInfo
  calls : st.onBlockCalls <+: st'.onBlockCalls

theorem Grows.refl (st : State) : Grows st st := ⟨fun _ _ h _ => h, List.prefix_refl _⟩

theorem Grows.trans {st₁ st₂ st₃ : State} (h₁₂ : Grows st₁ st₂) (h₂₃ : Grows st₂ st₃) : Grows st₁ st₃ :=
  ⟨fun root blockInfo h hdecided => h₂₃.decided root blockInfo (h₁₂.decided root blockInfo h hdecided) hdecided,
    h₁₂.calls.trans h₂₃.calls⟩

/-- A stored info not queued for download has its block. -/
theorem Keyed.signedBlock {st : State} (hkeyed : Keyed st) {root : Root} {blockInfo : BlockInfo}
    (hstored : st.infos root = some blockInfo) (hstatus : blockInfo.status ≠ .download) :
    ∃ signedBlock, blockInfo.signedBlock = some signedBlock :=
  Option.ne_none_iff_exists'.mp fun hnone => hstatus ((hkeyed root blockInfo hstored).2.mp hnone)

/-- The block store as `Store.get_forkchoice_store/2` leaves it: the anchor's info written
    `:transitioned` by `Blocks.store_block_info/1`, in no status set. -/
theorem Inv.anchor {anchor : BlockInfo} {signedBlock : SignedBeaconBlock} (hblock : anchor.signedBlock = some signedBlock)
    (htransitioned : anchor.status = .transitioned) : Inv {anchor.root} (storeBlockInfo State.empty anchor) := by
  have hinfo : ∀ root blockInfo, (storeBlockInfo State.empty anchor).infos root = some blockInfo →
      root = anchor.root ∧ blockInfo = anchor := by
    intro root blockInfo h
    simp only [storeBlockInfo, State.empty, Function.update_apply] at h
    split_ifs at h with hroot
    · exact ⟨hroot, (Option.some.inj h).symm⟩
  refine ⟨⟨fun _ _ hmem => by simp [storeBlockInfo, State.empty] at hmem, fun root blockInfo h hstatus => ?_⟩,
    fun root blockInfo h => ?_, fun root blockInfo h _ => .inl ?_, ⟨List.nodup_nil, by simp [storeBlockInfo, State.empty]⟩⟩
  · obtain ⟨-, rfl⟩ := hinfo root blockInfo h
    exact absurd htransitioned hstatus
  · obtain ⟨rfl, rfl⟩ := hinfo root blockInfo h
    simp [hblock, htransitioned]
  · exact (hinfo root blockInfo h).1

/-- A stored info is stored under its own root. -/
theorem Keyed.self {st : State} (hkeyed : Keyed st) {root : Root} {blockInfo : BlockInfo}
    (hstored : st.infos root = some blockInfo) : st.infos blockInfo.root = some blockInfo :=
  (hkeyed root blockInfo hstored).1 ▸ hstored

/-- The requests sent are no part of the invariant. -/
theorem Inv.setRequests {anchors : Set Root} {st : State} (hinv : Inv anchors st) (requests : List Request) :
    Inv anchors { st with requests := requests } :=
  ⟨⟨hinv.indexed.sound, hinv.indexed.complete⟩, hinv.keyed, hinv.closed, hinv.handed⟩

theorem Grows.setRequests {st st' : State} (hgrows : Grows st st') (requests : List Request) :
    Grows st { st' with requests := requests } :=
  ⟨hgrows.decided, hgrows.calls⟩

/-- Nor are the blobs stored. -/
theorem Inv.setBlobs {anchors : Set Root} {st : State} (hinv : Inv anchors st) (blobs : Root → Nat → Option (List UInt8)) :
    Inv anchors { st with blobs := blobs } :=
  ⟨⟨hinv.indexed.sound, hinv.indexed.complete⟩, hinv.keyed, hinv.closed, hinv.handed⟩

theorem Grows.setBlobs {st st' : State} (hgrows : Grows st st') (blobs : Root → Nat → Option (List UInt8)) :
    Grows st { st' with blobs := blobs } :=
  ⟨hgrows.decided, hgrows.calls⟩

/-! ## The write of the block store -/

section Write

variable {st : State} {blockInfo : BlockInfo} {fromStatus : BlockStatus}

/-- The write `new_block_info/1` and `change_status/2` make: the info stored under its root, the
    root moved from one status's set to the info's. -/
def write (st : State) (blockInfo : BlockInfo) (fromStatus : BlockStatus) : State :=
  changeRootStatus (storeBlockInfo st blockInfo) blockInfo.root fromStatus blockInfo.status

theorem newBlockInfo_eq_write (st : State) (blockInfo : BlockInfo) : newBlockInfo st blockInfo = write st blockInfo .download := rfl

theorem changeStatus_eq_write {blockInfo : BlockInfo} {signedBlock : SignedBeaconBlock} (hblock : blockInfo.signedBlock = some signedBlock)
    (st : State) (status : BlockStatus) :
    changeStatus st blockInfo status = some ({ blockInfo with status := status }, write st { blockInfo with status := status } blockInfo.status) := by
  simp [changeStatus, hblock, write]

@[simp] theorem write_infos (st : State) (blockInfo : BlockInfo) (fromStatus : BlockStatus) :
    (write st blockInfo fromStatus).infos = Function.update st.infos blockInfo.root (some blockInfo) := rfl

@[simp] theorem write_infos_self (st : State) (blockInfo : BlockInfo) (fromStatus : BlockStatus) :
    (write st blockInfo fromStatus).infos blockInfo.root = some blockInfo := by
  simp

@[simp] theorem write_onBlockCalls (st : State) (blockInfo : BlockInfo) (fromStatus : BlockStatus) :
    (write st blockInfo fromStatus).onBlockCalls = st.onBlockCalls := rfl

theorem mem_changeRootStatus {st : State} {root : Root} {fromStatus toStatus status : BlockStatus} {other : Root} :
    other ∈ (changeRootStatus st root fromStatus toStatus).statusRoots status ↔
      if other = root then status = toStatus ∨ (status ≠ fromStatus ∧ root ∈ st.statusRoots status)
      else other ∈ st.statusRoots status := by
  simp only [changeRootStatus, Function.update_apply]
  split_ifs <;> simp_all [eq_comm]

theorem indexed_write (hst : Indexed st) (hfrom : ∀ old, st.infos blockInfo.root = some old → old.status = fromStatus) :
    Indexed (write st blockInfo fromStatus) := by
  constructor
  · intro status root hmem
    rw [write, mem_changeRootStatus] at hmem
    rw [write_infos, Function.update_apply]
    simp only [storeBlockInfo] at hmem
    split_ifs at hmem ⊢ with hroot
    · -- the written root is in its new status's set, and no longer in the one it left
      subst hroot
      rcases hmem with h | ⟨hne, hmem⟩
      · exact ⟨blockInfo, rfl, h.symm⟩
      · obtain ⟨old, hold, rfl⟩ := hst.sound status blockInfo.root hmem
        exact absurd (hfrom old hold) hne
    · exact hst.sound status root hmem
  · intro root info hinfo hstatus
    rw [write_infos, Function.update_apply] at hinfo
    rw [write, mem_changeRootStatus]
    simp only [storeBlockInfo]
    split_ifs at hinfo ⊢ with hroot
    · cases hinfo
      exact .inl rfl
    · exact hst.complete root info hinfo hstatus

theorem keyed_write (hst : Keyed st) (hblock : blockInfo.signedBlock = none ↔ blockInfo.status = .download) :
    Keyed (write st blockInfo fromStatus) := by
  intro root info hinfo
  rw [write_infos, Function.update_apply] at hinfo
  split_ifs at hinfo with hroot
  · cases hinfo
    exact ⟨hroot.symm, hblock⟩
  · exact hst root info hinfo

/-- A write over an undecided root leaves every decided info. -/
theorem write_decided (hundecided : ∀ old, st.infos blockInfo.root = some old → ¬Decided old.status)
    {root : Root} {old : BlockInfo} (hold : st.infos root = some old) (hdecided : Decided old.status) :
    (write st blockInfo fromStatus).infos root = some old := by
  have hne : root ≠ blockInfo.root := by
    rintro rfl
    exact hundecided old hold hdecided
  rw [write_infos, Function.update_of_ne hne, hold]

theorem ParentTransitioned.write (hundecided : ∀ old, st.infos blockInfo.root = some old → ¬Decided old.status)
    {child : BlockInfo} (hchild : ParentTransitioned st child) : ParentTransitioned (write st blockInfo fromStatus) child := by
  obtain ⟨signedBlock, parent, hblock, hparent, hstatus⟩ := hchild
  exact ⟨signedBlock, parent, hblock, write_decided hundecided hparent (.inl hstatus), hstatus⟩

theorem closed_write {anchors : Set Root} (hst : Closed anchors st)
    (hundecided : ∀ old, st.infos blockInfo.root = some old → ¬Decided old.status)
    (hparent : blockInfo.status = .transitioned → ParentTransitioned st blockInfo) :
    Closed anchors (write st blockInfo fromStatus) := by
  intro root info hinfo htransitioned
  rw [write_infos, Function.update_apply] at hinfo
  split_ifs at hinfo with hroot
  · cases hinfo
    exact .inr ((hparent htransitioned).write hundecided)
  · exact (hst root info hinfo htransitioned).imp_right fun h => h.write hundecided

theorem handed_write (hst : Handed st) (hundecided : ∀ old, st.infos blockInfo.root = some old → ¬Decided old.status) :
    Handed (write st blockInfo fromStatus) := by
  refine ⟨hst.1, fun call hcall => ?_⟩
  obtain ⟨⟨decided, hdecided, hstatus⟩, hparent⟩ := hst.2 call hcall
  exact ⟨⟨decided, write_decided hundecided hdecided hstatus, hstatus⟩, hparent.write hundecided⟩

theorem grows_write (hundecided : ∀ old, st.infos blockInfo.root = some old → ¬Decided old.status) :
    Grows st (write st blockInfo fromStatus) :=
  ⟨fun _ _ hold hdecided => write_decided hundecided hold hdecided, List.prefix_refl _⟩

/-- A write over an undecided root, from the set it is in, of an info that has its block unless
    queued for download and a transitioned parent if transitioned, keeps the invariant. -/
theorem write_spec {anchors : Set Root} (hinv : Inv anchors st)
    (hfrom : ∀ old, st.infos blockInfo.root = some old → old.status = fromStatus ∧ ¬Decided old.status)
    (hblock : blockInfo.signedBlock = none ↔ blockInfo.status = .download)
    (hparent : blockInfo.status = .transitioned → ParentTransitioned st blockInfo) :
    Inv anchors (write st blockInfo fromStatus) ∧ Grows st (write st blockInfo fromStatus) :=
  have hundecided := fun old hold => (hfrom old hold).2
  ⟨⟨indexed_write hinv.indexed fun old hold => (hfrom old hold).1, keyed_write hinv.keyed hblock,
    closed_write hinv.closed hundecided hparent, handed_write hinv.handed hundecided⟩, grows_write hundecided⟩

/-- A stored undecided block with its block given a new status other than `:download` (and
    `:transitioned` only under a transitioned parent) keeps the invariant. -/
theorem change_write_spec {anchors : Set Root} (hinv : Inv anchors st) (hstored : st.infos blockInfo.root = some blockInfo)
    (hundecided : ¬Decided blockInfo.status) {signedBlock : SignedBeaconBlock} (hblock : blockInfo.signedBlock = some signedBlock)
    (status : BlockStatus) (hstatus : status ≠ .download) (hparent : status = .transitioned → ParentTransitioned st blockInfo) :
    Inv anchors (write st { blockInfo with status := status } blockInfo.status) ∧
      Grows st (write st { blockInfo with status := status } blockInfo.status) := by
  set changed : BlockInfo := { blockInfo with status := status }
  have hfrom : ∀ old, st.infos changed.root = some old → old.status = blockInfo.status ∧ ¬Decided old.status := by
    intro old hold
    change st.infos blockInfo.root = some old at hold
    rw [hstored] at hold
    cases hold
    exact ⟨rfl, hundecided⟩
  exact write_spec hinv hfrom (by simp [changed, hblock, hstatus]) hparent

/-- Logging a pending block's call under a transitioned parent and then deciding it keeps every
    call once, decided and under a transitioned parent. -/
theorem handed_call_write (hst : Handed st) (hstored : st.infos blockInfo.root = some blockInfo)
    (hundecided : ¬Decided blockInfo.status) (hparent : ParentTransitioned st blockInfo) {status : BlockStatus}
    (hdecided : Decided status) :
    Handed (write { st with onBlockCalls := st.onBlockCalls ++ [blockInfo] } { blockInfo with status := status } blockInfo.status) := by
  set called : State := { st with onBlockCalls := st.onBlockCalls ++ [blockInfo] }
  set decided : BlockInfo := { blockInfo with status := status }
  have hcalledUndecided : ∀ old, called.infos decided.root = some old → ¬Decided old.status := by
    intro old hold
    change st.infos blockInfo.root = some old at hold
    rw [hstored] at hold
    cases hold
    exact hundecided
  have hnew : blockInfo.root ∉ st.onBlockCalls.map (·.root) := by
    simp only [List.mem_map, not_exists, not_and]
    intro call hcall hroot
    obtain ⟨⟨old, hold, hstatus⟩, -⟩ := hst.2 call hcall
    rw [hroot, hstored] at hold
    cases hold
    exact hundecided hstatus
  have hcalledParent : ParentTransitioned called blockInfo := hparent
  refine ⟨?_, fun call hcall => ?_⟩
  · simpa [called] using List.nodup_append.mpr ⟨hst.1, List.nodup_singleton _, by simpa using hnew⟩
  · -- an earlier call keeps its decided info; the new one now has one
    simp only [write_onBlockCalls, called, List.mem_append, List.mem_singleton] at hcall
    rcases hcall with hcall | rfl
    · obtain ⟨⟨old, hold, hstatus⟩, hcallParent⟩ := hst.2 call hcall
      exact ⟨⟨old, write_decided hcalledUndecided hold hstatus, hstatus⟩, ParentTransitioned.write hcalledUndecided hcallParent⟩
    · exact ⟨⟨decided, by simp [decided], hdecided⟩, ParentTransitioned.write hcalledUndecided hcalledParent⟩

/-- A block handed to the fork choice is logged and then decided; the write keeps the invariant
    when the block was pending under a transitioned parent. -/
theorem call_write_spec {anchors : Set Root} (hinv : Inv anchors st) (hstored : st.infos blockInfo.root = some blockInfo)
    (hpending : blockInfo.status = .pending) (hparent : ParentTransitioned st blockInfo) {status : BlockStatus}
    (hdecided : Decided status) :
    Inv anchors (write { st with onBlockCalls := st.onBlockCalls ++ [blockInfo] } { blockInfo with status := status } blockInfo.status) ∧
      Grows st (write { st with onBlockCalls := st.onBlockCalls ++ [blockInfo] } { blockInfo with status := status } blockInfo.status) := by
  have hundecided : ¬Decided blockInfo.status := by
    rw [hpending]
    rintro (h | h) <;> cases h
  have ⟨signedBlock, _, hblock, _⟩ := hparent
  -- the same write without the call: the log is no part of the other invariants
  have hchange := change_write_spec hinv hstored hundecided hblock status
    (by rcases hdecided with rfl | rfl <;> decide) (fun _ => hparent)
  exact ⟨⟨⟨hchange.1.indexed.sound, hchange.1.indexed.complete⟩, hchange.1.keyed, hchange.1.closed,
    handed_call_write hinv.handed hstored hundecided hparent hdecided⟩, ⟨hchange.2.decided, by simp⟩⟩

end Write

/-! ## `process_block/2` and `process_blocks/1` -/

section Process

variable {anchors : Set Root} {st : State} {blockInfo : BlockInfo}

/-- What `process_block/2` does to the databases, on a pending block it finds stored: the
    invariant kept, nothing decided undone, and no other known root's info touched. -/
theorem processBlock_spec (hinv : Inv anchors st) (hstored : st.infos blockInfo.root = some blockInfo)
    (hpending : blockInfo.status = .pending) {store : StoreTerm σ} {processed}
    (h : processBlock env store blockInfo st = some processed) :
    Inv anchors processed.2 ∧ Grows st processed.2 ∧
      ∀ root, root ≠ blockInfo.root → (st.infos root).isSome → processed.2.infos root = st.infos root := by
  obtain ⟨signedBlock, hblock⟩ := hinv.keyed.signedBlock hstored (by rw [hpending]; decide)
  have hundecided : ¬Decided blockInfo.status := by
    rw [hpending]
    rintro (h | h) <;> cases h
  have hframe : ∀ (st' : State) (status : BlockStatus) root, root ≠ blockInfo.root →
      (write st' { blockInfo with status := status } blockInfo.status).infos root = st'.infos root :=
    fun _ _ _ hne => by rw [write_infos, Function.update_of_ne hne]
  simp only [processBlock, hblock, Option.bind_eq_bind, Option.bind_some] at h
  split at h
  · -- an unknown parent is queued for download and requested
    next hunknown =>
    cases h
    have hfresh : ∀ root, (st.infos root).isSome → root ≠ signedBlock.parentRoot := by
      rintro root hsome rfl
      simp [hunknown] at hsome
    have hdownload : Inv anchors (write st ⟨signedBlock.parentRoot, none, .download⟩ .download) ∧
        Grows st (write st ⟨signedBlock.parentRoot, none, .download⟩ .download) :=
      write_spec hinv (fun old hold => by simp [hunknown] at hold) (by simp) (fun h => by cases h)
    refine ⟨hdownload.1.setRequests _, hdownload.2.setRequests _, fun root _ hsome => ?_⟩
    simp [addBlockToDownload, newBlockInfo_eq_write, Function.update_of_ne (hfresh root hsome)]
  · next parent hparent =>
    split at h
    · -- under an invalid parent the block is invalid
      rw [changeStatus_eq_write hblock] at h
      cases h
      have hinvalid := change_write_spec hinv hstored hundecided hblock .invalid (by decide) (fun h => by cases h)
      exact ⟨hinvalid.1, hinvalid.2, fun root hne _ => hframe st _ root hne⟩
    · -- under a transitioned parent the fork choice decides
      next htransitioned =>
      have hparentT : ParentTransitioned st blockInfo := ⟨signedBlock, parent, hblock, hparent, htransitioned⟩
      rcases hfc : forkChoiceOnBlock env store blockInfo with _ | (_ | _) <;>
        simp only [hfc, Option.bind_none, Option.bind_some, changeStatus_eq_write hblock] at h <;> cases h
      · have hinvalid := call_write_spec hinv hstored hpending hparentT (.inr rfl)
        exact ⟨hinvalid.1, hinvalid.2, fun root hne _ => hframe _ _ root hne⟩
      · have htransition := call_write_spec hinv hstored hpending hparentT (.inl rfl)
        exact ⟨htransition.1, htransition.2, fun root hne _ => hframe _ _ root hne⟩
    · cases h
      exact ⟨hinv, Grows.refl st, fun _ _ _ => rfl⟩

/-- With a fork choice that never raises, `process_block/2` on a stored pending block returns,
    and what it returns in place of the store is a store. -/
theorem processBlock_returns (htotal : ∀ s blockInfo, (env.onBlock s blockInfo).isSome) (hinv : Inv anchors st)
    (hstored : st.infos blockInfo.root = some blockInfo) (hpending : blockInfo.status = .pending) (s : σ) :
    ∃ s' outcome st', processBlock env (.store s) blockInfo st = some ((.store s', outcome), st') := by
  obtain ⟨signedBlock, hblock⟩ := hinv.keyed.signedBlock hstored (by rw [hpending]; decide)
  simp only [processBlock, hblock, Option.bind_eq_bind, Option.bind_some]
  split
  · exact ⟨s, _, _, rfl⟩
  · split
    · simp [changeStatus_eq_write hblock]
    · -- the fork choice returns a store or an error, and raises on neither
      obtain ⟨result, hresult⟩ := Option.isSome_iff_exists.mp (htotal s blockInfo)
      cases result <;> simp [forkChoiceOnBlock, hresult, changeStatus_eq_write hblock, Except.map]
    · exact ⟨s, _, _, rfl⟩

/-- The entries `process_blocks/1` reduces over: stored pending blocks, each root once. -/
def PendingEntries (st : State) (entries : List (Nat × BlockInfo)) : Prop :=
  (entries.map (·.2.root)).Nodup ∧ ∀ entry ∈ entries, st.infos entry.2.root = some entry.2 ∧ entry.2.status = .pending

/-- Processing the first entry leaves the others stored and pending. -/
theorem PendingEntries.tail {entry : Nat × BlockInfo} {rest : List (Nat × BlockInfo)} (hinv : Inv anchors st)
    (hentries : PendingEntries st (entry :: rest)) {store : StoreTerm σ} {processed}
    (h : processBlock env store entry.2 st = some processed) : PendingEntries processed.2 rest := by
  obtain ⟨hnodup, hpending⟩ := hentries
  rw [List.map_cons, List.nodup_cons] at hnodup
  obtain ⟨hstored, hentry⟩ := hpending entry List.mem_cons_self
  have hframe := (processBlock_spec env hinv hstored hentry h).2.2
  refine ⟨hnodup.2, fun other hother => ?_⟩
  obtain ⟨hotherStored, hotherPending⟩ := hpending other (List.mem_cons_of_mem _ hother)
  have hne : other.2.root ≠ entry.2.root := fun heq => hnodup.1 (heq ▸ List.mem_map_of_mem hother)
  rw [hframe other.2.root hne (by simp [hotherStored]), hotherStored]
  exact ⟨rfl, hotherPending⟩

/-- The reduction of `process_blocks/1` keeps the invariant and undoes nothing decided. -/
theorem processSorted_spec {entries : List (Nat × BlockInfo)} {store : StoreTerm σ} {result}
    (hinv : Inv anchors st) (hentries : PendingEntries st entries) (h : processSorted env store st entries = some result) :
    Inv anchors result.2 ∧ Grows st result.2 := by
  induction entries generalizing st store with
  | nil =>
    cases h
    exact ⟨hinv, Grows.refl st⟩
  | cons entry rest ih =>
    simp only [processSorted, Option.bind_eq_bind, Option.bind_eq_some_iff] at h
    obtain ⟨processed, hprocessed, hrest⟩ := h
    obtain ⟨hstored, hpending⟩ := hentries.2 entry List.mem_cons_self
    obtain ⟨hinv', hgrows, -⟩ := processBlock_spec env hinv hstored hpending hprocessed
    obtain ⟨hinv'', hgrows'⟩ := ih hinv' (hentries.tail env hinv hprocessed) hrest
    exact ⟨hinv'', hgrows.trans hgrows'⟩

/-- With a fork choice that never raises, the reduction of `process_blocks/1` returns a store. -/
theorem processSorted_returns (htotal : ∀ s blockInfo, (env.onBlock s blockInfo).isSome) {entries : List (Nat × BlockInfo)}
    (hinv : Inv anchors st) (hentries : PendingEntries st entries) (s : σ) :
    ∃ s' st', processSorted env (.store s) st entries = some (.store s', st') := by
  induction entries generalizing st s with
  | nil => exact ⟨s, st, rfl⟩
  | cons entry rest ih =>
    obtain ⟨hstored, hpending⟩ := hentries.2 entry List.mem_cons_self
    obtain ⟨s₁, outcome, st₁, hprocessed⟩ := processBlock_returns env htotal hinv hstored hpending s
    have hinv₁ := (processBlock_spec env hinv hstored hpending hprocessed).1
    obtain ⟨s₂, st₂, hrest⟩ := ih hinv₁ (hentries.tail env hinv hprocessed) s₁
    exact ⟨s₂, st₂, by simp [processSorted, hprocessed, hrest]⟩

/-- What `get_blocks_with_status/1` returns: the stored infos of the status's roots, in the
    set's order. -/
theorem getBlocksWithStatus_spec (hinv : Inv anchors st) {status : BlockStatus} {blocks : List BlockInfo}
    (h : getBlocksWithStatus env st status = .ok blocks) :
    blocks.map (·.root) = env.listRoots (st.statusRoots status) ∧
      ∀ blockInfo ∈ blocks, st.infos blockInfo.root = some blockInfo ∧ blockInfo.status = status := by
  have hrel := Fallible.forall₂_of_mapM_eq_ok h
  have hmem : ∀ root ∈ env.listRoots (st.statusRoots status), root ∈ st.statusRoots status :=
    fun root hroot => (env.mem_listRoots _ root).mp hroot
  clear h
  generalize env.listRoots (st.statusRoots status) = roots at hrel hmem ⊢
  -- along the roots, each info is the one stored under its root, which has the status
  induction hrel with
  | nil => exact ⟨rfl, by simp⟩
  | @cons root blockInfo roots blocks hstep _ ih =>
    have hstored : st.infos root = some blockInfo := by
      split at hstep <;> cases hstep
      assumption
    have hroot := (hinv.keyed root blockInfo hstored).1
    obtain ⟨old, hold, hstatus⟩ := hinv.indexed.sound status root (hmem root List.mem_cons_self)
    rw [hstored] at hold
    cases hold
    obtain ⟨hmap, hblocks⟩ := ih fun root' hroot' => hmem root' (List.mem_cons_of_mem _ hroot')
    refine ⟨by simp [hroot, hmap], fun other hother => ?_⟩
    rcases List.mem_cons.mp hother with rfl | hother
    · exact ⟨hroot ▸ hstored, hstatus⟩
    · exact hblocks other hother

/-- The blocks `process_blocks/1` reduces over, keyed by slot and sorted. -/
theorem pendingEntries_of_keyed (hinv : Inv anchors st) {blocks : List BlockInfo}
    (hblocks : getBlocksWithStatus env st .pending = .ok blocks) {keyed : List (Nat × BlockInfo)}
    (hkeyed : blocks.mapM (fun blockInfo => blockInfo.signedBlock.map fun signedBlock => (signedBlock.slot, blockInfo)) = some keyed) :
    PendingEntries st (keyed.mergeSort fun a b => a.1 ≤ b.1) := by
  obtain ⟨hroots, hpending⟩ := getBlocksWithStatus_spec env hinv hblocks
  have hinfos : keyed.map (·.2) = blocks.map id :=
    Fallible.map_of_mapM_eq_some hkeyed fun blockInfo entry hentry => by
      cases hsigned : blockInfo.signedBlock <;> simp [hsigned] at hentry
      rw [← hentry]
      rfl
  rw [List.map_id] at hinfos
  have hperm := List.mergeSort_perm keyed fun a b => a.1 ≤ b.1
  refine ⟨?_, fun entry hentry => hpending entry.2 ?_⟩
  · have hnodup : (keyed.map (·.2.root)).Nodup := by
      have hcomp : keyed.map (·.2.root) = (keyed.map (·.2)).map (·.root) := by simp
      rw [hcomp, hinfos, hroots]
      exact env.nodup_listRoots _
    exact (hperm.map _).nodup_iff.mpr hnodup
  · rw [← hinfos]
    exact List.mem_map_of_mem (hperm.subset hentry)

/-- `process_blocks/1` keeps the invariant and undoes nothing decided. -/
theorem processBlocks_spec (hinv : Inv anchors st) {store : StoreTerm σ} {result}
    (h : processBlocks env store st = some result) : Inv anchors result.2 ∧ Grows st result.2 := by
  unfold processBlocks at h
  split at h
  · cases h
    exact ⟨hinv, Grows.refl st⟩
  · next blocks hblocks =>
    simp only [Option.bind_eq_bind, Option.bind_eq_some_iff] at h
    obtain ⟨keyed, hkeyed, h⟩ := h
    exact processSorted_spec env hinv (pendingEntries_of_keyed env hinv hblocks hkeyed) h

/-- With a fork choice that never raises, `process_blocks/1` returns a store. -/
theorem processBlocks_returns (htotal : ∀ s blockInfo, (env.onBlock s blockInfo).isSome) (hinv : Inv anchors st) (s : σ) :
    ∃ s' st', processBlocks env (.store s) st = some (.store s', st') := by
  unfold processBlocks
  split
  · exact ⟨s, st, rfl⟩
  · next blocks hblocks =>
    -- every pending block has its block, so keying by slot cannot raise
    obtain ⟨keyed, hkeyed⟩ := Option.isSome_iff_exists.mp (Fallible.mapM_isSome
        (f := fun blockInfo : BlockInfo => blockInfo.signedBlock.map fun signedBlock => (signedBlock.slot, blockInfo)) fun blockInfo hmem => by
      obtain ⟨hstored, hpending⟩ := (getBlocksWithStatus_spec env hinv hblocks).2 blockInfo hmem
      obtain ⟨signedBlock, hblock⟩ := hinv.keyed.signedBlock hstored (by rw [hpending]; decide)
      simp [hblock])
    obtain ⟨s', st', hsorted⟩ := processSorted_returns env htotal hinv (pendingEntries_of_keyed env hinv hblocks hkeyed) s
    exact ⟨s', st', by simp [hkeyed, hsorted]⟩

/-- `process_block_and_check_children/2` keeps the invariant and undoes nothing decided. -/
theorem processBlockAndCheckChildren_spec (hinv : Inv anchors st) (hstored : st.infos blockInfo.root = some blockInfo)
    (hpending : blockInfo.status = .pending) {store : StoreTerm σ} {result}
    (h : processBlockAndCheckChildren env store blockInfo st = some result) : Inv anchors result.2 ∧ Grows st result.2 := by
  simp only [processBlockAndCheckChildren, Option.bind_eq_bind, Option.bind_eq_some_iff] at h
  obtain ⟨processed, hprocessed, h⟩ := h
  obtain ⟨hinv', hgrows, -⟩ := processBlock_spec env hinv hstored hpending hprocessed
  split_ifs at h
  · obtain ⟨hinv'', hgrows'⟩ := processBlocks_spec env hinv' h
    exact ⟨hinv'', hgrows.trans hgrows'⟩
  · cases h
    exact ⟨hinv', hgrows⟩

/-- With a fork choice that never raises, `process_block_and_check_children/2` returns a store. -/
theorem processBlockAndCheckChildren_returns (htotal : ∀ s blockInfo, (env.onBlock s blockInfo).isSome)
    (hinv : Inv anchors st) (hstored : st.infos blockInfo.root = some blockInfo) (hpending : blockInfo.status = .pending) (s : σ) :
    ∃ s' st', processBlockAndCheckChildren env (.store s) blockInfo st = some (.store s', st') := by
  obtain ⟨s₁, outcome, st₁, hprocessed⟩ := processBlock_returns env htotal hinv hstored hpending s
  have hinv₁ := (processBlock_spec env hinv hstored hpending hprocessed).1
  obtain ⟨s₂, st₂, hblocks⟩ := processBlocks_returns env htotal hinv₁ s₁
  simp only [processBlockAndCheckChildren, hprocessed, Option.bind_eq_bind, Option.bind_some]
  split_ifs
  · exact ⟨s₂, st₂, hblocks⟩
  · exact ⟨s₁, st₁, rfl⟩

/-- A pending block under a transitioned parent that the fork choice accepts is logged, marked
    `:transitioned`, and the fork choice's store returned. -/
theorem processBlock_accepted {signedBlock : SignedBeaconBlock} (hblock : blockInfo.signedBlock = some signedBlock)
    {parent : BlockInfo} (hparent : st.infos signedBlock.parentRoot = some parent) (htransitioned : parent.status = .transitioned)
    {s s' : σ} (haccepted : env.onBlock s blockInfo = some (.ok s')) :
    processBlock env (.store s) blockInfo st = some ((.store s', .transitioned),
      write { st with onBlockCalls := st.onBlockCalls ++ [blockInfo] } { blockInfo with status := .transitioned } blockInfo.status) := by
  simp [processBlock, hblock, hparent, htransitioned, forkChoiceOnBlock, haccepted, changeStatus_eq_write hblock, Except.map]

/-- Such a block, processed and followed by every pending block, stays `:transitioned` and logged,
    and a store comes back. -/
theorem processBlockAndCheckChildren_accepted (htotal : ∀ s blockInfo, (env.onBlock s blockInfo).isSome)
    (hinv : Inv anchors st) (hstored : st.infos blockInfo.root = some blockInfo) (hpending : blockInfo.status = .pending)
    (hparent : ParentTransitioned st blockInfo) {s s' : σ} (haccepted : env.onBlock s blockInfo = some (.ok s')) :
    ∃ s'' st', processBlockAndCheckChildren env (.store s) blockInfo st = some (.store s'', st') ∧
      st'.infos blockInfo.root = some { blockInfo with status := .transitioned } ∧ blockInfo ∈ st'.onBlockCalls := by
  obtain ⟨signedBlock, parent, hblock, hparentInfo, htransitioned⟩ := hparent
  have hprocessed := processBlock_accepted env hblock hparentInfo htransitioned haccepted
  have hinv₁ := (call_write_spec hinv hstored hpending ⟨signedBlock, parent, hblock, hparentInfo, htransitioned⟩ (.inl rfl)).1
  obtain ⟨s'', st', hblocks⟩ := processBlocks_returns env htotal hinv₁ s'
  have hgrows := (processBlocks_spec env hinv₁ hblocks).2
  refine ⟨s'', st', by simp [processBlockAndCheckChildren, hprocessed, hblocks], ?_, hgrows.calls.subset (by simp)⟩
  exact hgrows.decided _ _ (by simp) (.inl rfl)

/-- The write `add_block/2` makes, over a root it finds new or queued for download, of a block
    that waits or is pending, keeps the invariant, whatever requests it sent. -/
theorem addBlock_write_spec (hinv : Inv anchors st) {signedBlock : SignedBeaconBlock}
    (hnew : (st.infos (env.blockRoot signedBlock)).all (·.status == .download)) (status : BlockStatus)
    (hstatus : status ≠ .download) (htransitioned : status ≠ .transitioned) (requests : List Request) :
    Inv anchors (write { st with requests := requests } ⟨env.blockRoot signedBlock, some signedBlock, status⟩ .download) ∧
      Grows st (write { st with requests := requests } ⟨env.blockRoot signedBlock, some signedBlock, status⟩ .download) := by
  have hfrom : ∀ old, st.infos (env.blockRoot signedBlock) = some old → old.status = .download ∧ ¬Decided old.status := by
    intro old hold
    rw [hold] at hnew
    have hdownload : old.status = .download := by simpa using hnew
    rw [hdownload]
    exact ⟨rfl, by rintro (h | h) <;> cases h⟩
  have hwrite := @write_spec { st with requests := requests } ⟨env.blockRoot signedBlock, some signedBlock, status⟩ _ _
    (hinv.setRequests requests) hfrom (by simp [hstatus]) (fun h => absurd h htransitioned)
  exact ⟨hwrite.1, ((Grows.refl st).setRequests requests).trans hwrite.2⟩

/-- `add_block/2` keeps the invariant and undoes nothing decided. -/
theorem addBlock_spec (hinv : Inv anchors st) {store : StoreTerm σ} {signedBlock : SignedBeaconBlock} {result}
    (h : addBlock env store signedBlock st = some result) : Inv anchors result.2 ∧ Grows st result.2 := by
  unfold addBlock at h
  dsimp only at h
  split_ifs at h with hnew
  · -- a new root, or one queued for download, takes the block
    simp only [missingForBlock, Option.map_some, Option.bind_eq_bind, Option.bind_some] at h
    split_ifs at h
    · have hwrite := addBlock_write_spec env hinv hnew .pending (by decide) (by decide) st.requests
      obtain ⟨hinv', hgrows'⟩ := processBlockAndCheckChildren_spec env hwrite.1 (by simp) rfl h
      exact ⟨hinv', hwrite.2.trans hgrows'⟩
    · -- blobs are missing: they are requested and the block waits for them
      cases h
      exact addBlock_write_spec env hinv hnew .downloadBlobs (by decide) (by decide) _
  · cases h
    exact ⟨hinv, Grows.refl st⟩

/-- With a fork choice that never raises, `add_block/2` returns a store. -/
theorem addBlock_returns (htotal : ∀ s blockInfo, (env.onBlock s blockInfo).isSome) (hinv : Inv anchors st)
    (signedBlock : SignedBeaconBlock) (s : σ) :
    ∃ s' st', addBlock env (.store s) signedBlock st = some (.store s', st') := by
  unfold addBlock
  dsimp only
  split_ifs with hnew
  · simp only [missingForBlock, Option.map_some, Option.bind_eq_bind, Option.bind_some]
    split_ifs
    · have hwrite := addBlock_write_spec env hinv hnew .pending (by decide) (by decide) st.requests
      exact processBlockAndCheckChildren_returns env htotal hwrite.1 (by simp) rfl s
    · exact ⟨s, _, rfl⟩
  · exact ⟨s, st, rfl⟩

end Process

/-! ## Blobs, downloads and the port -/

section Port

variable {anchors : Set Root} {st : State}

/-- Storing sidecars writes the blobs only. -/
theorem foldl_storeBlob (sidecars : List BlobSidecar) (st : State) :
    ∃ blobs, sidecars.foldl (storeBlob env) st = { st with blobs := blobs } := by
  induction sidecars generalizing st with
  | nil => exact ⟨st.blobs, rfl⟩
  | cons sidecar sidecars ih => exact ih (storeBlob env st sidecar)

/-- A block waiting for its blobs, marked pending again, keeps the invariant. -/
theorem waiting_write_spec (hinv : Inv anchors st) {root : Root} {blockInfo : BlockInfo} (hstored : st.infos root = some blockInfo)
    (hwaiting : blockInfo.status = .downloadBlobs) {signedBlock : SignedBeaconBlock} (hblock : blockInfo.signedBlock = some signedBlock) :
    Inv anchors (write st { blockInfo with status := .pending } blockInfo.status) ∧
      Grows st (write st { blockInfo with status := .pending } blockInfo.status) := by
  have hundecided : ¬Decided blockInfo.status := by
    rw [hwaiting]
    rintro (h | h) <;> cases h
  exact change_write_spec hinv (hinv.keyed.self hstored) hundecided hblock .pending (by decide) (fun h => by cases h)

/-- One root of `process_blobs/2` keeps the invariant and undoes nothing decided. -/
theorem processBlobsStep_spec (hinv : Inv anchors st) {acc : StoreTerm σ} {root : Root} {result}
    (h : processBlobsStep env acc root st = some result) : Inv anchors result.2 ∧ Grows st result.2 := by
  unfold processBlobsStep at h
  split at h
  · next blockInfo hstored =>
    split_ifs at h with hwaiting
    · obtain ⟨signedBlock, hblock⟩ := hinv.keyed.signedBlock hstored (by rw [hwaiting]; decide)
      simp only [missingForBlock, hblock, Option.map_some, Option.bind_eq_bind, Option.bind_some] at h
      split_ifs at h
      · -- every blob is there: the block is pending again and processed
        rw [changeStatus_eq_write hblock] at h
        simp only [Option.bind_some, Option.bind_eq_some_iff] at h
        obtain ⟨processed, hprocessed, h⟩ := h
        cases h
        have hpending := waiting_write_spec hinv hstored hwaiting hblock
        obtain ⟨hinv', hgrows'⟩ := processBlockAndCheckChildren_spec env hpending.1 (by simp) rfl hprocessed
        exact ⟨hinv', hpending.2.trans hgrows'⟩
      · cases h
        exact ⟨hinv, Grows.refl st⟩
    · cases h
      exact ⟨hinv, Grows.refl st⟩
  · cases h
    exact ⟨hinv, Grows.refl st⟩

theorem processBlobRoots_spec {roots : List Root} (hinv : Inv anchors st) {acc : StoreTerm σ} {result}
    (h : processBlobRoots env acc st roots = some result) : Inv anchors result.2 ∧ Grows st result.2 := by
  induction roots generalizing st acc with
  | nil =>
    cases h
    exact ⟨hinv, Grows.refl st⟩
  | cons root roots ih =>
    simp only [processBlobRoots, Option.bind_eq_bind, Option.bind_eq_some_iff] at h
    obtain ⟨stepped, hstepped, hrest⟩ := h
    obtain ⟨hinv', hgrows⟩ := processBlobsStep_spec env hinv hstepped
    obtain ⟨hinv'', hgrows'⟩ := ih hinv' hrest
    exact ⟨hinv'', hgrows.trans hgrows'⟩

/-- `process_blobs/2` keeps the invariant and undoes nothing decided. -/
theorem processBlobs_spec (hinv : Inv anchors st) {store : StoreTerm σ} {response : Except String (List BlobSidecar)} {result}
    (h : processBlobs env store response st = some result) : Inv anchors result.2 ∧ Grows st result.2 := by
  unfold processBlobs at h
  split at h
  · cases h
    exact ⟨hinv, Grows.refl st⟩
  · next sidecars =>
    obtain ⟨blobs, hblobs⟩ := foldl_storeBlob env sidecars st
    simp only [addBlobs, hblobs] at h
    obtain ⟨hinv', hgrows⟩ := processBlobRoots_spec env (hinv.setBlobs blobs) h
    exact ⟨hinv', ((Grows.refl st).setBlobs blobs).trans hgrows⟩

/-- `process_downloaded_block/2` keeps the invariant and undoes nothing decided. -/
theorem processDownloadedBlock_spec (hinv : Inv anchors st) {store : StoreTerm σ}
    {response : Except String (List SignedBeaconBlock)} {result}
    (h : processDownloadedBlock env store response st = some result) : Inv anchors result.2 ∧ Grows st result.2 := by
  unfold processDownloadedBlock at h
  split at h
  · simp only [Option.map_eq_some_iff] at h
    obtain ⟨added, hadded, rfl⟩ := h
    have hspec := addBlock_spec env hinv hadded
    exact hspec
  · cases h
    exact ⟨hinv, Grows.refl st⟩
  · cases h

/-- With a fork choice that never raises, one root of `process_blobs/2` returns, with the
    accumulator inside `{:ok, _}`. -/
theorem processBlobsStep_returns (htotal : ∀ s blockInfo, (env.onBlock s blockInfo).isSome) (hinv : Inv anchors st)
    (root : Root) (s : σ) : ∃ st', processBlobsStep env (.store s) root st = some (.ok (.store s), st') := by
  unfold processBlobsStep
  split
  · next blockInfo hstored =>
    split_ifs with hwaiting
    · obtain ⟨signedBlock, hblock⟩ := hinv.keyed.signedBlock hstored (by rw [hwaiting]; decide)
      simp only [missingForBlock, hblock, Option.map_some, Option.bind_eq_bind, Option.bind_some]
      split_ifs
      · have hpending := waiting_write_spec hinv hstored hwaiting hblock
        obtain ⟨s', st', hprocessed⟩ := processBlockAndCheckChildren_returns env htotal hpending.1 (write_infos_self _ _ _) rfl s
        exact ⟨st', by simp [changeStatus_eq_write hblock, hprocessed]⟩
      · exact ⟨st, rfl⟩
    · exact ⟨st, rfl⟩
  · exact ⟨st, rfl⟩

/-- The one root of a gossiped sidecar. -/
theorem addBlobs_singleton (st : State) (sidecar : BlobSidecar) :
    addBlobs env st [sidecar] = ([env.headerRoot sidecar.signedBlockHeader.message], storeBlob env st sidecar) :=
  rfl

/-- One root of `process_blobs/2` that completes a block waiting for its blobs under a transitioned
    parent, which the fork choice accepts: the block is logged and `:transitioned`, and the
    accumulator comes back inside `{:ok, _}`. -/
theorem processBlobsStep_accepted (htotal : ∀ s blockInfo, (env.onBlock s blockInfo).isSome) (hinv : Inv anchors st)
    {root : Root} {blockInfo : BlockInfo} (hstored : st.infos root = some blockInfo) (hwaiting : blockInfo.status = .downloadBlobs)
    (hcomplete : missingForBlock st blockInfo = some []) (hparent : ParentTransitioned st blockInfo) {s s' : σ}
    (haccepted : env.onBlock s { blockInfo with status := .pending } = some (.ok s')) :
    ∃ st', processBlobsStep env (.store s) root st = some (.ok (.store s), st') ∧
      st'.infos blockInfo.root = some { blockInfo with status := .transitioned } ∧
      { blockInfo with status := .pending } ∈ st'.onBlockCalls := by
  obtain ⟨signedBlock, parent, hblock, hparentInfo, htransitioned⟩ := hparent
  have hstored' := hinv.keyed.self hstored
  have hpending := (waiting_write_spec hinv hstored hwaiting hblock).1
  -- the parent is decided, so marking the block pending leaves it
  have hparent' : ParentTransitioned (write st { blockInfo with status := .pending } blockInfo.status) { blockInfo with status := .pending } := by
    refine ⟨signedBlock, parent, hblock, ?_, htransitioned⟩
    have hne : signedBlock.parentRoot ≠ blockInfo.root := by
      rintro heq
      rw [heq, hstored'] at hparentInfo
      cases hparentInfo
      rw [hwaiting] at htransitioned
      cases htransitioned
    rw [write_infos, Function.update_of_ne hne, hparentInfo]
  obtain ⟨s'', st', hprocessed, hdecided, hcalled⟩ :=
    processBlockAndCheckChildren_accepted env htotal hpending (write_infos_self _ _ _) rfl hparent' haccepted
  refine ⟨st', ?_, hdecided, hcalled⟩
  simp only [missingForBlock, hblock, Option.map_some, Option.some.injEq] at hcomplete
  simp only [hblock, hwaiting] at hprocessed
  simp [processBlobsStep, hstored, hwaiting, missingForBlock, hblock, hcomplete, changeStatus_eq_write hblock, hprocessed]

/-- `handle_response/3` leaves the port a store, or raises. -/
theorem handleResponse_store {term term' : StoreTerm σ} (h : handleResponse term = some term') : ∃ s, term' = .store s := by
  unfold handleResponse at h
  split at h
  · cases h
    exact ⟨_, rfl⟩
  · cases h

/-- An event whose handling returns a store leaves one in whatever the node becomes. -/
theorem store_of_returns {node node' : Node σ} {event : Event} {s' : σ} {st' : State}
    (hreturns : handle env node event = some ⟨.store s', st'⟩) (h : handle env node event = some node') :
    ∃ s, node'.store = .store s := by
  rw [hreturns, Option.some.injEq] at h
  exact ⟨s', by rw [← h]⟩

/-! ## Runs of the port with a fork choice that never raises -/

section Returns

variable (htotal : ∀ s blockInfo, (env.onBlock s blockInfo).isSome)
include htotal

theorem handle_gossipBlock_returns (hinv : Inv anchors st) (s : σ) (signedBlock : SignedBeaconBlock) :
    ∃ s' st', handle env ⟨.store s, st⟩ (.gossipBlock signedBlock) = some ⟨.store s', st'⟩ := by
  obtain ⟨s', st', hadded⟩ := addBlock_returns env htotal hinv signedBlock s
  exact ⟨s', st', by simp [handle, addBlockTo, hadded]⟩

/-- A gossiped block new to the store, with no blobs to wait for, under a transitioned parent, that
    the fork choice accepts: it is handed to the fork choice and marked `:transitioned`. -/
theorem handle_gossipBlock_accepted (hinv : Inv anchors st) {signedBlock : SignedBeaconBlock}
    (hnew : st.infos (env.blockRoot signedBlock) = none) (hblobs : signedBlock.blobKzgCommitments = [])
    {parent : BlockInfo} (hparent : st.infos signedBlock.parentRoot = some parent)
    (htransitioned : parent.status = .transitioned) {s s' : σ}
    (haccepted : env.onBlock s ⟨env.blockRoot signedBlock, some signedBlock, .pending⟩ = some (.ok s')) :
    ∃ s'' st', handle env ⟨.store s, st⟩ (.gossipBlock signedBlock) = some ⟨.store s'', st'⟩ ∧
      st'.infos (env.blockRoot signedBlock) = some ⟨env.blockRoot signedBlock, some signedBlock, .transitioned⟩ ∧
      ⟨env.blockRoot signedBlock, some signedBlock, .pending⟩ ∈ st'.onBlockCalls := by
  -- `add_block/2` stores the block pending, under its parent, which is another root
  have hwrite := addBlock_write_spec env hinv
    (show (st.infos (env.blockRoot signedBlock)).all (·.status == .download) by simp [hnew]) .pending (by decide)
    (by decide) st.requests
  have hother : signedBlock.parentRoot ≠ env.blockRoot signedBlock := fun hsame => by
    rw [hsame, hnew] at hparent
    cases hparent
  have hparent' : ParentTransitioned (newBlockInfo st ⟨env.blockRoot signedBlock, some signedBlock, .pending⟩)
      ⟨env.blockRoot signedBlock, some signedBlock, .pending⟩ :=
    ⟨signedBlock, parent, rfl, by simp [newBlockInfo_eq_write, hother, hparent], htransitioned⟩
  obtain ⟨s'', st', hprocessed, htransitioned', hcalled⟩ :=
    processBlockAndCheckChildren_accepted env htotal hwrite.1 (by simp) rfl hparent' haccepted
  refine ⟨s'', st', ?_, htransitioned', hcalled⟩
  simp only [handle, addBlockTo, addBlock, hnew, missingForBlock, hblobs, Option.all_none, if_true, Option.map_some,
    List.zipIdx_nil, List.filter_nil, List.map_nil, List.isEmpty_nil, Option.bind_eq_bind, Option.bind_some]
  -- the write `add_block/2` makes is `new_block_info/1`'s
  rw [show newBlockInfo st ⟨env.blockRoot signedBlock, some signedBlock, .pending⟩ =
    write { st with requests := st.requests } ⟨env.blockRoot signedBlock, some signedBlock, .pending⟩ .download
    from rfl, hprocessed]
  rfl

/-- A gossiped sidecar leaves the node the store it held. -/
theorem handle_gossipBlob_returns (hinv : Inv anchors st) (s : σ) (sidecar : BlobSidecar) :
    ∃ st', handle env ⟨.store s, st⟩ (.gossipBlob sidecar) = some ⟨.store s, st'⟩ := by
  have hstored : Inv anchors (storeBlob env st sidecar) := hinv.setBlobs _
  obtain ⟨st', hstep⟩ := processBlobsStep_returns env htotal hstored (env.headerRoot sidecar.signedBlockHeader.message) s
  exact ⟨st', by simp [handle, processBlobs, addBlobs_singleton, processBlobRoots, hstep]⟩

theorem handle_addBlocks_returns (blocks : List SignedBeaconBlock) :
    ∀ {st : State}, Inv anchors st → ∀ s : σ, ∃ s' st', handle env ⟨.store s, st⟩ (.addBlocks blocks) = some ⟨.store s', st'⟩ := by
  -- the sync's blocks are added one by one, each from a store and the invariant
  induction blocks with
  | nil => exact fun _ s => ⟨s, _, rfl⟩
  | cons block blocks ih =>
    intro st hinv s
    obtain ⟨s₁, st₁, hadded⟩ := addBlock_returns env htotal hinv block s
    obtain ⟨s₂, st₂, hrest⟩ := ih (addBlock_spec env hinv hadded).1 s₁
    refine ⟨s₂, st₂, ?_⟩
    simp only [handle] at hrest ⊢
    simp [addBlockTo, hadded, hrest]

theorem handle_checkPendingBlocks_returns (hinv : Inv anchors st) (s : σ) :
    ∃ s' st', handle env ⟨.store s, st⟩ .checkPendingBlocks = some ⟨.store s', st'⟩ := by
  obtain ⟨s', st', hblocks⟩ := processBlocks_returns env htotal hinv s
  exact ⟨s', st', by simp [handle, hblocks]⟩

/-- A node that holds a store holds one after every event it handles. -/
theorem handle_holds_store (hinv : Inv anchors st) (s : σ) {event : Event} {node' : Node σ}
    (h : handle env ⟨.store s, st⟩ event = some node') : ∃ s', node'.store = .store s' := by
  cases event with
  | gossipBlock signedBlock =>
    obtain ⟨s', st', hreturns⟩ := handle_gossipBlock_returns env htotal hinv s signedBlock
    exact store_of_returns env hreturns h
  | gossipBlob sidecar =>
    obtain ⟨st', hreturns⟩ := handle_gossipBlob_returns env htotal hinv s sidecar
    exact store_of_returns env hreturns h
  | blocksByRoot response =>
    simp only [handle, Option.bind_eq_bind, Option.bind_eq_some_iff] at h
    obtain ⟨processed, -, store, hstore, h⟩ := h
    cases h
    exact handleResponse_store hstore
  | blobsByRoot response =>
    simp only [handle, Option.bind_eq_bind, Option.bind_eq_some_iff] at h
    obtain ⟨processed, -, store, hstore, h⟩ := h
    cases h
    exact handleResponse_store hstore
  | addBlocks blocks =>
    obtain ⟨s', st', hreturns⟩ := handle_addBlocks_returns env htotal blocks hinv s
    exact store_of_returns env hreturns h
  | checkPendingBlocks =>
    obtain ⟨s', st', hreturns⟩ := handle_checkPendingBlocks_returns env htotal hinv s
    exact store_of_returns env hreturns h

end Returns

/-- Every event the port handles keeps the invariant and undoes nothing decided. -/
theorem handle_spec {node node' : Node σ} (hinv : Inv anchors node.state) {event : Event}
    (h : handle env node event = some node') : Inv anchors node'.state ∧ Grows node.state node'.state := by
  cases event with
  | gossipBlock signedBlock =>
    simp only [handle, addBlockTo, Option.map_eq_some_iff] at h
    obtain ⟨added, hadded, rfl⟩ := h
    exact addBlock_spec env hinv hadded
  | gossipBlob sidecar =>
    simp only [handle, Option.bind_eq_bind, Option.bind_eq_some_iff] at h
    obtain ⟨processed, hprocessed, h⟩ := h
    have hspec := processBlobs_spec env hinv hprocessed
    split at h <;> cases h
    exact hspec
  | blocksByRoot response =>
    simp only [handle, Option.bind_eq_bind, Option.bind_eq_some_iff] at h
    obtain ⟨processed, hprocessed, store, -, h⟩ := h
    cases h
    exact processDownloadedBlock_spec env hinv hprocessed
  | blobsByRoot response =>
    simp only [handle, Option.bind_eq_bind, Option.bind_eq_some_iff] at h
    obtain ⟨processed, hprocessed, store, -, h⟩ := h
    cases h
    exact processBlobs_spec env hinv hprocessed
  | addBlocks blocks =>
    refine Fallible.foldlM_invariant (fun added : Node σ => Inv anchors added.state ∧ Grows node.state added.state)
      ⟨hinv, Grows.refl _⟩ (fun block _ added added' hadded hstep => ?_) h
    simp only [addBlockTo, Option.map_eq_some_iff] at hstep
    obtain ⟨result, hresult, rfl⟩ := hstep
    obtain ⟨hinv', hgrows⟩ := addBlock_spec env hadded.1 hresult
    exact ⟨hinv', hadded.2.trans hgrows⟩
  | checkPendingBlocks =>
    simp only [handle, Option.map_eq_some_iff] at h
    obtain ⟨processed, hprocessed, rfl⟩ := h
    exact processBlocks_spec env hinv hprocessed

/-- Over every run of the port, the invariant holds and nothing decided is undone. -/
theorem reach_spec {start node : Node σ} (hstart : Inv anchors start.state) (hreach : Reach env start node) :
    Inv anchors node.state ∧ Grows start.state node.state := by
  induction hreach with
  | start => exact ⟨hstart, Grows.refl _⟩
  | step event _ hstep ih =>
    obtain ⟨hinv, hgrows⟩ := handle_spec env ih.1 hstep
    exact ⟨hinv, ih.2.trans hgrows⟩

end Port

/-! ## What every run keeps -/

section Runs

variable {anchors : Set Root}

/-- Over every run of the port from a start that keeps the invariant, the status sets agree with
    the infos, every info is stored under its root and has its block unless queued for download,
    every transitioned block but an anchor has a transitioned parent, and the fork choice has been
    handed each block at most once, each now decided and under a transitioned parent. -/
theorem reach_inv {start node : Node σ} (hstart : Inv anchors start.state) (hreach : Reach env start node) :
    Inv anchors node.state :=
  (reach_spec env hstart hreach).1

/-- The numbered-root environment of the examples: a block's and a header's root is the slot plus
    one, a set of roots is listed in increasing order, and the fork choice counts the blocks it
    accepts. -/
def countingEnv : Env Nat where
  blockRoot signedBlock := signedBlock.slot + 1
  headerRoot header := header.slot + 1
  listRoots roots := roots.sort (· ≤ ·)
  mem_listRoots roots _ := roots.mem_sort (· ≤ ·)
  nodup_listRoots roots := roots.sort_nodup (· ≤ ·)
  onBlock accepted _ := some (.ok (accepted + 1))

/-- The anchor of the examples: the block of slot 0, root 1. -/
def anchorInfo : BlockInfo := ⟨1, some ⟨0, 0, []⟩, .transitioned⟩

/-- The node as it starts from that anchor. -/
def anchorNode : Node Nat := ⟨.store 0, storeBlockInfo State.empty anchorInfo⟩

/-- The block of slot 1 under the anchor, with no blobs: its root is 2. -/
def childBlock : SignedBeaconBlock := ⟨1, 1, []⟩

/-- The block of slot 2 under it: its root is 3. -/
def grandchildBlock : SignedBeaconBlock := ⟨2, 2, []⟩

/-- Gossiping the child to the anchor's node reaches a node where the fork choice accepted it and
    it is transitioned. -/
theorem anchorNode_reaches_child :
    ∃ s st, Reach countingEnv anchorNode ⟨.store s, st⟩ ∧ st.infos 2 = some ⟨2, some childBlock, .transitioned⟩ := by
  obtain ⟨s, st, hstep, hchild, -⟩ := handle_gossipBlock_accepted countingEnv (fun _ _ => rfl) (Inv.anchor rfl rfl)
    (show anchorNode.state.infos (countingEnv.blockRoot childBlock) = none by decide) rfl
    (show anchorNode.state.infos childBlock.parentRoot = some anchorInfo by decide) rfl rfl
  exact ⟨s, st, .step _ .start hstep, hchild⟩

theorem reach_inv_anchorNode :
    ∃ node, Reach countingEnv anchorNode node ∧ node.state.infos 2 = some ⟨2, some childBlock, .transitioned⟩ ∧
      Inv {anchorInfo.root} node.state := by
  obtain ⟨s, st, hreach, hchild⟩ := anchorNode_reaches_child
  exact ⟨_, hreach, hchild, reach_inv countingEnv (Inv.anchor rfl rfl) hreach⟩

/-- A block the run decided (`:transitioned` or `:invalid`) keeps its info through every later
    event, and the fork choice's calls are only added to. -/
theorem reach_decided_final {start node node' : Node σ} (hstart : Inv anchors start.state) (hreach : Reach env start node)
    (hlater : Reach env node node') {root : Root} {blockInfo : BlockInfo} (hstored : node.state.infos root = some blockInfo)
    (hdecided : blockInfo.status = .transitioned ∨ blockInfo.status = .invalid) :
    node'.state.infos root = some blockInfo ∧ node.state.onBlockCalls <+: node'.state.onBlockCalls := by
  have hgrows := (reach_spec env (reach_spec env hstart hreach).1 hlater).2
  exact ⟨hgrows.decided root blockInfo hstored hdecided, hgrows.calls⟩

/-- The child, transitioned by its gossip, keeps its info through the grandchild's gossip. -/
theorem reach_decided_final_anchorNode :
    ∃ node node', Reach countingEnv anchorNode node ∧ Reach countingEnv node node' ∧
      node.state.infos 2 = some ⟨2, some childBlock, .transitioned⟩ ∧
      node'.state.infos 2 = some ⟨2, some childBlock, .transitioned⟩ ∧
      node.state.onBlockCalls <+: node'.state.onBlockCalls := by
  obtain ⟨s, st, hreach, hchild⟩ := anchorNode_reaches_child
  obtain ⟨s', st', hstep'⟩ := handle_gossipBlock_returns countingEnv (fun _ _ => rfl)
    (reach_spec countingEnv (Inv.anchor rfl rfl) hreach).1 s grandchildBlock
  have hlater : Reach countingEnv ⟨.store s, st⟩ ⟨.store s', st'⟩ := .step _ .start hstep'
  exact ⟨_, _, hreach, hlater, hchild, reach_decided_final countingEnv (Inv.anchor rfl rfl) hreach hlater hchild (.inl rfl)⟩

/-- With a fork choice that never raises, from a start that holds a store and keeps the invariant,
    every node the port reaches holds a store, and handles a gossiped block or blob sidecar, a
    range of synced blocks and the check of pending blocks without raising. -/
theorem reach_gossip_never_raises (htotal : ∀ s blockInfo, (env.onBlock s blockInfo).isSome) {start node : Node σ}
    (hstart : Inv anchors start.state) {s₀ : σ} (hstore : start.store = .store s₀) (hreach : Reach env start node) :
    (∃ s, node.store = .store s) ∧ (∀ signedBlock, (handle env node (.gossipBlock signedBlock)).isSome) ∧
      (∀ sidecar, (handle env node (.gossipBlob sidecar)).isSome) ∧ (∀ blocks, (handle env node (.addBlocks blocks)).isSome) ∧
      (handle env node .checkPendingBlocks).isSome := by
  -- a store is held at every node: each step starts from one, under the invariant
  have hholds : ∃ s, node.store = .store s := by
    induction hreach with
    | start => exact ⟨s₀, hstore⟩
    | @step node node' event hreach hstep ih =>
      obtain ⟨s, hs⟩ := ih
      obtain ⟨store, st⟩ := node
      cases hs
      exact handle_holds_store env htotal (reach_spec env hstart hreach).1 s hstep
  obtain ⟨s, hs⟩ := hholds
  have hinv := (reach_spec env hstart hreach).1
  obtain ⟨store, st⟩ := node
  cases hs
  refine ⟨⟨s, rfl⟩, fun signedBlock => ?_, fun sidecar => ?_, fun blocks => ?_, ?_⟩
  · obtain ⟨s', st', h⟩ := handle_gossipBlock_returns env htotal hinv s signedBlock
    simp [h]
  · obtain ⟨st', h⟩ := handle_gossipBlob_returns env htotal hinv s sidecar
    simp [h]
  · obtain ⟨s', st', h⟩ := handle_addBlocks_returns env htotal blocks hinv s
    simp [h]
  · obtain ⟨s', st', h⟩ := handle_checkPendingBlocks_returns env htotal hinv s
    simp [h]

/-- After the child's gossip, the node holds a store and handles every gossip and range. -/
theorem reach_gossip_never_raises_anchorNode :
    ∃ node, Reach countingEnv anchorNode node ∧ node.state.infos 2 = some ⟨2, some childBlock, .transitioned⟩ ∧
      (∃ s, node.store = .store s) ∧ (∀ signedBlock, (handle countingEnv node (.gossipBlock signedBlock)).isSome) ∧
      (∀ sidecar, (handle countingEnv node (.gossipBlob sidecar)).isSome) ∧
      (∀ blocks, (handle countingEnv node (.addBlocks blocks)).isSome) ∧
      (handle countingEnv node .checkPendingBlocks).isSome := by
  obtain ⟨s, st, hreach, hchild⟩ := anchorNode_reaches_child
  exact ⟨_, hreach, hchild, reach_gossip_never_raises countingEnv (fun _ _ => rfl) (Inv.anchor rfl rfl) rfl hreach⟩

/-- A gossiped blob sidecar that completes a block waiting for its blobs, under a transitioned
    parent, has the block handed to the fork choice, which accepts it, and the block marked
    `:transitioned`; but `process_blobs/2` returns its accumulator, not the store the fork choice
    returned, and the node keeps the store it held before the block. -/
theorem gossipBlob_drops_accepted_store (htotal : ∀ s blockInfo, (env.onBlock s blockInfo).isSome) {st : State}
    (hinv : Inv anchors st) (s : σ) {sidecar : BlobSidecar} {blockInfo : BlockInfo}
    (hstored : st.infos (env.headerRoot sidecar.signedBlockHeader.message) = some blockInfo)
    (hwaiting : blockInfo.status = .downloadBlobs) (hcomplete : missingForBlock (storeBlob env st sidecar) blockInfo = some [])
    (hparent : ParentTransitioned st blockInfo) {s' : σ}
    (haccepted : env.onBlock s { blockInfo with status := .pending } = some (.ok s')) :
    ∃ st', handle env ⟨.store s, st⟩ (.gossipBlob sidecar) = some ⟨.store s, st'⟩ ∧
      st'.infos blockInfo.root = some { blockInfo with status := .transitioned } ∧
      { blockInfo with status := .pending } ∈ st'.onBlockCalls := by
  have hinvBlob : Inv anchors (storeBlob env st sidecar) := hinv.setBlobs _
  obtain ⟨st', hstep, htransitioned, hcalled⟩ :=
    processBlobsStep_accepted env htotal hinvBlob hstored hwaiting hcomplete hparent haccepted
  exact ⟨st', by simp [handle, processBlobs, addBlobs_singleton, processBlobRoots, hstep], htransitioned, hcalled⟩

/-- A block of slot 1 under the anchor, with one blob commitment, waiting for its blob. -/
def waitingInfo : BlockInfo := ⟨2, some ⟨1, 1, [[7]]⟩, .downloadBlobs⟩

/-- Its one sidecar. -/
def waitingSidecar : BlobSidecar := ⟨0, [7], ⟨⟨1, 0, [], [], []⟩, []⟩⟩

theorem gossipBlob_drops_accepted_store_waiting :
    ∃ st', handle countingEnv ⟨.store 0, newBlockInfo anchorNode.state waitingInfo⟩ (.gossipBlob waitingSidecar) =
        some ⟨.store 0, st'⟩ ∧
      st'.infos waitingInfo.root = some { waitingInfo with status := .transitioned } ∧
      { waitingInfo with status := .pending } ∈ st'.onBlockCalls := by
  have hinv : Inv {anchorInfo.root} (newBlockInfo anchorNode.state waitingInfo) :=
    (write_spec (Inv.anchor rfl rfl) (fun old hold => by simp [storeBlockInfo, State.empty, anchorInfo, waitingInfo] at hold)
      (by decide) (fun h => by cases h)).1
  exact gossipBlob_drops_accepted_store countingEnv (fun _ _ => rfl) hinv 0 (by decide) rfl (by decide)
    ⟨⟨1, 1, [[7]]⟩, anchorInfo, rfl, by decide, rfl⟩ rfl

end Runs

end LambdaEthereumConsensus.Beacon.PendingBlocks
