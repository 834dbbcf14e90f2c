import LambdaEthereumConsensus.SszEx.Encode
import LambdaEthereumConsensus.Merkle.Tree

/-
  LambdaEthereumConsensus.SszEx.Merkleization — `SszEx.Merkleization.hash_tree_root/2`
  (`ssz_ex/merkleization.ex`), and the root the SSZ specification gives (`Spec.hashTreeRoot`).

  The hash, `:crypto.hash(:sha256, _)`, is a parameter. Binaries are byte lists as in the
  codec; a layer of the tree is the binary of its chunks side by side, and the code cuts
  nodes out of it with `:binary.part/3`. A call's outcome is `Option (Except Error _)`,
  `none` where the code raises: `:math.log2(0)` for a leaf count of zero, `get_zero_hash/1`
  outside depths `0..64`, a failed binary match.

  `compute_pow/1` is `trunc(:math.log2(n))`, here `Nat.log 2 n`: the two agree while the
  float logarithm rounds below the next integer, which holds for every leaf count below
  `2 ^ 40` and so for every schema of the beacon chain.

  The specification pads a list's chunks to `next_pow_of_two(limit)` leaves, with the limit
  counting a boolean as one byte. The code takes the tree's height from `trunc(log2(limit))`
  and counts a boolean as four bytes (`Utils.size_of/1`); it also packs a bitlist with one
  byte too many when its length is a multiple of eight. `hashTreeRoot_diverges` shows a
  root at three such inputs.

  `compute_merkle_proof/3`, which the block builder runs over a list's and a container's
  leaves, climbs the tree one layer at a time and collects each level's sibling; what it
  computes is proved in `SszEx.MerkleRoots`.
-/

namespace LambdaEthereumConsensus.SszEx.Merkleization

open Binary LambdaEthereumConsensus.SszEx.Utils LambdaEthereumConsensus.SszEx.Encode
open LambdaEthereumConsensus.Utils

/-! ## Constants and hashing -/

/-- `@bytes_per_chunk`. -/
def bytesPerChunk : Nat := 32

/-- `@bits_per_chunk`. -/
def bitsPerChunk : Nat := 256

/-- `@max_merkle_tree_depth` of `SszEx.Hash`. -/
def maxMerkleTreeDepth : Nat := 64

/-- `@zero_chunk`. -/
def zeroChunk : List UInt8 := List.replicate bytesPerChunk 0

section Hashing

variable (hash : List UInt8 → List UInt8)

/-- `Hash.hash_nodes/2`. -/
def hashNodes (left right : List UInt8) : List UInt8 := hash (left ++ right)

/-- The entries of `Hash.compute_zero_hashes/0`: the zero chunk, then each entry hashed
    with itself. -/
def zeroHashes (depth : Nat) : List UInt8 := Merkle.zeroRoot (hashNodes hash) zeroChunk depth

/-- `get_zero_hash/1`: depths `0..64` only. -/
def getZeroHash (depth : Int) : Option (List UInt8) :=
  if 0 ≤ depth ∧ depth ≤ maxMerkleTreeDepth then some (zeroHashes hash depth.toNat) else none

/-- `mix_in_length/2`: the root hashed with the length as a 256-bit integer. -/
def mixInLength (root : List UInt8) (len : Nat) : List UInt8 := hashNodes hash root (encodeInt len 256)

end Hashing

/-! ## Packing -/

/-- `pack_bytes/1`: zero bytes up to a whole number of chunks. -/
def packBytes (value : List UInt8) : List UInt8 :=
  let incompleteChunkLen := value.length * 8 % bitsPerChunk
  if incompleteChunkLen ≠ 0 then value ++ List.replicate ((bitsPerChunk - incompleteChunkLen) / 8) 0
  else value

/-- `pack/2` on a boolean. -/
def packBool (b : Bool) : List UInt8 := if b then encodeInt 1 bitsPerChunk else zeroChunk

/-- `pack/2` on a list or vector of basic values: each element is encoded (a failed
    encoding fails the `{:ok, encoded} = ...` match) and the bytes joined. -/
def pack (list : List Value) (inner : Schema) : Option (List UInt8) := do
  let encoded ← list.mapM fun x =>
    match Encode.encode x inner with
    | some (.ok bytes) => some bytes
    | _ => none
  pure (packBytes encoded.flatten)

/-- `pack_bits/2`: a bitlist's bytes without its sentinel, a bitvector's bytes. -/
def packBits (value : List Bool) : Schema → List UInt8
  | .bitlist _ => packBytes (BitList.toPackedBytes value)
  | _ => packBytes (BitVector.toBytes value)

/-- `chunk_count/1`, which has clauses for lists, byte lists, bitlists and bitvectors only. -/
def chunkCount : Schema → Nat
  | .list type maxSize => if basicType type then (maxSize * SszEx.Utils.sizeOf type + 31) / 32 else maxSize
  | .byteList maxSize => (maxSize + 31) / 32
  | .bitlist size | .bitvector size => (size + bitsPerChunk - 1) / bitsPerChunk
  | _ => 0

/-! ## `merkleize_chunks_with_virtual_padding/2` -/

/-- `get_chunks_len/1`. -/
def getChunksLen (chunks : List UInt8) : Nat := chunks.length / bytesPerChunk

/-- `compute_pow/1`: `trunc(:math.log2(value))`, which raises on zero. -/
def computePow (value : Nat) : Option Nat := if value = 0 then none else some (Nat.log 2 value)

/-- `next_pow_of_two/1`. -/
def nextPowOfTwo (len : Nat) : Nat := if len = 0 then 0 else 2 ^ Nat.log 2 (2 * len - 1)

/-- `extract_chunks/3`: `chunkCount` chunks from `leftChunkIndex` on. -/
def extractChunks (leftChunkIndex : Nat) (chunks : List UInt8) (chunkCount : Nat) : Option (List UInt8) :=
  let start := leftChunkIndex * bytesPerChunk
  let stop := (leftChunkIndex + chunkCount) * bytesPerChunk
  part chunks start ((stop : Int) - start)

/-- `get_nodes/2`: two neighbouring chunks, matched as exactly two. -/
def getNodesPair (leftChildrenIndex : Nat) (currentLayer : List UInt8) : Option (List UInt8 × List UInt8) := do
  let children ← extractChunks leftChildrenIndex currentLayer 2
  if children.length = 2 * bytesPerChunk then pure (children.take bytesPerChunk, children.drop bytesPerChunk)
  else none

section Layers

variable (hash : List UInt8 → List UInt8)

/-- `get_nodes/5`: a left child and its neighbour, or, for the last chunk of the layer, the
    zero hash of the layer's depth. -/
def getNodes (i leftChildrenIndex height : Nat) (currentLayer : List UInt8) (currentLastIndex : Nat) :
    Option (List UInt8 × List UInt8) :=
  if leftChildrenIndex < currentLastIndex then getNodesPair leftChildrenIndex currentLayer
  else if leftChildrenIndex = currentLastIndex then do
    let left ← extractChunks leftChildrenIndex currentLayer 1
    let right ← getZeroHash hash ((height : Int) - i - 1)
    pure (left, right)
  else none

/-- `get_parent_layer/4`: the parents of the even-indexed chunks `0..current_last_index`. -/
def getParentLayer (i height : Nat) (currentLayer : List UInt8) (currentLastIndex : Nat) : Option (List UInt8) :=
  let step := fun (accParentLayer : List UInt8) (j : Nat) => do
    let (left, right) ← getNodes hash i j height currentLayer currentLastIndex
    pure (accParentLayer ++ hashNodes hash left right)
  ((List.range (currentLastIndex + 1)).filter (· % 2 = 0)).foldlM step []

/-- `Enum.reverse(1..last)`: an Elixir range `1..0` counts down, so it is `[0, 1]` then. -/
def levels (last : Nat) : List Nat := if 1 ≤ last then (List.range' 1 last).reverse else [0, 1]

/-- `merkleize_chunks_with_virtual_padding/2`: `power` levels of parents over the chunks, the
    missing ones standing for zero hashes; the root is the first chunk of the last layer. -/
def merkleizeChunksWithVirtualPadding (chunks : List UInt8) (leafCount : Nat) : Option (List UInt8) := do
  let chunksLen := getChunksLen chunks
  let power ← computePow leafCount
  let height := power + 1
  if chunksLen = 0 then getZeroHash hash ((height : Int) - 1)
  else if chunksLen = 1 ∧ leafCount = 1 then pure chunks
  else
    let step := fun (current : Nat × List UInt8) (i : Nat) => do
      let parentLayers ← getParentLayer hash i height current.2 current.1
      pure (current.1 / 2, parentLayers)
    let final ← (levels (height - 1)).foldlM step (chunksLen - 1, chunks)
    -- `<<root::binary-size(@bytes_per_chunk), _::binary>> = final_layer`
    if bytesPerChunk ≤ final.2.length then pure (final.2.take bytesPerChunk) else none

/-- `hash_tree_root_list/3`. -/
def hashTreeRootList (chunks : List UInt8) (limit len : Nat) : Option (List UInt8) :=
  (merkleizeChunksWithVirtualPadding hash chunks limit).map (mixInLength hash · len)

/-- `hash_tree_root_vector/1`. -/
def hashTreeRootVector (chunks : List UInt8) : Option (List UInt8) :=
  merkleizeChunksWithVirtualPadding hash chunks (nextPowOfTwo (getChunksLen chunks))

/-- The `:bitlist`/`:bitvector` clause of `hash_tree_root/2`. -/
def hashTreeRootBits (value : List Bool) (schema : Schema) : Option (List UInt8) := do
  let chunks := packBits value schema
  let leafCount := nextPowOfTwo (chunkCount schema)
  let root ← merkleizeChunksWithVirtualPadding hash chunks leafCount
  match schema with
  | .bitlist _ => pure (mixInLength hash root value.length)
  | _ => pure root

end Layers

/-! ## `hash_tree_root/2` -/

/-- `list_hash_tree_root/2`: the elements' roots side by side; the first error halts it. -/
def listHashTreeRoot (htr : Value → Option (Except Error (List UInt8))) :
    List Value → Option (Except Error (List UInt8))
  | [] => some (.ok [])
  | value :: rest => do
    match ← htr value with
    | .error e => pure (.error e)
    | .ok root => pure ((← listHashTreeRoot htr rest).map (root ++ ·))

/-- A container field: its key and its schema's `hash_tree_root`. -/
abbrev FieldRoot := String × (Value → Option (Except Error (List UInt8)))

/-- The reduction of the container clause: each field's root under its key, the first error
    halting it with the key in its trace. -/
def containerRoots : List Value → List FieldRoot → Option (Except Error (List UInt8))
  | _, [] => some (.ok [])
  -- `Map.get/2` gives `nil`, on which every clause of `hash_tree_root/2` raises
  | [], _ :: _ => none
  | value :: values, (key, htr) :: rest => do
    match ← htr value with
    | .error e => pure (Error.addTrace (.error e) key)
    | .ok root => pure ((← containerRoots values rest).map (root ++ ·))

section Root

variable (hash : List UInt8 → List UInt8)

/-- The list clause of `hash_tree_root/2` past its length check. -/
def listRoot (htr : Value → Option (Except Error (List UInt8))) (list : List Value) (schema type : Schema) :
    Option (Except Error (List UInt8)) :=
  let len := list.length
  let limit := chunkCount schema
  if basicType type then do
    let chunks ← pack list type
    (hashTreeRootList hash chunks limit len).map .ok
  else do
    match ← listHashTreeRoot htr list with
    | .ok chunks => (hashTreeRootList hash chunks limit len).map .ok
    | .error e => pure (.error e)

/-- The vector clause of `hash_tree_root/2` past its length check. -/
def vectorRoot (htr : Value → Option (Except Error (List UInt8))) (vector : List Value) (type : Schema) :
    Option (Except Error (List UInt8)) := do
  if basicType type then
    let chunks ← pack vector type
    (hashTreeRootVector hash chunks).map .ok
  else
    match ← listHashTreeRoot htr vector with
    | .ok chunks => (hashTreeRootVector hash chunks).map .ok
    | .error e => pure (.error e)

/-- The container clause of `hash_tree_root/2`. -/
def containerRoot (values : List Value) (fields : List FieldRoot) : Option (Except Error (List UInt8)) := do
  match ← containerRoots values fields with
  | .ok chunks => (merkleizeChunksWithVirtualPadding hash chunks (nextPowOfTwo (getChunksLen chunks))).map .ok
  | .error e => pure (.error e)

mutual
/-- `Merkleization.hash_tree_root/2`. -/
def hashTreeRoot : Value → Schema → Option (Except Error (List UInt8))
  | .bool b, .bool => some (.ok (packBool b))
  | .int value, .int size => some (.ok (packBytes (encodeInt value size)))
  | .binary value, .byteList maxSize =>
    (hashTreeRootList hash (packBytes value) (chunkCount (.byteList maxSize)) value.length).map .ok
  | .binary value, .byteVector size =>
    if value.length ≠ size then
      let found := value.length
      some (.error (Error.new s!"Invalid binary length while merkleizing byte_vector.\nExpected size: {size}.\nFound: {found}"))
    else
      let packedChunks := packBytes value
      (merkleizeChunksWithVirtualPadding hash packedChunks (nextPowOfTwo (getChunksLen packedChunks))).map .ok
  | .bitstring value, .bitlist maxSize => (hashTreeRootBits hash value (.bitlist maxSize)).map .ok
  | .bitstring value, .bitvector size => (hashTreeRootBits hash value (.bitvector size)).map .ok
  -- a binary is a bitstring too
  | .binary value, .bitlist maxSize => (hashTreeRootBits hash (bytesToBits value) (.bitlist maxSize)).map .ok
  | .binary value, .bitvector size => (hashTreeRootBits hash (bytesToBits value) (.bitvector size)).map .ok
  | .list list, .list type maxSize =>
    let len := list.length
    if len > maxSize then
      let typeText := type.inspect
      some (.error (Error.new s!"Invalid binary length while merkleizing list of {typeText}.\nExpected max_size: {maxSize}.\nFound: {len}"))
    else listRoot hash (fun v => hashTreeRoot v type) list (.list type maxSize) type
  | .list vector, .vector type size =>
    if vector.length ≠ size then
      let typeText := type.inspect
      let found := vector.length
      some (.error (Error.new s!"Invalid binary length while merkleizing vector of {typeText}.\nExpected size: {size}.\nFound: {found}"))
    else vectorRoot hash (fun v => hashTreeRoot v type) vector type
  | .container values, .container _ fields => containerRoot hash values (fieldRoots fields)
  | _, _ => none
  termination_by structural _ s => s
/-- Each field of a module with its schema's `hash_tree_root`. -/
def fieldRoots : List (String × Schema) → List FieldRoot
  | [] => []
  | (key, schema) :: rest => (key, fun v => hashTreeRoot v schema) :: fieldRoots rest
  termination_by structural fields => fields
end

/-- `hash_tree_root!/2`: the root where `{:ok, root} = hash_tree_root(value, schema)` matches. -/
def hashTreeRoot! (value : Value) (schema : Schema) : Option (List UInt8) :=
  match hashTreeRoot hash value schema with
  | some (.ok root) => some root
  | _ => none

end Root

/-! ## `compute_merkle_proof/3` -/

section Proofs

variable (hash : List UInt8 → List UInt8)

/-- `compute_merkle_proof/5`, with `levels` the levels left up to `max_height`. The sibling
    index `index - rem(index, 2) * 2 + 1` is written with the natural subtraction last, and
    `Stream.chunk_every/2` in pairs, the last node alone hashed with the zero hash, is
    `Merkle.layer`. At the top the first clause wants one root left: otherwise the code goes on
    climbing until `get_zero_hash/1` raises past depth 64. -/
def computeMerkleProofFrom : Nat → List (List UInt8) → Nat → Nat → List (List UInt8) → Option (List (List UInt8))
  | 0, leaves, _, _, proof => if leaves.length = 1 then some proof.reverse else none
  | levels + 1, leaves, index, height, proof => do
    let defaultValue ← getZeroHash hash height
    let siblingIndex := index + 1 - index % 2 * 2
    let proofElement := leaves.getD siblingIndex defaultValue
    computeMerkleProofFrom levels (Merkle.layer (hashNodes hash) defaultValue leaves) (index / 2) (height + 1)
      (proofElement :: proof)

/-- `compute_merkle_proof/3`: the siblings of leaf `index`, bottom first, in a tree of height
    `height`. -/
def computeMerkleProof (leaves : List (List UInt8)) (index height : Nat) : Option (List (List UInt8)) :=
  computeMerkleProofFrom hash height leaves index 0 []

end Proofs

/-! ## The specification's root -/

namespace Spec

variable (hash : List UInt8 → List UInt8)

/-- A binary cut into chunks, the last one padded with zero bytes. -/
def pack (bytes : List UInt8) : List (List UInt8) :=
  let padded := packBytes bytes
  (List.range (padded.length / bytesPerChunk)).map fun i => (padded.drop (bytesPerChunk * i)).take bytesPerChunk

/-- `merkleize(chunks, limit)`: the tree over `next_pow_of_two(limit)` leaves. -/
def merkleize (chunks : List (List UInt8)) (limit : Nat) : List UInt8 :=
  Merkle.root (hashNodes hash) zeroChunk (Nat.clog 2 limit) chunks

/-- The serialized size of a basic value: a boolean is one byte. -/
def basicSize : Schema → Nat
  | .int size => size / 8
  | _ => 1

/-- The serialization of a basic value. -/
def serializeBasic : Value → Schema → List UInt8
  | .bool b, .bool => [if b then 1 else 0]
  | .int n, .int size => encodeInt n size
  | _, _ => []

mutual
/-- The SSZ specification's `hash_tree_root`, for well-typed values. -/
def hashTreeRoot : Value → Schema → List UInt8
  | v, .bool => merkleize hash (pack (serializeBasic v .bool)) 1
  | v, .int size => merkleize hash (pack (serializeBasic v (.int size))) 1
  | .binary bytes, .byteList maxSize =>
    mixInLength hash (merkleize hash (pack bytes) ((maxSize + 31) / 32)) bytes.length
  | .binary bytes, .byteVector _ => merkleize hash (pack bytes) (pack bytes).length
  | .list vs, .list inner maxSize =>
    if basicType inner then
      mixInLength hash (merkleize hash (pack (vs.flatMap (serializeBasic · inner)))
        ((maxSize * basicSize inner + 31) / 32)) vs.length
    else mixInLength hash (merkleize hash (vs.map fun v => hashTreeRoot v inner) maxSize) vs.length
  | .list vs, .vector inner _ =>
    if basicType inner then
      let chunks := pack (vs.flatMap (serializeBasic · inner))
      merkleize hash chunks chunks.length
    else merkleize hash (vs.map fun v => hashTreeRoot v inner) vs.length
  | .bitstring bits, .bitlist maxSize =>
    mixInLength hash (merkleize hash (pack (BitVector.toBytes bits)) ((maxSize + 255) / 256)) bits.length
  | .bitstring bits, .bitvector size => merkleize hash (pack (BitVector.toBytes bits)) ((size + 255) / 256)
  | .container vs, .container _ fields => merkleize hash (fieldRoots vs fields) fields.length
  | _, _ => []
  termination_by structural _ s => s
/-- The roots of a container's fields. -/
def fieldRoots : List Value → List (String × Schema) → List (List UInt8)
  | v :: vs, (_, s) :: fields => hashTreeRoot v s :: fieldRoots vs fields
  | _, _ => []
  termination_by structural _ fields => fields
end

end Spec

/-! ## Where the code's root is not the specification's -/

/-- A stand-in for SHA-256 on two chunks: their bytes added pairwise, plus one, so that a
    zero hash is no zero chunk. -/
def pairSum (data : List UInt8) : List UInt8 :=
  List.zipWith (fun a b => a + b + 1) (data.take bytesPerChunk) (data.drop bytesPerChunk)

set_option maxRecDepth 8192 in
/-- Three well-typed values of valid schemas: nine `uint64`s fill three chunks, a limit of
    three gives a tree of height `trunc(log2 3) = 1`, and the third chunk is left out of the
    root; a list of booleans gets a limit of four chunks where one is due; a full bitlist of
    256 bits packs into two chunks under a leaf count of one, and the second level asks
    `get_zero_hash(-1)`. -/
theorem hashTreeRoot_diverges :
    (validateSchema (.list (.int 64) 9) = true ∧
      (Value.list (List.replicate 9 (.int 1))).wellTyped (.list (.int 64) 9) = true ∧
      hashTreeRoot pairSum (.list (List.replicate 9 (.int 1))) (.list (.int 64) 9) ≠
        some (.ok (Spec.hashTreeRoot pairSum (.list (List.replicate 9 (.int 1))) (.list (.int 64) 9)))) ∧
    (validateSchema (.list .bool 32) = true ∧ (Value.list [.bool true]).wellTyped (.list .bool 32) = true ∧
      hashTreeRoot pairSum (.list [.bool true]) (.list .bool 32) ≠
        some (.ok (Spec.hashTreeRoot pairSum (.list [.bool true]) (.list .bool 32)))) ∧
    (validateSchema (.bitlist 256) = true ∧
      (Value.bitstring (List.replicate 256 true)).wellTyped (.bitlist 256) = true ∧
      hashTreeRoot pairSum (.bitstring (List.replicate 256 true)) (.bitlist 256) = none) := by
  refine ⟨⟨rfl, rfl, ?_⟩, ⟨rfl, rfl, ?_⟩, ⟨rfl, ?_, ?_⟩⟩ <;> decide

end LambdaEthereumConsensus.SszEx.Merkleization
