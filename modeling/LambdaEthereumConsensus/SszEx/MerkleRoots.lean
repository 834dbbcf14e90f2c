import LambdaEthereumConsensus.SszEx.Merkleization
import LambdaEthereumConsensus.Fallible.List

/-
  LambdaEthereumConsensus.SszEx.MerkleRoots — what `merkleize_chunks_with_virtual_padding/2` and
  `compute_merkle_proof/3` compute, in terms of the tree of `Merkle.Tree`.

  With a hash that gives one chunk, every root `hash_tree_root/2` gives of a schema that passes
  `validate_schema!` is one chunk (`hashTreeRoot_length`): a basic value packs into one chunk
  and every other root is a hash. A container's or a list's chunks are then its roots side by
  side.

  Over a layer of whole chunks, `get_parent_layer/4` is `Merkle.layer` with the zero hash of the
  layer's depth as the pad, so on a power of two leaves, no fewer than the chunks, the code's
  root is `Merkle.root` over the chunks (`merkleizeChunksWithVirtualPadding_eq_root`), and so
  the root of the full tree over the chunks written out with zero chunks, the zero hash of
  the tree's depth when there are none (`merkleizeChunksWithVirtualPadding_eq_padded_root`).
  `compute_merkle_proof/3` collects the siblings of a leaf layer by layer, and the leaf climbs
  them to the same root (`computeMerkleProofFrom_climb`).
-/

namespace LambdaEthereumConsensus.SszEx.Merkleization

open Binary LambdaEthereumConsensus.SszEx.Utils LambdaEthereumConsensus.SszEx.Encode
open LambdaEthereumConsensus.Utils

/-! ## Roots are chunks -/

theorem packBytes_length_mod (value : List UInt8) : (packBytes value).length % bytesPerChunk = 0 := by
  unfold packBytes
  dsimp only
  split_ifs <;> simp only [List.length_append, List.length_replicate, bitsPerChunk, bytesPerChunk] at * <;> omega

theorem packBytes_length_of_le {value : List UInt8} (hpos : 0 < value.length) (hle : value.length ≤ bytesPerChunk) :
    (packBytes value).length = bytesPerChunk := by
  unfold packBytes
  dsimp only
  split_ifs <;> simp only [List.length_append, List.length_replicate, bitsPerChunk, bytesPerChunk] at * <;> omega

theorem pack_length_mod {list : List Value} {inner : Schema} {chunks : List UInt8}
    (hpack : pack list inner = some chunks) : chunks.length % bytesPerChunk = 0 := by
  unfold pack at hpack
  simp only [Option.bind_eq_bind, Option.pure_def] at hpack
  obtain ⟨encoded, -, hchunks⟩ := Option.bind_eq_some_iff.mp hpack
  cases hchunks
  exact packBytes_length_mod _

/-- One step of the reduction of a list's or a container's roots: the first value's root, then
    the rest's behind it; an error of the first value ends it. -/
theorem bind_append_eq_ok {first rest : Option (Except Error (List UInt8))} {onError : Error → Except Error (List UInt8)}
    (herror : ∀ e chunks, onError e ≠ .ok chunks) {chunks : List UInt8}
    (hchunks : (do
      match ← first with
      | .error e => pure (onError e)
      | .ok root => pure ((← rest).map (root ++ ·))) = some (.ok chunks)) :
    ∃ root tail, first = some (.ok root) ∧ rest = some (.ok tail) ∧ chunks = root ++ tail := by
  obtain ⟨result, hfirst, hresult⟩ := Option.bind_eq_some_iff.mp hchunks
  cases result with
  | error e => exact absurd (Option.some.inj hresult) (herror e chunks)
  | ok root =>
    obtain ⟨tail, hrest, htail⟩ := Option.bind_eq_some_iff.mp hresult
    cases tail with
    | error e => cases htail
    | ok tail =>
      cases htail
      exact ⟨root, tail, hfirst, hrest, rfl⟩

/-- A list's roots, past the first element: that element's root and the rest's. -/
theorem listHashTreeRoot_cons_ok {htr : Value → Option (Except Error (List UInt8))} {value : Value}
    {values : List Value} {chunks : List UInt8} (hchunks : listHashTreeRoot htr (value :: values) = some (.ok chunks)) :
    ∃ root rest, htr value = some (.ok root) ∧ listHashTreeRoot htr values = some (.ok rest) ∧ chunks = root ++ rest :=
  bind_append_eq_ok (fun _ _ h => by cases h) hchunks

/-- A container's roots, past the first field: that field's root and the rest's. -/
theorem containerRoots_cons_ok {value : Value} {values : List Value} {key : String}
    {htr : Value → Option (Except Error (List UInt8))} {fields : List FieldRoot} {chunks : List UInt8}
    (hchunks : containerRoots (value :: values) ((key, htr) :: fields) = some (.ok chunks)) :
    ∃ root rest, htr value = some (.ok root) ∧ containerRoots values fields = some (.ok rest) ∧ chunks = root ++ rest :=
  -- the error is the field's, its key added to the trace
  bind_append_eq_ok (fun _ _ h => by simp [Error.addTrace] at h) hchunks

/-- The roots of values are chunks, so their concatenation is a whole number of chunks. -/
theorem listHashTreeRoot_length_mod {htr : Value → Option (Except Error (List UInt8))}
    (hroots : ∀ value root, htr value = some (.ok root) → root.length = bytesPerChunk) :
    ∀ (values : List Value) (chunks : List UInt8), listHashTreeRoot htr values = some (.ok chunks) →
      chunks.length % bytesPerChunk = 0
  | [], chunks, hchunks => by
    cases hchunks
    rfl
  | value :: values, chunks, hchunks => by
    obtain ⟨root, rest, hroot, hrest, rfl⟩ := listHashTreeRoot_cons_ok hchunks
    rw [List.length_append, hroots value root hroot, Nat.add_mod_left, listHashTreeRoot_length_mod hroots values rest hrest]

/-- The same for a container whose fields' roots are chunks. -/
theorem containerRoots_length_mod :
    ∀ (fields : List FieldRoot), (∀ f ∈ fields, ∀ value root, f.2 value = some (.ok root) → root.length = bytesPerChunk) →
      ∀ (values : List Value) (chunks : List UInt8), containerRoots values fields = some (.ok chunks) →
        chunks.length % bytesPerChunk = 0
  | [], _, values, chunks, hchunks => by
    cases values <;> cases hchunks <;> rfl
  | _ :: _, _, [], chunks, hchunks => by simp [containerRoots] at hchunks
  | (key, htr) :: fields, hroots, value :: values, chunks, hchunks => by
    obtain ⟨root, rest, hroot, hrest, rfl⟩ := containerRoots_cons_ok hchunks
    rw [List.length_append, hroots _ List.mem_cons_self value root hroot, Nat.add_mod_left,
      containerRoots_length_mod fields (fun f hf => hroots f (List.mem_cons_of_mem _ hf)) values rest hrest]

/-- The fields' roots, one for each field. -/
theorem fieldRoots_eq_map (hash : List UInt8 → List UInt8) :
    ∀ fields : List (String × Schema),
      fieldRoots hash fields = fields.map fun field => (field.1, fun value => hashTreeRoot hash value field.2)
  | [] => by simp [fieldRoots]
  | (key, schema) :: fields => by simp [fieldRoots, fieldRoots_eq_map hash fields]

/-- A container's root: its fields' chunks, merkleized under the next power of two of their
    number. -/
theorem containerRoot_eq_ok {hash : List UInt8 → List UInt8} {values : List Value} {fields : List FieldRoot} {root : List UInt8}
    (hroot : containerRoot hash values fields = some (.ok root)) :
    ∃ chunks, containerRoots values fields = some (.ok chunks) ∧
      merkleizeChunksWithVirtualPadding hash chunks (nextPowOfTwo (getChunksLen chunks)) = some root := by
  unfold containerRoot at hroot
  simp only [Option.bind_eq_bind] at hroot
  obtain ⟨result, hcontainer, hmerkle⟩ := Option.bind_eq_some_iff.mp hroot
  cases result with
  | error e => cases hmerkle
  | ok chunks =>
    obtain ⟨containerRoot, hcontainerRoot, hok⟩ := Option.map_eq_some_iff.mp hmerkle
    cases hok
    exact ⟨chunks, hcontainer, hcontainerRoot⟩

section RootLength

variable {hash : List UInt8 → List UInt8} (hhash : ∀ bytes, (hash bytes).length = bytesPerChunk)
include hhash

theorem zeroHashes_length (depth : Nat) : (zeroHashes hash depth).length = bytesPerChunk := by
  cases depth with
  | zero => simp [zeroHashes, Merkle.zeroRoot, zeroChunk]
  | succ depth => exact hhash _

/-- The code's root of a whole number of chunks is one chunk: a zero hash for no chunks, the
    chunk itself for one under one leaf, and otherwise the first chunk of the last layer. -/
theorem merkleizeChunksWithVirtualPadding_length {chunks : List UInt8} {leafCount : Nat} {root : List UInt8}
    (hchunks : chunks.length % bytesPerChunk = 0)
    (hroot : merkleizeChunksWithVirtualPadding hash chunks leafCount = some root) : root.length = bytesPerChunk := by
  unfold merkleizeChunksWithVirtualPadding at hroot
  cases hpow : computePow leafCount with
  | none => simp [hpow] at hroot
  | some power =>
    simp only [hpow, Option.bind_eq_bind, Option.bind_some] at hroot
    split_ifs at hroot with hempty hsingle
    · unfold getZeroHash at hroot
      split_ifs at hroot
      cases hroot
      exact zeroHashes_length hhash _
    · cases hroot
      simp only [getChunksLen, bytesPerChunk] at hsingle hchunks ⊢
      omega
    · obtain ⟨final, -, hfinal⟩ := Option.bind_eq_some_iff.mp hroot
      split_ifs at hfinal with hfits
      cases hfinal
      simp [hfits]

theorem hashTreeRootList_length {chunks : List UInt8} {limit len : Nat} {root : List UInt8}
    (hroot : hashTreeRootList hash chunks limit len = some root) : root.length = bytesPerChunk := by
  obtain ⟨_, -, rfl⟩ := Option.map_eq_some_iff.mp hroot
  exact hhash _

theorem hashTreeRootBits_length {value : List Bool} {schema : Schema} {root : List UInt8}
    (hroot : hashTreeRootBits hash value schema = some root) : root.length = bytesPerChunk := by
  unfold hashTreeRootBits at hroot
  simp only [Option.bind_eq_bind] at hroot
  obtain ⟨merkleRoot, hmerkle, hmix⟩ := Option.bind_eq_some_iff.mp hroot
  have hpacked : (packBits value schema).length % bytesPerChunk = 0 := by
    cases schema <;> exact packBytes_length_mod _
  cases schema <;> cases hmix <;> first
    | exact hhash _
    | exact merkleizeChunksWithVirtualPadding_length hhash hpacked hmerkle

/-- A list's root is its length mixed in, a hash. -/
theorem listRoot_length {htr : Value → Option (Except Error (List UInt8))} {list : List Value} {schema type : Schema}
    {root : List UInt8} (hroot : listRoot hash htr list schema type = some (.ok root)) : root.length = bytesPerChunk := by
  unfold listRoot at hroot
  split_ifs at hroot
  · simp only [Option.bind_eq_bind] at hroot
    obtain ⟨chunks, -, hlist⟩ := Option.bind_eq_some_iff.mp hroot
    obtain ⟨listRoot, hlistRoot, hok⟩ := Option.map_eq_some_iff.mp hlist
    cases hok
    exact hashTreeRootList_length hhash hlistRoot
  · simp only [Option.bind_eq_bind] at hroot
    obtain ⟨result, -, hlist⟩ := Option.bind_eq_some_iff.mp hroot
    cases result with
    | error e => cases hlist
    | ok chunks =>
      obtain ⟨listRoot, hlistRoot, hok⟩ := Option.map_eq_some_iff.mp hlist
      cases hok
      exact hashTreeRootList_length hhash hlistRoot

/-- A vector's root is one chunk when its elements' roots are. -/
theorem vectorRoot_length {htr : Value → Option (Except Error (List UInt8))}
    (hroots : ∀ value root, htr value = some (.ok root) → root.length = bytesPerChunk) {vector : List Value}
    {type : Schema} {root : List UInt8} (hroot : vectorRoot hash htr vector type = some (.ok root)) :
    root.length = bytesPerChunk := by
  unfold vectorRoot at hroot
  split_ifs at hroot
  · simp only [Option.bind_eq_bind] at hroot
    obtain ⟨chunks, hpack, hvector⟩ := Option.bind_eq_some_iff.mp hroot
    obtain ⟨vectorRoot, hvectorRoot, hok⟩ := Option.map_eq_some_iff.mp hvector
    cases hok
    exact merkleizeChunksWithVirtualPadding_length hhash (pack_length_mod hpack) hvectorRoot
  · simp only [Option.bind_eq_bind] at hroot
    obtain ⟨result, hlist, hvector⟩ := Option.bind_eq_some_iff.mp hroot
    cases result with
    | error e => cases hvector
    | ok chunks =>
      obtain ⟨vectorRoot, hvectorRoot, hok⟩ := Option.map_eq_some_iff.mp hvector
      cases hok
      exact merkleizeChunksWithVirtualPadding_length hhash (listHashTreeRoot_length_mod hroots vector chunks hlist)
        hvectorRoot

/-- A container's root is one chunk when its fields' roots are. -/
theorem containerRoot_length {fields : List FieldRoot}
    (hroots : ∀ f ∈ fields, ∀ value root, f.2 value = some (.ok root) → root.length = bytesPerChunk)
    {values : List Value} {root : List UInt8} (hroot : containerRoot hash values fields = some (.ok root)) :
    root.length = bytesPerChunk := by
  obtain ⟨chunks, hcontainer, hmerkle⟩ := containerRoot_eq_ok hroot
  exact merkleizeChunksWithVirtualPadding_length hhash (containerRoots_length_mod fields hroots values chunks hcontainer)
    hmerkle

/-- Every root `hash_tree_root/2` gives of a schema that passes `validate_schema!` is one chunk,
    when the hash gives one. Induction on the schema: a basic value packs into one chunk (an
    integer of at most 256 bits), and every other root is a hash or a tree's root over
    whole chunks. -/
theorem hashTreeRoot_length : ∀ schema, validateSchema schema = true →
    ∀ value root, hashTreeRoot hash value schema = some (.ok root) → root.length = bytesPerChunk := by
  apply Schema.induction
  case bool =>
    intro _ value root hroot
    cases value <;> simp only [hashTreeRoot, reduceCtorEq, Option.some.injEq, Except.ok.injEq] at hroot
    subst hroot
    unfold packBool
    split_ifs <;> simp [encodeInt, zeroChunk, bitsPerChunk, bytesPerChunk]
  case int =>
    intro size hvalid value root hroot
    cases value <;> simp only [hashTreeRoot, reduceCtorEq, Option.some.injEq, Except.ok.injEq] at hroot
    subst hroot
    have hsize : size ∈ allowedUints := by simpa [validateSchema] using hvalid
    apply packBytes_length_of_le <;> simp only [encodeInt, natToLE_length, allowedUints, bytesPerChunk] at hsize ⊢ <;>
      simp only [List.mem_cons, List.not_mem_nil, or_false] at hsize <;> omega
  case byteList =>
    intro _ _ value root hroot
    cases value <;> simp only [hashTreeRoot, reduceCtorEq, Option.map_eq_some_iff] at hroot
    obtain ⟨listRoot, hlistRoot, hok⟩ := hroot
    cases hok
    exact hashTreeRootList_length hhash hlistRoot
  case byteVector =>
    intro _ _ value root hroot
    cases value <;> simp only [hashTreeRoot, reduceCtorEq] at hroot
    split_ifs at hroot
    · cases hroot
    · obtain ⟨vectorRoot, hvectorRoot, hok⟩ := Option.map_eq_some_iff.mp hroot
      cases hok
      exact merkleizeChunksWithVirtualPadding_length hhash (packBytes_length_mod _) hvectorRoot
  case list =>
    intro _ _ _ _ value root hroot
    cases value <;> simp only [hashTreeRoot, reduceCtorEq] at hroot
    split_ifs at hroot
    · cases hroot
    · exact listRoot_length hhash hroot
  case vector =>
    intro type _ ih hvalid value root hroot
    have htype : validateSchema type = true := by simp_all [validateSchema]
    cases value <;> simp only [hashTreeRoot, reduceCtorEq] at hroot
    split_ifs at hroot
    · cases hroot
    · exact vectorRoot_length hhash (ih htype) hroot
  case bitlist | bitvector =>
    intro _ _ value root hroot
    cases value <;> simp only [hashTreeRoot, reduceCtorEq, Option.map_eq_some_iff] at hroot
    all_goals
      obtain ⟨bitsRoot, hbitsRoot, hok⟩ := hroot
      cases hok
      exact hashTreeRootBits_length hhash hbitsRoot
  case container =>
    intro _ fields ih hvalid value root hroot
    cases value <;> simp only [hashTreeRoot, reduceCtorEq] at hroot
    have hfields := validateFields_eq_true_iff.mp (by simpa [validateSchema] using hvalid)
    refine containerRoot_length hhash ?_ hroot
    rw [fieldRoots_eq_map]
    intro f hf
    obtain ⟨field, hfield, rfl⟩ := List.mem_map.mp hf
    exact ih field hfield (hfields field hfield)

end RootLength

/-! ## Trees of a power of two leaves -/

theorem getZeroHash_of_le {hash : List UInt8 → List UInt8} {height : Nat} (hheight : height ≤ maxMerkleTreeDepth) :
    getZeroHash hash height = some (zeroHashes hash height) := by
  rw [getZeroHash, if_pos ⟨Int.natCast_nonneg height, Int.ofNat_le.mpr hheight⟩, Int.toNat_natCast]

section Chunks

variable {chunks : List (List UInt8)}

theorem length_flatten_chunks (hchunks : ∀ chunk ∈ chunks, chunk.length = bytesPerChunk) :
    chunks.flatten.length = bytesPerChunk * chunks.length := by
  induction chunks with
  | nil => rfl
  | cons chunk chunks ih =>
    rw [List.flatten_cons, List.length_append, hchunks chunk List.mem_cons_self,
      ih fun c hc => hchunks c (List.mem_cons_of_mem chunk hc), List.length_cons]
    ring

theorem drop_flatten_chunks (hchunks : ∀ chunk ∈ chunks, chunk.length = bytesPerChunk) (j : Nat) :
    chunks.flatten.drop (bytesPerChunk * j) = (chunks.drop j).flatten := by
  induction chunks generalizing j with
  | nil => simp
  | cons chunk chunks ih =>
    cases j with
    | zero => simp
    | succ j =>
      have hfirst := hchunks chunk List.mem_cons_self
      rw [List.flatten_cons, Nat.mul_succ, Nat.add_comm, ← hfirst, ← List.drop_drop, List.drop_left, hfirst,
        ih (fun c hc => hchunks c (List.mem_cons_of_mem chunk hc)), List.drop_succ_cons]

theorem take_flatten_chunks (hchunks : ∀ chunk ∈ chunks, chunk.length = bytesPerChunk) (count : Nat) :
    chunks.flatten.take (bytesPerChunk * count) = (chunks.take count).flatten := by
  induction chunks generalizing count with
  | nil => simp
  | cons chunk chunks ih =>
    cases count with
    | zero => simp
    | succ count =>
      have hfirst := hchunks chunk List.mem_cons_self
      rw [List.flatten_cons, Nat.mul_succ, Nat.add_comm, ← hfirst, List.take_length_add_append, hfirst,
        ih (fun c hc => hchunks c (List.mem_cons_of_mem chunk hc)), List.take_succ_cons, List.flatten_cons]

theorem extractChunks_flatten (hchunks : ∀ chunk ∈ chunks, chunk.length = bytesPerChunk) {j count : Nat}
    (hcount : j + count ≤ chunks.length) :
    extractChunks j chunks.flatten count = some ((chunks.drop j).take count).flatten := by
  have hlength : (((j + count) * bytesPerChunk : Nat) : Int) - ((j * bytesPerChunk : Nat) : Int) =
      ((bytesPerChunk * count : Nat) : Int) := by
    push_cast
    ring
  have hfits : j * bytesPerChunk + bytesPerChunk * count ≤ chunks.flatten.length := by
    rw [length_flatten_chunks hchunks]
    nlinarith
  have hdropped : ∀ chunk ∈ chunks.drop j, chunk.length = bytesPerChunk := fun c hc => hchunks c (List.mem_of_mem_drop hc)
  rw [extractChunks, hlength, part_of_le hfits, Nat.mul_comm j, drop_flatten_chunks hchunks,
    take_flatten_chunks hdropped]

/-- Two neighbouring chunks inside the layer. -/
theorem getNodesPair_flatten (hchunks : ∀ chunk ∈ chunks, chunk.length = bytesPerChunk) {j : Nat}
    (hpair : j + 2 ≤ chunks.length) (pad : List UInt8) :
    getNodesPair j chunks.flatten = some (chunks.getD j pad, chunks.getD (j + 1) pad) := by
  have hleft := hchunks _ (List.getElem_mem (show j < chunks.length by omega))
  have hright := hchunks _ (List.getElem_mem (show j + 1 < chunks.length by omega))
  have hpieces : ((chunks.drop j).take 2).flatten = chunks[j] ++ chunks[j + 1] := by
    rw [List.drop_eq_getElem_cons (show j < chunks.length by omega),
      List.drop_eq_getElem_cons (show j + 1 < chunks.length by omega)]
    simp only [List.take_succ_cons, List.take_zero, List.flatten_cons, List.flatten_nil, List.append_nil]
  rw [List.getD_eq_getElem _ _ (by omega), List.getD_eq_getElem _ _ (by omega), getNodesPair,
    extractChunks_flatten hchunks hpair, hpieces]
  simp [hleft, hright, bytesPerChunk]

end Chunks

section LayersOfChunks

variable {hash : List UInt8 → List UInt8} {chunks : List (List UInt8)}

/-- At a place of a layer of chunks, `get_nodes/5` gives the chunk and the next one, or the zero
    hash of the layer's depth past the last chunk. -/
theorem getNodes_flatten (hchunks : ∀ chunk ∈ chunks, chunk.length = bytesPerChunk) {i j height depth : Nat}
    (hdepth : (height : Int) - i - 1 = depth) (hd : depth ≤ maxMerkleTreeDepth) (hj : j < chunks.length) :
    getNodes hash i j height chunks.flatten (chunks.length - 1) =
      some (chunks.getD j (zeroHashes hash depth), chunks.getD (j + 1) (zeroHashes hash depth)) := by
  rw [getNodes]
  by_cases hinside : j < chunks.length - 1
  · rw [if_pos hinside, getNodesPair_flatten hchunks (by omega)]
  · have hlast : j = chunks.length - 1 := by omega
    have hpiece : ((chunks.drop j).take 1).flatten = chunks.getD j (zeroHashes hash depth) := by
      rw [List.drop_eq_getElem_cons hj, List.getD_eq_getElem _ _ hj]
      simp only [List.take_succ_cons, List.take_zero, List.flatten_cons, List.flatten_nil, List.append_nil]
    have hpast : chunks.getD (j + 1) (zeroHashes hash depth) = zeroHashes hash depth :=
      List.getD_eq_default _ _ (by omega)
    rw [if_neg hinside, if_pos hlast, extractChunks_flatten hchunks (by omega), hdepth, getZeroHash_of_le hd, hpiece,
      hpast]
    rfl

/-- `get_parent_layer/4` over a layer of chunks is the layer above, the last chunk without a
    neighbour hashed with the zero hash of the layer's depth. -/
theorem getParentLayer_flatten (hchunks : ∀ chunk ∈ chunks, chunk.length = bytesPerChunk) (hne : chunks ≠ [])
    {i height depth : Nat} (hdepth : (height : Int) - i - 1 = depth) (hd : depth ≤ maxMerkleTreeDepth) :
    getParentLayer hash i height chunks.flatten (chunks.length - 1) =
      some (Merkle.layer (hashNodes hash) (zeroHashes hash depth) chunks).flatten := by
  have hcount : chunks.length - 1 + 1 = chunks.length := by
    have := List.length_pos_of_ne_nil hne
    omega
  rw [getParentLayer, hcount,
    Fallible.foldlM_append_eq (g := fun j => hashNodes hash (chunks.getD j (zeroHashes hash depth))
      (chunks.getD (j + 1) (zeroHashes hash depth))),
    List.nil_append, Merkle.layer_eq_map_even]
  -- each step hashes the pair at its place onto the layer so far
  intro j hj acc
  rw [getNodes_flatten hchunks hdepth hd (List.mem_range.mp (List.mem_filter.mp hj).1)]
  rfl

end LayersOfChunks

/-- `next_pow_of_two/1` is no smaller than its argument. -/
theorem le_nextPowOfTwo (len : Nat) : len ≤ nextPowOfTwo len := by
  unfold nextPowOfTwo
  split_ifs with hzero
  · omega
  · have hlog := Nat.lt_pow_succ_log_self (by norm_num : 1 < 2) (2 * len - 1)
    rw [Nat.pow_succ] at hlog
    omega

/-- `compute_pow/1` of a power of two is its exponent. -/
theorem computePow_two_pow (power : Nat) : computePow (2 ^ power) = some power := by
  rw [computePow, if_neg (Nat.two_pow_pos power).ne', Nat.log_pow (by norm_num)]

/-- A tree of height zero holds one leaf. -/
theorem exists_eq_singleton_of_le_pow_zero {α : Type} {leaves : List α} (hne : leaves ≠ [])
    (hlength : leaves.length ≤ 2 ^ 0) : ∃ leaf, leaves = [leaf] := by
  have := List.length_pos_of_ne_nil hne
  rw [Nat.pow_zero] at hlength
  exact List.length_eq_one_iff.mp (by omega)

section PowerOfTwo

variable {hash : List UInt8 → List UInt8} (hhash : ∀ bytes, (hash bytes).length = bytesPerChunk)
include hhash

/-- The layer above chunks is chunks: every node is a hash. -/
theorem chunks_layer {chunks : List (List UInt8)} (pad : List UInt8) :
    ∀ chunk ∈ Merkle.layer (hashNodes hash) pad chunks, chunk.length = bytesPerChunk := by
  intro chunk hchunk
  rw [Merkle.layer_eq_map_range, List.mem_map] at hchunk
  obtain ⟨_, _, rfl⟩ := hchunk
  exact hhash _

/-- The levels of `merkleize_chunks_with_virtual_padding/2`, from the `m`-th below the top: each
    `get_parent_layer/4` is one layer up, the zero hash of the layer's depth for a last chunk
    alone. Induction on the levels, the tree's root one level lower over the layer above. -/
theorem foldlM_levels {power height : Nat} (hheight : height = power + 1) (hpower : power ≤ maxMerkleTreeDepth) :
    ∀ (m : Nat) (chunks : List (List UInt8)), m ≤ power → chunks ≠ [] →
      (∀ chunk ∈ chunks, chunk.length = bytesPerChunk) → chunks.length ≤ 2 ^ m →
      ((List.range' 1 m).reverse).foldlM (fun (current : Nat × List UInt8) (i : Nat) => do
          let parentLayers ← getParentLayer hash i height current.2 current.1
          pure (current.1 / 2, parentLayers)) (chunks.length - 1, chunks.flatten) =
        some (0, Merkle.root (hashNodes hash) (zeroHashes hash (power - m)) m chunks)
  | 0, chunks, _, hne, _, hlength => by
    obtain ⟨chunk, rfl⟩ := exists_eq_singleton_of_le_pow_zero hne hlength
    simp [Merkle.root]
  | m + 1, chunks, hm, hne, hchunks, hlength => by
    have hlevels : (List.range' 1 (m + 1)).reverse = (m + 1) :: (List.range' 1 m).reverse := by
      rw [List.range'_concat, List.reverse_append]
      simp [Nat.add_comm]
    have hdepth : (height : Int) - (m + 1 : Nat) - 1 = (power - (m + 1) : Nat) := by omega
    set pad := zeroHashes hash (power - (m + 1))
    set parents := Merkle.layer (hashNodes hash) pad chunks
    have hparentsLength : parents.length = (chunks.length + 1) / 2 := Merkle.length_layer _ _ _
    have hpos := List.length_pos_of_ne_nil hne
    have hlast : (chunks.length - 1) / 2 = parents.length - 1 := by omega
    have hroot : Merkle.root (hashNodes hash) pad (m + 1) chunks =
        Merkle.root (hashNodes hash) (zeroHashes hash (power - m)) m parents := by
      rw [Merkle.root_succ_layer, show power - m = power - (m + 1) + 1 by omega]
      rfl
    rw [hlevels, List.foldlM_cons, getParentLayer_flatten hchunks hne hdepth (by omega)]
    simp only [Option.bind_eq_bind, Option.bind_some, Option.pure_def]
    rw [hlast, hroot]
    exact foldlM_levels hheight hpower m parents (by omega) (Merkle.layer_ne_nil _ pad hne) (chunks_layer hhash pad)
      (by rw [Nat.pow_succ] at hlength; omega)

/-- On a power of two leaves, no fewer than the chunks, `merkleize_chunks_with_virtual_padding/2`
    is the root of the tree over the chunks padded with zero chunks. -/
theorem merkleizeChunksWithVirtualPadding_eq_root {chunks : List (List UInt8)} (hne : chunks ≠ [])
    (hchunks : ∀ chunk ∈ chunks, chunk.length = bytesPerChunk) {power : Nat} (hlength : chunks.length ≤ 2 ^ power)
    (hpower : power ≤ maxMerkleTreeDepth) :
    merkleizeChunksWithVirtualPadding hash chunks.flatten (2 ^ power) =
      some (Merkle.root (hashNodes hash) zeroChunk power chunks) := by
  have hcount : getChunksLen chunks.flatten = chunks.length := by
    rw [getChunksLen, length_flatten_chunks hchunks, Nat.mul_div_cancel_left _ (by decide)]
  have hpos := List.length_pos_of_ne_nil hne
  rw [merkleizeChunksWithVirtualPadding, hcount, computePow_two_pow]
  simp only [Option.bind_eq_bind, Option.bind_some, Nat.add_sub_cancel]
  rw [if_neg (by omega)]
  by_cases hsingle : chunks.length = 1 ∧ 2 ^ power = 1
  · -- one chunk under one leaf: the chunk itself
    rw [if_pos hsingle]
    have hzero : power = 0 := by
      rcases Nat.eq_zero_or_pos power with h | h
      · exact h
      · have := Nat.one_lt_two_pow_iff.mpr h.ne'
        omega
    obtain ⟨chunk, rfl⟩ := List.length_eq_one_iff.mp hsingle.1
    subst hzero
    simp [Merkle.root]
  · rw [if_neg hsingle]
    have hpower1 : 1 ≤ power := by
      by_contra hzero
      have hzero : power = 0 := by omega
      subst hzero
      exact hsingle ⟨by simp at hlength; omega, rfl⟩
    have hfold := foldlM_levels hhash rfl hpower power chunks le_rfl hne hchunks hlength
    simp only [Option.bind_eq_bind] at hfold
    rw [levels, if_pos hpower1, hfold]
    obtain ⟨below, rfl⟩ : ∃ below, power = below + 1 := ⟨power - 1, by omega⟩
    have hroot : (Merkle.root (hashNodes hash) (zeroHashes hash 0) (below + 1) chunks).length = bytesPerChunk := by
      rw [Merkle.root]
      exact hhash _
    simp only [Nat.sub_self, Option.bind_some, hroot, le_refl, if_true, List.take_of_length_le hroot.le]
    rfl

/-- On `2 ^ power` leaves, at most `2 ^ 64` and no fewer than the chunks,
    `merkleize_chunks_with_virtual_padding/2` is the root of the full tree whose leaves are the
    chunks followed by zero chunks up to `2 ^ power`; with no chunks that root is
    `get_zero_hash(power)`. -/
theorem merkleizeChunksWithVirtualPadding_eq_padded_root {chunks : List (List UInt8)}
    (hchunks : ∀ chunk ∈ chunks, chunk.length = bytesPerChunk) {power : Nat} (hlength : chunks.length ≤ 2 ^ power)
    (hpower : power ≤ maxMerkleTreeDepth) :
    merkleizeChunksWithVirtualPadding hash chunks.flatten (2 ^ power) =
        some (Merkle.root (hashNodes hash) zeroChunk power (chunks ++ List.replicate (2 ^ power - chunks.length) zeroChunk)) ∧
      (chunks = [] →
        getZeroHash hash power = some (Merkle.root (hashNodes hash) zeroChunk power (List.replicate (2 ^ power) zeroChunk))) := by
  -- the tree of zero chunks only is the zero hash of its depth
  have hzero : getZeroHash hash power = some (Merkle.root (hashNodes hash) zeroChunk power (List.replicate (2 ^ power) zeroChunk)) := by
    rw [getZeroHash_of_le hpower, ← List.nil_append (List.replicate _ _), Merkle.root_append_replicate, Merkle.root_nil]
    rfl
  refine ⟨?_, fun _ => hzero⟩
  rw [Merkle.root_append_replicate]
  by_cases hnil : chunks = []
  · subst hnil
    have hdepth : ((power + 1 : Nat) : Int) - 1 = power := by omega
    rw [merkleizeChunksWithVirtualPadding, computePow_two_pow]
    simp only [Option.bind_eq_bind, Option.bind_some, List.flatten_nil, getChunksLen, List.length_nil, Nat.zero_div,
      if_pos, hdepth, hzero]
    rw [← List.nil_append (List.replicate _ _), Merkle.root_append_replicate]
  · exact merkleizeChunksWithVirtualPadding_eq_root hhash hnil hchunks hlength hpower

end PowerOfTwo

theorem merkleizeChunksWithVirtualPadding_eq_padded_root_three_chunks :
    merkleizeChunksWithVirtualPadding (fun bytes => (bytes ++ zeroChunk).take bytesPerChunk)
        [List.replicate 32 1, List.replicate 32 2, List.replicate 32 3].flatten (2 ^ 2) =
        some (Merkle.root (hashNodes fun bytes => (bytes ++ zeroChunk).take bytesPerChunk) zeroChunk 2
          ([List.replicate 32 1, List.replicate 32 2, List.replicate 32 3] ++ List.replicate (2 ^ 2 - 3) zeroChunk)) ∧
      ([List.replicate 32 (1 : UInt8), List.replicate 32 2, List.replicate 32 3] = [] →
        getZeroHash (fun bytes => (bytes ++ zeroChunk).take bytesPerChunk) ((2 : Nat) : Int) =
          some (Merkle.root (hashNodes fun bytes => (bytes ++ zeroChunk).take bytesPerChunk) zeroChunk 2
            (List.replicate (2 ^ 2) zeroChunk))) :=
  @merkleizeChunksWithVirtualPadding_eq_padded_root (fun bytes => (bytes ++ zeroChunk).take bytesPerChunk)
    (fun bytes => by simp [zeroChunk]) [List.replicate 32 1, List.replicate 32 2, List.replicate 32 3] (by decide) 2
    (by decide) (by decide)

/-! ## Lists of composite values -/

theorem hashTreeRoot!_eq_some {hash : List UInt8 → List UInt8} {value : Value} {schema : Schema} {root : List UInt8} :
    hashTreeRoot! hash value schema = some root ↔ hashTreeRoot hash value schema = some (.ok root) := by
  unfold hashTreeRoot!
  cases hroot : hashTreeRoot hash value schema with
  | none => simp
  | some result => cases result <;> simp

/-- The chunks of a list's elements are their `hash_tree_root!/2`s side by side. -/
theorem listHashTreeRoot_mapM {hash : List UInt8 → List UInt8} {type : Schema} :
    ∀ (values : List Value) (chunks : List UInt8),
      listHashTreeRoot (fun value => hashTreeRoot hash value type) values = some (.ok chunks) →
        ∃ roots, values.mapM (hashTreeRoot! hash · type) = some roots ∧ chunks = roots.flatten
  | [], chunks, hchunks => by
    cases hchunks
    exact ⟨[], rfl, rfl⟩
  | value :: values, chunks, hchunks => by
    obtain ⟨root, rest, hroot, hrest, rfl⟩ := listHashTreeRoot_cons_ok hchunks
    obtain ⟨roots, hroots, rfl⟩ := listHashTreeRoot_mapM values rest hrest
    refine ⟨root :: roots, ?_, rfl⟩
    rw [List.mapM_cons, hashTreeRoot!_eq_some.mpr hroot, hroots]
    rfl

/-- A list of composite values under a limit of a power of two: its root is the tree's root over
    the elements' roots, with its length mixed in. -/
theorem hashTreeRoot_list_eq_root {hash : List UInt8 → List UInt8} (hhash : ∀ bytes, (hash bytes).length = bytesPerChunk)
    {type : Schema} (htype : validateSchema type = true) (hbasic : basicType type = false) {values : List Value}
    (hne : values ≠ []) {power : Nat} (hlength : values.length ≤ 2 ^ power) (hpower : power ≤ maxMerkleTreeDepth)
    {root : List UInt8} (hroot : hashTreeRoot hash (.list values) (.list type (2 ^ power)) = some (.ok root)) :
    ∃ leaves, values.mapM (hashTreeRoot! hash · type) = some leaves ∧
      root = mixInLength hash (Merkle.root (hashNodes hash) zeroChunk power leaves) values.length := by
  simp only [hashTreeRoot] at hroot
  rw [if_neg (by omega)] at hroot
  unfold listRoot at hroot
  rw [if_neg (by simp [hbasic])] at hroot
  simp only [Option.bind_eq_bind] at hroot
  obtain ⟨result, hlist, hmix⟩ := Option.bind_eq_some_iff.mp hroot
  cases result with
  | error e => cases hmix
  | ok chunks =>
    obtain ⟨leaves, hleaves, rfl⟩ := listHashTreeRoot_mapM values chunks hlist
    obtain ⟨listRoot, hlistRoot, hok⟩ := Option.map_eq_some_iff.mp hmix
    cases hok
    have hcount : chunkCount (.list type (2 ^ power)) = 2 ^ power := by simp [chunkCount, hbasic]
    have hleafLength : ∀ leaf ∈ leaves, leaf.length = bytesPerChunk := by
      intro leaf hleaf
      obtain ⟨value, -, hvalue⟩ := Fallible.exists_of_mapM_eq_some hleaves hleaf
      exact hashTreeRoot_length hhash type htype value leaf (hashTreeRoot!_eq_some.mp hvalue)
    have hleavesLength : leaves.length = values.length := (Fallible.forall₂_of_mapM_eq_some hleaves).length_eq.symm
    have hleavesNe : leaves ≠ [] := List.ne_nil_of_length_pos (by rw [hleavesLength]; exact List.length_pos_of_ne_nil hne)
    unfold hashTreeRootList at hlistRoot
    rw [hcount, merkleizeChunksWithVirtualPadding_eq_root hhash hleavesNe hleafLength (by omega) hpower] at hlistRoot
    cases hlistRoot
    exact ⟨leaves, hleaves, rfl⟩

/-! ## The siblings `compute_merkle_proof/3` collects -/

section MerkleProofs

variable {hash : List UInt8 → List UInt8}

/-- `levels` below the top, with the siblings collected so far in `proof`, newest first: the
    code adds one sibling a level, and the node at `index` climbs them to the root of the tree
    over the layer. Induction on the levels, the tree one level lower over the layer above. -/
theorem computeMerkleProofFrom_climb : ∀ (levels : Nat) (leaves : List (List UInt8)) (index height : Nat)
    (proof : List (List UInt8)), leaves ≠ [] → leaves.length ≤ 2 ^ levels → index < 2 ^ levels →
    height + levels ≤ maxMerkleTreeDepth + 1 →
    ∃ siblings, computeMerkleProofFrom hash levels leaves index height proof = some (proof.reverse ++ siblings) ∧
      siblings.length = levels ∧
      Merkle.climb (hashNodes hash) (leaves.getD index (zeroHashes hash height)) siblings index =
        Merkle.root (hashNodes hash) (zeroHashes hash height) levels leaves
  | 0, leaves, index, height, proof, hne, hlength, hindex, _ => by
    obtain ⟨leaf, rfl⟩ := exists_eq_singleton_of_le_pow_zero hne hlength
    have hzero : index = 0 := by simpa using hindex
    subst hzero
    exact ⟨[], by simp [computeMerkleProofFrom], rfl, rfl⟩
  | levels + 1, leaves, index, height, proof, hne, hlength, hindex, hheight => by
    set zero := zeroHashes hash height
    set parents := Merkle.layer (hashNodes hash) zero leaves
    have hpow : 2 ^ (levels + 1) = 2 * 2 ^ levels := by ring
    have hparentsLength : parents.length = (leaves.length + 1) / 2 := Merkle.length_layer _ _ _
    obtain ⟨siblings, hproof, hsiblings, hclimb⟩ := computeMerkleProofFrom_climb levels parents (index / 2) (height + 1)
      (leaves.getD (index + 1 - index % 2 * 2) zero :: proof) (Merkle.layer_ne_nil _ zero hne) (by omega) (by omega)
      (by omega)
    refine ⟨leaves.getD (index + 1 - index % 2 * 2) zero :: siblings, ?_, by rw [List.length_cons, hsiblings], ?_⟩
    · rw [computeMerkleProofFrom, getZeroHash_of_le (by omega)]
      simp only [Option.bind_eq_bind, Option.bind_some]
      rw [hproof, List.reverse_cons, List.append_assoc, List.singleton_append]
    · -- the index's node and its sibling hash into its parent on the layer above
      have hparent : (if index % 2 = 1 then hashNodes hash (leaves.getD (index + 1 - index % 2 * 2) zero) (leaves.getD index zero)
          else hashNodes hash (leaves.getD index zero) (leaves.getD (index + 1 - index % 2 * 2) zero)) =
          parents.getD (index / 2) (zeroHashes hash (height + 1)) := by
        rw [show zeroHashes hash (height + 1) = hashNodes hash zero zero from rfl, Merkle.getD_layer]
        rcases Nat.mod_two_eq_zero_or_one index with heven | hodd
        · rw [if_neg (by omega), show 2 * (index / 2) = index by omega, show index + 1 - index % 2 * 2 = index + 1 by omega]
        · rw [if_pos hodd, show 2 * (index / 2) + 1 = index by omega,
            show index + 1 - index % 2 * 2 = 2 * (index / 2) by omega]
      rw [Merkle.climb_cons, hparent, hclimb, Merkle.root_succ_layer]
      rfl

end MerkleProofs

/-- `compute_merkle_proof/3` on a leaf of a tree of height at most 65 over at most its number of
    leaves: the leaf's siblings, one a level, which the leaf climbs to the tree's root. -/
theorem computeMerkleProof_climb (hash : List UInt8 → List UInt8) {leaves : List (List UInt8)} (hne : leaves ≠ [])
    {height index : Nat} (hlength : leaves.length ≤ 2 ^ height) (hindex : index < 2 ^ height) (hheight : height ≤ maxMerkleTreeDepth + 1) :
    ∃ proof, computeMerkleProof hash leaves index height = some proof ∧ proof.length = height ∧
      Merkle.climb (hashNodes hash) (leaves.getD index zeroChunk) proof index =
        Merkle.root (hashNodes hash) zeroChunk height leaves := by
  obtain ⟨proof, hproof, hproofLength, hclimb⟩ :=
    computeMerkleProofFrom_climb height leaves index 0 [] hne hlength hindex (by omega)
  -- nothing collected yet: the siblings are the proof
  exact ⟨proof, hproof, hproofLength, hclimb⟩

/-! ## The specification's root of a container -/

namespace Spec

variable (hash : List UInt8 → List UInt8)

theorem hashTreeRoot_container (values : List Value) (name : String) (fields : List (String × Schema)) :
    hashTreeRoot hash (.container values) (.container name fields) =
      merkleize hash (fieldRoots hash values fields) fields.length := by
  simp [hashTreeRoot]

theorem fieldRoots_cons (value : Value) (values : List Value) (key : String) (schema : Schema)
    (fields : List (String × Schema)) :
    fieldRoots hash (value :: values) ((key, schema) :: fields) =
      hashTreeRoot hash value schema :: fieldRoots hash values fields := by
  simp [fieldRoots]

/-- A chunk under a byte vector is its own root. -/
theorem hashTreeRoot_binary_chunk {bytes : List UInt8} (hbytes : bytes.length = bytesPerChunk) (size : Nat) :
    hashTreeRoot hash (.binary bytes) (.byteVector size) = bytes := by
  have hpacked : packBytes bytes = bytes := by
    simp [packBytes, hbytes, bitsPerChunk, bytesPerChunk]
  have hpack : pack bytes = [bytes] := by
    simp only [pack, hpacked, hbytes, Nat.div_self (by decide : 0 < bytesPerChunk), List.range_one, List.map_cons,
      List.map_nil, Nat.mul_zero, List.drop_zero]
    rw [List.take_of_length_le hbytes.le]
  simp [hashTreeRoot, hpack, merkleize, Merkle.root]

/-- A container of two fields or more has a hash as its root. -/
theorem hashTreeRoot_container_length (hhash : ∀ bytes, (hash bytes).length = bytesPerChunk) (values : List Value)
    (name : String) {fields : List (String × Schema)} (hfields : 2 ≤ fields.length) :
    (hashTreeRoot hash (.container values) (.container name fields)).length = bytesPerChunk := by
  obtain ⟨depth, hdepth⟩ : ∃ depth, Nat.clog 2 fields.length = depth + 1 :=
    Nat.exists_eq_add_one_of_ne_zero (Nat.clog_pos (by norm_num) (by omega)).ne'
  rw [hashTreeRoot_container, merkleize, hdepth, Merkle.root]
  exact hhash _

end Spec

end LambdaEthereumConsensus.SszEx.Merkleization
