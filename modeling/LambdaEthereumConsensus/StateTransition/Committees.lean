import LambdaEthereumConsensus.Fallible.List
import LambdaEthereumConsensus.StateTransition.Shuffling
import LambdaEthereumConsensus.StateTransition.Types

/-
  LambdaEthereumConsensus.StateTransition.Committees — the beacon committees of an epoch:
  `Misc.compute_all_committees/2`, which shuffles the active indices once and cuts the
  shuffled list with `Utils.chunk_by_sizes/2`, and `Misc.compute_committee/4`, which shuffles
  only the positions of one committee (`state_transition/misc.ex`, `utils.ex`), with the
  accessors they read and the cache entries `Accessors.maybe_prefetch_committees/2` writes
  for `Accessors.get_beacon_committee/3` (`state_transition/accessors.ex`).

  `chunk_by_sizes/2` stops as soon as its input runs out, before it compares the last chunk
  with its size, so a trailing empty size gives no chunk; the committee sizes never end in
  one, since the last committee of `n ≥ 1` indices has `n - ⌊n (C - 1) / C⌋ ≥ 1` of them.
  Cut by sizes that sum to its length and end in a positive one, a list splits into its
  consecutive pieces (`List.splitLengths`, `chunkBySizes_eq_splitLengths`), and by the sizes
  of monotone boundaries into its slices between them (`splitLengths_boundaries`).

  Proved (`computeAllCommittees_eq_computeCommittee`): with at least one active validator,
  the batch computation returns `C = get_committee_count_per_slot * SLOTS_PER_EPOCH`
  committees, the `k`-th of which is `compute_committee(indices, seed, k, C)`; they partition
  the active indices; and the prefetch writes one cache entry a committee, keyed by the slot and
  the index in the slot of the committee's position, whose value is the committee
  `get_beacon_committee/3` computes for that slot and index.
-/

namespace LambdaEthereumConsensus.Utils

/-! ## Cutting a list by sizes -/

section ChunkBySizes

variable {α : Type}

/-- `chunk_by_sizes/5`: the input left, the sizes left, the chunk being filled (reversed)
    and its size, and the chunks made (reversed). The first clause, on an exhausted input,
    is tried before the size comparison; a size list that runs out before the input does
    puts the rest in front, and one that runs out mid-chunk matches no clause. -/
def chunkBySizesAux : List α → List Int → List α → Nat → List (List α) → Option (List (List α))
  | [], _, chunk, chunkSize, allChunks =>
    some (if chunkSize > 0 then (chunk.reverse :: allChunks).reverse else allChunks.reverse)
  | elem :: remEnum, [], [], 0, allChunks => some ((elem :: remEnum) :: allChunks.reverse)
  | elem :: remEnum, size :: remSizes, chunk, chunkSize, allChunks =>
    if (chunkSize : Int) = size then
      chunkBySizesAux (elem :: remEnum) remSizes [] 0 (chunk.reverse :: allChunks)
    else chunkBySizesAux remEnum (size :: remSizes) (elem :: chunk) (chunkSize + 1) allChunks
  | _ :: _, [], _, _, _ => none
termination_by enum sizes => enum.length + sizes.length

/-- `Utils.chunk_by_sizes/2`. -/
def chunkBySizes (enum : List α) (sizes : List Int) : Option (List (List α)) :=
  chunkBySizesAux enum sizes [] 0 []

/-- Filling a chunk: the elements it still lacks join it one by one, and once it has its
    size it is closed, or the cut ends if the input is exhausted. Induction on the elements
    it lacks. -/
theorem chunkBySizesAux_fill (remSizes : List Int) (allChunks : List (List α)) {size : Nat} :
    ∀ (pre post chunk : List α) (chunkSize : Nat), chunkSize + pre.length = size →
      chunkBySizesAux (pre ++ post) ((size : Int) :: remSizes) chunk chunkSize allChunks =
        if post = [] then some ((if 0 < size then (chunk.reverse ++ pre) :: allChunks else allChunks).reverse)
        else chunkBySizesAux post remSizes [] 0 ((chunk.reverse ++ pre) :: allChunks)
  | [], [], chunk, chunkSize, hsize => by
    simp only [List.length_nil, Nat.add_zero] at hsize
    subst hsize
    by_cases hpos : 0 < chunkSize <;> simp [chunkBySizesAux, hpos]
  | [], elem :: remEnum, chunk, chunkSize, hsize => by
    simp only [List.length_nil, Nat.add_zero] at hsize
    simp [chunkBySizesAux, hsize]
  | elem :: pre, post, chunk, chunkSize, hsize => by
    simp only [List.length_cons] at hsize
    rw [List.cons_append, chunkBySizesAux, if_neg (by omega),
      chunkBySizesAux_fill remSizes allChunks pre post (elem :: chunk) (chunkSize + 1) (by omega)]
    simp

/-- Cut by sizes that sum to its length and end in a positive one, a list splits into its
    consecutive pieces. Induction on the sizes. -/
theorem chunkBySizesAux_eq_splitLengths :
    ∀ (sizes : List Nat) (enum : List α) (allChunks : List (List α)), sizes.sum = enum.length →
      (∀ size ∈ sizes.getLast?, 0 < size) →
        chunkBySizesAux enum (sizes.map ((↑) : Nat → Int)) [] 0 allChunks =
          some (allChunks.reverse ++ sizes.splitLengths enum)
  | [], enum, allChunks, hsum, _ => by
    rw [List.eq_nil_of_length_eq_zero hsum.symm]
    simp [chunkBySizesAux]
  | [size], enum, allChunks, hsum, hlast => by
    have hpos : 0 < size := hlast size rfl
    have hlength : size = enum.length := by simpa using hsum
    have hfill := chunkBySizesAux_fill [] allChunks (enum.take size) (enum.drop size) [] 0
      (show 0 + (enum.take size).length = size by simp; omega)
    rw [List.take_append_drop, if_pos (List.drop_eq_nil_of_le hlength.ge), if_pos hpos] at hfill
    rw [List.map_singleton, hfill, List.splitLengths_cons, List.splitLengths_nil, List.take_of_length_le hlength.ge]
    simp
  | size :: next :: sizes, enum, allChunks, hsum, hlast => by
    have hrest : 0 < (next :: sizes).sum := by
      obtain ⟨last, hlast'⟩ := List.getLast?_isSome.mpr (List.cons_ne_nil next sizes) |> Option.isSome_iff_exists.mp
      exact List.sum_pos_iff_exists_pos_nat.mpr ⟨last, List.mem_of_getLast? hlast', hlast last (by simpa using hlast')⟩
    rw [List.sum_cons] at hsum
    have hfill := chunkBySizesAux_fill ((next :: sizes).map ((↑) : Nat → Int)) allChunks (enum.take size)
      (enum.drop size) [] 0 (show 0 + (enum.take size).length = size by simp; omega)
    rw [List.take_append_drop, if_neg (by simp; omega)] at hfill
    rw [List.map_cons, hfill, chunkBySizesAux_eq_splitLengths (next :: sizes) (enum.drop size) _ (by rw [List.length_drop]; omega)
      (by simpa using hlast)]
    simp

/-- `Utils.chunk_by_sizes/2` on sizes that sum to the input's length and end in a positive
    one: the consecutive pieces. -/
theorem chunkBySizes_eq_splitLengths {enum : List α} {sizes : List Nat} (hsum : sizes.sum = enum.length)
    (hlast : ∀ size ∈ sizes.getLast?, 0 < size) :
    chunkBySizes enum (sizes.map ((↑) : Nat → Int)) = some (sizes.splitLengths enum) := by
  rw [chunkBySizes, chunkBySizesAux_eq_splitLengths sizes enum [] hsum hlast]
  rfl

section Boundaries

variable {b : Nat → Nat} (hb : ∀ k, b k ≤ b (k + 1))
include hb

/-- The sizes between boundaries that never decrease sum to the distance between the first
    and the last. -/
theorem sum_boundaries : ∀ (m len : Nat),
    ((List.range' m len).map fun k => b (k + 1) - b k).sum = b (m + len) - b m
  | m, 0 => by simp
  | m, len + 1 => by
    have hmono : b (m + 1) ≤ b (m + 1 + len) := monotone_nat_of_le_succ hb (by omega)
    rw [List.range'_succ, List.map_cons, List.sum_cons, sum_boundaries m.succ len, Nat.succ_eq_add_one,
      show m + (len + 1) = m + 1 + len by omega]
    have := hb m
    omega

/-- Cut by the sizes between boundaries that never decrease, a list splits into its slices
    between them. -/
theorem splitLengths_boundaries (xs : List α) : ∀ (m len : Nat),
    ((List.range' m len).map fun k => b (k + 1) - b k).splitLengths (xs.drop (b m)) =
      (List.range' m len).map fun k => (xs.drop (b k)).take (b (k + 1) - b k)
  | m, 0 => rfl
  | m, len + 1 => by
    rw [List.range'_succ, List.map_cons, List.map_cons, List.splitLengths_cons, List.drop_drop,
      show b m + (b (m + 1) - b m) = b (m + 1) by have := hb m; omega, splitLengths_boundaries xs (m + 1) len]

end Boundaries

end ChunkBySizes

end LambdaEthereumConsensus.Utils

namespace LambdaEthereumConsensus.StateTransition

open Binary Shuffling Utils

/-! ## The model -/

/-- `ChainSpec.get/1` on the presets the committees read; `div/2` and `rem/2` by a zero
    committee size or history length would raise, and the seed's epoch is in the history. -/
structure CommitteeSpec extends ChainSpec where
  shuffleRoundCount : Nat
  targetCommitteeSize : Nat
  maxCommitteesPerSlot : Nat
  epochsPerHistoricalVector : Nat
  minSeedLookahead : Nat
  targetCommitteeSize_pos : 0 < targetCommitteeSize
  minSeedLookahead_lt : minSeedLookahead < epochsPerHistoricalVector

/-- `config/presets/mainnet/phase0.yaml`. -/
def CommitteeSpec.mainnet : CommitteeSpec :=
  { ChainSpec.mainnet with
    shuffleRoundCount := 90
    targetCommitteeSize := 128
    maxCommitteesPerSlot := 64
    epochsPerHistoricalVector := 65536
    minSeedLookahead := 1
    targetCommitteeSize_pos := by decide
    minSeedLookahead_lt := by decide }

/-- `config/presets/minimal/phase0.yaml`. -/
def CommitteeSpec.minimal : CommitteeSpec :=
  { ChainSpec.minimal with
    shuffleRoundCount := 10
    targetCommitteeSize := 4
    maxCommitteesPerSlot := 4
    epochsPerHistoricalVector := 64
    minSeedLookahead := 1
    targetCommitteeSize_pos := by decide
    minSeedLookahead_lt := by decide }

/-- The beacon state with the `randao_mixes` the seed reads. -/
structure RandaoState extends BeaconState where
  randaoMixes : List (List UInt8)
  deriving DecidableEq, Repr

/-- `Constants.domain_beacon_attester/0`. -/
def domainBeaconAttester : List UInt8 := [1, 0, 0, 0]

/-- `Misc.uint64_to_bytes/1`: eight little-endian bytes. -/
def uint64ToBytes (value : Nat) : List UInt8 := natToLE 8 value

section Accessors

variable (spec : CommitteeSpec) (hash : List UInt8 → List UInt8)

/-- `Accessors.get_active_validator_count/2`. -/
def getActiveValidatorCount (state : BeaconState) (epoch : Nat) : Nat :=
  state.validators.countP (·.active? epoch)

/-- `Accessors.get_committee_count_per_slot/2`. -/
def getCommitteeCountPerSlot (state : BeaconState) (epoch : Nat) : Nat :=
  max (min (getActiveValidatorCount state epoch / spec.slotsPerEpoch / spec.targetCommitteeSize)
    spec.maxCommitteesPerSlot) 1

/-- `Accessors.get_seed/3`: `Randao.get_randao_mix/2` raises past the mixes' end. -/
def getSeed (state : RandaoState) (epoch : Nat) (domainType : List UInt8) : Option (List UInt8) := do
  let futureEpoch := epoch + spec.epochsPerHistoricalVector - spec.minSeedLookahead - 1
  let mix ← state.randaoMixes[futureEpoch % spec.epochsPerHistoricalVector]?
  pure (hash (domainType ++ uint64ToBytes epoch ++ mix))

end Accessors

/-- `Misc.committee_boundaries/3`: the first position of the committee and the last, which is
    one before the first for an empty committee. -/
def committeeBoundaries (committeeIndex indexCount committeeCount : Nat) : Int × Int :=
  ((indexCount * committeeIndex / committeeCount : Nat),
    ((indexCount * (committeeIndex + 1) / committeeCount : Nat) : Int) - 1)

section Committees

variable (spec : CommitteeSpec) (hash : List UInt8 → List UInt8)

/-- `Misc.compute_all_committees/2`. The committee count is at least `1`, so
    `0..(committee_count - 1)` counts up. -/
def computeAllCommittees (state : RandaoState) (epoch : Nat) : Option (List (List Nat)) := do
  let indices := getActiveValidatorIndices state.toBeaconState epoch
  let indexCount := indices.length
  let seed ← getSeed spec hash state epoch domainBeaconAttester
  let shuffledIndices ← shuffleList hash spec.shuffleRoundCount indices seed
  let committeeCount := getCommitteeCountPerSlot spec state.toBeaconState epoch * spec.slotsPerEpoch
  let committeeSizes := (List.range committeeCount).map fun index =>
    let (cStart, cEnd) := committeeBoundaries index indexCount committeeCount
    cEnd - cStart + 1
  chunkBySizes shuffledIndices committeeSizes

/-- `Misc.compute_committee/4`: the positions `committee_start..committee_end//1`, each read at
    its shuffled index; the match on `{:ok, index}` and `Aja.Vector.at!/2` raise. -/
def computeCommittee (indices : List Nat) (seed : List UInt8) (committeeIndex committeeCount : Nat) :
    Option (Except String (List Nat)) :=
  if indices = [] then some (.error "Empty indices")
  else if committeeIndex < committeeCount then do
    let indexCount := indices.length
    let (committeeStart, committeeEnd) := committeeBoundaries committeeIndex indexCount committeeCount
    let committee ← (List.range' committeeStart.toNat (committeeEnd + 1 - committeeStart).toNat).mapM fun i => do
      let .ok index ← computeShuffledIndex hash spec.shuffleRoundCount i indexCount seed | none
      indices[index]?
    pure (.ok committee)
  else some (.error "Invalid committee index")

/-- The `compute_fn` of `Accessors.get_beacon_committee/3`, which the cache, keyed by the slot,
    the index and the epoch's root, holds once computed. -/
def getBeaconCommittee (state : RandaoState) (slot index : Nat) : Option (Except String (List Nat)) := do
  let epoch := computeEpochAtSlot spec.toChainSpec slot
  let committeesPerSlot := getCommitteeCountPerSlot spec state.toBeaconState epoch
  let indices := getActiveValidatorIndices state.toBeaconState epoch
  let seed ← getSeed spec hash state epoch domainBeaconAttester
  let committeeIndex := slot % spec.slotsPerEpoch * committeesPerSlot + index
  let committeeCount := committeesPerSlot * spec.slotsPerEpoch
  computeCommittee spec hash indices seed committeeIndex committeeCount

/-- The entries `Accessors.maybe_prefetch_committees/2` sets in the `:beacon_committee` cache,
    once the epoch's root is known and the epoch's first entry absent: each key
    `{slot, {index, root}}` as its slot and index, the root being the same for all. -/
def maybePrefetchCommittees (state : RandaoState) (epoch : Nat) :
    Option (List ((Nat × Nat) × Except String (List Nat))) := do
  let firstSlot := computeStartSlotAtEpoch spec.toChainSpec epoch
  let committeesPerSlot := getCommitteeCountPerSlot spec state.toBeaconState epoch
  let committees ← computeAllCommittees spec hash state epoch
  pure (committees.zipIdx.map fun (committee, i) =>
    ((firstSlot + i / committeesPerSlot, i % committeesPerSlot), .ok committee))

end Committees

/-! ## The committees are the slices of the shuffled indices -/

/-- The committees an epoch of `committeeCount` committees cuts from the shuffled indices: the
    `k`-th is the slice between positions `⌊n k / C⌋` and `⌊n (k + 1) / C⌋`. -/
def committeeSlices (shuffled : List Nat) (committeeCount : Nat) : List (List Nat) :=
  (List.range committeeCount).map fun k =>
    (shuffled.drop (shuffled.length * k / committeeCount)).take
      (shuffled.length * (k + 1) / committeeCount - shuffled.length * k / committeeCount)

theorem committeeStart_le_succ (indexCount committeeCount k : Nat) :
    indexCount * k / committeeCount ≤ indexCount * (k + 1) / committeeCount :=
  Nat.div_le_div_right (Nat.mul_le_mul_left indexCount (Nat.le_succ k))

/-- A committee ends at most at the last index. -/
theorem committeeEnd_le (indexCount : Nat) {committeeCount k : Nat} (hk : k < committeeCount) :
    indexCount * (k + 1) / committeeCount ≤ indexCount :=
  Nat.div_le_of_le_mul (by rw [Nat.mul_comm committeeCount]; exact Nat.mul_le_mul_left indexCount hk)

/-- The sizes `compute_all_committees/2` gives `chunk_by_sizes/2` are the distances between
    consecutive boundaries. -/
theorem committeeSizes_eq (indexCount committeeCount : Nat) :
    ((List.range committeeCount).map fun index =>
      let (cStart, cEnd) := committeeBoundaries index indexCount committeeCount
      cEnd - cStart + 1) =
    ((List.range' 0 committeeCount).map fun k =>
      indexCount * (k + 1) / committeeCount - indexCount * k / committeeCount).map ((↑) : Nat → Int) := by
  rw [List.range_eq_range', List.map_map]
  refine List.map_congr_left fun k _ => ?_
  have hle := committeeStart_le_succ indexCount committeeCount k
  simp only [committeeBoundaries, Function.comp_apply]
  omega

/-- The last committee of an epoch with an active validator is not empty. -/
theorem lastCommitteeSize_pos {indexCount committeeCount : Nat} (hn : 0 < indexCount) (hC : 0 < committeeCount) :
    0 < indexCount * (committeeCount - 1 + 1) / committeeCount - indexCount * (committeeCount - 1) / committeeCount := by
  have hlast : indexCount * (committeeCount - 1) / committeeCount < indexCount :=
    (Nat.div_lt_iff_lt_mul hC).mpr (Nat.mul_lt_mul_of_pos_left (by omega) hn)
  rw [Nat.sub_add_cancel hC, Nat.mul_div_cancel indexCount hC]
  omega

/-- The committee slices are the pieces of the sizes between consecutive boundaries. -/
theorem committeeSlices_eq_splitLengths (shuffled : List Nat) (committeeCount : Nat) :
    committeeSlices shuffled committeeCount =
      ((List.range' 0 committeeCount).map fun k =>
        shuffled.length * (k + 1) / committeeCount - shuffled.length * k / committeeCount).splitLengths shuffled := by
  have hslices := splitLengths_boundaries (committeeStart_le_succ shuffled.length committeeCount) shuffled 0 committeeCount
  rw [Nat.mul_zero, Nat.zero_div, List.drop_zero] at hslices
  rw [hslices, committeeSlices, List.range_eq_range']

/-- The committee sizes of an epoch sum to the number of indices. -/
theorem sum_committeeSizes (indexCount : Nat) {committeeCount : Nat} (hC : 0 < committeeCount) :
    ((List.range' 0 committeeCount).map fun k =>
      indexCount * (k + 1) / committeeCount - indexCount * k / committeeCount).sum = indexCount := by
  rw [sum_boundaries (committeeStart_le_succ indexCount committeeCount) 0 committeeCount, Nat.zero_add,
    Nat.mul_div_cancel _ hC, Nat.mul_zero, Nat.zero_div, Nat.sub_zero]

/-- Cut by the committee sizes, the shuffled indices split into the committee slices. -/
theorem chunkBySizes_committeeSizes {shuffled : List Nat} (hn : shuffled ≠ []) {committeeCount : Nat}
    (hC : 0 < committeeCount) :
    chunkBySizes shuffled ((List.range committeeCount).map fun index =>
      let (cStart, cEnd) := committeeBoundaries index shuffled.length committeeCount
      cEnd - cStart + 1) = some (committeeSlices shuffled committeeCount) := by
  rw [committeeSizes_eq, chunkBySizes_eq_splitLengths (sum_committeeSizes shuffled.length hC),
    committeeSlices_eq_splitLengths]
  intro size hsize
  rw [List.getLast?_map, List.getLast?_range', if_neg (by omega), Option.map_some, Option.mem_def,
    Option.some.injEq] at hsize
  rw [← hsize, Nat.zero_add]
  exact lastCommitteeSize_pos (List.length_pos_iff.mpr hn) hC

/-- The committees together hold every shuffled index once. -/
theorem flatten_committeeSlices (shuffled : List Nat) {committeeCount : Nat} (hC : 0 < committeeCount) :
    (committeeSlices shuffled committeeCount).flatten = shuffled := by
  rw [committeeSlices_eq_splitLengths]
  exact List.flatten_splitLengths _ _ (sum_committeeSizes shuffled.length hC).ge

theorem length_committeeSlices (shuffled : List Nat) (committeeCount : Nat) :
    (committeeSlices shuffled committeeCount).length = committeeCount := by
  simp [committeeSlices]

theorem getCommitteeCountPerSlot_pos (spec : CommitteeSpec) (state : BeaconState) (epoch : Nat) :
    0 < getCommitteeCountPerSlot spec state epoch :=
  Nat.lt_of_lt_of_le Nat.zero_lt_one (le_max_right _ _)

/-- `compute_all_committees/2` cuts the shuffled active indices into the committee slices. -/
theorem computeAllCommittees_eq (spec : CommitteeSpec) {hash : List UInt8 → List UInt8} {state : RandaoState}
    {epoch : Nat} {seed : List UInt8} {shuffled : List Nat}
    (hseed : getSeed spec hash state epoch domainBeaconAttester = some seed)
    (hshuffle : shuffleList hash spec.shuffleRoundCount (getActiveValidatorIndices state.toBeaconState epoch) seed =
      some shuffled)
    (hne : shuffled ≠ []) (hlength : shuffled.length = (getActiveValidatorIndices state.toBeaconState epoch).length) :
    computeAllCommittees spec hash state epoch =
      some (committeeSlices shuffled (getCommitteeCountPerSlot spec state.toBeaconState epoch * spec.slotsPerEpoch)) := by
  have hC := Nat.mul_pos (getCommitteeCountPerSlot_pos spec state.toBeaconState epoch) spec.slotsPerEpoch_pos
  rw [computeAllCommittees]
  simp only [hseed, hshuffle, Option.bind_eq_bind, Option.bind_some]
  rw [← hlength]
  exact chunkBySizes_committeeSizes hne hC

/-- The cache key of the `i`-th committee of an epoch, its slot and its index in the slot, is
    one for which `get_beacon_committee/3` computes the `i`-th committee of the epoch. -/
theorem getBeaconCommittee_prefetchKey (spec : CommitteeSpec) (hash : List UInt8 → List UInt8) {state : RandaoState}
    {epoch i : Nat} (hi : i < getCommitteeCountPerSlot spec state.toBeaconState epoch * spec.slotsPerEpoch) :
    getBeaconCommittee spec hash state
        (computeStartSlotAtEpoch spec.toChainSpec epoch + i / getCommitteeCountPerSlot spec state.toBeaconState epoch)
        (i % getCommitteeCountPerSlot spec state.toBeaconState epoch) =
      (getSeed spec hash state epoch domainBeaconAttester).bind fun seed =>
        computeCommittee spec hash (getActiveValidatorIndices state.toBeaconState epoch) seed i
          (getCommitteeCountPerSlot spec state.toBeaconState epoch * spec.slotsPerEpoch) := by
  have hcps := getCommitteeCountPerSlot_pos spec state.toBeaconState epoch
  have hslot : i / getCommitteeCountPerSlot spec state.toBeaconState epoch < spec.slotsPerEpoch :=
    (Nat.div_lt_iff_lt_mul hcps).mpr (by rw [Nat.mul_comm]; exact hi)
  have hepoch : computeEpochAtSlot spec.toChainSpec
      (computeStartSlotAtEpoch spec.toChainSpec epoch + i / getCommitteeCountPerSlot spec state.toBeaconState epoch) =
      epoch := by
    rw [computeEpochAtSlot, computeStartSlotAtEpoch, Nat.add_comm (epoch * spec.slotsPerEpoch),
      Nat.add_mul_div_right _ _ spec.slotsPerEpoch_pos,
      Nat.div_eq_of_lt hslot, Nat.zero_add]
  have hindex : (computeStartSlotAtEpoch spec.toChainSpec epoch + i / getCommitteeCountPerSlot spec state.toBeaconState epoch) %
      spec.slotsPerEpoch * getCommitteeCountPerSlot spec state.toBeaconState epoch +
        i % getCommitteeCountPerSlot spec state.toBeaconState epoch = i := by
    rw [computeStartSlotAtEpoch, Nat.add_comm (epoch * spec.slotsPerEpoch), Nat.add_mul_mod_self_right,
      Nat.mod_eq_of_lt hslot, Nat.div_add_mod']
  dsimp only [getBeaconCommittee]
  rw [hepoch, hindex]
  rfl

section Proofs

variable (spec : CommitteeSpec) {hash : List UInt8 → List UInt8} (hhash : ∀ bytes, (hash bytes).length = 32)

include hhash

/-- The seed exists, and has 32 bytes, for a state whose mixes fill the history. -/
theorem getSeed_length {state : RandaoState} (hmixes : state.randaoMixes.length = spec.epochsPerHistoricalVector)
    (epoch : Nat) (domainType : List UInt8) :
    ∃ seed, getSeed spec hash state epoch domainType = some seed ∧ seed.length = 32 := by
  have hpos : 0 < spec.epochsPerHistoricalVector := Nat.lt_of_le_of_lt (Nat.zero_le _) spec.minSeedLookahead_lt
  have hindex : (epoch + spec.epochsPerHistoricalVector - spec.minSeedLookahead - 1) % spec.epochsPerHistoricalVector <
      state.randaoMixes.length := by
    rw [hmixes]
    exact Nat.mod_lt _ hpos
  exact ⟨_, by rw [getSeed, List.getElem?_eq_getElem hindex]; rfl, hhash _⟩

/-- `compute_committee/4` of a committee of the epoch reads the slice of the shuffled indices
    between its boundaries. -/
theorem computeCommittee_eq (hrounds : 0 < spec.shuffleRoundCount ∧ spec.shuffleRoundCount ≤ 256)
    {indices shuffled : List Nat} {seed : List UInt8} (hne : indices ≠ [])
    (hget : ∀ i, i < indices.length →
      shuffled[i]? = indices[shuffledIndex hash seed indices.length spec.shuffleRoundCount i]?)
    {committeeIndex committeeCount : Nat} (hk : committeeIndex < committeeCount) (hlength : shuffled.length = indices.length) :
    computeCommittee spec hash indices seed committeeIndex committeeCount =
      some (.ok ((shuffled.drop (indices.length * committeeIndex / committeeCount)).take
        (indices.length * (committeeIndex + 1) / committeeCount - indices.length * committeeIndex / committeeCount))) := by
  have hstart := committeeStart_le_succ indices.length committeeCount committeeIndex
  have hend := committeeEnd_le indices.length hk
  have hsize : ((((indices.length * (committeeIndex + 1) / committeeCount : Nat) : Int) - 1 + 1 -
      ((indices.length * committeeIndex / committeeCount : Nat) : Int)).toNat) =
      indices.length * (committeeIndex + 1) / committeeCount - indices.length * committeeIndex / committeeCount := by
    omega
  have hsteps : ∀ i, indices.length * committeeIndex / committeeCount ≤ i →
      i < indices.length * committeeIndex / committeeCount +
        (indices.length * (committeeIndex + 1) / committeeCount - indices.length * committeeIndex / committeeCount) →
      (do let .ok index ← computeShuffledIndex hash spec.shuffleRoundCount i indices.length seed | none
          indices[index]?) = shuffled[i]? := by
    intro i _ hi
    rw [computeShuffledIndex_eq hhash seed hrounds (by omega), hget i (by omega)]
    rfl
  rw [computeCommittee, if_neg hne, if_pos hk]
  simp only [committeeBoundaries, Int.toNat_natCast, hsize]
  rw [Fallible.mapM_range'_eq_slice _ _ (by omega) hsteps]
  rfl

end Proofs

/-- With an active validator, `compute_all_committees/2` returns `C`, the committee count per
    slot times `SLOTS_PER_EPOCH`, committees, the `k`-th of which `compute_committee/4` computes
    alone; together they are the active indices, each once; and `maybe_prefetch_committees/2`
    writes one cache entry a committee, at the slot and index of its position, holding what
    `get_beacon_committee/3` computes there. -/
theorem computeAllCommittees_eq_computeCommittee (spec : CommitteeSpec)
    (hrounds : 0 < spec.shuffleRoundCount ∧ spec.shuffleRoundCount ≤ 256)
    {hash : List UInt8 → List UInt8} (hhash : ∀ bytes, (hash bytes).length = 32)
    {state : RandaoState} (hmixes : state.randaoMixes.length = spec.epochsPerHistoricalVector)
    {epoch : Nat} (hactive : getActiveValidatorIndices state.toBeaconState epoch ≠ []) :
    ∃ committees seed, computeAllCommittees spec hash state epoch = some committees ∧
      getSeed spec hash state epoch domainBeaconAttester = some seed ∧
      committees.length = getCommitteeCountPerSlot spec state.toBeaconState epoch * spec.slotsPerEpoch ∧
      (∀ k (hk : k < committees.length),
        computeCommittee spec hash (getActiveValidatorIndices state.toBeaconState epoch) seed k committees.length =
          some (.ok committees[k])) ∧
      committees.flatten.Perm (getActiveValidatorIndices state.toBeaconState epoch) ∧
      ∃ entries, maybePrefetchCommittees spec hash state epoch = some entries ∧
        entries.map (·.1) = (List.range committees.length).map (fun i =>
          (computeStartSlotAtEpoch spec.toChainSpec epoch + i / getCommitteeCountPerSlot spec state.toBeaconState epoch,
            i % getCommitteeCountPerSlot spec state.toBeaconState epoch)) ∧
        ∀ entry ∈ entries, getBeaconCommittee spec hash state entry.1.1 entry.1.2 = some entry.2 := by
  obtain ⟨seed, hseed, hseedLength⟩ := getSeed_length spec hhash hmixes epoch domainBeaconAttester
  have hn : 0 < (getActiveValidatorIndices state.toBeaconState epoch).length := List.length_pos_iff.mpr hactive
  obtain ⟨shuffled, hrounds', hlength, hget⟩ := shuffleRounds_getElem? hhash seed hrounds.2 hn
  have hshuffle : shuffleList hash spec.shuffleRoundCount (getActiveValidatorIndices state.toBeaconState epoch) seed =
      some shuffled := by
    rw [shuffleList_of_ne_nil hash hseedLength hactive, hrounds']
  have hne : shuffled ≠ [] := List.ne_nil_of_length_pos (hlength ▸ hn)
  have hC := Nat.mul_pos (getCommitteeCountPerSlot_pos spec state.toBeaconState epoch) spec.slotsPerEpoch_pos
  have hslices := length_committeeSlices shuffled (getCommitteeCountPerSlot spec state.toBeaconState epoch * spec.slotsPerEpoch)
  have hcommittee : ∀ k (hk : k < (committeeSlices shuffled
        (getCommitteeCountPerSlot spec state.toBeaconState epoch * spec.slotsPerEpoch)).length),
      computeCommittee spec hash (getActiveValidatorIndices state.toBeaconState epoch) seed k
          (getCommitteeCountPerSlot spec state.toBeaconState epoch * spec.slotsPerEpoch) =
        some (.ok (committeeSlices shuffled (getCommitteeCountPerSlot spec state.toBeaconState epoch *
          spec.slotsPerEpoch))[k]) := by
    intro k hk
    rw [computeCommittee_eq spec hhash hrounds hactive hget (lt_of_lt_of_eq hk hslices) hlength]
    simp [committeeSlices, hlength]
  refine ⟨_, seed, computeAllCommittees_eq spec hseed hshuffle hne hlength, hseed, hslices, ?_, ?_, ?_⟩
  · intro k hk
    exact (congrArg (computeCommittee spec hash _ seed k) hslices).trans (hcommittee k hk)
  · rw [flatten_committeeSlices shuffled hC]
    exact shuffleList_perm hshuffle
  · refine ⟨_, by rw [maybePrefetchCommittees, computeAllCommittees_eq spec hseed hshuffle hne hlength]; rfl, ?_, ?_⟩
    · -- one entry a committee, keyed by the committee's position
      rw [List.map_map, List.range_eq_range', ← List.zipIdx_map_snd 0, List.map_map]
      rfl
    intro entry hentry
    obtain ⟨⟨committee, i⟩, hmem, rfl⟩ := List.mem_map.mp hentry
    obtain ⟨hi, hcommittee_i⟩ := List.getElem?_eq_some_iff.mp (List.mem_zipIdx_iff_getElem?.mp hmem)
    rw [getBeaconCommittee_prefetchKey spec hash (lt_of_lt_of_eq hi hslices), hseed, Option.bind_some, hcommittee i hi]
    simp only [hcommittee_i]

/-- Five validators, active from genesis, and 64 mixes, the `e`-th holding the bytes from `e`. -/
def fiveValidatorState : RandaoState where
  slot := 0
  validators := (List.range 5).map fun i =>
    ⟨[i.toUInt8], List.replicate 32 0, 32000000000, false, 0, farFutureEpoch, farFutureEpoch⟩
  balances := List.replicate 5 32000000000
  previousEpochParticipation := List.replicate 5 0
  currentEpochParticipation := List.replicate 5 0
  nextWithdrawalIndex := 0
  nextWithdrawalValidatorIndex := 0
  pendingPartialWithdrawals := []
  currentJustifiedCheckpoint := ⟨0, 0⟩
  finalizedCheckpoint := ⟨0, 0⟩
  randaoMixes := (List.range 64).map fun e => (List.range 32).map fun i => (e + i).toUInt8

/-- The minimal presets, `mixHash` and five active validators, spread over the epoch's eight
    committees. -/
theorem committees_of_five_validators :
    ∃ committees seed, computeAllCommittees CommitteeSpec.minimal mixHash fiveValidatorState 0 = some committees ∧
      getSeed CommitteeSpec.minimal mixHash fiveValidatorState 0 domainBeaconAttester = some seed ∧
      committees.length = getCommitteeCountPerSlot CommitteeSpec.minimal fiveValidatorState.toBeaconState 0 *
        CommitteeSpec.minimal.slotsPerEpoch ∧
      (∀ k (hk : k < committees.length),
        computeCommittee CommitteeSpec.minimal mixHash (getActiveValidatorIndices fiveValidatorState.toBeaconState 0)
          seed k committees.length = some (.ok committees[k])) ∧
      committees.flatten.Perm (getActiveValidatorIndices fiveValidatorState.toBeaconState 0) ∧
      ∃ entries, maybePrefetchCommittees CommitteeSpec.minimal mixHash fiveValidatorState 0 = some entries ∧
        entries.map (·.1) = (List.range committees.length).map (fun i =>
          (computeStartSlotAtEpoch CommitteeSpec.minimal.toChainSpec 0 +
              i / getCommitteeCountPerSlot CommitteeSpec.minimal fiveValidatorState.toBeaconState 0,
            i % getCommitteeCountPerSlot CommitteeSpec.minimal fiveValidatorState.toBeaconState 0)) ∧
        ∀ entry ∈ entries,
          getBeaconCommittee CommitteeSpec.minimal mixHash fiveValidatorState entry.1.1 entry.1.2 = some entry.2 :=
  computeAllCommittees_eq_computeCommittee CommitteeSpec.minimal ⟨by decide, by decide⟩ mixHash_length
    (by simp [fiveValidatorState, CommitteeSpec.minimal]) (by decide)

end LambdaEthereumConsensus.StateTransition
