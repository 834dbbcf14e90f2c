import LambdaEthereumConsensus.Binary.Encoding
import LambdaEthereumConsensus.Fallible.List

/-
  LambdaEthereumConsensus.StateTransition.Shuffling — `Shuffling.shuffle_list/2`
  (`state_transition/shuffling.ex`) and `Misc.compute_shuffled_index/3`
  (`state_transition/misc.ex`), with the hash a parameter returning 32 bytes, as SHA-256 does.

  Both are the swap-or-not shuffle. A round with pivot `p` on `n` positions pairs `x` with
  `(p + n - x) % n` and swaps the two when the hashed bit at the larger one is set
  (`swapOrNotIndex`). `compute_shuffled_index/3` follows one index through rounds `0`, `1`, ...
  (`computeShuffledIndex_eq`). `shuffle_list/2` runs the rounds down from the last on the whole
  vector: in each, two mirror loops visit every pair once, the first inside `[0, p]` and the
  second inside `(p, n)`, and each swaps a pair or not (`getElem?_foldl_swapValues`). The hashed
  source and its byte are carried from one position to the next and rehashed or reread only
  at a 256-position or 8-position boundary; the cache is always the one of the position read
  (`CacheValid`, `foldlM_swapOrNot`). So the element at `i` of a round's output is the input's
  at the round's image of `i` (`shuffleRound_getElem?`), and after all the rounds, the input's
  at `compute_shuffled_index(i)` (`shuffleList_eq_computeShuffledIndex`). Each swap permutes
  the vector, so the shuffle does (`shuffleList_perm`). A swap-or-not round undoes itself, as
  both ends of a pair read the bit at the larger one, so `compute_shuffled_index/3` is a
  bijection of the indices below the count for any number of rounds
  (`computeShuffledIndex_bijOn`).

  The round bytes differ: `shuffle_list/3` hashes `:binary.encode_unsigned(round, :little)` and
  `compute_shuffled_index/3` the byte `<<round>>`, which agree below 256 rounds; both presets
  have fewer (`SHUFFLE_ROUND_COUNT` is 90 on mainnet and 10 on minimal).
-/

namespace LambdaEthereumConsensus.StateTransition

open Binary

namespace Shuffling

/-- `@seed_size`. -/
def seedSize : Nat := 32

/-- `@position_size`. -/
def positionSize : Nat := 4

/-! ## The whole-list shuffle -/

section ShuffleList

variable (hash : List UInt8 → List UInt8) {α : Type}

/-- `position_bytes/1`: the position's little-endian bytes padded with zeros to four
    (`pad_binary/2`) and cut to four (`binary_part/3`). -/
def positionBytes (position : Nat) : List UInt8 :=
  let bytes := encodeUnsignedLittle position
  (bytes ++ List.replicate (positionSize - bytes.length) 0).take positionSize

/-- `source/4`: the source is rehashed at a position whose low byte is `0xFF`. -/
def source (seed roundBytes : List UInt8) (j : Nat) (previousSource : List UInt8) : List UInt8 :=
  if j &&& 0xFF = 0xFF then hash (seed ++ roundBytes ++ positionBytes (j >>> 8)) else previousSource

/-- `byte_v/3`: the byte is reread at a position whose low three bits are set;
    `:binary.at/2` raises past the source's end. -/
def byteV (source : List UInt8) (j : Nat) (previousByteV : UInt8) : Option UInt8 :=
  if j &&& 0x07 = 0x07 then source[(j &&& 0xFF) >>> 3]? else some previousByteV

/-- `bit_v/2`. -/
def bitV (byteV : UInt8) (j : Nat) : Nat := (byteV.toNat >>> (j &&& 0x07)) &&& 0x01

/-- `swap_values/3` on positions inside the vector, where the two values trade places.
    (Past the end `Aja.Enum.at/2` reads `nil`; the loops never go there.) -/
def swapValues (list : List α) (i j : Nat) : List α :=
  match list[i]?, list[j]? with
  | some valueI, some valueJ => (list.set i valueJ).set j valueI
  | _, _ => list

/-- The `{source, byte_v, input}` accumulator of a round's loops. -/
structure SwapLoop (α : Type) where
  source : List UInt8
  byteV : UInt8
  input : List α

/-- The body of both loops of a round: position `i` is swapped with `j`, which each loop
    computes its own way, when the bit of `j` is set. -/
def swapOrNot (seed roundBytes : List UInt8) (j i : Nat) (acc : SwapLoop α) : Option (SwapLoop α) := do
  let source := source hash seed roundBytes j acc.source
  let byteV ← byteV source j acc.byteV
  let bitV := bitV byteV j
  let input := if bitV = 1 then swapValues acc.input i j else acc.input
  pure ⟨source, byteV, input⟩

/-- One round of `shuffle_list/3`: the loop over `0..(mirror - 1)` pairs `i` with `pivot - i`,
    the one over `(pivot + 1)..(mirror - 1)` pairs it with `list_end - (i - (pivot + 1))`.
    `rem/2` by zero would raise. -/
def shuffleRound (seed : List UInt8) (round : Nat) (input : List α) : Option (List α) := do
  let inputSize := input.length
  let roundBytes := encodeUnsignedLittle round
  let pivotBytes ← part (hash (seed ++ roundBytes)) 0 8
  let pivot ← if inputSize = 0 then none else some (leToNat pivotBytes % inputSize)
  let mirror := (pivot + 1) >>> 1
  let source := hash (seed ++ roundBytes ++ positionBytes (pivot >>> 8))
  let byteV ← source[(pivot &&& 0xFF) >>> 3]?
  let acc ← (List.range mirror).foldlM (fun acc i => swapOrNot hash seed roundBytes (pivot - i) i acc)
    ⟨source, byteV, input⟩
  let mirror := (pivot + inputSize + 1) >>> 1
  let listEnd := inputSize - 1
  let source := hash (seed ++ roundBytes ++ positionBytes (listEnd >>> 8))
  let byteV ← source[(listEnd &&& 0xFF) >>> 3]?
  let acc ← (List.range' (pivot + 1) (mirror - (pivot + 1))).foldlM
    (fun acc i => swapOrNot hash seed roundBytes (listEnd - (i - (pivot + 1))) i acc) ⟨source, byteV, acc.input⟩
  pure acc.input

/-- `shuffle_list/3` from round `round - 1` down to round `0`. -/
def shuffleRounds (seed : List UInt8) : Nat → List α → Option (List α)
  | 0, input => some input
  | round + 1, input => do shuffleRounds seed round (← shuffleRound hash seed round input)

/-- `shuffle_list/2`: a seed of another size raises. -/
def shuffleList (shuffleRoundCount : Nat) (input : List α) (seed : List UInt8) : Option (List α) :=
  if seed.length ≠ seedSize then none
  else if input.length = 0 then some input
  else shuffleRounds hash seed shuffleRoundCount input

end ShuffleList

/-! ## The shuffled index -/

section ShuffledIndex

variable (hash : List UInt8 → List UInt8)

/-- `Misc.bytes_to_uint64/1`: the first eight bytes, little-endian; a shorter binary fails the
    match. -/
def bytesToUint64 (value : List UInt8) : Option Nat :=
  if 8 ≤ value.length then some (leToNat (value.take 8)) else none

/-- `Misc.uint_to_bytes/2`. -/
def uintToBytes (value size : Nat) : List UInt8 := natToLE (size / 8) value

/-- `0..(shuffle_round_count - 1)`: with no rounds the range counts down, so it is `[0, -1]`. -/
def roundRange (shuffleRoundCount : Nat) : List Int :=
  if 1 ≤ shuffleRoundCount then (List.range shuffleRoundCount).map Int.ofNat else [0, -1]

/-- One step of `compute_shuffled_index/3`'s reduce; `<<round>>` keeps the round's low byte,
    and the bit match fails on a source too short. -/
def shuffledIndexRound (seed : List UInt8) (indexCount currentIndex : Nat) (round : Int) : Option Nat := do
  let roundByte : UInt8 := (round % 256).toNat.toUInt8
  let pivot ← bytesToUint64 (hash (seed ++ [roundByte]))
  let pivot := pivot % indexCount
  let flip := (pivot + indexCount - currentIndex) % indexCount
  let position := max currentIndex flip
  let positionDiv256 := uintToBytes (position / 256) 32
  let source := hash (seed ++ [roundByte] ++ positionDiv256)
  let bitIndex := position % 256 + 7 - 2 * (position % 8)
  let bit ← (bytesToBits source)[bitIndex]?
  pure (if bit then flip else currentIndex)

/-- `Misc.compute_shuffled_index/3`. -/
def computeShuffledIndex (shuffleRoundCount index indexCount : Nat) (seed : List UInt8) :
    Option (Except String Nat) :=
  if index ≥ indexCount ∨ indexCount = 0 then some (.error "invalid index_count")
  else ((roundRange shuffleRoundCount).foldlM (shuffledIndexRound hash seed indexCount) index).map .ok

end ShuffledIndex

/-! ## The swap-or-not permutation -/

/-- The position `x` is paired with in a round of pivot `pivot` over `indexCount` positions. -/
def flip (indexCount pivot x : Nat) : Nat := (pivot + indexCount - x) % indexCount

/-- A swap-or-not round: a position goes to its partner when `bit` holds at the larger of the
    two. -/
def swapOrNotIndex (indexCount pivot : Nat) (bit : Nat → Bool) (x : Nat) : Nat :=
  if bit (max x (flip indexCount pivot x)) then flip indexCount pivot x else x

section Round

variable (hash : List UInt8 → List UInt8) (seed : List UInt8)

/-- The pivot of round `round` over `indexCount` positions. -/
def roundPivot (indexCount round : Nat) : Nat :=
  leToNat ((hash (seed ++ [round.toUInt8])).take 8) % indexCount

/-- The hash that holds the bit of `position` in round `round`. -/
def roundSource (round position : Nat) : List UInt8 :=
  hash (seed ++ [round.toUInt8] ++ natToLE 4 (position / 256))

/-- The bit of `position` in round `round`: bit `position % 8` of byte `position % 256 / 8`. -/
def roundBit (round position : Nat) : Bool :=
  ((roundSource hash seed round position)[position % 256 / 8]?.getD 0).toNat / 2 ^ (position % 8) % 2 == 1

/-- Where index `x` goes through rounds `0` to `rounds - 1`. -/
def shuffledIndex (indexCount rounds x : Nat) : Nat :=
  (List.range rounds).foldl
    (fun x round => swapOrNotIndex indexCount (roundPivot hash seed indexCount round) (roundBit hash seed round) x) x

end Round

/-! ## Bytes and bits -/

theorem land_0xFF (j : Nat) : j &&& 0xFF = j % 256 := Nat.and_two_pow_sub_one_eq_mod j 8

theorem land_0x07 (j : Nat) : j &&& 0x07 = j % 8 := Nat.and_two_pow_sub_one_eq_mod j 3

theorem shiftRight_one (j : Nat) : j >>> 1 = j / 2 := Nat.shiftRight_eq_div_pow j 1

theorem shiftRight_three (j : Nat) : j >>> 3 = j / 8 := Nat.shiftRight_eq_div_pow j 3

theorem shiftRight_eight (j : Nat) : j >>> 8 = j / 256 := Nat.shiftRight_eq_div_pow j 8

/-- Padding the little-endian bytes to four and cutting them to four is four little-endian
    bytes. -/
theorem positionBytes_eq (position : Nat) : positionBytes position = natToLE 4 position := by
  have hfits := lt_pow_encodeUnsignedLittle_length position
  simp only [positionBytes, positionSize]
  generalize hk : (encodeUnsignedLittle position).length = k at hfits ⊢
  have hbytes : encodeUnsignedLittle position = natToLE k position := by
    rw [← hk, encodeUnsignedLittle, natToLE_length]
  rw [hbytes]
  by_cases hle : k ≤ 4
  · have hpad : natToLE 4 position = natToLE k position ++ List.replicate (4 - k) 0 := by
      rw [show 4 = k + (4 - k) by omega, natToLE_add, Nat.div_eq_of_lt hfits, natToLE_zero,
        Nat.add_sub_cancel_left]
    rw [← hpad]
    exact List.take_of_length_le (by rw [natToLE_length])
  · rw [show k = 4 + (k - 4) by omega, natToLE_add, List.append_assoc, List.take_left' (natToLE_length 4 _)]

/-- `bytes_to_uint64/1` of a hash is its first eight bytes. -/
theorem bytesToUint64_of_le {value : List UInt8} (h : 8 ≤ value.length) :
    bytesToUint64 value = some (leToNat (value.take 8)) := if_pos h

/-! ## The swap-or-not permutation -/

theorem flip_lt {indexCount : Nat} (hn : 0 < indexCount) (pivot x : Nat) : flip indexCount pivot x < indexCount :=
  Nat.mod_lt _ hn

theorem swapOrNotIndex_lt {indexCount pivot x : Nat} {bit : Nat → Bool} (hx : x < indexCount) :
    swapOrNotIndex indexCount pivot bit x < indexCount := by
  unfold swapOrNotIndex
  split
  · exact flip_lt (by omega) pivot x
  · exact hx

/-! ## The shuffled index -/

section ShuffledIndexProofs

variable {hash : List UInt8 → List UInt8} (hhash : ∀ bytes, (hash bytes).length = 32) (seed : List UInt8)
include hhash

/-- Bit `position % 256 + 7 - 2 * (position % 8)` of the source, counted from the most
    significant end, is bit `position % 8` of byte `position % 256 / 8`. -/
theorem getElem?_bytesToBits_roundSource (round position : Nat) :
    (bytesToBits (roundSource hash seed round position))[position % 256 + 7 - 2 * (position % 8)]? =
      some (roundBit hash seed round position) := by
  have hlen := hhash (seed ++ [round.toUInt8] ++ natToLE 4 (position / 256))
  have hq : position % 256 / 8 < (roundSource hash seed round position).length := by
    rw [roundSource, hlen]
    omega
  rw [show position % 256 + 7 - 2 * (position % 8) = 8 * (position % 256 / 8) + (7 - position % 8) by omega,
    getElem?_bytesToBits hq (by omega), getElem?_byteBits _ (Nat.mod_lt _ (by norm_num)), roundBit,
    List.getElem?_eq_getElem hq, Option.getD_some]

/-- A step of `compute_shuffled_index/3`'s reduce, at any round, is the swap-or-not of the
    round's low byte. -/
theorem shuffledIndexRound_eq_swapOrNotIndex {indexCount currentIndex : Nat} (round : Int) :
    shuffledIndexRound hash seed indexCount currentIndex round =
      some (swapOrNotIndex indexCount (roundPivot hash seed indexCount (round % 256).toNat)
        (roundBit hash seed (round % 256).toNat) currentIndex) := by
  have hsource : ∀ position, hash (seed ++ [((round % 256).toNat).toUInt8] ++ uintToBytes (position / 256) 32) =
      roundSource hash seed (round % 256).toNat position := fun _ => rfl
  have hpivot : 8 ≤ (hash (seed ++ [((round % 256).toNat).toUInt8])).length := by
    rw [hhash]
    omega
  simp only [shuffledIndexRound, bytesToUint64_of_le hpivot, hsource, getElem?_bytesToBits_roundSource hhash,
    Option.bind_eq_bind, Option.bind_some, Option.pure_def]
  rfl

/-- A step of `compute_shuffled_index/3`'s reduce is the round's swap-or-not. -/
theorem shuffledIndexRound_eq {indexCount currentIndex round : Nat} (hround : round < 256) :
    shuffledIndexRound hash seed indexCount currentIndex round =
      some (swapOrNotIndex indexCount (roundPivot hash seed indexCount round) (roundBit hash seed round)
        currentIndex) := by
  have hbyte : ((round : Int) % 256).toNat = round := by omega
  rw [shuffledIndexRound_eq_swapOrNotIndex hhash seed, hbyte]

/-- The reduce over any rounds follows the index through each round's swap-or-not. -/
theorem foldlM_shuffledIndexRound_eq {indexCount : Nat} (rounds : List Int) :
    ∀ x, rounds.foldlM (shuffledIndexRound hash seed indexCount) x =
      some (rounds.foldl (fun x round => swapOrNotIndex indexCount (roundPivot hash seed indexCount (round % 256).toNat)
        (roundBit hash seed (round % 256).toNat) x) x) := by
  induction rounds with
  | nil => intro x; rfl
  | cons round rounds ih =>
    intro x
    rw [List.foldlM_cons, shuffledIndexRound_eq_swapOrNotIndex hhash seed, Option.bind_eq_bind, Option.bind_some,
      ih, List.foldl_cons]

/-- The reduce over the rounds follows the index through each round's swap-or-not. -/
theorem foldlM_shuffledIndexRound {indexCount : Nat} (rounds : List Nat)
    (hrounds : ∀ round ∈ rounds, round < 256) :
    ∀ x, rounds.foldlM (fun currentIndex (round : Nat) => shuffledIndexRound hash seed indexCount currentIndex round) x =
      some (rounds.foldl (fun x round =>
        swapOrNotIndex indexCount (roundPivot hash seed indexCount round) (roundBit hash seed round) x) x) := by
  induction rounds with
  | nil => intro x; rfl
  | cons round rounds ih =>
    intro x
    rw [List.foldlM_cons, shuffledIndexRound_eq hhash seed (hrounds round List.mem_cons_self), Option.bind_eq_bind,
      Option.bind_some,
      ih (fun r hr => hrounds r (List.mem_cons_of_mem round hr)), List.foldl_cons]

/-- `compute_shuffled_index/3` of an index below the count is its shuffled index. -/
theorem computeShuffledIndex_eq {shuffleRoundCount indexCount index : Nat}
    (hrounds : 0 < shuffleRoundCount ∧ shuffleRoundCount ≤ 256) (hindex : index < indexCount) :
    computeShuffledIndex hash shuffleRoundCount index indexCount seed =
      some (.ok (shuffledIndex hash seed indexCount shuffleRoundCount index)) := by
  have hrange : roundRange shuffleRoundCount = (List.range shuffleRoundCount).map Int.ofNat := if_pos hrounds.1
  rw [computeShuffledIndex, if_neg (by omega), hrange, List.foldlM_map]
  simp only [Int.ofNat_eq_natCast]
  rw [foldlM_shuffledIndexRound hhash seed _ (fun r hr => by rw [List.mem_range] at hr; omega)]
  rfl

end ShuffledIndexProofs

/-! ## Disjoint swaps -/

section Swaps

variable {α : Type}

theorem length_swapValues (list : List α) (i j : Nat) : (swapValues list i j).length = list.length := by
  unfold swapValues
  split <;> simp

/-- Inside the list, `swap_values/3` reads position `i` at `j` and `j` at `i`. -/
theorem getElem?_swapValues {list : List α} {i j : Nat} (hi : i < list.length) (hj : j < list.length) (y : Nat) :
    (swapValues list i j)[y]? = list[if y = i then j else if y = j then i else y]? := by
  rw [swapValues, List.getElem?_eq_getElem hi, List.getElem?_eq_getElem hj]
  simp only [List.getElem?_set, List.length_set]
  by_cases hyj : y = j
  · subst hyj
    by_cases hyi : y = i
    · subst hyi
      simp [hi]
    · simp [hi, hj, hyi]
  · by_cases hyi : y = i
    · subst hyi
      simp [hi, hj, Ne.symm hyj]
    · simp [Ne.symm hyj, Ne.symm hyi, hyi, hyj]

/-- Swapping, or not, the pairs `(i, f i)` of a list of disjoint pairs inside the list reads
    each position of a pair at `g` of it and every other position at itself, for any `g` that
    sends a selected pair's ends to each other and an unselected pair's to themselves. The
    induction is on the pairs, the input generalised. -/
theorem getElem?_foldl_swapValues {f g : Nat → Nat} {selected : Nat → Bool} :
    ∀ (is : List Nat) (input : List α), (∀ i ∈ is, i < input.length ∧ f i < input.length) →
      (is ++ is.map f).Nodup →
      (∀ i ∈ is, g i = (if selected i then f i else i) ∧ g (f i) = (if selected i then i else f i)) →
      (is.foldl (fun list i => if selected i then swapValues list i (f i) else list) input).length = input.length ∧
      ∀ x, (is.foldl (fun list i => if selected i then swapValues list i (f i) else list) input)[x]? =
        input[if x ∈ is ∨ x ∈ is.map f then g x else x]?
  | [], input, _, _, _ => by simp
  | i :: rest, input, hlt, hnodup, hg => by
    have hi := hlt i List.mem_cons_self
    -- the pair `(i, f i)` is disjoint from the other pairs, and its ends are distinct
    have hnodup' : (i :: f i :: (rest ++ rest.map f)).Nodup := by
      refine (List.perm_cons i).mpr ?_ |>.nodup_iff.mp hnodup
      rw [List.map_cons]
      exact List.perm_middle
    rw [List.nodup_cons, List.nodup_cons, List.mem_cons, List.mem_append, List.mem_append] at hnodup'
    obtain ⟨hinotin, hfinotin, hrest⟩ := hnodup'
    have hif : i ≠ f i := fun h => hinotin (.inl h)
    have hstep_length : (if selected i then swapValues input i (f i) else input).length = input.length := by
      split <;> simp [length_swapValues]
    obtain ⟨ihlength, ih⟩ := getElem?_foldl_swapValues rest (if selected i then swapValues input i (f i) else input)
      (fun i' hi' => hstep_length ▸ hlt i' (List.mem_cons_of_mem i hi')) hrest
      (fun i' hi' => hg i' (List.mem_cons_of_mem i hi'))
    refine ⟨by rw [List.foldl_cons, ihlength, hstep_length], fun x => ?_⟩
    rw [List.foldl_cons, ih x]
    -- the step reads every position through the swap of `(i, f i)`, or not
    have hstep : ∀ y, (if selected i then swapValues input i (f i) else input)[y]? =
        input[if selected i then (if y = i then f i else if y = f i then i else y) else y]? := by
      intro y
      by_cases hsel : selected i
      · simp only [hsel, if_true, getElem?_swapValues hi.1 hi.2]
      · simp only [hsel, Bool.false_eq_true, if_false]
    rw [hstep]
    obtain ⟨hgi, hgfi⟩ := hg i List.mem_cons_self
    have hmem : ∀ y, y ∈ rest ∨ y ∈ rest.map f → y ∈ i :: rest ∨ y ∈ (i :: rest).map f := by
      rintro y (hy | hy)
      · exact .inl (List.mem_cons_of_mem i hy)
      · exact .inr (List.mem_cons_of_mem (f i) hy)
    by_cases hx : x ∈ rest ∨ x ∈ rest.map f
    · -- a position of another pair goes to that pair, away from `(i, f i)`
      have hgx : g x ∈ rest ∨ g x ∈ rest.map f := by
        rcases hx with hx | hx
        · rw [(hg x (List.mem_cons_of_mem i hx)).1]
          split
          · exact .inr (List.mem_map_of_mem hx)
          · exact .inl hx
        · obtain ⟨i', hi', rfl⟩ := List.mem_map.mp hx
          rw [(hg i' (List.mem_cons_of_mem i hi')).2]
          split
          · exact .inl hi'
          · exact .inr (List.mem_map_of_mem hi')
      have hgxi : g x ≠ i := fun h => hinotin (.inr (h ▸ hgx))
      have hgxfi : g x ≠ f i := fun h => hfinotin (h ▸ hgx)
      rw [if_pos hx, if_neg hgxi, if_neg hgxfi, ite_self, if_pos (hmem x hx)]
    · rw [if_neg hx]
      by_cases hxi : x = i
      · have hmemi : i ∈ i :: rest ∨ i ∈ (i :: rest).map f := .inl List.mem_cons_self
        rw [hxi, if_pos (show i = i from rfl), if_pos hmemi, hgi]
      · by_cases hxfi : x = f i
        · have hmemfi : f i ∈ i :: rest ∨ f i ∈ (i :: rest).map f := .inr (List.mem_map_of_mem List.mem_cons_self)
          rw [hxfi, if_neg (Ne.symm hif), if_pos (show f i = f i from rfl), if_pos hmemfi, hgfi]
        · have hnot : ¬(x ∈ i :: rest ∨ x ∈ (i :: rest).map f) := by
            rw [List.map_cons, List.mem_cons, List.mem_cons]
            rintro ((h | h) | (h | h))
            · exact hxi h
            · exact hx (.inl h)
            · exact hxfi h
            · exact hx (.inr h)
          rw [if_neg hxi, if_neg hxfi, ite_self, if_neg hnot]

end Swaps

/-! ## A round's pairs -/

section Pairs

variable {indexCount pivot : Nat}

theorem flip_of_le (hpivot : pivot < indexCount) {x : Nat} (hx : x ≤ pivot) : flip indexCount pivot x = pivot - x := by
  rw [flip, show pivot + indexCount - x = pivot - x + indexCount by omega, Nat.add_mod_right,
    Nat.mod_eq_of_lt (by omega)]

theorem flip_of_lt {x : Nat} (hpx : pivot < x) (hx : x < indexCount) :
    flip indexCount pivot x = pivot + indexCount - x :=
  Nat.mod_eq_of_lt (by omega)

/-- A position paired with itself stays. -/
theorem swapOrNotIndex_of_flip_eq {bit : Nat → Bool} {x : Nat} (h : flip indexCount pivot x = x) :
    swapOrNotIndex indexCount pivot bit x = x := by
  unfold swapOrNotIndex
  rw [h, ite_self]

/-- Inside `[0, pivot]`, `i` below the middle goes to `pivot - i` and back, on the bit of
    `pivot - i`. -/
theorem swapOrNotIndex_first (hpivot : pivot < indexCount) (bit : Nat → Bool) {i : Nat} (hi : 2 * i < pivot) :
    swapOrNotIndex indexCount pivot bit i = (if bit (pivot - i) then pivot - i else i) ∧
      swapOrNotIndex indexCount pivot bit (pivot - i) = (if bit (pivot - i) then i else pivot - i) := by
  have hflip : flip indexCount pivot (pivot - i) = i := by
    rw [flip_of_le hpivot (by omega), Nat.sub_sub_self (by omega)]
  unfold swapOrNotIndex
  rw [flip_of_le hpivot (by omega), hflip, Nat.max_eq_right (by omega), Nat.max_eq_left (by omega)]
  exact ⟨rfl, rfl⟩

/-- Inside `(pivot, indexCount)`, `i` below the middle goes to `pivot + indexCount - i` and back,
    on the bit of `pivot + indexCount - i`. -/
theorem swapOrNotIndex_second (bit : Nat → Bool) {i : Nat} (hpi : pivot < i) (hi : 2 * i < pivot + indexCount) :
    swapOrNotIndex indexCount pivot bit i =
        (if bit (pivot + indexCount - i) then pivot + indexCount - i else i) ∧
      swapOrNotIndex indexCount pivot bit (pivot + indexCount - i) =
        (if bit (pivot + indexCount - i) then i else pivot + indexCount - i) := by
  have hflip : flip indexCount pivot (pivot + indexCount - i) = i := by
    rw [flip_of_lt (by omega) (by omega), show pivot + indexCount - (pivot + indexCount - i) = i by omega]
  unfold swapOrNotIndex
  rw [flip_of_lt hpi (by omega), hflip, Nat.max_eq_right (by omega), Nat.max_eq_left (by omega)]
  exact ⟨rfl, rfl⟩

end Pairs

/-! ## The cached source -/

/-- The loop's cache holds the source of `position` and the byte of `position` in it. -/
def CacheValid (hash : List UInt8 → List UInt8) (seed : List UInt8) (round : Nat) {α : Type}
    (acc : SwapLoop α) (position : Nat) : Prop :=
  acc.source = roundSource hash seed round position ∧
    (roundSource hash seed round position)[position % 256 / 8]? = some acc.byteV

section Cache

variable {hash : List UInt8 → List UInt8} (hhash : ∀ bytes, (hash bytes).length = 32) (seed : List UInt8)
  {round : Nat} {α : Type}

/-- Within a run of 256 positions the source is one hash. -/
theorem roundSource_succ {position : Nat} (h : position % 256 ≠ 255) :
    roundSource hash seed round (position + 1) = roundSource hash seed round position := by
  rw [roundSource, roundSource, show (position + 1) / 256 = position / 256 by omega]

include hhash

theorem exists_getElem?_roundSource (round position : Nat) :
    ∃ byte, (roundSource hash seed round position)[position % 256 / 8]? = some byte :=
  ⟨_, List.getElem?_eq_getElem (by rw [roundSource, hhash]; omega)⟩

/-- A step of either loop: from a cache of `j` or of `j + 1` it reads the source and the byte of
    `j`, so its bit is the round's bit of `j`, and leaves the cache of `j`. -/
theorem swapOrNot_of_cacheValid (hround : round < 256) {j i : Nat} {acc : SwapLoop α}
    (hvalid : CacheValid hash seed round acc j ∨ CacheValid hash seed round acc (j + 1)) :
    ∃ acc', swapOrNot hash seed (encodeUnsignedLittle round) j i acc = some acc' ∧
      CacheValid hash seed round acc' j ∧
      acc'.input = if roundBit hash seed round j then swapValues acc.input i j else acc.input := by
  obtain ⟨byte, hbyte⟩ := exists_getElem?_roundSource hhash seed round j
  have hsource : source hash seed (encodeUnsignedLittle round) j acc.source = roundSource hash seed round j := by
    unfold source
    rw [land_0xFF, shiftRight_eight, positionBytes_eq, encodeUnsignedLittle_of_lt hround]
    split
    · rfl
    · rcases hvalid with hvalid | hvalid
      · exact hvalid.1
      · rw [hvalid.1, roundSource_succ seed (by omega)]
  have hbyteV : byteV (roundSource hash seed round j) j acc.byteV = some byte := by
    unfold byteV
    rw [land_0x07, land_0xFF, shiftRight_three]
    split
    · exact hbyte
    · rename_i hlow
      rcases hvalid with hvalid | hvalid
      · exact hvalid.2.symm.trans hbyte
      · rw [← hbyte, ← hvalid.2, roundSource_succ seed (by omega), show (j + 1) % 256 / 8 = j % 256 / 8 by omega]
  have hbit : (bitV byte j = 1) = (roundBit hash seed round j = true) := by
    rw [bitV, roundBit, hbyte, Option.getD_some, land_0x07, Nat.shiftRight_eq_div_pow, Nat.and_one_is_mod,
      beq_iff_eq]
  refine ⟨⟨roundSource hash seed round j, byte, if roundBit hash seed round j then swapValues acc.input i j
    else acc.input⟩, ?_, ⟨rfl, hbyte⟩, rfl⟩
  simp only [swapOrNot, hsource, hbyteV, hbit, Option.bind_eq_bind, Option.bind_some, Option.pure_def]

/-- A loop over consecutive positions whose partners go down one at a time keeps the cache
    right, so it swaps each pair on the round's bit of its partner; induction on the length,
    the start and the accumulator generalised. -/
theorem foldlM_swapOrNot (hround : round < 256) (jOf : Nat → Nat) :
    ∀ (k start : Nat) (acc : SwapLoop α),
      (0 < k → CacheValid hash seed round acc (jOf start) ∨ CacheValid hash seed round acc (jOf start + 1)) →
      (∀ t, t + 1 < k → jOf (start + t + 1) + 1 = jOf (start + t)) →
      ∃ acc', (List.range' start k).foldlM
          (fun acc i => swapOrNot hash seed (encodeUnsignedLittle round) (jOf i) i acc) acc = some acc' ∧
        acc'.input = (List.range' start k).foldl
          (fun list i => if roundBit hash seed round (jOf i) then swapValues list i (jOf i) else list) acc.input
  | 0, _, acc, _, _ => ⟨acc, rfl, rfl⟩
  | k + 1, start, acc, hvalid, hchain => by
    obtain ⟨acc₁, hstep, hvalid₁, hinput₁⟩ := swapOrNot_of_cacheValid hhash seed hround (i := start) (hvalid (by omega))
    have hnext : 0 < k → CacheValid hash seed round acc₁ (jOf (start + 1)) ∨
        CacheValid hash seed round acc₁ (jOf (start + 1) + 1) := by
      intro hk
      have hdown := hchain 0 (by omega)
      rw [Nat.add_zero] at hdown
      rw [hdown]
      exact .inr hvalid₁
    obtain ⟨acc', hloop, hinput'⟩ := foldlM_swapOrNot hround jOf k (start + 1) acc₁ hnext (fun t ht => by
      have hdown := hchain (t + 1) (by omega)
      rwa [show start + (t + 1) = start + 1 + t by omega] at hdown)
    refine ⟨acc', ?_, ?_⟩
    · rw [List.range'_succ, List.foldlM_cons, hstep, Option.bind_eq_bind, Option.bind_some, hloop]
    · rw [hinput', hinput₁, List.range'_succ, List.foldl_cons]

end Cache

/-! ## A round of the whole-list shuffle -/

/-- Consecutive positions and their partners are pairwise distinct when the partners are
    distinct and none is a position. -/
theorem nodup_range'_append_map {start k : Nat} {f : Nat → Nat}
    (hf : ∀ i ∈ List.range' start k, ∀ i' ∈ List.range' start k, f i = f i' → i = i')
    (hsep : ∀ i ∈ List.range' start k, ∀ i' ∈ List.range' start k, i ≠ f i') :
    (List.range' start k ++ (List.range' start k).map f).Nodup := by
  rw [List.nodup_append]
  refine ⟨List.nodup_range', List.Nodup.map_on hf List.nodup_range', ?_⟩
  intro a ha b hb
  obtain ⟨i', hi', rfl⟩ := List.mem_map.mp hb
  exact hsep a ha i' hi'

/-- A swap loop over the lower half of a window `[lo, hi]` pairs each position with its mirror
    `lo + hi - i`. When `g` swaps each pair on the loop's bit and fixes the middle, the loop
    reads a position of the window at its image under `g`, any other at itself. -/
theorem getElem?_foldl_window {α : Type} (lo hi : Nat) (selected : Nat → Bool) (g : Nat → Nat)
    {input : List α} (hhi : hi < input.length)
    (hg : ∀ i, lo ≤ i → 2 * i < lo + hi →
      g i = (if selected i then lo + hi - i else i) ∧ g (lo + hi - i) = (if selected i then i else lo + hi - i))
    (hmid : ∀ x, lo ≤ x → 2 * x = lo + hi → g x = x) :
    ((List.range' lo ((lo + hi + 1) / 2 - lo)).foldl
        (fun list i => if selected i then swapValues list i (lo + hi - i) else list) input).length = input.length ∧
      ∀ x, ((List.range' lo ((lo + hi + 1) / 2 - lo)).foldl
        (fun list i => if selected i then swapValues list i (lo + hi - i) else list) input)[x]? =
        input[if lo ≤ x ∧ x ≤ hi then g x else x]? := by
  have hpairs : ∀ i ∈ List.range' lo ((lo + hi + 1) / 2 - lo), lo ≤ i ∧ 2 * i < lo + hi := by
    intro i hin
    rw [List.mem_range'_1] at hin
    omega
  obtain ⟨hlength, hget⟩ := @getElem?_foldl_swapValues α (fun i => lo + hi - i) g selected
    (List.range' lo ((lo + hi + 1) / 2 - lo)) input
    (fun i hin => by have := hpairs i hin; omega)
    (nodup_range'_append_map
      (fun i hin i' hin' h => by have := hpairs i hin; have := hpairs i' hin'; omega)
      (fun i hin i' hin' => by have := hpairs i hin; have := hpairs i' hin'; omega))
    (fun i hin => hg i (hpairs i hin).1 (hpairs i hin).2)
  refine ⟨hlength, fun x => ?_⟩
  rw [hget x]
  congr 1
  by_cases hmem : x ∈ List.range' lo ((lo + hi + 1) / 2 - lo) ∨
      x ∈ (List.range' lo ((lo + hi + 1) / 2 - lo)).map (fun i => lo + hi - i)
  · have hwindow : lo ≤ x ∧ x ≤ hi := by
      rcases hmem with hmem | hmem
      · have := hpairs x hmem
        omega
      · obtain ⟨i, hin, rfl⟩ := List.mem_map.mp hmem
        have := hpairs i hin
        omega
    rw [if_pos hmem, if_pos hwindow]
  · rw [if_neg hmem]
    split
    · -- left out of every pair, `x` is the middle of the window, paired with itself
      rename_i hwindow
      have hlow : ¬ x < (lo + hi + 1) / 2 := fun h =>
        hmem (.inl (List.mem_range'_1.mpr ⟨hwindow.1, by omega⟩))
      have hhigh : ¬ lo + hi - x < (lo + hi + 1) / 2 := fun h =>
        hmem (.inr (List.mem_map.mpr ⟨lo + hi - x, List.mem_range'_1.mpr ⟨by omega, by omega⟩, by omega⟩))
      exact (hmid x hwindow.1 (by omega)).symm
    · rfl

section RoundProofs

variable {hash : List UInt8 → List UInt8} (hhash : ∀ bytes, (hash bytes).length = 32) (seed : List UInt8)
  {round : Nat} {α : Type}
include hhash

/-- The first loop swaps, or not, each pair inside `[0, pivot]`: a position there is read at its
    image under the round, any other at itself. -/
theorem firstHalf_getElem? (hround : round < 256) {input : List α} {pivot : Nat} (hpivot : pivot < input.length)
    {byte : UInt8} (hbyte : (roundSource hash seed round pivot)[pivot % 256 / 8]? = some byte) :
    ∃ acc, (List.range ((pivot + 1) / 2)).foldlM
        (fun acc i => swapOrNot hash seed (encodeUnsignedLittle round) (pivot - i) i acc)
        ⟨roundSource hash seed round pivot, byte, input⟩ = some acc ∧
      acc.input.length = input.length ∧
      ∀ x, x < input.length → acc.input[x]? =
        input[if x ≤ pivot then swapOrNotIndex input.length pivot (roundBit hash seed round) x else x]? := by
  rw [List.range_eq_range']
  obtain ⟨acc, hloop, hinput⟩ := foldlM_swapOrNot hhash seed hround (fun i => pivot - i) ((pivot + 1) / 2) 0
    ⟨roundSource hash seed round pivot, byte, input⟩ (fun _ => .inl ⟨rfl, hbyte⟩)
    (fun t ht => by omega)
  -- the window `[0, pivot]`
  obtain ⟨hlength, hget⟩ := getElem?_foldl_window 0 pivot (fun i => roundBit hash seed round (pivot - i))
    (swapOrNotIndex input.length pivot (roundBit hash seed round)) hpivot
    (fun i _ hi => by
      rw [Nat.zero_add]
      exact swapOrNotIndex_first hpivot _ (by omega))
    (fun x _ hx => swapOrNotIndex_of_flip_eq (by rw [flip_of_le hpivot (by omega)]; omega))
  simp only [Nat.zero_add, Nat.sub_zero, Nat.zero_le, true_and] at hlength hget
  exact ⟨acc, hloop, by rw [hinput, hlength], fun x _ => by rw [hinput, hget x]⟩

/-- The second loop swaps, or not, each pair inside `(pivot, indexCount)`, its partner counted
    down from the list's end. -/
theorem secondHalf_getElem? (hround : round < 256) {input : List α} {indexCount pivot : Nat}
    (hlength : input.length = indexCount) (hpivot : pivot < indexCount) {byte : UInt8}
    (hbyte : (roundSource hash seed round (indexCount - 1))[(indexCount - 1) % 256 / 8]? = some byte) :
    ∃ acc, (List.range' (pivot + 1) ((pivot + indexCount + 1) / 2 - (pivot + 1))).foldlM
        (fun acc i => swapOrNot hash seed (encodeUnsignedLittle round) (indexCount - 1 - (i - (pivot + 1))) i acc)
        ⟨roundSource hash seed round (indexCount - 1), byte, input⟩ = some acc ∧
      acc.input.length = indexCount ∧
      ∀ x, x < indexCount → acc.input[x]? =
        input[if pivot < x then swapOrNotIndex indexCount pivot (roundBit hash seed round) x else x]? := by
  obtain ⟨acc, hloop, hinput⟩ := foldlM_swapOrNot hhash seed hround
    (fun i => indexCount - 1 - (i - (pivot + 1))) ((pivot + indexCount + 1) / 2 - (pivot + 1)) (pivot + 1)
    ⟨roundSource hash seed round (indexCount - 1), byte, input⟩
    (fun _ => .inl ⟨by rw [Nat.sub_self, Nat.sub_zero], by rw [Nat.sub_self, Nat.sub_zero]; exact hbyte⟩)
    (fun t ht => by omega)
  -- the window `(pivot, indexCount)`, whose mirror the loop counts down from the end
  have hsum : pivot + 1 + (indexCount - 1) = pivot + indexCount := by omega
  obtain ⟨hlength', hget⟩ := getElem?_foldl_window (pivot + 1) (indexCount - 1)
    (fun i => roundBit hash seed round (pivot + indexCount - i))
    (swapOrNotIndex indexCount pivot (roundBit hash seed round)) (show indexCount - 1 < input.length by omega)
    (fun i hi₁ hi₂ => by
      rw [hsum]
      exact swapOrNotIndex_second _ (by omega) (by omega))
    (fun x hx₁ hx₂ => swapOrNotIndex_of_flip_eq (by rw [flip_of_lt (by omega) (by omega)]; omega))
  rw [hsum] at hlength' hget
  have hloopFn : (List.range' (pivot + 1) ((pivot + indexCount + 1) / 2 - (pivot + 1))).foldl
      (fun list i => if roundBit hash seed round (indexCount - 1 - (i - (pivot + 1)))
        then swapValues list i (indexCount - 1 - (i - (pivot + 1))) else list) input =
      (List.range' (pivot + 1) ((pivot + indexCount + 1) / 2 - (pivot + 1))).foldl
      (fun list i => if roundBit hash seed round (pivot + indexCount - i)
        then swapValues list i (pivot + indexCount - i) else list) input := by
    refine List.foldl_ext _ _ _ fun list i hin => ?_
    rw [List.mem_range'_1] at hin
    rw [show indexCount - 1 - (i - (pivot + 1)) = pivot + indexCount - i by omega]
  refine ⟨acc, hloop, by rw [hinput, hloopFn, hlength', hlength], fun x hx => ?_⟩
  rw [hinput, hloopFn, hget x]
  by_cases hpx : pivot < x
  · rw [if_pos ⟨hpx, by omega⟩, if_pos hpx]
  · rw [if_neg (by omega), if_neg hpx]

/-- A round of the whole-list shuffle reads each position at its image under the round. -/
theorem shuffleRound_getElem? (hround : round < 256) {input : List α} (hn : 0 < input.length) :
    ∃ output, shuffleRound hash seed round input = some output ∧ output.length = input.length ∧
      ∀ x, x < input.length → output[x]? =
        input[swapOrNotIndex input.length (roundPivot hash seed input.length round) (roundBit hash seed round) x]? := by
  have hpivot : roundPivot hash seed input.length round < input.length := Nat.mod_lt _ hn
  have hpart : part (hash (seed ++ encodeUnsignedLittle round)) 0 8 =
      some ((hash (seed ++ [round.toUInt8])).take 8) := by
    simp [part, encodeUnsignedLittle_of_lt hround, hhash]
  have hfold : leToNat ((hash (seed ++ [round.toUInt8])).take 8) % input.length =
      roundPivot hash seed input.length round := rfl
  have hsource : ∀ position, hash (seed ++ encodeUnsignedLittle round ++ positionBytes (position >>> 8)) =
      roundSource hash seed round position := by
    intro position
    rw [encodeUnsignedLittle_of_lt hround, positionBytes_eq, shiftRight_eight]
    rfl
  obtain ⟨byte₁, hbyte₁⟩ := exists_getElem?_roundSource hhash seed round (roundPivot hash seed input.length round)
  obtain ⟨acc₁, hloop₁, hlength₁, hget₁⟩ := firstHalf_getElem? hhash seed hround hpivot hbyte₁
  obtain ⟨byte₂, hbyte₂⟩ := exists_getElem?_roundSource hhash seed round (input.length - 1)
  obtain ⟨acc₂, hloop₂, hlength₂, hget₂⟩ := secondHalf_getElem? hhash seed hround hlength₁ hpivot hbyte₂
  refine ⟨acc₂.input, ?_, hlength₂, fun x hx => ?_⟩
  · simp only [shuffleRound, hpart, if_neg (Nat.pos_iff_ne_zero.mp hn), hfold, shiftRight_one, hsource, land_0xFF,
      shiftRight_three, hbyte₁, hloop₁, hbyte₂, hloop₂, Option.bind_eq_bind, Option.bind_some, Option.pure_def]
  · rw [hget₂ x hx]
    by_cases hpx : roundPivot hash seed input.length round < x
    · -- the second loop sends `x` inside `(pivot, n)`, where the first loop did nothing
      have hlt : swapOrNotIndex input.length (roundPivot hash seed input.length round) (roundBit hash seed round) x <
          input.length := swapOrNotIndex_lt hx
      have hgt : roundPivot hash seed input.length round <
          swapOrNotIndex input.length (roundPivot hash seed input.length round) (roundBit hash seed round) x := by
        unfold swapOrNotIndex
        rw [flip_of_lt hpx hx]
        split <;> omega
      rw [if_pos hpx, hget₁ _ hlt, if_neg (Nat.not_le.mpr hgt)]
    · rw [if_neg hpx, hget₁ x hx, if_pos (Nat.not_lt.mp hpx)]

end RoundProofs

/-! ## The whole shuffle -/

theorem shuffledIndex_lt {hash : List UInt8 → List UInt8} {seed : List UInt8} {indexCount x : Nat}
    (rounds : Nat) (hx : x < indexCount) : shuffledIndex hash seed indexCount rounds x < indexCount := by
  unfold shuffledIndex
  induction List.range rounds generalizing x with
  | nil => exact hx
  | cons round rest ih => exact ih (swapOrNotIndex_lt hx)

theorem shuffledIndex_succ (hash : List UInt8 → List UInt8) (seed : List UInt8) (indexCount rounds x : Nat) :
    shuffledIndex hash seed indexCount (rounds + 1) x =
      swapOrNotIndex indexCount (roundPivot hash seed indexCount rounds) (roundBit hash seed rounds)
        (shuffledIndex hash seed indexCount rounds x) := by
  rw [shuffledIndex, List.range_succ, List.foldl_append]
  rfl

/-- A seed of 32 bytes and a vector that is not empty go to the rounds. -/
theorem shuffleList_of_ne_nil (hash : List UInt8 → List UInt8) {α : Type} {shuffleRoundCount : Nat}
    {input : List α} {seed : List UInt8} (hseed : seed.length = 32) (hn : input ≠ []) :
    shuffleList hash shuffleRoundCount input seed = shuffleRounds hash seed shuffleRoundCount input := by
  rw [shuffleList, if_neg (by rw [hseed]; decide), if_neg (by simpa using hn)]

section ShuffleProofs

variable {hash : List UInt8 → List UInt8} (hhash : ∀ bytes, (hash bytes).length = 32) (seed : List UInt8) {α : Type}
include hhash

/-- Running the rounds from the last down to `0` reads each position at its shuffled index,
    which goes through them from `0` up; induction on the rounds. -/
theorem shuffleRounds_getElem? : ∀ {rounds : Nat}, rounds ≤ 256 → ∀ {input : List α}, 0 < input.length →
    ∃ output, shuffleRounds hash seed rounds input = some output ∧ output.length = input.length ∧
      ∀ x, x < input.length → output[x]? = input[shuffledIndex hash seed input.length rounds x]?
  | 0, _, input, _ => ⟨input, rfl, rfl, fun _ _ => rfl⟩
  | rounds + 1, hrounds, input, hn => by
    obtain ⟨output₁, hround, hlength₁, hget₁⟩ := shuffleRound_getElem? hhash seed (show rounds < 256 by omega) hn
    obtain ⟨output, hrest, hlength, hget⟩ := shuffleRounds_getElem? (show rounds ≤ 256 by omega) (hlength₁ ▸ hn)
    refine ⟨output, ?_, hlength.trans hlength₁, fun x hx => ?_⟩
    · rw [shuffleRounds, hround, Option.bind_eq_bind, Option.bind_some, hrest]
    · rw [hget x (hlength₁ ▸ hx), hlength₁, hget₁ _ (shuffledIndex_lt rounds hx), shuffledIndex_succ]

/-- `shuffle_list/2` of a vector puts at each position `i` the element at
    `compute_shuffled_index(i)`: the whole-list shuffle is the per-index one. -/
theorem shuffleList_eq_computeShuffledIndex {shuffleRoundCount : Nat}
    (hrounds : 0 < shuffleRoundCount ∧ shuffleRoundCount ≤ 256) {v : List α} (hv : v ≠ [])
    (hseed : seed.length = 32) :
    ∃ shuffled, shuffleList hash shuffleRoundCount v seed = some shuffled ∧ shuffled.length = v.length ∧
      ∀ i, i < v.length → ∃ j, computeShuffledIndex hash shuffleRoundCount i v.length seed = some (.ok j) ∧
        shuffled[i]? = v[j]? := by
  have hn : 0 < v.length := List.length_pos_iff.mpr hv
  obtain ⟨shuffled, hrounds', hlength, hget⟩ := shuffleRounds_getElem? hhash seed hrounds.2 hn
  refine ⟨shuffled, ?_, hlength, fun i hi => ⟨_, computeShuffledIndex_eq hhash seed hrounds hi, hget i hi⟩⟩
  rw [shuffleList_of_ne_nil hash hseed hv, hrounds']

end ShuffleProofs

/-- A stand-in for SHA-256 in the examples: 32 bytes, the `i`-th folding every input byte into
    `i + 1`, so that every byte of the input reaches every byte of the output. -/
def mixHash (bytes : List UInt8) : List UInt8 :=
  (List.range 32).map fun i => (bytes.foldl (fun acc b => acc * 31 + b.toNat) (i + 1)).toUInt8

theorem mixHash_length (bytes : List UInt8) : (mixHash bytes).length = 32 := by
  simp [mixHash]

/-- The seed of the examples: the bytes `0..31`. -/
def countingSeed : List UInt8 := (List.range 32).map Nat.toUInt8

/-- Five elements, 90 rounds as on mainnet, `mixHash` and the counting seed. -/
theorem shuffleList_five_matches_computeShuffledIndex :
    ∃ shuffled, shuffleList mixHash 90 [10, 20, 30, 40, 50] countingSeed = some shuffled ∧
      shuffled.length = 5 ∧ ∀ i, i < 5 → ∃ j,
        computeShuffledIndex mixHash 90 i 5 countingSeed = some (.ok j) ∧ shuffled[i]? = [10, 20, 30, 40, 50][j]? :=
  shuffleList_eq_computeShuffledIndex mixHash_length countingSeed ⟨by decide, by decide⟩
    (List.cons_ne_nil 10 [20, 30, 40, 50]) (by simp [countingSeed])

/-! ## The shuffle permutes -/

section Permutation

variable {hash : List UInt8 → List UInt8} {α : Type}

/-- `swap_values/3` permutes the vector: counted, each value loses at `j` what it gains at
    `i` and the other way round. -/
theorem perm_swapValues (list : List α) (i j : Nat) : (swapValues list i j).Perm list := by
  classical
  unfold swapValues
  split
  · rename_i valueI valueJ hi hj
    obtain ⟨hil, rfl⟩ := List.getElem?_eq_some_iff.mp hi
    obtain ⟨hjl, rfl⟩ := List.getElem?_eq_some_iff.mp hj
    rw [List.perm_iff_count]
    intro x
    have hjset : j < (list.set i list[j]).length := by simpa using hjl
    have hset : (list.set i list[j])[j] = list[j] := by
      rw [List.getElem_set]
      split <;> simp_all
    have hle : (if list[i] == x then 1 else 0) ≤ list.count x := by
      by_cases hx : list[i] = x
      · rw [if_pos (beq_iff_eq.mpr hx)]
        exact List.one_le_count_iff.mpr (hx ▸ List.getElem_mem hil)
      · rw [if_neg (by simpa using hx)]
        exact Nat.zero_le _
    rw [List.count_set hjset, hset, List.count_set hil]
    omega
  · exact List.Perm.refl list

theorem swapOrNot_perm {seed roundBytes : List UInt8} {j i : Nat} {acc acc' : SwapLoop α}
    (h : swapOrNot hash seed roundBytes j i acc = some acc') : acc'.input.Perm acc.input := by
  simp only [swapOrNot, Option.bind_eq_bind, Option.bind_eq_some_iff, Option.pure_def, Option.some.injEq] at h
  obtain ⟨byteV, _, rfl⟩ := h
  dsimp only
  split
  · exact perm_swapValues acc.input i _
  · exact List.Perm.refl acc.input

theorem foldlM_swapOrNot_perm {seed roundBytes : List UInt8} {jOf : Nat → Nat} {is : List Nat} {input : List α}
    {acc acc' : SwapLoop α} (h : is.foldlM (fun acc i => swapOrNot hash seed roundBytes (jOf i) i acc) acc = some acc')
    (hacc : acc.input.Perm input) : acc'.input.Perm input :=
  Fallible.foldlM_invariant (fun acc : SwapLoop α => acc.input.Perm input) hacc
    (fun _ _ _ _ hb hstep => (swapOrNot_perm hstep).trans hb) h

theorem shuffleRound_perm {seed : List UInt8} {round : Nat} {input output : List α}
    (h : shuffleRound hash seed round input = some output) : output.Perm input := by
  by_cases hn : input.length = 0
  · simp [shuffleRound, hn] at h
  simp only [shuffleRound, if_neg hn, Option.bind_eq_bind, Option.bind_eq_some_iff, Option.pure_def,
    Option.some.injEq] at h
  obtain ⟨_, _, _, _, _, _, acc, hfirst, _, _, acc', hsecond, rfl⟩ := h
  have hacc : acc.input.Perm input := foldlM_swapOrNot_perm hfirst (by exact List.Perm.refl input)
  exact foldlM_swapOrNot_perm hsecond hacc

theorem shuffleRounds_perm {seed : List UInt8} : ∀ {rounds : Nat} {input output : List α},
    shuffleRounds hash seed rounds input = some output → output.Perm input
  | 0, input, _, h => by
    rw [shuffleRounds, Option.some.injEq] at h
    exact h ▸ List.Perm.refl input
  | _ + 1, _, _, h => by
    simp only [shuffleRounds, Option.bind_eq_bind, Option.bind_eq_some_iff] at h
    obtain ⟨_, hround, hrest⟩ := h
    exact (shuffleRounds_perm hrest).trans (shuffleRound_perm hround)

/-- `shuffle_list/2` permutes its input. -/
theorem shuffleList_perm {shuffleRoundCount : Nat} {input output : List α} {seed : List UInt8}
    (h : shuffleList hash shuffleRoundCount input seed = some output) : output.Perm input := by
  unfold shuffleList at h
  split at h
  · contradiction
  split at h
  · rw [Option.some.injEq] at h
    exact h ▸ List.Perm.refl input
  · exact shuffleRounds_perm h

end Permutation

/-! ## `compute_shuffled_index/3` permutes the indices -/

section IndexPermutation

variable {indexCount pivot : Nat}

/-- A position's partner's partner is the position. -/
theorem flip_flip (hpivot : pivot < indexCount) {x : Nat} (hx : x < indexCount) :
    flip indexCount pivot (flip indexCount pivot x) = x := by
  by_cases hxp : x ≤ pivot
  · rw [flip_of_le hpivot hxp, flip_of_le hpivot (Nat.sub_le pivot x)]
    omega
  · rw [flip_of_lt (Nat.lt_of_not_le hxp) hx, flip_of_lt (by omega) (by omega)]
    omega

/-- Both ends of a pair read the bit at the larger one, so a round undoes itself. -/
theorem swapOrNotIndex_swapOrNotIndex (hpivot : pivot < indexCount) (bit : Nat → Bool) {x : Nat}
    (hx : x < indexCount) : swapOrNotIndex indexCount pivot bit (swapOrNotIndex indexCount pivot bit x) = x := by
  by_cases hbit : bit (max x (flip indexCount pivot x))
  · have hy : swapOrNotIndex indexCount pivot bit x = flip indexCount pivot x := if_pos hbit
    rw [hy, swapOrNotIndex, flip_flip hpivot hx, Nat.max_comm, if_pos hbit]
  · have hy : swapOrNotIndex indexCount pivot bit x = x := if_neg hbit
    rw [hy, hy]

/-- A round is a bijection of the indices below the count onto themselves: it is its own
    inverse there. -/
theorem bijOn_swapOrNotIndex (hpivot : pivot < indexCount) (bit : Nat → Bool) :
    Set.BijOn (swapOrNotIndex indexCount pivot bit) (Set.Iio indexCount) (Set.Iio indexCount) := by
  have hmaps : Set.MapsTo (swapOrNotIndex indexCount pivot bit) (Set.Iio indexCount) (Set.Iio indexCount) :=
    fun _ hx => swapOrNotIndex_lt hx
  have hinv : Set.InvOn (swapOrNotIndex indexCount pivot bit) (swapOrNotIndex indexCount pivot bit)
      (Set.Iio indexCount) (Set.Iio indexCount) :=
    ⟨fun _ hx => swapOrNotIndex_swapOrNotIndex hpivot bit hx, fun _ hx => swapOrNotIndex_swapOrNotIndex hpivot bit hx⟩
  exact hinv.bijOn hmaps hmaps

/-- Bijections of a set onto itself, one after the other, are one; induction on the steps. -/
theorem bijOn_foldl {β γ : Type} {s : Set β} (step : γ → β → β) (hstep : ∀ r, Set.BijOn (step r) s s) :
    ∀ rounds : List γ, Set.BijOn (fun x => rounds.foldl (fun x r => step r x) x) s s
  | [] => Set.bijOn_id s
  | r :: rounds => (bijOn_foldl step hstep rounds).comp (hstep r)

variable {hash : List UInt8 → List UInt8} (hhash : ∀ bytes, (hash bytes).length = 32) (seed : List UInt8)
include hhash

/-- For a count of at least one, `compute_shuffled_index/3` gives an index for every index
    below the count, and that map is a bijection of `[0, n)` onto itself, for every seed and
    every number of rounds: each round's low byte picks a swap-or-not round, which undoes
    itself. -/
theorem computeShuffledIndex_bijOn (shuffleRoundCount : Nat) (hn : 1 ≤ indexCount) :
    ∃ shuffled : Nat → Nat,
      (∀ i < indexCount, computeShuffledIndex hash shuffleRoundCount i indexCount seed = some (.ok (shuffled i))) ∧
        Set.BijOn shuffled (Set.Iio indexCount) (Set.Iio indexCount) := by
  refine ⟨fun i => (roundRange shuffleRoundCount).foldl (fun x round => swapOrNotIndex indexCount
    (roundPivot hash seed indexCount (round % 256).toNat) (roundBit hash seed (round % 256).toNat) x) i, ?_, ?_⟩
  · intro i hi
    rw [computeShuffledIndex, if_neg (by omega), foldlM_shuffledIndexRound_eq hhash seed]
    rfl
  · exact bijOn_foldl _ (fun round => bijOn_swapOrNotIndex (Nat.mod_lt _ hn) _) _

end IndexPermutation

/-- Three indices, 90 rounds as on mainnet, a hash of zeros and a zero seed. -/
theorem computeShuffledIndex_three_bijOn :
    ∃ shuffled : Nat → Nat,
      (∀ i < 3, computeShuffledIndex (fun _ => List.replicate 32 0) 90 i 3 (List.replicate 32 0) =
        some (.ok (shuffled i))) ∧ Set.BijOn shuffled (Set.Iio 3) (Set.Iio 3) :=
  computeShuffledIndex_bijOn (fun _ => List.length_replicate) (List.replicate 32 0) 90 (by decide)

end Shuffling

end LambdaEthereumConsensus.StateTransition
