import LambdaEthereumConsensus.Binary.Encoding

/-
  LambdaEthereumConsensus.Utils.BitField — bitlists and bitvectors (`utils/bit_list.ex`,
  `utils/bit_vector.ex`).

  Both are bitstrings kept in big-endian byte order, so that `BitList.new` and
  `BitVector.new` reverse the bytes of their little-endian serialization and `to_bytes`
  reverses them back. A serialized bitlist ends in a sentinel bit, the highest set bit
  of its last byte.

  Proved:
  - `BitList.new_toBytes` / `BitVector.new_toBytes`: serializing and reading back gives
    the bits back.
  - `BitList.toBytes_new`: a binary whose last byte is not zero is what its bits
    serialize to, so only one binary serializes a bitlist; `BitVector.toBytes_new` is the
    same for a binary of the right length whose padding bits are clear.
  - `BitVector.map_set?_range`: `set?/2` reads the bitstring from its end, so index `i` is the
    `i`-th bit of the serialization.
  - `BitVector.all?_eq_true_iff`: `all?/2` on `first..last` reads the indices `first` to
    `last - 1`, as the unit tests of `bit_vector_test.exs` have it.
-/

namespace LambdaEthereumConsensus.Utils

open Binary

/-! ## The last byte of a bitlist -/

namespace BitList

/-- `remove_trailing_bit/1` on the bits of the last byte: the zeros above the sentinel and
    the sentinel itself go; a zero byte leaves nothing. -/
def removeTrailingBit : List Bool → List Bool
  | [] => []
  | true :: rest => rest
  | false :: rest => removeTrailingBit rest

/-- A byte whose highest set bit is bit `r` loses exactly that bit and the zeros above it. -/
theorem removeTrailingBit_byte : ∀ r < 8, ∀ p < 2 ^ r,
    removeTrailingBit (natToBits 8 (2 ^ r + p)) = natToBits r p := by
  decide

set_option maxRecDepth 8192 in
/-- Every byte but zero is a sentinel bit over the bits `removeTrailingBit` leaves. -/
theorem byte_eq_sentinel : ∀ l < 256, l ≠ 0 →
    (removeTrailingBit (natToBits 8 l)).length < 8 ∧
      2 ^ (removeTrailingBit (natToBits 8 l)).length + bitsToNat (removeTrailingBit (natToBits 8 l)) = l := by
  decide

/-! ## `BitList` -/

/-- `BitList.new/1` on a binary: the bits of the bytes before the last, most significant
    byte first, after the bits of the last byte below its sentinel. An empty binary does not
    match the function's pattern. -/
def new (bytes : List UInt8) : Option (List Bool) :=
  match bytes.getLast? with
  | none => none
  | some last =>
    some (removeTrailingBit (natToBits 8 last.toNat) ++
      natToBits (8 * (bytes.length - 1)) (leToNat bytes.dropLast))

/-- `BitList.to_bytes/1`: the whole bytes little-endian, then a last byte holding the sentinel
    over the `len % 8` leading bits. -/
def toBytes (bits : List Bool) : List UInt8 :=
  let r := bits.length % 8
  natToLE (bits.length / 8) (bitsToNat (bits.drop r)) ++ [UInt8.ofNat (2 ^ r + bitsToNat (bits.take r))]

/-- `BitList.to_packed_bytes/1`: as `to_bytes`, with a zero where the sentinel was. -/
def toPackedBytes (bits : List Bool) : List UInt8 :=
  let r := bits.length % 8
  natToLE (bits.length / 8) (bitsToNat (bits.drop r)) ++ [UInt8.ofNat (bitsToNat (bits.take r))]

theorem toBytes_length (bits : List Bool) : (toBytes bits).length = bits.length / 8 + 1 := by
  simp [toBytes]

/-- The last byte of a serialized bitlist holds its sentinel, so it is never zero. -/
theorem toBytes_getLast (bits : List Bool) :
    (toBytes bits).getLast? = some (UInt8.ofNat (2 ^ (bits.length % 8) + bitsToNat (bits.take (bits.length % 8)))) := by
  simp [toBytes]

/-- The last byte, the sentinel above fewer than eight leading bits, fits in a byte. -/
theorem toNat_sentinelByte {r lead : Nat} (hr : r < 8) (hlead : lead < 2 ^ r) :
    (UInt8.ofNat (2 ^ r + lead)).toNat = 2 ^ r + lead := by
  have hpow : 2 ^ r * 2 ≤ 256 := by
    calc 2 ^ r * 2 = 2 ^ (r + 1) := by ring
      _ ≤ 2 ^ 8 := Nat.pow_le_pow_right (by omega) (by omega)
      _ = 256 := by norm_num
  rw [UInt8.toNat_ofNat', Nat.mod_eq_of_lt (by omega)]

theorem new_toBytes (bits : List Bool) : new (toBytes bits) = some bits := by
  have hlen := toBytes_length bits
  have hlast := toBytes_getLast bits
  set r := bits.length % 8 with hr_def
  have hr : r < 8 := Nat.mod_lt _ (by omega)
  have htake : (bits.take r).length = r := by simp only [List.length_take]; omega
  have hp : bitsToNat (bits.take r) < 2 ^ r := by
    have := bitsToNat_lt (bits.take r)
    rwa [htake] at this
  have hdrop : (bits.drop r).length = 8 * (bits.length / 8) := by simp only [List.length_drop]; omega
  have hpost : bitsToNat (bits.drop r) < 256 ^ (bits.length / 8) := by
    have := bitsToNat_lt (bits.drop r)
    rwa [hdrop, Nat.pow_mul] at this
  have hbyte := toNat_sentinelByte hr hp
  -- the leading bits come back from the last byte, the rest from the whole bytes before it
  have hlead : removeTrailingBit (natToBits 8 (2 ^ r + bitsToNat (bits.take r))) = bits.take r := by
    rw [removeTrailingBit_byte r hr _ hp, natToBits_bitsToNat_of_length htake]
  have hrest : natToBits (8 * (bits.length / 8)) (bitsToNat (bits.drop r)) = bits.drop r := by
    rw [natToBits_bitsToNat_of_length hdrop]
  have hinit : (toBytes bits).dropLast = natToLE (bits.length / 8) (bitsToNat (bits.drop r)) := by
    rw [hr_def]
    simp only [toBytes, List.dropLast_concat]
  rw [new, hlast]
  simp only [hbyte, hlead, hinit, hlen, Nat.add_sub_cancel, leToNat_natToLE_of_lt hpost, hrest,
    List.take_append_drop]

/-- A binary with a non-zero last byte is the serialization of the bits it reads as. -/
theorem toBytes_new {bytes : List UInt8} {bits : List Bool} (hlast : ∀ l, bytes.getLast? = some l → l.toNat ≠ 0)
    (h : new bytes = some bits) : toBytes bits = bytes := by
  rcases hl : bytes.getLast? with _ | l
  · simp [new, hl] at h
  obtain ⟨init, rfl⟩ := List.getLast?_eq_some_iff.mp hl
  simp only [new, hl, Option.some.injEq, List.length_append, List.length_singleton,
    Nat.add_sub_cancel, List.dropLast_concat] at h
  subst h
  -- the last byte is a sentinel over the leading bits
  obtain ⟨htlen, htval⟩ := byte_eq_sentinel l.toNat (UInt8.toNat_lt l) (hlast l hl)
  set lead := removeTrailingBit (natToBits 8 l.toNat)
  set rest := natToBits (8 * init.length) (leToNat init)
  have hrest : rest.length = 8 * init.length := natToBits_length _ _
  have hr : (lead ++ rest).length % 8 = lead.length := by
    rw [List.length_append, hrest]; omega
  have hq : (lead ++ rest).length / 8 = init.length := by
    rw [List.length_append, hrest]; omega
  have hinit : bitsToNat rest = leToNat init := by
    have hlt : leToNat init < 2 ^ (8 * init.length) := by
      rw [Nat.pow_mul]; exact leToNat_lt init
    rw [bitsToNat_natToBits, Nat.mod_eq_of_lt hlt]
  simp only [toBytes, hr, hq, List.take_left, List.drop_left, hinit, natToLE_leToNat, htval,
    UInt8.ofNat_toNat]

end BitList

/-! ## `BitVector` -/

namespace BitVector

/-- `BitVector.new/2` on a binary: its little-endian number in `size` bits. -/
def new (bytes : List UInt8) (size : Nat) : List Bool := natToBits size (leToNat bytes)

/-- `BitVector.to_bytes/1`: the number of the bits, little-endian in as many bytes as the
    bitstring spans. -/
def toBytes (bits : List Bool) : List UInt8 := natToLE ((bits.length + 7) / 8) (bitsToNat bits)

theorem toBytes_length (bits : List Bool) : (toBytes bits).length = (bits.length + 7) / 8 := by
  simp [toBytes]

theorem new_toBytes (bits : List Bool) : new (toBytes bits) bits.length = bits := by
  have hlt : bitsToNat bits < 256 ^ ((bits.length + 7) / 8) := by
    calc bitsToNat bits < 2 ^ bits.length := bitsToNat_lt bits
      _ ≤ 2 ^ (8 * ((bits.length + 7) / 8)) := Nat.pow_le_pow_right (by omega) (by omega)
      _ = 256 ^ ((bits.length + 7) / 8) := by rw [Nat.pow_mul]
  rw [new, toBytes, leToNat_natToLE_of_lt hlt, natToBits_bitsToNat]

/-- Bytes of the length `size` bits need, whose number fits in `size` bits, are what the
    bits they read as serialize to. -/
theorem toBytes_new {bytes : List UInt8} {size : Nat} (hlen : bytes.length = (size + 7) / 8)
    (hfit : leToNat bytes < 2 ^ size) : toBytes (new bytes size) = bytes := by
  rw [toBytes, new, natToBits_length, bitsToNat_natToBits, Nat.mod_eq_of_lt hfit, ← hlen]
  exact natToLE_leToNat bytes

/-- `BitVector.set?/2` (`BitField.set?/2`): bit `index` stands `index + 1` places from the end
    of the bitstring; past the end nothing matches. -/
def set? (bits : List Bool) (index : Nat) : Bool :=
  decide (index < bits.length) && bits.getD (bits.length - index - 1) false

/-- `BitVector.count/1`. -/
def count (bits : List Bool) : Nat := bits.count true

/-- Read index by index, a bit vector is its bitstring reversed. -/
theorem map_set?_range (bits : List Bool) : (List.range bits.length).map (set? bits) = bits.reverse := by
  apply List.ext_getElem (by simp)
  intro k hk _
  have hk' : k < bits.length := by simpa using hk
  simp [set?, hk', List.getD_eq_getElem?_getD, List.getElem_reverse]
  rw [show bits.length - k - 1 = bits.length - 1 - k by omega, List.getElem?_eq_getElem (by omega)]
  rfl

/-- `BitVector.shift_higher/2` (`BitField.shift_higher/2`): the bitstring loses its first
    `steps` bits, the highest indices, and ends in as many zeros, the lowest; a shorter
    bitstring does not match. -/
def shiftHigher (bits : List Bool) (steps : Nat) : Option (List Bool) :=
  if steps ≤ bits.length then some (bits.drop steps ++ List.replicate steps false) else none

/-- `BitVector.set/2` (`BitField.set/2`): bit `index` stands `index + 1` places from the end;
    past the end the match raises. -/
def set (bits : List Bool) (index : Nat) : Option (List Bool) :=
  if index < bits.length then some (bits.set (bits.length - index - 1) true) else none

/-- `BitVector.all?/2` (`BitField.all?/2`) on `first..last`: the `last - first` bits that end
    `last` places from the end of the bitstring are set. A range past the end, or one counting
    down, matches nothing. -/
def all? (bits : List Bool) (first last : Nat) : Bool :=
  decide (first ≤ last) && decide (last ≤ bits.length) &&
    ((bits.drop (bits.length - last)).take (last - first)).all id

theorem set?_of_lt {bits : List Bool} {i : Nat} (hi : i < bits.length) :
    set? bits i = bits[bits.length - i - 1] := by
  simp [set?, hi, List.getD_eq_getElem?_getD,
    List.getElem?_eq_getElem (show bits.length - i - 1 < bits.length by omega)]

/-- `all?/2` on `first..last` reads the indices `first` to `last - 1`: the range's upper end is
    left out. -/
theorem all?_eq_true_iff {bits : List Bool} {first last : Nat} (hfirst : first ≤ last) (hlast : last ≤ bits.length) :
    all? bits first last = true ↔ ∀ i, first ≤ i → i < last → set? bits i = true := by
  simp only [all?, hfirst, hlast, decide_true, Bool.true_and, List.all_eq_true, id_eq]
  constructor
  · intro h i hi hi'
    rw [set?_of_lt (by omega)]
    apply h
    rw [List.mem_iff_getElem]
    refine ⟨last - 1 - i, by simp; omega, ?_⟩
    simp only [List.getElem_take, List.getElem_drop]
    congr 1
    omega
  · intro h x hx
    obtain ⟨k, hk, rfl⟩ := List.mem_iff_getElem.mp hx
    simp only [List.length_take, List.length_drop] at hk
    have hi := h (last - 1 - k) (by omega) (by omega)
    rw [set?_of_lt (by omega)] at hi
    simp only [List.getElem_take, List.getElem_drop]
    rw [← hi]
    congr 1
    omega

end BitVector

end LambdaEthereumConsensus.Utils
