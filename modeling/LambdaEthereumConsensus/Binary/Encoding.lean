import Mathlib

/-
  LambdaEthereumConsensus.Binary.Encoding — numbers as bytes and as bits, the way the
  BEAM's bit syntax lays them out, and the byte-string operations of its `:binary` module.

  A binary is a list of bytes and a bitstring a list of bits, most significant first:
  - `natToLE w n` is `<<n::integer-size(8 * w)-little>>` and `leToNat` reads it back;
  - `natToBits w n` is `<<n::integer-size(w)>>` and `bitsToNat` reads it back;
  - `part` is `:binary.part/3`, negative lengths included, `none` where it raises
    `ArgumentError`, and `split` is `:binary.split/3` with `[:global]`.

  The round trips (`leToNat_natToLE`, `natToLE_leToNat`, `bitsToNat_natToBits`,
  `natToBits_bitsToNat`) and how the writings split over a sum of widths (`natToLE_add`) are
  what the codec proofs use.
-/

namespace Binary

/-! ## Little-endian bytes -/

/-- `w` bytes holding `n` little-endian; what does not fit is dropped. -/
def natToLE : Nat → Nat → List UInt8
  | 0, _ => []
  | w + 1, n => UInt8.ofNat (n % 256) :: natToLE w (n / 256)

/-- The number little-endian bytes hold. -/
def leToNat : List UInt8 → Nat
  | [] => 0
  | b :: bs => b.toNat + 256 * leToNat bs

@[simp] theorem natToLE_length (w n : Nat) : (natToLE w n).length = w := by
  induction w generalizing n with
  | zero => rfl
  | succ w ih => simp [natToLE, ih]

@[simp] theorem leToNat_nil : leToNat [] = 0 := rfl

@[simp] theorem leToNat_cons (b : UInt8) (bs : List UInt8) :
    leToNat (b :: bs) = b.toNat + 256 * leToNat bs := rfl

theorem leToNat_lt (bs : List UInt8) : leToNat bs < 256 ^ bs.length := by
  induction bs with
  | nil => simp
  | cons b bs ih =>
    have hb : b.toNat < 256 := UInt8.toNat_lt b
    have hstep : 256 * leToNat bs + 256 ≤ 256 * 256 ^ bs.length := by omega
    rw [leToNat_cons, List.length_cons, Nat.pow_succ']
    omega

theorem leToNat_natToLE (w n : Nat) : leToNat (natToLE w n) = n % 256 ^ w := by
  induction w generalizing n with
  | zero => simp [natToLE, Nat.mod_one]
  | succ w ih =>
    simp only [natToLE, leToNat_cons, UInt8.toNat_ofNat', ih]
    have h256 : (256 : Nat) ^ (w + 1) = 256 * 256 ^ w := by ring
    rw [h256, Nat.mod_mul]
    norm_num

theorem natToLE_leToNat (bs : List UInt8) : natToLE bs.length (leToNat bs) = bs := by
  induction bs with
  | nil => rfl
  | cons b bs ih =>
    have hb : b.toNat < 256 := UInt8.toNat_lt b
    have hlow : (b.toNat + 256 * leToNat bs) % 256 = b.toNat := by omega
    have hhigh : (b.toNat + 256 * leToNat bs) / 256 = leToNat bs := by omega
    simp only [List.length_cons, natToLE, leToNat_cons]
    rw [hlow, hhigh, ih, UInt8.ofNat_toNat]

/-- A number that fits `w` bytes is all its `w` little-endian bytes say. -/
theorem leToNat_natToLE_of_lt {w n : Nat} (h : n < 256 ^ w) : leToNat (natToLE w n) = n := by
  rw [leToNat_natToLE, Nat.mod_eq_of_lt h]

/-- The first `a` bytes of `a + b` are those of `n`, the rest those of what is left above them. -/
theorem natToLE_add (a b n : Nat) : natToLE (a + b) n = natToLE a n ++ natToLE b (n / 256 ^ a) := by
  induction a generalizing n with
  | zero => simp [natToLE]
  | succ a ih =>
    rw [Nat.add_right_comm, natToLE, natToLE, ih, List.cons_append, Nat.div_div_eq_div_mul, Nat.pow_succ',
      Nat.mul_comm 256]

theorem natToLE_zero (w : Nat) : natToLE w 0 = List.replicate w 0 := by
  induction w with
  | zero => rfl
  | succ w ih => rw [natToLE, Nat.zero_div, ih]; rfl

/-! ## Bits, most significant first -/

/-- `w` bits holding `n`, least significant first. -/
def natToBitsLE : Nat → Nat → List Bool
  | 0, _ => []
  | w + 1, n => (n % 2 == 1) :: natToBitsLE w (n / 2)

/-- The number bits hold, least significant first. -/
def bitsLEToNat : List Bool → Nat
  | [] => 0
  | b :: bs => b.toNat + 2 * bitsLEToNat bs

/-- `<<n::integer-size(w)>>`: `w` bits holding `n`, most significant first. -/
def natToBits (w n : Nat) : List Bool := (natToBitsLE w n).reverse

/-- The number a bitstring holds, most significant bit first. -/
def bitsToNat (bs : List Bool) : Nat := bitsLEToNat bs.reverse

theorem natToBitsLE_length (w n : Nat) : (natToBitsLE w n).length = w := by
  induction w generalizing n with
  | zero => rfl
  | succ w ih => simp [natToBitsLE, ih]

@[simp] theorem natToBits_length (w n : Nat) : (natToBits w n).length = w := by
  simp [natToBits, natToBitsLE_length]

/-- Bit `k` of `natToBitsLE w n` is bit `k` of `n`. -/
theorem getElem?_natToBitsLE {w k : Nat} (n : Nat) (hk : k < w) :
    (natToBitsLE w n)[k]? = some (n / 2 ^ k % 2 == 1) := by
  induction w generalizing n k with
  | zero => omega
  | succ w ih =>
    cases k with
    | zero => simp [natToBitsLE]
    | succ k =>
      rw [natToBitsLE, List.getElem?_cons_succ, ih (n / 2) (by omega), Nat.div_div_eq_div_mul, Nat.pow_succ',
        Nat.mul_comm 2]

theorem bitsLEToNat_natToBitsLE (w n : Nat) : bitsLEToNat (natToBitsLE w n) = n % 2 ^ w := by
  induction w generalizing n with
  | zero => simp [natToBitsLE, bitsLEToNat, Nat.mod_one]
  | succ w ih =>
    simp only [natToBitsLE, bitsLEToNat, ih]
    rw [Nat.pow_succ', Nat.mod_mul]
    rcases Nat.mod_two_eq_zero_or_one n with h | h <;> simp [h]

theorem natToBitsLE_bitsLEToNat (bs : List Bool) : natToBitsLE bs.length (bitsLEToNat bs) = bs := by
  induction bs with
  | nil => rfl
  | cons b bs ih =>
    have hlow : (b.toNat + 2 * bitsLEToNat bs) % 2 = b.toNat := by cases b <;> simp
    have hhigh : (b.toNat + 2 * bitsLEToNat bs) / 2 = bitsLEToNat bs := by
      cases b <;> simp only [Bool.toNat_false, Bool.toNat_true] <;> omega
    simp only [List.length_cons, natToBitsLE, bitsLEToNat]
    rw [hlow, hhigh, ih]
    cases b <;> rfl

theorem bitsLEToNat_lt (bs : List Bool) : bitsLEToNat bs < 2 ^ bs.length := by
  induction bs with
  | nil => simp [bitsLEToNat]
  | cons b bs ih =>
    have hb : b.toNat < 2 := by cases b <;> simp
    simp only [bitsLEToNat, List.length_cons, Nat.pow_succ']
    omega

theorem bitsToNat_natToBits (w n : Nat) : bitsToNat (natToBits w n) = n % 2 ^ w := by
  simp [bitsToNat, natToBits, bitsLEToNat_natToBitsLE]

theorem natToBits_bitsToNat (bs : List Bool) : natToBits bs.length (bitsToNat bs) = bs := by
  have h := natToBitsLE_bitsLEToNat bs.reverse
  rw [List.length_reverse] at h
  simp only [natToBits, bitsToNat, h, List.reverse_reverse]

theorem natToBits_bitsToNat_of_length {w : Nat} {bs : List Bool} (h : bs.length = w) :
    natToBits w (bitsToNat bs) = bs := by
  subst h
  exact natToBits_bitsToNat bs

theorem bitsToNat_lt (bs : List Bool) : bitsToNat bs < 2 ^ bs.length := by
  simpa [bitsToNat] using bitsLEToNat_lt bs.reverse

/-- The bits of a byte, most significant first. -/
def byteBits (b : UInt8) : List Bool := natToBits 8 b.toNat

/-- A binary seen as a bitstring. -/
def bytesToBits (bs : List UInt8) : List Bool := bs.flatMap byteBits

/-- Counted from the most significant end, bit `7 - r` of a byte is its bit `r`. -/
theorem getElem?_byteBits (b : UInt8) {r : Nat} (hr : r < 8) :
    (byteBits b)[7 - r]? = some (b.toNat / 2 ^ r % 2 == 1) := by
  rw [byteBits, natToBits, List.getElem?_reverse (by rw [natToBitsLE_length]; omega), natToBitsLE_length,
    show 8 - 1 - (7 - r) = r by omega, getElem?_natToBitsLE _ hr]

/-- Bit `8 * q + t` of a binary is bit `t` of its byte `q`. -/
theorem getElem?_bytesToBits {bs : List UInt8} {q t : Nat} (hq : q < bs.length) (ht : t < 8) :
    (bytesToBits bs)[8 * q + t]? = (byteBits bs[q])[t]? := by
  induction bs generalizing q with
  | nil => simp at hq
  | cons b bs ih =>
    have hlen : (byteBits b).length = 8 := natToBits_length 8 b.toNat
    rw [bytesToBits, List.flatMap_cons]
    cases q with
    | zero => rw [List.getElem?_append_left (by omega), Nat.mul_zero, Nat.zero_add, List.getElem_cons_zero]
    | succ q =>
      rw [List.getElem?_append_right (by omega), hlen, show 8 * (q + 1) + t - 8 = 8 * q + t by omega]
      exact ih (by simp at hq; omega)

/-! ## The `:binary` module -/

/-- `:binary.part(subject, pos, len)`: the `len` bytes from `pos`, or for a negative `len`
    the `-len` bytes before `pos`; `none` where the part leaves the subject (`ArgumentError`). -/
def part (subject : List UInt8) (pos : Nat) (len : Int) : Option (List UInt8) :=
  if 0 ≤ len then
    if pos + len.toNat ≤ subject.length then some ((subject.drop pos).take len.toNat) else none
  else if len.natAbs ≤ pos ∧ pos ≤ subject.length then
    some ((subject.drop (pos - len.natAbs)).take len.natAbs)
  else none

/-- `:binary.encode_unsigned(n)`: the big-endian bytes of `n`, at least one. -/
def encodeUnsigned (n : Nat) : List UInt8 := (natToLE (Nat.log 256 n + 1) n).reverse

/-- `:binary.encode_unsigned(n, :little)`: the little-endian bytes of `n`, at least one. -/
def encodeUnsignedLittle (n : Nat) : List UInt8 := natToLE (Nat.log 256 n + 1) n

theorem encodeUnsignedLittle_length (n : Nat) : (encodeUnsignedLittle n).length = Nat.log 256 n + 1 :=
  natToLE_length _ n

/-- The bytes hold the whole number. -/
theorem lt_pow_encodeUnsignedLittle_length (n : Nat) : n < 256 ^ (encodeUnsignedLittle n).length := by
  rw [encodeUnsignedLittle_length]
  exact Nat.lt_pow_succ_log_self (by norm_num) n

theorem encodeUnsignedLittle_of_lt {n : Nat} (h : n < 256) : encodeUnsignedLittle n = [n.toUInt8] := by
  rw [encodeUnsignedLittle, Nat.log_of_lt h, natToLE, natToLE, Nat.mod_eq_of_lt h, Nat.toUInt8_eq]

/-- An upper-case hex digit. -/
def hexDigit (n : Nat) : Char := if n < 10 then Char.ofNat (48 + n) else Char.ofNat (55 + n)

/-- `Base.encode16/1`: two upper-case hex digits a byte. -/
def encode16 (bs : List UInt8) : String :=
  String.ofList (bs.flatMap fun b => [hexDigit (b.toNat / 16), hexDigit (b.toNat % 16)])

example : encode16 [2, 0xAB] = "02AB" := by decide

/-- `:binary.split/3` with `[:global]` read from one byte on: `skip` bytes of a match are still
    to pass, and `part` holds the part read so far, last byte first. -/
def splitFrom (pattern : List UInt8) : Nat → List UInt8 → List UInt8 → List (List UInt8)
  | _, part, [] => [part.reverse]
  | skip + 1, part, _ :: rest => splitFrom pattern skip part rest
  | 0, part, b :: rest =>
    if pattern.isPrefixOf (b :: rest) then part.reverse :: splitFrom pattern (pattern.length - 1) [] rest
    else splitFrom pattern 0 (b :: part) rest

/-- `:binary.split(subject, pattern, [:global])` for a non-empty pattern: the parts between its
    matches, found left to right without overlap, with the parts before the first match and
    after the last kept, empty or not. -/
def split (subject pattern : List UInt8) : List (List UInt8) := splitFrom pattern 0 [] subject

example : split [1, 0, 2, 0, 0, 3, 0] [0] = [[1], [2], [], [3], []] := by decide

/-- A part that stays inside the subject is the bytes from `pos` on, `len` of them. -/
theorem part_of_le {subject : List UInt8} {pos len : Nat} (h : pos + len ≤ subject.length) :
    part subject pos len = some ((subject.drop pos).take len) := by
  simp [part, h]

end Binary
