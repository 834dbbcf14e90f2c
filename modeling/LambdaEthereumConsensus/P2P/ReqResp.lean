import LambdaEthereumConsensus.SszEx.Decode

/-
  LambdaEthereumConsensus.P2P.ReqResp — the framing of Req/Resp messages: `encode_varint/1`
  and `decode_varint/1` (`p2p/utils.ex`), and `encode_response/1`, `encode_request/1`,
  `decode_response/2`, `split_response/1`, `decode_request/2` and
  `decode_response_chunk/2` (`p2p/req_resp.ex`).

  A chunk is its result byte, its context bytes, the varint of its SSZ size and the Snappy
  frame of its SSZ bytes. `encode_varint/1` is `Protobuf.Wire.Varint.encode/1`, a parameter here
  with its documented base-128 behaviour as a hypothesis (`Base128Varint`); `decode_varint/1`
  reads back what any such encoder wrote, whatever follows it (`decodeVarint_encodeVarint`).
  `Snappy.compress/1` and `Snappy.decompress/1` are a parameter, and ForkChoice's fork digest is
  one too. A request decodes to its value whenever Snappy and the SSZ codec read back what they
  wrote (`decodeRequest_encodeRequest`).

  `split_response/1` cuts a response at every occurrence of the result byte `0` followed by
  the fork digest, wherever it stands: in a size header, inside the compressed bytes of a
  value, or at a chunk's start. A value whose bytes hold that pattern, with a compression that
  keeps them, is cut in two; neither piece decodes, so the response of that one value fails
  (`decodeResponse_cuts_inside_value`).
-/

namespace LambdaEthereumConsensus.P2P

open LambdaEthereumConsensus.SszEx Binary

/-! ## Varints -/

/-- The documented behaviour of `Protobuf.Wire.Varint.encode/1`, the body of `encode_varint/1`:
    seven bits a byte, least significant first, the high bit set on every byte but the last. -/
structure Base128Varint (encodeVarint : Nat → List UInt8) : Prop where
  small : ∀ n, n < 128 → encodeVarint n = [n.toUInt8]
  large : ∀ n, 128 ≤ n → encodeVarint n = (n % 128 + 128).toUInt8 :: encodeVarint (n / 128)

/-- `decode_varint/3`: the bytes with the high bit set carry on; an empty binary ends with
    what was read. -/
def decodeVarintFrom : List UInt8 → Nat → Nat → Nat × List UInt8
  | [], acc, _ => (acc, [])
  | b :: rest, acc, shift =>
    if b.toNat < 128 then (acc + (b.toNat <<< shift), rest)
    else decodeVarintFrom rest (acc + ((b.toNat - 128) <<< shift)) (shift + 7)

/-- `decode_varint/1`. -/
def decodeVarint (bin : List UInt8) : Nat × List UInt8 := decodeVarintFrom bin 0 0

section Varint

variable {encodeVarint : Nat → List UInt8} (hvarint : Base128Varint encodeVarint)
include hvarint

/-- The varint reads back, whatever follows; strong induction on the number, one byte a step. -/
theorem decodeVarintFrom_encodeVarint (rest : List UInt8) (n : Nat) :
    ∀ acc shift, decodeVarintFrom (encodeVarint n ++ rest) acc shift = (acc + (n <<< shift), rest) := by
  induction n using Nat.strong_induction_on with
  | _ n ih =>
    intro acc shift
    by_cases hn : n < 128
    · have hbyte : (n.toUInt8).toNat = n := by
        rw [Nat.toUInt8_eq, UInt8.toNat_ofNat']
        omega
      rw [hvarint.small n hn, List.singleton_append, decodeVarintFrom, hbyte, if_pos hn]
    · have hbyte : ((n % 128 + 128).toUInt8).toNat = n % 128 + 128 := by
        rw [Nat.toUInt8_eq, UInt8.toNat_ofNat']
        omega
      have hhigh : n % 128 + 128 - 128 = n % 128 := by omega
      rw [hvarint.large n (by omega), List.cons_append, decodeVarintFrom, hbyte, if_neg (by omega), hhigh,
        ih (n / 128) (by omega)]
      have hsplit : (n % 128) <<< shift + (n / 128) <<< (shift + 7) = n <<< shift := by
        simp only [Nat.shiftLeft_eq, Nat.pow_add]
        calc n % 128 * 2 ^ shift + n / 128 * (2 ^ shift * 2 ^ 7)
            = (n % 128 + 128 * (n / 128)) * 2 ^ shift := by ring
          _ = n * 2 ^ shift := by rw [Nat.mod_add_div]
      rw [Prod.mk.injEq, Nat.add_assoc, hsplit]
      exact ⟨rfl, rfl⟩

theorem decodeVarint_encodeVarint (n : Nat) (rest : List UInt8) :
    decodeVarint (encodeVarint n ++ rest) = (n, rest) := by
  rw [decodeVarint, decodeVarintFrom_encodeVarint hvarint rest n 0 0, Nat.zero_add, Nat.shiftLeft_zero]

end Varint

/-! ## Chunks -/

/-- `Snappy.compress/1` and `Snappy.decompress/1`: `{:ok, binary}` or `{:error, message}`. -/
structure Snappy where
  compress : List UInt8 → Except String (List UInt8)
  decompress : List UInt8 → Except String (List UInt8)

/-- Decompressing what was compressed gives it back. -/
def Snappy.RoundTrips (snappy : Snappy) : Prop :=
  ∀ bytes, ∃ compressed, snappy.compress bytes = .ok compressed ∧ snappy.decompress compressed = .ok bytes

/-- `TypeAliases.error_message/0`. -/
def errorMessage : Schema := .byteList 256

/-- An element of `encode_response/1`'s list: `{:ok, {response, context_bytes}}` with the
    response's schema, or `{:error, {code, message}}`. -/
inductive ResponsePayload where
  | ok (response : Value) (sszSchema : Schema) (contextBytes : List UInt8)
  | error (code : UInt8) (message : List UInt8)

/-- What the decoders return besides `{:ok, _}`: `{:error, reason}` with a string, an SSZ
    failure or a peer's `%Error{}`, or the SSZ decoder's four-tuple, which `with` passes on. -/
inductive Reason where
  | message (text : String)
  | failure (f : Failure)
  | peer (code : UInt8) (message : Value)
  | offsets (f : Failure) (offsets : List (Nat × String × Schema)) (itemsIndex : Nat)

/-- `SszEx.decode/2`'s result as `decode_request/2`'s `with` returns it. -/
def Reason.ofDecoded : Decoded → Except Reason Value
  | .ok value => .ok value
  | .error f => .error (.failure f)
  | .errorOffsets f fieldOffsets itemsIndex => .error (.offsets f fieldOffsets itemsIndex)

section Framing

variable (snappy : Snappy) (encodeVarint : Nat → List UInt8)

/-- `encode/3`: a failed SSZ encoding or compression fails the `{:ok, _} =` match and raises. -/
def encode (result contextBytes : List UInt8) (response : Value) (sszSchema : Schema) : Option (List UInt8) := do
  let .ok sszResponse ← SszEx.encode response sszSchema | none
  let sizeHeader := encodeVarint sszResponse.length
  let .ok sszSnappyResponse := snappy.compress sszResponse | none
  pure (result ++ contextBytes ++ sizeHeader ++ sszSnappyResponse)

theorem encode_eq {result contextBytes : List UInt8} {response : Value} {sszSchema : Schema}
    {sszResponse compressed : List UInt8} (hssz : SszEx.encode response sszSchema = some (.ok sszResponse))
    (hcompress : snappy.compress sszResponse = .ok compressed) :
    encode snappy encodeVarint result contextBytes response sszSchema =
      some (result ++ contextBytes ++ encodeVarint sszResponse.length ++ compressed) := by
  simp [encode, hssz, hcompress]

/-- `encode_ok/2` with `{response, ssz_schema}`; a struct is the same with its module's schema. -/
def encodeOk (response : Value) (sszSchema : Schema) (contextBytes : List UInt8) : Option (List UInt8) :=
  encode snappy encodeVarint [0] contextBytes response sszSchema

/-- `encode_error/2`. -/
def encodeError (statusCode : UInt8) (message : List UInt8) : Option (List UInt8) :=
  encode snappy encodeVarint [statusCode] [] (.binary message) errorMessage

/-- `encode_response/1`. -/
def encodeResponse (responses : List ResponsePayload) : Option (List UInt8) := do
  let chunks ← responses.mapM fun
    | .ok response sszSchema contextBytes => encodeOk snappy encodeVarint response sszSchema contextBytes
    | .error code message => encodeError snappy encodeVarint code message
  pure chunks.flatten

/-- `encode_request/1` with `{request, ssz_schema}`. -/
def encodeRequest (request : Value) (sszSchema : Schema) : Option (List UInt8) :=
  encode snappy encodeVarint [] [] request sszSchema

/-- `decode_request/2`: the varint is read and dropped; a failed decompression is its
    `{:error, message}`, and `SszEx.decode/2`'s result is returned as it is. -/
def decodeRequest (chunk : List UInt8) (sszSchema : Schema) : Option (Except Reason Value) :=
  match snappy.decompress (decodeVarint chunk).2 with
  | .error message => some (.error (.message message))
  | .ok decompressed => (SszEx.decode decompressed sszSchema).map Reason.ofDecoded

/-- `decode_error/2`: the message is decoded as an `error_message`, and the peer's error
    returned; a message that does not decode returns its own failure. -/
def decodeError (code : UInt8) (encodedMessage : List UInt8) : Option Reason :=
  (decodeRequest snappy encodedMessage errorMessage).map fun
    | .ok message => .peer code message
    | .error reason => reason

/-- `split_response/1` against the fork digest `forkContext`. -/
def splitResponse (forkContext : List UInt8) : List UInt8 → Option (Except Reason (List (List UInt8)))
  | [] => some (.error (.message "unexpected EOF"))
  | 0 :: rest =>
    if 4 ≤ rest.length then
      if rest.take 4 = forkContext then some (.ok (split (rest.drop 4) (0 :: forkContext)))
      else some (.error (.message ("wrong context: " ++ encode16 (rest.take 4))))
    else (decodeError snappy 0 rest).map .error
  | errorCode :: message => (decodeError snappy errorCode message).map .error

/-- `decode_response/2`: the chunks that decode are kept; an `{:error, _}` is dropped, and the
    four-tuple matches no clause of the `fn` and raises. -/
def decodeResponse (forkContext responseChunk : List UInt8) (sszSchema : Schema) :
    Option (Except Reason (List Value)) := do
  match ← splitResponse snappy forkContext responseChunk with
  | .error reason => pure (.error reason)
  | .ok chunks =>
    let decoded ← chunks.mapM (decodeRequest snappy · sszSchema)
    let blocks ← decoded.mapM fun
      | .ok block => some [block]
      | .error (.offsets ..) => none
      | .error _ => some []
    match blocks.flatten with
    | [] => pure (.error (.message "all blocks decoding failed"))
    | blocks => pure (.ok blocks)

/-- `decode_response_chunk/2`: an empty binary matches no clause. -/
def decodeResponseChunk : List UInt8 → Schema → Option (Except Reason Value)
  | 0 :: chunk, sszSchema => decodeRequest snappy chunk sszSchema
  | code :: message, _ => (decodeError snappy code message).map .error
  | [], _ => none

end Framing

/-! ## A status message -/

/-- A compression that stores the bytes as they are. -/
def Snappy.uncompressed : Snappy := ⟨.ok, .ok⟩

/-- A varint encoder that is its documented behaviour, read as a definition. -/
def base128Varint (n : Nat) : List UInt8 :=
  if n < 128 then [n.toUInt8] else (n % 128 + 128).toUInt8 :: base128Varint (n / 128)
termination_by n
decreasing_by omega

theorem base128Varint_base128 : Base128Varint base128Varint where
  small n hn := by rw [base128Varint, if_pos hn]
  large n hn := by rw [base128Varint, if_neg (by omega)]

/-- `Types.StatusMessage.schema/0`. -/
def statusMessage : Schema :=
  .container "Types.StatusMessage"
    [("fork_digest", .byteVector 4), ("finalized_root", .byteVector 32), ("finalized_epoch", .int 64),
     ("head_root", .byteVector 32), ("head_slot", .int 64)]

/-- The fork digest `"abcd"`. -/
def abcd : List UInt8 := [97, 98, 99, 100]

/-- A status whose finalized root starts with `0` and the fork digest. -/
def cutStatus : Value :=
  .container [.binary abcd, .binary ([0] ++ abcd ++ List.replicate 27 0), .int 0, .binary (List.replicate 32 0), .int 0]

/-! ## Requests round trip -/

/-- A request decodes to its value whenever Snappy reads back what it wrote, the varint encoder
    behaves as documented and the SSZ codec reads back the value's bytes: the varint header is
    read over exactly. -/
theorem decodeRequest_encodeRequest (snappy : Snappy) (hsnappy : snappy.RoundTrips) {encodeVarint : Nat → List UInt8}
    (hvarint : Base128Varint encodeVarint) {request : Value} {sszSchema : Schema} {sszRequest : List UInt8}
    (hencode : SszEx.encode request sszSchema = some (.ok sszRequest))
    (hdecode : SszEx.decode sszRequest sszSchema = some (.ok request)) :
    (encodeRequest snappy encodeVarint request sszSchema).bind (decodeRequest snappy · sszSchema) =
      some (.ok request) := by
  obtain ⟨compressed, hcompress, hdecompress⟩ := hsnappy sszRequest
  rw [encodeRequest, encode_eq snappy encodeVarint hencode hcompress, Option.bind_some, decodeRequest, List.nil_append,
    List.nil_append, decodeVarint_encodeVarint hvarint, hdecompress]
  simp only [hdecode, Option.map_some]
  rfl

/-- The status message round trips as a request. -/
theorem status_request_round_trips :
    Snappy.uncompressed.RoundTrips ∧ Base128Varint base128Varint ∧
      (encodeRequest Snappy.uncompressed base128Varint cutStatus statusMessage).bind
        (decodeRequest Snappy.uncompressed · statusMessage) = some (.ok cutStatus) :=
  have hsnappy : Snappy.uncompressed.RoundTrips := fun bytes => ⟨bytes, rfl, rfl⟩
  ⟨hsnappy, base128Varint_base128,
    decodeRequest_encodeRequest Snappy.uncompressed hsnappy base128Varint_base128 rfl rfl⟩

/-! ## Where the code departs from the framing -/

set_option maxRecDepth 4000 in
/-- One well-typed status with the fork digest as context bytes: its response is cut after the
    digest inside its finalized root, and neither piece decodes as a status. -/
theorem decodeResponse_cuts_inside_value :
    Snappy.uncompressed.RoundTrips ∧ cutStatus.wellTyped statusMessage = true ∧
      ∃ response, encodeResponse Snappy.uncompressed base128Varint [.ok cutStatus statusMessage abcd] = some response ∧
        decodeResponse Snappy.uncompressed abcd response statusMessage =
          some (.error (.message "all blocks decoding failed")) := by
  have hssz : SszEx.encode cutStatus statusMessage =
      some (.ok (abcd ++ ([0] ++ abcd ++ List.replicate 27 0) ++ List.replicate 8 0 ++ List.replicate 32 0 ++
        List.replicate 8 0)) := rfl
  have hchunk : encodeOk Snappy.uncompressed base128Varint cutStatus statusMessage abcd =
      some ([0] ++ abcd ++ [84] ++ abcd ++ ([0] ++ abcd ++ List.replicate 27 0) ++ List.replicate 8 0 ++
        List.replicate 32 0 ++ List.replicate 8 0) := by
    rw [encodeOk, encode_eq Snappy.uncompressed base128Varint hssz rfl, base128Varint_base128.small _ (by decide)]
    rfl
  refine ⟨fun bytes => ⟨bytes, rfl, rfl⟩, rfl, [0] ++ abcd ++ [84] ++ abcd ++ ([0] ++ abcd ++ List.replicate 27 0) ++
    List.replicate 8 0 ++ List.replicate 32 0 ++ List.replicate 8 0, ?_, rfl⟩
  simp only [encodeResponse, List.mapM_cons, List.mapM_nil, hchunk]
  rfl

end LambdaEthereumConsensus.P2P
