import LambdaEthereumConsensus.SszEx.Encode

/-
  LambdaEthereumConsensus.SszEx.Decode — `SszEx.Decode.decode/2` (`ssz_ex/decode.ex`) and
  the entry point `SszEx.decode/2`.

  A call's outcome is `Option Decoded`: `none` where the code raises or never returns, else
  the term it returns. The raises are the code's own:
  - a binary pattern match that fails (`<<first_offset::32, ...>> = binary` on fewer than
    four bytes, `<<next_offset::32, ...>> = acc_rest_bytes` past the offset table);
  - `:binary.part/3` outside the binary (`Binary.part` is `none`);
  - `Enum.reverse/1` on the `{:error, _}` pair `decode_variable_list_elements` returns when an
    offset points into the offset table;
  - the key functions of `flatten_results/1` and `flatten_container_results/1`, which match
    `{type, _}` and so fail on the four-tuple a nested container's failed fixed section
    returns (`Decoded.errorOffsets`).
  `decode_fixed_collection` with a chunk size of zero on a non-empty binary never returns;
  its fuel, the binary's length, runs out there and nowhere else.

  Like the encoder, the recursion is structural on the schema: the element and field decoders
  are passed to the helpers as functions.

  At the end, inputs the codec mishandles: schemas that pass `validate_schema!` on which
  decoding raises (`decode_raises_on_valid_schemas`), binaries accepted though they are no
  encoding of a well-typed value (`decode_accepts_non_canonical`), and a well-typed value
  that does not come back from its encoding (`empty_container_vector_does_not_round_trip`).
-/

namespace LambdaEthereumConsensus.SszEx

open Binary LambdaEthereumConsensus.SszEx.Utils
open LambdaEthereumConsensus.Utils

namespace Decode

/-- `@bytes_per_length_offset`. -/
def bytesPerLengthOffset : Nat := 4

/-- A result as an `{:ok, _}` or `{:error, _}` pair; the four-tuple has no such shape. -/
def Decoded.toPair : Decoded → Option (Except Failure Value)
  | .ok v => some (.ok v)
  | .error e => some (.error e)
  | .errorOffsets _ _ _ => none

/-- `Utils.flatten_results/1` on decoding results: raises on a four-tuple, else the first error
    or every value. -/
def flattenDecoded (results : List Decoded) : Option (Except Failure (List Value)) := do
  let pairs ← results.mapM Decoded.toPair
  pure (flattenResults pairs)

/-- `flatten_container_results/1`: as `flattenDecoded`, on `{key, result}` pairs; an error's
    payload comes out paired with its key. -/
def flattenContainerResults (results : List (String × Decoded)) :
    Option (Except Failure (List (String × Value))) := do
  let pairs ← results.mapM fun r => (Decoded.toPair r.2).map fun p => (p.map (r.1, ·)).mapError (.field r.1)
  pure (flattenResults pairs)

/-- A list's values, or the error, as `decode` returns them. -/
def ofList : Except Failure (List Value) → Decoded
  | .ok vs => .ok (.list vs)
  | .error e => .error e

/-! ## Basic types and bitfields -/

/-- `decode_uint/2`. -/
def decodeUint (binary : List UInt8) (size : Nat) : Decoded :=
  if 8 * binary.length ≠ size then
    let found := 8 * binary.length
    .fail s!"Invalid binary length while decoding uint.\nExpected size: {size}.\nFound:{found}"
  else .ok (.int (leToNat binary))

/-- `decode_bool/1`. -/
def decodeBool (binary : List UInt8) : Decoded :=
  if binary.length ≠ 1 then
    let found := binary.length
    .fail s!"Invalid binary length while decoding bool.\nExpected size: 1.\nFound:{found}"
  else match binary with
    | [1] => .ok (.bool true)
    | [0] => .ok (.bool false)
    | _ =>
      let hex := encode16 binary
      .fail s!"Invalid binary value while decoding bool.\nExpected value: x01/x00.\nFound: x{hex}."

/-- `decode_bitlist/2`. `BitList.new/1` fails on the empty binary only, which the first clause
    answers. -/
def decodeBitlist (bitList : List UInt8) (maxSize : Nat) : Decoded :=
  match BitList.new bitList with
  | none => .fail "Invalid binary value while decoding BitList.\nEmpty binary found."
  | some decoded =>
    if bitList.getLast? = some 0 then
      .fail "Invalid binary value while decoding BitList.\nMissing sentinel bit."
    else if decoded.length > maxSize then
      let len := decoded.length
      .fail s!"Invalid binary length while decoding BitList. \nExpected max_size: {maxSize}. Found: {len}."
    else .ok (.bitstring decoded)

/-- `get_first_bytes/1`: the whole bytes before the last one; `-1` for size zero. -/
def getFirstBytes (size : Nat) : Int :=
  if size % 8 = 0 then (size / 8 : Nat) - 1 else (size / 8 : Nat)

/-- `decode_bitvector/2`: the binary must match
    `<<_first::binary-size(first_num_bytes), 0::size(padding_bits), _rest::size(8 - padding_bits)>>`. -/
def decodeBitvector (bitVector : List UInt8) (size : Nat) : Decoded :=
  let firstNumBytes := getFirstBytes size
  let paddingBits := (8 - size % 8) % 8
  let matched : Bool := decide (0 ≤ firstNumBytes) && decide ((bitVector.length : Int) = firstNumBytes + 1) &&
    match bitVector.getLast? with
    | some last => decide (last.toNat < 2 ^ (8 - paddingBits))
    | none => false
  if matched then .ok (.bitstring (BitVector.new bitVector size))
  else .fail s!"Invalid binary length while decoding BitVector. \nExpected size: {size}."

/-! ## Lists and vectors of fixed-size elements -/

/-- The loop of `decode_fixed_collection/4`: chunks decoded in order, results kept newest first. -/
def decodeFixedCollectionAux (dec : List UInt8 → Option Decoded) (chunkSize : Nat) :
    Nat → List UInt8 → List Decoded → Option (List Decoded)
  | _, [], results => some results
  | fuel + 1, binary, results =>
    if binary.length < chunkSize then
      let found := binary.length
      some (.fail s!"Invalid binary length while decoding collection. \nInner type size: {chunkSize} bytes. Binary length: {found} bytes." :: results)
    else do
      let element ← dec (binary.take chunkSize)
      decodeFixedCollectionAux dec chunkSize fuel (binary.drop chunkSize) (element :: results)
  | 0, _ :: _, _ => none

/-- `decode_fixed_collection/3`. -/
def decodeFixedCollection (dec : List UInt8 → Option Decoded) (binary : List UInt8) (chunkSize : Nat) :
    Option Decoded := do
  let results ← decodeFixedCollectionAux dec chunkSize binary.length binary []
  let flat ← flattenDecoded results.reverse
  pure (ofList flat)

/-- `decode_fixed_list/3`. -/
def decodeFixedList (dec : List UInt8 → Option Decoded) (binary : List UInt8) (inner : Schema) (size : Nat) :
    Option Decoded :=
  let fixedSize := getFixedSize inner
  let byteLength := binary.length
  if byteLength > fixedSize * size then
    let innerText := inner.inspect
    some (.fail s!"Invalid binary length while decoding list of {innerText}.\nExpected max_size: {size}.\nFound: {byteLength}")
  else decodeFixedCollection dec binary fixedSize

/-- `decode_fixed_vector/3`. -/
def decodeFixedVector (dec : List UInt8 → Option Decoded) (binary : List UInt8) (inner : Schema) (size : Nat) :
    Option Decoded := do
  let fixedSize := getFixedSize inner
  let byteSize := binary.length
  if byteSize ≠ fixedSize * size then
    let innerText := inner.inspect
    let expected := fixedSize * size
    pure (.fail s!"Invalid binary length while decoding vector of {innerText}.\nExpected size {expected} bytes.\nFound: {byteSize}.")
  else
    match ← decodeFixedCollection dec binary fixedSize with
    | .ok (.list decodedVector) =>
      if decodedVector.length = size ∧ 0 < decodedVector.length then pure (.ok (.list decodedVector))
      else
        let decodedSize := decodedVector.length
        pure (.fail s!"Invalid vector decoded size.\nExpected size: {size}. Decoded vector size: {decodedSize} ")
    | result => pure result

/-! ## Offsets -/

/-- `sanitize_offset/4`. Without a count of fixed bytes it checks the offset against the
    binary's end and the previous offset; with one, only against the fixed bytes. -/
def sanitizeOffset (offset : Nat) (previousOffset : Option Nat) (numBytes : Nat) :
    Option Nat → Except Error Unit
  | none =>
    if offset > numBytes then
      .error (Error.new s!"Offset points outside the binary. \nBinary length: {numBytes}.\nOffset: {offset}")
    else match previousOffset with
      | some previous =>
        if previous > offset then
          .error (Error.new s!"Offset points to bytes prior to the previous offset.\nPrevious offset: {previous}.\nOffset: {offset}")
        else .ok ()
      | none => .ok ()
  | some numFixedBytes =>
    if offset < numFixedBytes then
      .error (Error.new s!"Offset points “backwards” into the fixed-bytes portion. \nFirst variable byte index: {numFixedBytes}.\nOffset: {offset}.")
    else if previousOffset = none ∧ offset ≠ numFixedBytes then
      .error (Error.new s!"Offset does not point to the first variable byte.\nExpected index: {numFixedBytes}.\nOffset: {offset}.")
    else .ok ()

/-! ## Lists and vectors of variable-size elements -/

/-- What `decode_variable_list_elements/7` returns: its results, or the `{:error, _}` pair of
    a failed offset check. -/
inductive Elements where
  | results (rs : List Decoded)
  | error (e : Error)

/-- `decode_variable_list_elements/7`: each element is the bytes between its offset and the next,
    the last one runs to the end of the binary. -/
def decodeVariableListElements (dec : List UInt8 → Option Decoded) :
    Nat → List UInt8 → Nat → List UInt8 → Nat → List Decoded → Option Elements
  | 1, _, offset, binary, _, results => do
    let part ← Binary.part binary offset ((binary.length : Int) - offset)
    let element ← dec part
    pure (.results (element :: results))
  | numElements + 2, accRestBytes, offset, binary, firstOffset, results =>
    if accRestBytes.length < 4 then none
    else
      let nextOffset := leToNat (accRestBytes.take 4)
      match sanitizeOffset nextOffset (some offset) binary.length (some firstOffset) with
      | .error e => some (.error e)
      | .ok () => do
        let part ← Binary.part binary offset ((nextOffset : Int) - offset)
        let element ← dec part
        decodeVariableListElements dec (numElements + 1) (accRestBytes.drop 4) nextOffset binary firstOffset
          (element :: results)
  -- never called with no elements; the code would count below zero until the offsets ran out
  | 0, _, _, _, _, _ => none

/-- `decode_variable_list/3`, for lists and, with their length as maximum, vectors. -/
def decodeVariableList (dec : List UInt8 → Option Decoded) (binary : List UInt8) (inner : Schema) (size : Nat) :
    Option Decoded :=
  let innerText := inner.inspect
  if binary = [] then some (.ok (.list []))
  else if 4 ≤ binary.length ∧ leToNat (binary.take 4) / bytesPerLengthOffset > size then
    let firstOffset := leToNat (binary.take 4)
    some (.fail s!"Invalid binary while decoding list of {innerText}.\nExpected max_size: {size}.\n First offset points to: {firstOffset}.")
  -- `<<first_offset::integer-32-little, rest_bytes::bitstring>> = binary`
  else if binary.length < 4 then none
  else
    let firstOffset := leToNat (binary.take 4)
    let numElements := firstOffset / bytesPerLengthOffset
    if firstOffset % bytesPerLengthOffset ≠ 0 ∨ firstOffset < bytesPerLengthOffset then
      some (.fail s!"Invalid binary while decoding list of {innerText}.\nFirst offset points to: {firstOffset}.")
    else
      match sanitizeOffset firstOffset none binary.length (some firstOffset) with
      | .error e => some (.error (.error e))
      | .ok () => do
        match ← decodeVariableListElements dec numElements (binary.drop 4) firstOffset binary firstOffset [] with
        | .results results => do
          let flat ← flattenDecoded results.reverse
          pure (ofList flat)
        -- `Enum.reverse/1` of the `{:error, _}` pair raises `Protocol.UndefinedError`
        | .error _ => none

/-! ## Containers -/

/-- A container field: its key, its schema and its schema's decoder. -/
abbrev FieldDecoder := String × Schema × (List UInt8 → Option Decoded)

/-- `get_fixed_length/1`: four bytes for a variable field's offset, the fixed size of any other. -/
def getFixedLength (fields : List FieldDecoder) : Nat :=
  (fields.map fun f => if variableSize f.2.1 then bytesPerLengthOffset else getFixedSize f.2.1).sum

/-- What `decode_fixed_section/3` returns: the fixed fields' values or the first error of their
    reversed list, the variable fields' offsets in order, and the fixed section's length. -/
structure FixedSection where
  parts : Except Failure (List (String × Value))
  offsets : List (Nat × FieldDecoder)
  itemsIndex : Nat

/-- The reduction of `decode_fixed_section/3`: results and offsets kept newest first. -/
def decodeFixedSectionAux : List UInt8 → List FieldDecoder → List (String × Decoded) → List (Nat × FieldDecoder) →
    Nat → Option FixedSection
  | _, [], fixedParts, offsets, itemsIndex => do
    let parts ← flattenContainerResults fixedParts
    pure ⟨parts, offsets.reverse, itemsIndex⟩
  | binary, (key, schema, dec) :: rest, fixedParts, offsets, itemsIndex =>
    if variableSize schema then
      if binary.length < 4 then none
      else
        decodeFixedSectionAux (binary.drop 4) rest fixedParts ((leToNat (binary.take 4), (key, schema, dec)) :: offsets)
          (itemsIndex + bytesPerLengthOffset)
    else
      let sszFixedLen := getFixedSize schema
      if binary.length < sszFixedLen then none
      else do
        let chunk ← dec (binary.take sszFixedLen)
        decodeFixedSectionAux (binary.drop sszFixedLen) rest ((key, chunk.addTrace key) :: fixedParts) offsets
          (itemsIndex + sszFixedLen)

/-- `decode_fixed_section/3`. -/
def decodeFixedSection (binary : List UInt8) (fields : List FieldDecoder) : Option FixedSection :=
  decodeFixedSectionAux binary fields [] [] 0

/-- `check_first_offset/3`. -/
def checkFirstOffset (offsets : List (Nat × FieldDecoder)) (itemsIndex : Nat) : Except Error Unit :=
  match offsets with
  | (offset, _) :: _ =>
    if offset ≠ itemsIndex then
      .error (Error.new s!"First offset does not point to the first variable byte.\nExpected index: {itemsIndex}.\nOffset: {offset}.")
    else .ok ()
  | [] => .ok ()

/-- `decode_variable_section/3` over `Enum.chunk_every(offsets, 2, 1)`: each field is the bytes up
    to the next offset, the last runs to the end; the first failed offset check stops it. -/
def decodeVariableSection (fullBinary : List UInt8) :
    List UInt8 → List (Nat × FieldDecoder) → List (String × Decoded) → Option (Except Failure (List (String × Value)))
  -- the final `fn {<<>>, variable_parts}` needs every byte consumed
  | restBytes, [], parts => if restBytes = [] then flattenContainerResults parts else none
  | restBytes, [(_, key, _, dec)], parts => do
    let chunk ← dec restBytes
    flattenContainerResults ((key, chunk.addTrace key) :: parts)
  | restBytes, (offset, key, _, dec) :: (nextOffset, next) :: more, parts =>
    match sanitizeOffset nextOffset (some offset) fullBinary.length none with
    | .ok () =>
      let size := nextOffset - offset
      if restBytes.length < size then none
      else do
        let chunk ← dec (restBytes.take size)
        decodeVariableSection fullBinary (restBytes.drop size) ((nextOffset, next) :: more)
          ((key, chunk.addTrace key) :: parts)
    | .error e => flattenContainerResults ((key, .error (.error e)) :: parts)

/-- `struct!/2`: each field's value is that of the last pair under its key; every key has one. -/
def structBang (fields : List FieldDecoder) (parts : List (String × Value)) : Value :=
  .container (fields.map fun f => ((parts.reverse.find? (·.1 == f.1)).map Prod.snd).getD (.container []))

/-- `decode_variable_container/2`. -/
def decodeVariableContainer (fields : List FieldDecoder) (binary : List UInt8) : Option Decoded := do
  let fixedLength := getFixedLength fields
  match sanitizeOffset fixedLength none binary.length none with
  | .error e => pure (.error (.error e))
  | .ok () =>
    let fixedSection ← decodeFixedSection (binary.take fixedLength) fields
    match fixedSection.parts with
    | .error f => pure (.errorOffsets f (fixedSection.offsets.map fun o => (o.1, o.2.1, o.2.2.1)) fixedSection.itemsIndex)
    | .ok fixedParts =>
      match checkFirstOffset fixedSection.offsets fixedSection.itemsIndex with
      | .error e => pure (.error (.error e))
      | .ok () =>
        match ← decodeVariableSection binary (binary.drop fixedLength) fixedSection.offsets [] with
        | .error f => pure (.error f)
        | .ok variableParts => pure (.ok (structBang fields (fixedParts ++ variableParts)))

/-- `decode_fixed_container/2`. -/
def decodeFixedContainer (name : String) (fields : List FieldDecoder) (binary : List UInt8) : Option Decoded := do
  let fixedLength := getFixedLength fields
  let size := binary.length
  if fixedLength ≠ size then
    pure (.fail s!"Invalid binary length while decoding {name}. \nExpected {fixedLength}. \nFound {size}.")
  else
    let fixedSection ← decodeFixedSection binary fields
    match fixedSection.parts with
    | .error f => pure (.errorOffsets f (fixedSection.offsets.map fun o => (o.1, o.2.1, o.2.2.1)) fixedSection.itemsIndex)
    | .ok fixedParts => pure (.ok (structBang fields fixedParts))

mutual
/-- `Decode.decode/2`. -/
def decode : List UInt8 → Schema → Option Decoded
  | binary, .bool => some (decodeBool binary)
  | binary, .int size => some (decodeUint binary size)
  | value, .byteList _ => some (.ok (.binary value))
  | value, .byteVector _ => some (.ok (.binary value))
  | binary, .list inner size =>
    if variableSize inner then decodeVariableList (fun b => decode b inner) binary inner size
    else decodeFixedList (fun b => decode b inner) binary inner size
  | binary, .vector inner size =>
    if variableSize inner then decodeVariableList (fun b => decode b inner) binary inner size
    else decodeFixedVector (fun b => decode b inner) binary inner size
  | value, .bitlist maxSize => some (decodeBitlist value maxSize)
  | value, .bitvector size => some (decodeBitvector value size)
  | binary, .container name fields =>
    if variableSize (.container name fields) then decodeVariableContainer (fieldDecoders fields) binary
    else decodeFixedContainer name (fieldDecoders fields) binary
  termination_by structural _ s => s
/-- Each field of a module with its schema's decoder. -/
def fieldDecoders : List (String × Schema) → List FieldDecoder
  | [] => []
  | (key, schema) :: rest => (key, schema, fun b => decode b schema) :: fieldDecoders rest
  termination_by structural fields => fields
end

end Decode

/-- `Error.add_container/2` with a module: the module's last name goes in front of the trace
    of an `{:error, %Error{}}` pair. -/
def Decoded.addContainer (d : Decoded) (name : String) : Decoded :=
  match d with
  | .error (.error e) => .error (.error { e with stacktrace := ((name.splitOn ".").getLast?.getD name) :: e.stacktrace })
  | d => d

/-- `SszEx.decode/2`. -/
def decode (value : List UInt8) (schema : Schema) : Option Decoded :=
  match schema with
  | .container name _ => (Decode.decode value schema).map (·.addContainer name)
  | _ => Decode.decode value schema

/-- A list of lists matches its first offset out of the binary, so fewer than four bytes
    raise; and a container field whose own fixed section fails comes back as the four-tuple,
    which the outer `flatten_container_results/1` cannot match. Both schemas pass
    `validate_schema!`. -/
theorem decode_raises_on_valid_schemas :
    Utils.validateSchema (.list (.list (.int 8) 2) 2) = true ∧ decode [1] (.list (.list (.int 8) 2) 2) = none ∧
      Utils.validateSchema (.container "Types.A" [("x", .container "Types.B" [("flag", .bool)]), ("y", .byteList 2)]) = true ∧
      decode [8, 0, 0, 0, 2] (.container "Types.A" [("x", .container "Types.B" [("flag", .bool)]), ("y", .byteList 2)]) = none :=
  ⟨rfl, rfl, rfl, rfl⟩

/-- A byte list is returned as it is, however long; and the offsets of a list of
    variable-size elements are checked against the first offset only, so one that points
    back makes `:binary.part/3` take the bytes before it, and the value read re-encodes to
    other bytes. -/
theorem decode_accepts_non_canonical :
    (Utils.validateSchema (.byteList 1) = true ∧ decode [0, 0] (.byteList 1) = some (.ok (.binary [0, 0])) ∧
      (Value.binary [0, 0]).wellTyped (.byteList 1) = false) ∧
    (Utils.validateSchema (.list (.byteList 2) 3) = true ∧
      decode [12, 0, 0, 0, 14, 0, 0, 0, 13, 0, 0, 0, 5, 6, 7] (.list (.byteList 2) 3) =
        some (.ok (.list [.binary [5, 6], .binary [6], .binary [6, 7]])) ∧
      Encode.encode (.list [.binary [5, 6], .binary [6], .binary [6, 7]]) (.list (.byteList 2) 3) =
        some (.ok [12, 0, 0, 0, 14, 0, 0, 0, 15, 0, 0, 0, 5, 6, 6, 6, 7])) :=
  ⟨⟨rfl, rfl, rfl⟩, rfl, rfl, rfl⟩

/-- `SszEx.encode/2`. -/
def encode (value : Value) (schema : Schema) : Option (Except Error (List UInt8)) :=
  Encode.encode value schema

/-- A container without fields has fixed size zero: a vector of one encodes to no bytes,
    and no bytes decode to a vector of none. -/
theorem empty_container_vector_does_not_round_trip :
    Utils.validateSchema (.vector (.container "Types.Empty" []) 1) = true ∧
      (Value.list [.container []]).wellTyped (.vector (.container "Types.Empty" []) 1) = true ∧
      encode (.list [.container []]) (.vector (.container "Types.Empty" []) 1) = some (.ok []) ∧
      decode [] (.vector (.container "Types.Empty" []) 1) =
        some (.fail "Invalid vector decoded size.\nExpected size: 1. Decoded vector size: 0 ") :=
  ⟨rfl, rfl, rfl, rfl⟩

end LambdaEthereumConsensus.SszEx
