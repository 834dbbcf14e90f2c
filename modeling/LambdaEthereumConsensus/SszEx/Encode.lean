import LambdaEthereumConsensus.SszEx.Schema
import LambdaEthereumConsensus.Utils.BitField

/-
  LambdaEthereumConsensus.SszEx.Encode — `SszEx.Encode.encode/2` (`ssz_ex/encode.ex`).

  A call's outcome is `Option (Except Error (List UInt8))`: `none` where the code raises
  (a value of a shape no clause accepts, or a struct missing a schema key), else the
  `{:ok, binary}` or `{:error, error}` it returns. Every helper keeps the code's order of
  evaluation: `Enum.map` encodes every element before the results are flattened, so a
  raise anywhere raises, while `Enum.reduce_while` in `encode_variable_parts` stops at the
  first error and encodes nothing after it.

  The recursion is structural on the schema; an element's encoder is passed to the list
  and container helpers as a function, and `fieldEncoders` pairs each container field with
  its encoder.
-/

namespace LambdaEthereumConsensus.SszEx

open Binary LambdaEthereumConsensus.SszEx.Utils
open LambdaEthereumConsensus.Utils

/-- `flatten_results/1` on results that are all `{:ok, _}` or `{:error, _}` pairs: the first
    error, or every value in order. -/
def Utils.flattenResults {ε α : Type} : List (Except ε α) → Except ε (List α)
  | [] => .ok []
  | .error e :: _ => .error e
  | .ok a :: rest => (flattenResults rest).map (a :: ·)

namespace Encode

/-- `@bytes_per_length_offset`. -/
def bytesPerLengthOffset : Nat := 4

/-- `encode_int/2`: `<<value::size(size)-little>>`, for the byte-multiple widths
    `validate_schema!` admits. -/
def encodeInt (value size : Nat) : List UInt8 := natToLE (size / 8) value

/-- `encode_bool/1`. -/
def encodeBool : Bool → List UInt8
  | true => [1]
  | false => [0]

/-- `check_length/2`: offsets are 32 bits wide. -/
def checkLength (fixedLengths totalByteSize : Nat) : Except Error Unit :=
  if fixedLengths + totalByteSize < 2 ^ (bytesPerLengthOffset * 8) then .ok ()
  else
    let total := fixedLengths + totalByteSize
    .error (Error.new s!"Invalid binary size after encoding. Size out of offset range. Size: {total}")

/-- `encode_bitlist/2`. -/
def encodeBitlist (bitList : List Bool) (maxSize : Nat) : Except Error (List UInt8) :=
  let len := bitList.length
  if len > maxSize then
    .error (Error.new s!"Invalid binary length while encoding BitList.\nExpected max_size: {maxSize}. Found: {len}.")
  else .ok (BitList.toBytes bitList)

/-- `encode_bitvector/2`. -/
def encodeBitvector (bitVector : List Bool) (size : Nat) : Except Error (List UInt8) :=
  if bitVector.length ≠ size then
    let found := bitVector.length
    .error (Error.new s!"Invalid binary length while encoding BitVector. \nExpected: {size}.\nFound: {found}.")
  else .ok (BitVector.toBytes bitVector)

/-- The error of a list longer than its schema allows. -/
def listTooLong (inner : Schema) (maxSize size : Nat) : Error :=
  let innerText := inner.inspect
  Error.new s!"Invalid binary length while encoding list of {innerText}.\nExpected max_size: {maxSize}.\nFound: {size}"

/-- `encode_fixed_size_list/3`: every element is encoded, then the results flattened and joined. -/
def encodeFixedSizeList (enc : Value → Option (Except Error (List UInt8))) (list : List Value)
    (inner : Schema) (maxSize : Nat) : Option (Except Error (List UInt8)) :=
  if list.length > maxSize then some (.error (listTooLong inner maxSize list.length))
  else do
    let results ← list.mapM enc
    pure ((flattenResults results).map List.flatten)

/-- `encode_variable_parts/2`: the elements' encodings, stopping at the first error. -/
def encodeVariableParts (enc : Value → Option (Except Error (List UInt8))) :
    List Value → Option (Except Error (List (List UInt8)))
  | [] => some (.ok [])
  | value :: rest => do
    match ← enc value with
    | .error e => pure (.error e)
    | .ok encoded => do
      let parts ← encodeVariableParts enc rest
      pure (parts.map (encoded :: ·))

/-- The offsets `encode_variable_size_list/3` computes: each part starts where the ones
    before it end, after `start` bytes of offsets. -/
def calculateOffsets (start : Nat) : List (List UInt8) → List Nat
  | [] => []
  | part :: rest => start :: calculateOffsets (start + part.length) rest

/-- `encode_variable_size_list/3`: the offsets, each a 32-bit integer, then the parts. -/
def encodeVariableSizeList (enc : Value → Option (Except Error (List UInt8))) (list : List Value)
    (inner : Schema) (maxSize : Nat) : Option (Except Error (List UInt8)) :=
  if list.length > maxSize then some (.error (listTooLong inner maxSize list.length))
  else do
    let fixedLengths := bytesPerLengthOffset * list.length
    match ← encodeVariableParts enc list with
    | .error e => pure (.error e)
    | .ok parts =>
      match checkLength fixedLengths (parts.map List.length).sum with
      | .error e => pure (.error e)
      | .ok () =>
        -- every offset is below 2 ^ 32, so `encode(&1, {:int, 32})` cannot fail
        let offsets := (calculateOffsets fixedLengths parts).map (encodeInt · 32)
        pure (.ok (offsets.flatten ++ parts.flatten))

/-- A container field: its key, its schema and its schema's encoder. -/
abbrev FieldEncoder := String × Schema × (Value → Option (Except Error (List UInt8)))

/-- The fixed section `encode_container/2` encodes after `replace_offsets/2`: a fixed field's
    value under its key, a variable field's offset as a 32-bit integer under `:offset`. -/
def encodeFixedParts : List (Value × FieldEncoder) → List Nat → Option (List (Except Error (List UInt8)))
  | [], _ => some []
  | (value, key, schema, enc) :: rest, offsets =>
    if variableSize schema then
      match offsets with
      | offset :: more => do
        let parts ← encodeFixedParts rest more
        pure (.ok (encodeInt offset 32) :: parts)
      | [] => none
    else do
      let encoded ← enc value
      let parts ← encodeFixedParts rest offsets
      pure (Error.addTrace encoded key :: parts)

/-- `encode_container/2` on a struct's values and its module's fields. The variable fields are
    encoded first; their errors win over the fixed fields', which are not encoded then. -/
def encodeContainer (values : List Value) (fields : List FieldEncoder) : Option (Except Error (List UInt8)) := do
  -- `Map.fetch!/2` raises on a schema key the struct lacks; keys past the schema's are not read
  if values.length < fields.length then none
  let cells := values.zip fields
  let fixedLength := (fields.map fun f => if variableSize f.2.1 then bytesPerLengthOffset else getFixedSize f.2.1).sum
  let variableResults ← (cells.filter fun c => variableSize c.2.2.1).mapM fun c =>
    (c.2.2.2 c.1).map (Error.addTrace · c.2.1)
  match flattenResults variableResults with
  | .error e => pure (.error e)
  | .ok variableParts =>
    match checkLength fixedLength (variableParts.map List.length).sum with
    | .error e => pure (.error e)
    | .ok () => do
      let fixedResults ← encodeFixedParts cells (calculateOffsets fixedLength variableParts)
      pure ((flattenResults fixedResults).map fun fixedParts => fixedParts.flatten ++ variableParts.flatten)

mutual
/-- `Encode.encode/2`. -/
def encode : Value → Schema → Option (Except Error (List UInt8))
  | .int value, .int size => some (.ok (encodeInt value size))
  | .bool b, .bool => some (.ok (encodeBool b))
  | .binary value, .byteList _ => some (.ok value)
  | .binary value, .byteVector _ => some (.ok value)
  | .list list, .list inner size =>
    if variableSize inner then encodeVariableSizeList (fun v => encode v inner) list inner size
    else encodeFixedSizeList (fun v => encode v inner) list inner size
  | .list vector, .vector inner size =>
    if variableSize inner then encodeVariableSizeList (fun v => encode v inner) vector inner size
    else encodeFixedSizeList (fun v => encode v inner) vector inner size
  | .bitstring value, .bitlist maxSize => some (encodeBitlist value maxSize)
  -- a binary is a bitstring too, and an integer is taken as `:binary.encode_unsigned/1` of it
  | .binary value, .bitlist maxSize => some (encodeBitlist (bytesToBits value) maxSize)
  | .int value, .bitlist maxSize => some (encodeBitlist (bytesToBits (encodeUnsigned value)) maxSize)
  | .bitstring value, .bitvector size => some (encodeBitvector value size)
  | .binary value, .bitvector size => some (encodeBitvector (bytesToBits value) size)
  | .container values, .container _ fields => encodeContainer values (fieldEncoders fields)
  | _, _ => none
  termination_by structural _ s => s
/-- Each field of a module with its schema's encoder. -/
def fieldEncoders : List (String × Schema) → List FieldEncoder
  | [] => []
  | (key, schema) :: rest => (key, schema, fun v => encode v schema) :: fieldEncoders rest
  termination_by structural fields => fields
end

end Encode

end LambdaEthereumConsensus.SszEx
