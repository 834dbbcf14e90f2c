import LambdaEthereumConsensus.Binary.Encoding

/-
  LambdaEthereumConsensus.SszEx.Schema — SszEx's schema language (`SszEx.schema()`), the
  Elixir values a schema describes, the codec's errors, and `SszEx.Utils`.

  A schema is `:bool`, `{:int, bits}`, `{:byte_list, max}`, `{:byte_vector, n}`,
  `{:list, inner, max}`, `{:vector, inner, n}`, `{:bitlist, max}`, `{:bitvector, n}`, or a
  container module, whose `schema/0` lists its fields as `{key, schema}` pairs. A
  container's struct is modelled by its field values in the order of its schema; the
  struct-field check of `validate_schema!` compares the struct's keys with the schema's
  keys, which this model identifies, so it always passes here.

  `Decoded` is what `Decode.decode` can return. Besides `{:ok, value}` and
  `{:error, payload}` it is the four-tuple `{:error, payload, offsets, items_index}` that a
  container whose fixed section fails to decode passes on unchanged. A payload is an
  `%Error{}` or, for a failed container field, `{key, payload}` (`Failure`).

  `Value.wellTyped v s` says that `v` fits `s`: integers in range, lists within their
  maximum, vectors, byte vectors and bitvectors of their exact length, and a container's
  values one per schema field, equal where two fields share a key (a struct has one value
  per key).
-/

namespace LambdaEthereumConsensus.SszEx

/-! ## Schemas and values -/

inductive Schema where
  | bool
  | int (size : Nat)
  | byteList (maxSize : Nat)
  | byteVector (size : Nat)
  | list (inner : Schema) (maxSize : Nat)
  | vector (inner : Schema) (size : Nat)
  | bitlist (maxSize : Nat)
  | bitvector (size : Nat)
  /-- A container module: its name and the `{key, schema}` pairs of its `schema/0`. -/
  | container (name : String) (fields : List (String × Schema))
  deriving Repr

/-- The Elixir terms a schema describes. -/
inductive Value where
  | bool (b : Bool)
  | int (n : Nat)
  /-- A binary: what `byte_list` and `byte_vector` hold. -/
  | binary (bytes : List UInt8)
  /-- A bitstring: what `bitlist` and `bitvector` hold, most significant bit first. -/
  | bitstring (bits : List Bool)
  /-- A list: what `list` and `vector` hold. -/
  | list (elems : List Value)
  /-- A struct, by its field values in the order of its schema. -/
  | container (fields : List Value)
  deriving Repr

mutual
def Value.decEq : (a b : Value) → Decidable (a = b)
  | .bool x, .bool y =>
    if h : x = y then isTrue (h ▸ rfl) else isFalse (fun e => by cases e; exact h rfl)
  | .int x, .int y =>
    if h : x = y then isTrue (h ▸ rfl) else isFalse (fun e => by cases e; exact h rfl)
  | .binary x, .binary y =>
    if h : x = y then isTrue (h ▸ rfl) else isFalse (fun e => by cases e; exact h rfl)
  | .bitstring x, .bitstring y =>
    if h : x = y then isTrue (h ▸ rfl) else isFalse (fun e => by cases e; exact h rfl)
  | .list xs, .list ys =>
    match Value.decEqList xs ys with
    | isTrue h => isTrue (h ▸ rfl)
    | isFalse h => isFalse (fun e => by cases e; exact h rfl)
  | .container xs, .container ys =>
    match Value.decEqList xs ys with
    | isTrue h => isTrue (h ▸ rfl)
    | isFalse h => isFalse (fun e => by cases e; exact h rfl)
  | .bool _, .int _ | .bool _, .binary _ | .bool _, .bitstring _ | .bool _, .list _
  | .bool _, .container _ | .int _, .bool _ | .int _, .binary _ | .int _, .bitstring _
  | .int _, .list _ | .int _, .container _ | .binary _, .bool _ | .binary _, .int _
  | .binary _, .bitstring _ | .binary _, .list _ | .binary _, .container _
  | .bitstring _, .bool _ | .bitstring _, .int _ | .bitstring _, .binary _
  | .bitstring _, .list _ | .bitstring _, .container _ | .list _, .bool _ | .list _, .int _
  | .list _, .binary _ | .list _, .bitstring _ | .list _, .container _
  | .container _, .bool _ | .container _, .int _ | .container _, .binary _
  | .container _, .bitstring _ | .container _, .list _ => isFalse (fun e => by cases e)
def Value.decEqList : (xs ys : List Value) → Decidable (xs = ys)
  | [], [] => isTrue rfl
  | x :: xs, y :: ys =>
    match Value.decEq x y, Value.decEqList xs ys with
    | isTrue h1, isTrue h2 => isTrue (h1 ▸ h2 ▸ rfl)
    | isFalse h1, _ => isFalse (fun e => by cases e; exact h1 rfl)
    | _, isFalse h2 => isFalse (fun e => by cases e; exact h2 rfl)
  | [], _ :: _ | _ :: _, [] => isFalse (fun e => by cases e)
end

instance : DecidableEq Value := Value.decEq

section Induction

variable {P : Schema → Prop} (bool : P .bool) (int : ∀ n, P (.int n))
  (byteList : ∀ n, P (.byteList n)) (byteVector : ∀ n, P (.byteVector n))
  (list : ∀ s n, P s → P (.list s n)) (vector : ∀ s n, P s → P (.vector s n))
  (bitlist : ∀ n, P (.bitlist n)) (bitvector : ∀ n, P (.bitvector n))
  (container : ∀ name fields, (∀ f ∈ fields, P f.2) → P (.container name fields))

include bool int byteList byteVector list vector bitlist bitvector container

/-- Induction over schemas, with the container case holding for every field's schema; a field's
    schema is smaller than its container. -/
theorem Schema.induction : ∀ s, P s
  | .bool => bool
  | .int n => int n
  | .byteList n => byteList n
  | .byteVector n => byteVector n
  | .list s n => list s n (Schema.induction s)
  | .vector s n => vector s n (Schema.induction s)
  | .bitlist n => bitlist n
  | .bitvector n => bitvector n
  | .container name fields =>
    container name fields fun f hf =>
      have : sizeOf f < sizeOf fields := List.sizeOf_lt_of_mem hf
      have : sizeOf f.2 < sizeOf f := by
        obtain ⟨fieldName, schema⟩ := f
        simp only [Prod.mk.sizeOf_spec]
        omega
      Schema.induction f.2
termination_by s => sizeOf s
decreasing_by
  all_goals
    simp only [Schema.container.sizeOf_spec, Schema.list.sizeOf_spec, Schema.vector.sizeOf_spec]
    omega

end Induction

/-! ## Errors -/

/-- `%SszEx.Error{}`: a message and the field keys leading to it, outermost first. -/
structure Error where
  message : String
  stacktrace : List String
  deriving Repr, DecidableEq

/-- An error with an empty trace. -/
def Error.new (message : String) : Error := ⟨message, []⟩

/-- `Error.add_trace/2` on a result: an error gets `key` in front of its trace. -/
def Error.addTrace {α : Type} : Except Error α → String → Except Error α
  | .error e, key => .error { e with stacktrace := key :: e.stacktrace }
  | .ok a, _ => .ok a

/-- What a decoding error carries: an `%Error{}`, or the `{key, payload}` pair that
    `flatten_container_results/1` makes of a failed field's payload. -/
inductive Failure where
  | error (e : Error)
  | field (key : String) (f : Failure)
  deriving Repr, DecidableEq

/-- What `Decode.decode` returns. -/
inductive Decoded where
  | ok (v : Value)
  | error (f : Failure)
  /-- `{:error, payload, offsets, items_index}`: a container's fixed section failed. -/
  | errorOffsets (f : Failure) (offsets : List (Nat × String × Schema)) (itemsIndex : Nat)

/-- An `{:error, %Error{}}` result. -/
def Decoded.fail (message : String) : Decoded := .error (.error (Error.new message))

/-- `Error.add_trace/2` on a decoding result: only an `{:error, %Error{}}` pair is traced. -/
def Decoded.addTrace : Decoded → String → Decoded
  | .error (.error e), key => .error (.error { e with stacktrace := key :: e.stacktrace })
  | d, _ => d

/-- `inspect/1` of a schema, as the codec's messages print it. -/
def Schema.inspect : Schema → String
  | .bool => ":bool"
  | .int size => s!"\x7b:int, {size}\x7d"
  | .byteList size => s!"\x7b:byte_list, {size}\x7d"
  | .byteVector size => s!"\x7b:byte_vector, {size}\x7d"
  | .list inner size => let innerText := inner.inspect; s!"\x7b:list, {innerText}, {size}\x7d"
  | .vector inner size => let innerText := inner.inspect; s!"\x7b:vector, {innerText}, {size}\x7d"
  | .bitlist size => s!"\x7b:bitlist, {size}\x7d"
  | .bitvector size => s!"\x7b:bitvector, {size}\x7d"
  | .container name _ => name

/-! ## `SszEx.Utils` -/

namespace Utils

/-- The uint widths `validate_schema!` admits. -/
def allowedUints : List Nat := [8, 16, 32, 64, 128, 256]

mutual
/-- `validate_schema!/1`: `true` where it returns `:ok`, `false` where it raises. -/
def validateSchema : Schema → Bool
  | .bool => true
  | .int n => allowedUints.contains n
  | .byteList size => 0 < size
  | .byteVector size => 0 < size
  | .list sub size => 0 < size && validateSchema sub
  | .vector sub size => 0 < size && validateSchema sub
  | .bitlist size => 0 < size
  | .bitvector size => 0 < size
  | .container _ fields => validateFields fields
def validateFields : List (String × Schema) → Bool
  | [] => true
  | (_, s) :: rest => validateSchema s && validateFields rest
end

/-- A module's fields pass exactly when each field's schema does. -/
theorem validateFields_eq_true_iff {fields : List (String × Schema)} :
    validateFields fields = true ↔ ∀ f ∈ fields, validateSchema f.2 = true := by
  induction fields with
  | nil => simp [validateFields]
  | cons f fields ih =>
    obtain ⟨key, schema⟩ := f
    simp [validateFields, ih]

mutual
/-- `variable_size?/1`. -/
def variableSize : Schema → Bool
  | .list _ _ => true
  | .bool => false
  | .byteList _ => true
  | .byteVector _ => false
  | .int _ => false
  | .bitlist _ => true
  | .bitvector _ => false
  | .vector inner _ => variableSize inner
  | .container _ fields => anyVariableSize fields
/-- `Enum.any?` of `variable_size?` over a module's fields. -/
def anyVariableSize : List (String × Schema) → Bool
  | [] => false
  | (_, s) :: rest => variableSize s || anyVariableSize rest
end

mutual
/-- `get_fixed_size/1`. It has no clause for lists, byte lists and bitlists, and is never
    called on them; they get `0` here. -/
def getFixedSize : Schema → Nat
  | .bool => 1
  | .int size => size / 8
  | .byteVector size => size
  | .vector inner size => size * getFixedSize inner
  | .bitvector size => (size + 7) / 8
  | .container _ fields => sumFixedSizes fields
  | .list _ _ | .byteList _ | .bitlist _ => 0
/-- The sum of `get_fixed_size` over a module's fields. -/
def sumFixedSizes : List (String × Schema) → Nat
  | [] => 0
  | (_, s) :: rest => getFixedSize s + sumFixedSizes rest
end

/-- `basic_type?/1`. -/
def basicType : Schema → Bool
  | .int _ | .bool => true
  | _ => false

/-- `size_of/1`: a boolean counts `@bytes_per_boolean`, 4 bytes. It has clauses for the
    basic types only and is called on nothing else. -/
def sizeOf : Schema → Nat
  | .bool => 4
  | .int size => size / 8
  | _ => 0

end Utils

/-! ## Well-typed values -/

/-- Values at fields that share a key are equal. -/
def keysAgree (vs : List Value) (fields : List (String × Schema)) : Bool :=
  let pairs := vs.zip (fields.map Prod.fst)
  pairs.all fun p => pairs.all fun q => p.2 != q.2 || p.1 == q.1

mutual
def Value.wellTyped : Value → Schema → Bool
  | .bool _, .bool => true
  | .int n, .int size => Utils.allowedUints.contains size && n < 2 ^ size
  | .binary b, .byteList maxSize => b.length ≤ maxSize
  | .binary b, .byteVector size => b.length == size
  | .list vs, .list inner maxSize => vs.length ≤ maxSize && vs.all (fun v => v.wellTyped inner)
  | .list vs, .vector inner size => vs.length == size && vs.all (fun v => v.wellTyped inner)
  | .bitstring bs, .bitlist maxSize => bs.length ≤ maxSize
  | .bitstring bs, .bitvector size => bs.length == size
  | .container vs, .container _ fields => Value.wellTypedFields vs fields && keysAgree vs fields
  | _, _ => false
  termination_by structural _ s => s
def Value.wellTypedFields : List Value → List (String × Schema) → Bool
  | [], [] => true
  | v :: vs, (_, s) :: fields => v.wellTyped s && Value.wellTypedFields vs fields
  | _, _ => false
  termination_by structural _ fields => fields
end

end LambdaEthereumConsensus.SszEx
