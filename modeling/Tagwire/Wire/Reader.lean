import Tagwire.Wire.Scalar

/-!
# Reading messages

The fields of a message are read one after the other and merged into what has been read before: a scalar
replaces the one before, an item is added to its list, an entry is set in its map, and a nested message is
merged in turn.  A list of scalars may arrive packed or item by item, whichever way it would be written.
A field that the type does not know is checked for its form and left out.

Messages may nest at most a hundred deep.  The depth that is left is what the reader recurses on, and
within a level every field consumes a byte at least.
-/

set_option autoImplicit false

namespace Tagwire

/-- How many levels of messages may nest within the outermost one: 100. -/
def maxNesting : Nat := 100

/-- Reads fields with `field` until the bytes end, or until the end of a group. -/
def readFields (field : WireKey → FieldValues → Bytes → Option (FieldValues × Bytes))
    (group : Option Nat) : Nat → FieldValues → Bytes → Option (FieldValues × Bytes)
  | _, values, [] => if group.isNone then some (values, []) else none
  | 0, _, _ :: _ => none
  | fuel + 1, values, bytes =>
    match WireKey.decode? bytes with
    | none => none
    | some (key, rest) =>
      match group with
      | none => (field key values rest).bind fun (values, rest) =>
          readFields field group fuel values rest
      | some number =>
        if key.type = .endGroup then if key.number = number then some (values, rest) else none
        else (field key values rest).bind fun (values, rest) =>
          readFields field group fuel values rest

/-- Reads the fields of a group of which nothing is kept. -/
def skipFields (field : WireKey → Bytes → Option Bytes) (number : Nat) : Nat → Bytes → Option Bytes
  | 0, _ => none
  | fuel + 1, bytes =>
    match WireKey.decode? bytes with
    | none => none
    | some (key, rest) =>
      if key.type = .endGroup then if key.number = number then some rest else none
      else (field key rest).bind fun rest => skipFields field number fuel rest

/-- Checks a value of an unknown field, which is not kept; where no depth is left nothing may be skipped. -/
def skipValue : Nat → WireKey → Bytes → Option Bytes
  | 0, _, _ => none
  | depth + 1, key, bytes =>
    match key.type with
    | .varint => (Varint.decode? bytes).map Prod.snd
    | .fixed64 => (splitBytes? 8 bytes).map Prod.snd
    | .fixed32 => (splitBytes? 4 bytes).map Prod.snd
    | .lengthDelimited => (readLengthPrefixed? bytes).map Prod.snd
    | .startGroup => skipFields (skipValue depth) key.number bytes.length bytes
    | .endGroup => none

namespace Schema

/-- How a nested message is read: from its type, the group it is, its fields so far and the bytes. -/
abbrev NestedReader : Type :=
  MessageType → Option Nat → FieldValues → Bytes → Option (FieldValues × Bytes)

/-- Reads a single value of the type of a field over its value so far. -/
def readValue (schema : Schema) (nested : NestedReader) (field : MessageField) (type : WireType)
    (current : Option Value) (bytes : Bytes) : Option (Value × Bytes) :=
  match field.type.scalar? with
  | some kind => if type = kind.wireType then kind.decode? bytes else none
  | none => do
    let message ← schema.message? field.type.name
    let values := match current with
      | some (.message values) => values
      | _ => []
    if field.grouped then
      if type = .startGroup then
        let (values, rest) ← nested message (some field.number) values bytes
        return (.message values, rest)
      else none
    else if type = .lengthDelimited then
      let (body, rest) ← readLengthPrefixed? bytes
      let (values, _) ← nested message none values body
      return (.message values, rest)
    else none

/-- Reads the items of a packed list. -/
def readPacked (kind : Scalar) : Nat → Bytes → Option (List Value)
  | _, [] => some []
  | 0, _ :: _ => none
  | fuel + 1, bytes =>
    match kind.decode? bytes with
    | none => none
    | some (item, rest) => (readPacked kind fuel rest).map (item :: ·)

/-- Reads what a field adds to a list: the items of a packed list, or one item. -/
def readItems (schema : Schema) (nested : NestedReader) (field : MessageField) (type : WireType)
    (bytes : Bytes) : Option (List Value × Bytes) :=
  match field.type.scalar?, type, field.type.isPackable with
  | some kind, .lengthDelimited, true => do
    let (body, rest) ← readLengthPrefixed? bytes
    let items ← readPacked kind body.length body
    return (items, rest)
  | _, _, _ => (schema.readValue nested field type none bytes).map fun (item, rest) => ([item], rest)

/-- Reads the key and the value of a map entry, each over its default. -/
def readEntry (schema : Schema) (nested : NestedReader) (depth : Nat)
    (keyField valueField : MessageField) : Nat → Value × Value → Bytes → Option (Value × Value)
  | _, entry, [] => some entry
  | 0, _, _ :: _ => none
  | fuel + 1, (key, value), bytes => do
    let (wireKey, rest) ← WireKey.decode? bytes
    if wireKey.number = 1 then
      let (key, rest) ← schema.readValue nested keyField wireKey.type none rest
      schema.readEntry nested depth keyField valueField fuel (key, value) rest
    else if wireKey.number = 2 then
      let (value, rest) ← schema.readValue nested valueField wireKey.type (some value) rest
      schema.readEntry nested depth keyField valueField fuel (key, value) rest
    else
      let rest ← skipValue depth wireKey rest
      schema.readEntry nested depth keyField valueField fuel (key, value) rest

/-- Reads an entry of a map, which is behind its length however its key says it is delimited. -/
def readMapEntry (schema : Schema) (nested : NestedReader) (depth : Nat) (field : MessageField)
    (bytes : Bytes) : Option ((MapKey × Value) × Bytes) := do
  let entryType ← schema.message? field.type.name
  let keyField ← entryType.field? 1
  let valueField ← entryType.field? 2
  let (body, rest) ← readLengthPrefixed? bytes
  let (key, value) ← schema.readEntry nested depth keyField valueField body.length
    (keyField.default, valueField.default) body
  let key ← MapKey.ofValue? key
  return ((key, value), rest)

/-- Reads a field of a message and merges it into the fields so far: a list grows, a message is read over the
one before, and any other value replaces it. -/
def readField (schema : Schema) (nested : NestedReader) (depth : Nat) (type : MessageType)
    (key : WireKey) (values : FieldValues) (bytes : Bytes) : Option (FieldValues × Bytes) :=
  match type.field? key.number with
  | some field =>
    let current := FieldValues.get? values field.number
    match field.shape with
    | .single =>
      (schema.readValue nested field key.type current bytes).map fun (value, rest) =>
        (type.setField field value values, rest)
    | .list =>
      let items := match current with
        | some (.list items) => items
        | _ => []
      (schema.readItems nested field key.type bytes).map fun (more, rest) =>
        (type.setField field (.list (items ++ more)) values, rest)
    | .map =>
      let entries := match current with
        | some (.map entries) => entries
        | _ => []
      (schema.readMapEntry nested depth field bytes).map fun ((mapKey, value), rest) =>
        (type.setField field (.map (Value.setEntry entries mapKey value)) values, rest)
  | none =>
    match key.type with
    | .startGroup => (nested ⟨"", []⟩ (some key.number) [] bytes).map fun (_, rest) => (values, rest)
    | _ => (skipValue 1 key bytes).map fun rest => (values, rest)

/-- Reads a message over its fields so far, with `depth` levels left for the messages in it, which are refused
at depth 0. -/
def readMessage (schema : Schema) : Nat → NestedReader
  | 0, type, group, values, bytes =>
    readFields (schema.readField (fun _ _ _ _ => none) 0 type) group bytes.length values bytes
  | depth + 1, type, group, values, bytes =>
    readFields (schema.readField (schema.readMessage depth) (depth + 1) type) group bytes.length
      values bytes

/-- The message that bytes write, with at most `maxNesting` levels within it and no byte left over. -/
def decode? (schema : Schema) (type : MessageType) (bytes : Bytes) : Option FieldValues :=
  (schema.readMessage maxNesting type none [] bytes).map Prod.fst

end Schema

end Tagwire
